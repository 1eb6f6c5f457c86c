/-
  Rule files one below the other.

  If a line feed and more text are put behind a rule file, then it is cut as before.  Most rules for
  tokens cannot read a line feed, and find the same in front of one as at the end.  Those for blocks can,
  but where one of them finds a block, it ends with the first closing mark.  What opens like a
  block and is none must not occur, since the closing mark could come with the further text; it would
  have been read as a symbol.

  Main statement: `result_readRules_append`.
-/
import GuardedGrammar.Proofs.Cutting
import GuardedGrammar.Proofs.FurtherText
import GuardedGrammar.Proofs.RuleFile
import GuardedGrammar.Proofs.RuleSpelling

namespace GuardedGrammar

/-! ## Cutting in front of more text -/

section

variable {τ : Type} {rules : List (TokenRule τ)}

/-- All matches of a cutting, in order. -/
def Lexing.allMatches : Lexing τ → List Matched
  | .finished _ => []
  | .stuck _ _ => []
  | .step m _ next => m :: next.allMatches

/-- What wins depends on what is found only. -/
theorem IsLongest.congr {text other : List Char} {i : Nat} {rule : TokenRule τ} {m : Match}
    (h : IsLongest rules text i rule m)
    (hsame : ∀ rule ∈ rules, rule.find? other = rule.find? text) :
    IsLongest rules other i rule m where
  listed := h.listed
  found := (hsame rule (List.mem_of_getElem? h.listed)).trans h.found
  reads := h.reads
  longest j r n hj hn :=
    h.longest j r n hj ((hsame r (List.mem_of_getElem? hj)).symm.trans hn)
  first j r n hj hn :=
    h.first j r n hj ((hsame r (List.mem_of_getElem? hj)).symm.trans hn)

/-- If whatever wins goes on to win when more text follows, then the text is cut off in front of it. -/
theorem cutsOff_of_munches {more : List Char} (P : Nat → List Char → Prop)
    (hwins : ∀ {i rule m rest}, IsLongest rules (m.text ++ rest) i rule m → P i m.text →
      IsLongest rules (m.text ++ (rest ++ more)) i rule m)
    {place : Location} {text : List Char} {l : Lexing τ} (hmunches : Munches rules place text l)
    (hall : ∀ x ∈ l.allMatches, P x.rule x.text) {dropped : List Matched} {values : List τ}
    (h : (l.tokensFrom dropped).values? = some values) : CutsOff rules text more values := by
  induction hmunches generalizing dropped values with
  | finished =>
    obtain rfl := Option.some.inj h
    exact .nil
  | stuck => exact nomatch h
  | @step _ _ _ rule m _ hlongest _ ih =>
    -- the first match wins with more behind it, and for the others there is the induction
    obtain ⟨hfirst, hothers⟩ := List.forall_mem_cons.1 hall
    have hlongest := hwins hlongest hfirst
    cases hproduce : rule.produce m with
    | none =>
      rw [hproduce] at h
      have hcuts := CutsOff.step hlongest (ih hothers h)
      rwa [hproduce] at hcuts
    | some t =>
      rw [hproduce] at h
      obtain ⟨others, hvalues, rfl⟩ := Option.map_eq_some_iff.1 h
      have hcuts := CutsOff.step hlongest (ih hothers hvalues)
      rwa [hproduce] at hcuts

end

namespace Pattern

/-- A pattern that begins with a character of a class finds nothing before another one. -/
theorem contains_of_firstMatch? {k : CharClass} {p : Pattern} (hp : OpensWith k p)
    {text : List Char} {m : Match} (h : p.firstMatch? text = some m) {c : Char}
    (hc : text.head? = some c) : k.contains c = true := by
  obtain ⟨d, hd, hk⟩ := contains_of_opensWith hp h
  exact Option.some.inj (hc.symm.trans hd) ▸ hk

end Pattern

namespace RuleText

/-! ## Tokens of rules in front of a line feed -/

/-- The place of the rule for symbols in the list. -/
def symbolRule : Nat := 5

example : ruleTokens[symbolRule]? = some (.ofPattern symbolPattern symbolOf?) := rfl

/-- It is not a match of the rule for symbols that opens like a guard or an action. -/
def IsNoBlockLike (number : Nat) (text : List Char) : Prop :=
  number = symbolRule → ∀ c ∈ text.head?, c ≠ '[' ∧ c ≠ '\x7b'

section

variable {text more : List Char} {i : Nat} {rule : TokenRule RuleToken} {m : Match}

theorem readsOnly_arrow_no_feed : (Pattern.word "->".toList).ReadsOnly (· ≠ '\n') :=
  Pattern.readsOnly_word (by decide)

theorem readsOnly_symbolPattern_no_feed : symbolPattern.ReadsOnly (· ≠ '\n') := by
  refine readsOnly_symbolPattern.imp fun c hc => ?_
  rintro rfl
  exact hc (by decide)

/-- What wins where a text opens like a block is the block. -/
theorem firstMatch?_enclosed_of_head? (hwins : IsLongest ruleTokens text i rule m)
    (hsymbol : IsNoBlockLike i m.text) {opening closing : Char}
    (hmarks : opening = '[' ∧ closing = ']' ∨ opening = '\x7b' ∧ closing = '\x7d')
    (hhead : text.head? = some opening) :
    (enclosed opening closing).firstMatch? text = some m := by
  obtain ⟨listed, found, reads, -, -⟩ := hwins
  have hblank : CharClass.blank.contains opening ≠ true := by
    rw [CharClass.contains_blank]
    rcases hmarks with ⟨rfl, -⟩ | ⟨rfl, -⟩ <;> decide
  have honly (c : Char) (hc : c ≠ '[' ∧ c ≠ '\x7b') : (CharClass.only c).contains opening ≠ true := by
    rw [ne_eq, CharClass.contains_only]
    rcases hmarks with ⟨rfl, -⟩ | ⟨rfl, -⟩
    · exact hc.1.symm
    · exact hc.2.symm
  -- one rule after the other: blocks of the other kind, the arrow, line feeds and blanks open
  -- differently, and a symbol that opens so has been excluded
  match i with
  | 0 =>
    obtain rfl := Option.some.inj listed
    exact absurd (Pattern.contains_of_firstMatch? .seq found hhead) (honly '-' (by decide))
  | 1 =>
    obtain rfl := Option.some.inj listed
    rcases hmarks with ⟨rfl, rfl⟩ | ⟨rfl, rfl⟩
    · exact found
    · exact absurd (Pattern.contains_of_firstMatch? .seq found hhead) (by decide)
  | 2 =>
    obtain rfl := Option.some.inj listed
    rcases hmarks with ⟨rfl, rfl⟩ | ⟨rfl, rfl⟩
    · exact absurd (Pattern.contains_of_firstMatch? .seq found hhead) (by decide)
    · exact found
  | 3 =>
    obtain rfl := Option.some.inj listed
    exact absurd (Pattern.contains_of_firstMatch? .one found hhead) (honly '\n' (by decide))
  | 4 =>
    obtain rfl := Option.some.inj listed
    exact absurd (Pattern.contains_of_firstMatch? .one found hhead) hblank
  | 5 =>
    obtain rfl := Option.some.inj listed
    obtain ⟨rest, rfl⟩ := Pattern.isPrefix_of_firstMatch? found
    rw [List.head?_append_of_ne_nil _ reads] at hhead
    have hother := hsymbol rfl opening hhead
    rcases hmarks with ⟨rfl, -⟩ | ⟨rfl, -⟩
    · exact absurd rfl hother.1
    · exact absurd rfl hother.2
  | _ + 6 => exact nomatch listed

/-- A block that is found ends with the first closing mark, whatever follows. -/
theorem firstMatch?_enclosed_append (hwins : IsLongest ruleTokens text i rule m)
    (hsymbol : IsNoBlockLike i m.text) {opening closing : Char}
    (hmarks : opening = '[' ∧ closing = ']' ∨ opening = '\x7b' ∧ closing = '\x7d')
    (htext : text ≠ []) (more : List Char) :
    (enclosed opening closing).firstMatch? (text ++ more) =
      (enclosed opening closing).firstMatch? text := by
  by_cases hhead : text.head? = some opening
  · have hfound := firstMatch?_enclosed_of_head? hwins hsymbol hmarks hhead
    obtain ⟨u, hu, rfl⟩ := exists_of_firstMatch?_enclosed hfound
    obtain ⟨rest, rfl⟩ := Pattern.isPrefix_of_firstMatch? hfound
    rw [hfound, List.append_assoc]
    exact firstMatch?_enclosed opening hu (rest ++ more)
  · -- where no block opens, none is found with or without more text
    have hnone (rest : List Char) : (enclosed opening closing).firstMatch? (text ++ rest) = none :=
      Option.eq_none_iff_forall_ne_some.2 fun n => enclosed_not_found htext hhead closing n
    rw [hnone more, ← hnone [], List.append_nil]

/-- In front of a line feed, the same wins as at the end. -/
theorem isLongest_before_lineFeed (hwins : IsLongest ruleTokens text i rule m)
    (hsymbol : IsNoBlockLike i m.text) (more : List Char) :
    IsLongest ruleTokens (text ++ '\n' :: more) i rule m := by
  have htext : text ≠ [] := by
    obtain ⟨rest, rfl⟩ := isTied_of_mem_ruleTokens rule (List.mem_of_getElem? hwins.listed) text m
      hwins.found
    exact List.append_ne_nil_of_left_ne_nil hwins.reads rest
  refine hwins.congr fun other hother => ?_
  simp only [ruleTokens, List.mem_cons, List.not_mem_nil, or_false] at hother
  -- the arrow, guards, actions, line feeds, blanks, and symbols
  rcases hother with rfl | rfl | rfl | rfl | rfl | rfl
  all_goals rw [TokenRule.find?_ofPattern, TokenRule.find?_ofPattern]
  · exact Pattern.firstMatch?_append_cons rfl readsOnly_arrow_no_feed text
  · exact firstMatch?_enclosed_append hwins hsymbol (.inl ⟨rfl, rfl⟩) htext _
  · exact firstMatch?_enclosed_append hwins hsymbol (.inr ⟨rfl, rfl⟩) htext _
  · exact Pattern.firstMatch?_one_append _ htext _
  · exact Pattern.firstMatch?_one_append _ htext _
  · exact Pattern.firstMatch?_append_cons rfl readsOnly_symbolPattern_no_feed text

/-- A text that can be cut to its end is cut in the same way in front of a line feed, unless a
symbol in it opens like a block. -/
theorem cutsOff_before_lineFeed {values : List RuleToken}
    (hvalues : (Tokens.ofText ruleTokens text).values? = some values)
    (hsymbols : ∀ x ∈ (lex ruleTokens text).allMatches, IsNoBlockLike x.rule x.text)
    (more : List Char) : CutsOff ruleTokens text ('\n' :: more) values := by
  refine cutsOff_of_munches IsNoBlockLike (fun hwins hsymbol => ?_)
    (munches_lexFrom isTied_of_mem_ruleTokens {} text) hsymbols hvalues
  rw [← List.append_assoc]
  exact isLongest_before_lineFeed hwins hsymbol more

end

/-! ## Rule files -/

/-- A line end behind the last rule of a file may come with the next file. -/
theorem IsRuleFile.append {ra rb : List Rule} {ta tb : List RuleToken} (ha : IsRuleFile ra ta)
    (hb : IsRuleFile rb tb) : IsRuleFile (ra ++ rb) (ta ++ .lineEnd :: tb) := by
  induction ha with
  | done => exact .lineEnd hb
  | lineEnd _ ih => exact .lineEnd ih
  | rule hline hend _ ih =>
    rw [List.append_assoc]
    refine .rule hline ?_ ih
    rcases hend with rfl | ⟨rest, rfl⟩
    · exact .inr ⟨tb, rfl⟩
    · exact .inr ⟨rest ++ .lineEnd :: tb, rfl⟩

/-- Two texts of rules, one below the other, are read as the rules of the one and then those of the
other, unless there is a symbol in the first that opens like a block. -/
theorem result_readRules_append (a b : List Char) (ra rb : List Rule)
    (ha : (readRules a).result = .ok ra) (hb : (readRules b).result = .ok rb)
    (hsymbols : ∀ x ∈ (lex ruleTokens a).allMatches, x.rule = symbolRule →
      ∀ c ∈ x.text.head?, c ≠ '[' ∧ c ≠ '\x7b') :
    (readRules (a ++ '\n' :: b)).result = .ok (ra ++ rb) := by
  obtain ⟨ta, hta, hfa⟩ := exists_isRuleFile_of_readRules ha
  obtain ⟨tb, htb, hfb⟩ := exists_isRuleFile_of_readRules hb
  have hcuts := (cutsOff_before_lineFeed hta hsymbols b).cutsInto
    (cutsInto_lineEnd ((cutsInto_iff isTied_of_mem_ruleTokens).2 htb))
  exact result_readRules_of_isRuleFile (hcuts.values?_ofText isTied_of_mem_ruleTokens)
    (hfa.append hfb)

/-- The first text ends with a blank guard that goes over two lines, and the rule of the second has an
empty right-hand side. -/
theorem result_readRules_append_pair :
    (readRules ("S -> a [\n]".toList ++ '\n' :: "\nT ->".toList)).result =
      .ok ([⟨⟨"S", none⟩, [⟨"a", none⟩], none, none⟩] ++ [⟨⟨"T", none⟩, [], none, none⟩]) := by
  have hs : (Tokens.ofText ruleTokens "S -> a [\n]".toList).values? =
      some [.symbol ⟨"S", none⟩, .arrow, .symbol ⟨"a", none⟩, .guardText ['\n']] := by decide +kernel
  have ht : (Tokens.ofText ruleTokens "\nT ->".toList).values? =
      some [.lineEnd, .symbol ⟨"T", none⟩, .arrow] := by decide +kernel
  have hfirst : IsRuleLine ⟨⟨"S", none⟩, [⟨"a", none⟩], none, none⟩
      [.symbol ⟨"S", none⟩, .arrow, .symbol ⟨"a", none⟩, .guardText ['\n']] :=
    ⟨[.guardText ['\n']], [], .blank rfl, .absent, rfl⟩
  have hsecond : IsRuleLine ⟨⟨"T", none⟩, [], none, none⟩ [.symbol ⟨"T", none⟩, .arrow] :=
    ⟨[], [], .absent, .absent, rfl⟩
  have hfile := IsRuleFile.rule hsecond (.inl rfl) .done
  exact result_readRules_append _ _ _ _
    (result_readRules_of_isRuleFile hs (IsRuleFile.rule hfirst (.inl rfl) .done))
    (result_readRules_of_isRuleFile ht (.lineEnd hfile)) (by decide +kernel)

end RuleText

end GuardedGrammar
