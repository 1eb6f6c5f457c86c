/-
  Words of instructions, written and read again.

  The words are written one behind the other, with blanks in between; how a word is spelt tells which
  terminal it is (`IsSpelt`).  A value may look like anything that has no blanks in it, like an equals
  sign or another operand, and all the same the word is read as what it was written for: no two rules
  begin with the same character (`eq_ruleAt_of_find?`), so where a word begins only its own rule finds
  something, and a value is read up to the next blank.

  What a text is cut into is all there is to say about asking for its tokens, whether they are asked for
  at once (`CutsInto.items_ofText`) or one after the other (`Lexing.answer_eq`).

  Main statement: `terminals_of_isWritten`.
-/
import GuardedGrammar.Instruction
import GuardedGrammar.Proofs.ClauseSpelling
import GuardedGrammar.Proofs.Cutting
import Mathlib.Data.List.GetD

namespace GuardedGrammar

/-! ## Asking for what a text is cut into -/

section

variable {τ : Type} {rules : List (TokenRule τ)} {u rest : List Char} {values : List τ}

theorem lexFrom_nil (rules : List (TokenRule τ)) (place : Location) :
    lexFrom rules place [] = .finished place := by
  rw [lexFrom, dif_pos rfl]

/-- Asking for all tokens gives those of the beginning that is cut off, and then those of the rest. What
has been dropped before does not matter. -/
theorem CutsOff.items_tokensFrom (htied : ∀ rule ∈ rules, rule.IsTied) (h : CutsOff rules u rest values)
    (endToken : τ) (place : Location) (dropped : List Matched) : ∃ behind,
      ((lexFrom rules place (u ++ rest)).tokensFrom dropped).items endToken = values.map .ok ++
        ((lexFrom rules (place.advanceOver u) rest).tokensFrom behind).items endToken := by
  induction h generalizing place dropped with
  | nil => exact ⟨dropped, rfl⟩
  | @step _ rule m _ _ _ hwins _ ih =>
    rw [List.append_assoc, lexFrom_append htied hwins, Location.advanceOver_append]
    cases rule.produce m with
    | none => exact ih _ _
    | some t =>
      obtain ⟨behind, hbehind⟩ := ih (place.advanceOver m.text) []
      exact ⟨behind, congrArg (Except.ok t :: ·) hbehind⟩

/-- A text that is cut to its end gives its tokens and the end token. -/
theorem CutsInto.items_ofText (htied : ∀ rule ∈ rules, rule.IsTied) (h : CutsInto rules u values)
    (endToken : τ) : (Tokens.ofText rules u).items endToken = values.map .ok ++ [.ok endToken] := by
  obtain ⟨behind, hbehind⟩ := h.cutsOff.items_tokensFrom htied endToken {} []
  rw [List.append_nil, lexFrom_nil] at hbehind
  exact hbehind

/-- There is always something to be given, if only the end or a failure. -/
theorem Tokens.items_ne_nil (endToken : τ) (tokens : Tokens τ) : tokens.items endToken ≠ [] := by
  cases tokens <;> exact List.cons_ne_nil _ _

/-- The answers are the items, the last of which is given again and again. -/
theorem Lexing.answer_eq (endToken : τ) (l : Lexing τ) (dropped : List Matched) (n : Nat) :
    some (l.answer endToken n) = ((l.tokensFrom dropped).items endToken)[n]?.or
      ((l.tokensFrom dropped).items endToken).getLast? := by
  -- a match without a token is passed over, and one with a token is the next item
  induction l generalizing dropped n with
  | finished place => cases n <;> rfl
  | stuck error rest => cases n <;> rfl
  | step m token next ih =>
    cases token with
    | none => exact ih _ n
    | some t =>
      cases n with
      | zero => rfl
      | succ n =>
        show _ = (Except.ok t :: (next.tokensFrom []).items endToken)[n + 1]?.or
          (Except.ok t :: (next.tokensFrom []).items endToken).getLast?
        rw [List.getElem?_cons_succ, List.getLast?_cons_of_ne_nil (Tokens.items_ne_nil _ _)]
        exact ih [] n

/-- The last entry is given again when the list has been gone through. -/
theorem getElem?_or_getLast?_concat {α : Type} (l : List α) (a : α) (n : Nat) :
    (l ++ [a])[n]?.or (l ++ [a]).getLast? = some (l.getD n a) := by
  rw [List.getLast?_concat, List.getD_eq_getElem?_getD]
  by_cases hn : n < l.length
  · rw [List.getElem?_append_left hn, List.getElem?_eq_getElem hn]
    rfl
  · have hend : l[n]? = none := List.getElem?_eq_none (by omega)
    rw [hend, List.getElem?_append_right (by omega)]
    cases n - l.length <;> rfl

/-- Asking for one token after the other gives the tokens, and then the end token for ever. -/
theorem CutsInto.answer (htied : ∀ rule ∈ rules, rule.IsTied) (h : CutsInto rules u values)
    (endToken : τ) (n : Nat) :
    (lex rules u).answer endToken n = .ok (values.getD n endToken) := by
  have hanswer := (lex rules u).answer_eq endToken [] n
  have hitems : ((lex rules u).tokensFrom []).items endToken = values.map .ok ++ [.ok endToken] :=
    h.items_ofText htied endToken
  rw [hitems, getElem?_or_getLast?_concat, List.getD_map] at hanswer
  exact Option.some.inj hanswer

/-- The same for a reader of the text as an endless sequence. -/
theorem CutsInto.result_items (htied : ∀ rule ∈ rules, rule.IsTied) (h : CutsInto rules u values)
    (endToken : τ) : ∃ t, (Tokenizer.start rules endToken u).result = some (.ok t) ∧
      ∀ n, ((TokenStream.mk (Tokenizer.start rules endToken u).tokenizer false).items n).result =
        some (.ok (values.getD n endToken)) := by
  have hfirst := (Tokenizer.result_calls htied endToken u 0).1
  rw [h.answer htied] at hfirst
  refine ⟨_, hfirst, fun n => ?_⟩
  rw [TokenStream.result_items htied hfirst, h.answer htied]

end

namespace Instruction

theorem isTied_of_mem_words : ∀ rule ∈ words, rule.IsTied := by
  simp [words, TokenRule.isTied_ofPattern]

/-- What asking for the terminals of a text gives: the items, unless the first is a failure. -/
theorem result_terminals (text : List Char) : (terminals text).result =
    match (Tokens.ofText words text).items endTerminal with
    | .error e :: _ => .error e
    | items => .ok items := by
  have hbind : (terminals text).result = (Tokens.ofText words text).enter.result >>= fun _ =>
      .ok ((Tokens.ofText words text).items endTerminal) :=
    Traced.result_bind _ _
  rw [hbind]
  cases Tokens.ofText words text <;> rfl

/-- The terminals of a text that is cut to its end. -/
theorem result_terminals_of_cutsInto {text : List Char} {ts : List Terminal}
    (h : CutsInto words text ts) :
    (terminals text).result = .ok (ts.map .ok ++ [.ok endTerminal]) := by
  rw [result_terminals, h.items_ofText isTied_of_mem_words]
  cases ts <;> rfl

/-- Read as a source, it gives its terminals, and then the end marker for ever. -/
theorem result_source_of_cutsInto {text : List Char} {ts : List Terminal}
    (h : CutsInto words text ts) : ∃ src : Source, (source text).result = .ok src ∧
      ∀ i, (src i).item = some (.ok (ts.getD i endTerminal)) := by
  -- a text that is cut to its end can be entered
  have henter : (Tokens.ofText words text).enter.result = .ok () := by
    cases henter : (Tokens.ofText words text).enter.result with
    | ok => rfl
    | error e =>
      obtain ⟨seen, hstuck⟩ := (Tokens.result_enter _ e).1 henter
      have hvalues := h.values?_ofText isTied_of_mem_words
      rw [hstuck] at hvalues
      exact nomatch hvalues
  refine ⟨_, (Traced.result_bind_eq_ok_iff _ _ _).2 ⟨(), henter, rfl⟩, fun i => ?_⟩
  rw [sourceOf, h.items_ofText isTied_of_mem_words, getElem?_or_getLast?_concat, List.getD_map]
  rfl

/-! ## How words are spelt -/

/-- A word and the terminal that it is. The value of an operand is not empty and has no blanks. -/
inductive IsSpelt : Terminal → List Char → Prop
  | plus : IsSpelt { name := "+" } ['+']
  | equals : IsSpelt { name := "=" } ['=']
  | indirect : IsSpelt { name := "ind" } "ind".toList
  | constant {value : String} (h : IsWord [] value) :
    IsSpelt (operand "C" value.toList) ('C' :: value.toList)
  | register {value : String} (h : IsWord [] value) :
    IsSpelt (operand "register" value.toList) ('R' :: value.toList)
  | memory {value : String} (h : IsWord [] value) :
    IsSpelt (operand "memory" value.toList) ('M' :: value.toList)

/-- A text that is written for a row of terminals: their words, with blanks between any two of them, and
with or without blanks before the first and behind the last. -/
inductive IsWritten : List Terminal → List Char → Prop
  | nil : IsWritten [] []
  | blank {c : Char} {ts : List Terminal} {text : List Char} (hc : Text.isBlank c = true)
    (h : IsWritten ts text) : IsWritten ts (c :: text)
  | word {t : Terminal} {ts : List Terminal} {u rest : List Char} (hword : IsSpelt t u)
    (hrest : RuleText.AtGap rest) (h : IsWritten ts rest) : IsWritten (t :: ts) (u ++ rest)

/-! ## What the rules find -/

section

open RuleText (IsGap AtGap)

variable {u rest : List Char} {ts : List Terminal}

/-! All characters of a word are visible, and what is visible is no gap. -/

theorem not_isGap_of_visible (c : Char) (h : CharClass.visible.contains c = true) : ¬IsGap c := by
  intro hgap
  rw [CharClass.visible, CharClass.contains_complement, CharClass.contains_blank, hgap] at h
  exact nomatch h

theorem contains_visible {excluded : List Char} {value : String} (h : IsWord excluded value) :
    ∀ c ∈ value.toList, CharClass.visible.contains c = true := by
  intro c hc
  rw [CharClass.visible, CharClass.contains_complement, CharClass.contains_blank, (h.2 c hc).1]
  rfl

/-- An operand reads no gap. -/
theorem readsOnly_operandPattern {letter : Char} (hletter : ¬IsGap letter) :
    (operandPattern letter).ReadsOnly fun c => ¬IsGap c :=
  ⟨Pattern.readsOnly_char hletter, not_isGap_of_visible⟩

/-- An operand is found up to the gap behind it. -/
theorem firstMatch?_operandPattern (letter : Char) {value : String} (hvalue : IsWord [] value)
    (hrest : AtGap rest) :
    (operandPattern letter).firstMatch? (letter :: value.toList ++ rest) =
      some ⟨letter :: value.toList, [(1, value.toList)]⟩ := by
  have hstop : ∀ c ∈ rest.head?, CharClass.visible.contains c = false :=
    RuleText.not_contains_of_atGap hrest not_isGap_of_visible
  have hsearch : Pattern.search (operandPattern letter) ⟨0, letter :: (value.toList ++ rest), []⟩ some =
      some ⟨0 + 1 + value.toList.length, rest, [⟨1, 0 + 1, 0 + 1 + value.toList.length⟩]⟩ := by
    rw [operandPattern, Pattern.search_seq, Pattern.search_char, Pattern.search_group]
    exact Pattern.search_plus_one_run hvalue.toList_ne_nil (contains_visible hvalue) hstop rfl
  have hwhole : Pattern.part (letter :: (value.toList ++ rest)) 0 (0 + 1 + value.toList.length) =
      letter :: value.toList := by
    refine Pattern.part_eq [] _ rest rfl rfl ?_
    rw [List.length_cons]
    omega
  have hgroup : Pattern.part (letter :: (value.toList ++ rest)) (0 + 1)
      (0 + 1 + value.toList.length) = value.toList :=
    Pattern.part_eq [letter] _ rest rfl rfl rfl
  rw [List.cons_append, Pattern.firstMatch?_of_search hsearch, hwhole]
  show some (Match.mk _ [(1, Pattern.part _ (0 + 1) (0 + 1 + value.toList.length))]) = _
  rw [hgroup]

/-- The number of the rule that can find something at a character. -/
def ruleAt : Char → Nat
  | '+' => 0
  | '=' => 1
  | 'i' => 2
  | 'C' => 3
  | 'R' => 5
  | 'M' => 6
  | _ => 4

/-- A blank is what the rule for blanks begins with. -/
theorem ruleAt_of_isBlank {c : Char} (hc : Text.isBlank c = true) : ruleAt c = 4 := by
  unfold ruleAt
  split
  all_goals first
    | rfl
    | exact absurd hc (by decide)

/-- No two rules begin with the same character. -/
theorem eq_ruleAt_of_find? {i : Nat} {rule : TokenRule Terminal} (listed : words[i]? = some rule)
    {text : List Char} {n : Match} (h : rule.find? text = some n) : ∃ c ∈ text.head?, i = ruleAt c := by
  have honly (d : Char) {p : Pattern} (hp : Pattern.OpensWith (.only d) p)
      (h : p.firstMatch? text = some n) : ∃ c ∈ text.head?, ruleAt d = ruleAt c := by
    obtain ⟨c, hc, hcontains⟩ := Pattern.contains_of_opensWith hp h
    rw [CharClass.contains_only] at hcontains
    exact ⟨c, hc, congrArg ruleAt hcontains.symm⟩
  -- rule after rule: it begins with its own sign or letter, or it is the one for blanks
  match i with
  | 0 =>
    obtain rfl := Option.some.inj listed
    exact honly '+' .one h
  | 1 =>
    obtain rfl := Option.some.inj listed
    exact honly '=' .one h
  | 2 =>
    obtain rfl := Option.some.inj listed
    exact honly 'i' .seq h
  | 3 =>
    obtain rfl := Option.some.inj listed
    exact honly 'C' .seq h
  | 4 =>
    obtain rfl := Option.some.inj listed
    obtain ⟨c, hc, hblank⟩ := Pattern.contains_of_opensWith .one h
    rw [CharClass.contains_blank] at hblank
    exact ⟨c, hc, (ruleAt_of_isBlank hblank).symm⟩
  | 5 =>
    obtain rfl := Option.some.inj listed
    exact honly 'R' .seq h
  | 6 =>
    obtain rfl := Option.some.inj listed
    exact honly 'M' .seq h
  | _ + 7 => exact nomatch listed

/-- So a rule that finds something is the only one, and wins. -/
theorem isLongest_of_find? {i : Nat} {rule : TokenRule Terminal} {m : Match} {text : List Char}
    (listed : words[i]? = some rule) (found : rule.find? text = some m) (hne : m.text ≠ []) :
    IsLongest words text i rule m := by
  have hsame {j : Nat} {other : TokenRule Terminal} {n : Match} (hj : words[j]? = some other)
      (hn : other.find? text = some n) : j = i ∧ n = m := by
    obtain ⟨c, hc, rfl⟩ := eq_ruleAt_of_find? listed found
    obtain ⟨d, hd, rfl⟩ := eq_ruleAt_of_find? hj hn
    obtain rfl := Option.some.inj (hc.symm.trans hd)
    obtain rfl := Option.some.inj (listed.symm.trans hj)
    exact ⟨rfl, Option.some.inj (hn.symm.trans found)⟩
  exact {
    listed
    found
    reads := hne
    longest := fun j other n hj hn => Nat.le_of_eq (congrArg (·.text.length) (hsame hj hn).2)
    first := fun j other n hj hn _ => Nat.le_of_eq (hsame hj hn).1.symm }

/-! ## Words in front of a gap -/

/-- At a blank, the rule that drops it wins. -/
theorem isLongest_blank {c : Char} (hc : Text.isBlank c = true) (rest : List Char) :
    IsLongest words (c :: rest) 4 (.ofPattern (.one .blank) fun _ => none) ⟨[c], []⟩ := by
  have hblank : CharClass.blank.contains c = true := (CharClass.contains_blank c).trans hc
  exact isLongest_of_find? rfl (Pattern.firstMatch?_one hblank rest) (List.cons_ne_nil _ _)

/-- What is found where it stands is the first terminal of the text. -/
theorem cutsInto_found {i : Nat} {rule : TokenRule Terminal} {m : Match} {t : Terminal}
    (listed : words[i]? = some rule) (found : rule.find? (u ++ rest) = some m) (htext : m.text = u)
    (hproduce : rule.produce m = some t) (hne : u ≠ []) (h : CutsInto words rest ts) :
    CutsInto words (u ++ rest) (t :: ts) := by
  subst htext
  have hcuts := CutsInto.step (isLongest_of_find? listed found hne) h
  rwa [hproduce] at hcuts

/-- Each of the words is found where it stands, by its own rule. -/
theorem cutsInto_word {t : Terminal} (hword : IsSpelt t u) (hrest : AtGap rest)
    (h : CutsInto words rest ts) : CutsInto words (u ++ rest) (t :: ts) := by
  have hsign (c : Char) : (Pattern.char c).firstMatch? ([c] ++ rest) = some ⟨[c], []⟩ :=
    Pattern.firstMatch?_one ((CharClass.contains_only c c).2 rfl) rest
  cases hword with
  | plus => exact cutsInto_found (i := 0) rfl (hsign '+') rfl rfl (by decide) h
  | equals => exact cutsInto_found (i := 1) rfl (hsign '=') rfl rfl (by decide) h
  | indirect =>
    exact cutsInto_found (i := 2) rfl (Pattern.firstMatch?_word "ind".toList rest) rfl rfl
      (by decide) h
  | constant hvalue =>
    exact cutsInto_found (i := 3) rfl (firstMatch?_operandPattern 'C' hvalue hrest) rfl rfl
      (List.cons_ne_nil _ _) h
  | register hvalue =>
    exact cutsInto_found (i := 5) rfl (firstMatch?_operandPattern 'R' hvalue hrest) rfl rfl
      (List.cons_ne_nil _ _) h
  | memory hvalue =>
    exact cutsInto_found (i := 6) rfl (firstMatch?_operandPattern 'M' hvalue hrest) rfl rfl
      (List.cons_ne_nil _ _) h

/-- By induction on how the text is written. -/
theorem IsWritten.cutsInto {text : List Char} (h : IsWritten ts text) : CutsInto words text ts := by
  induction h with
  | nil => exact .nil
  | @blank c _ _ hc _ ih => exact CutsInto.step (m := ⟨[c], []⟩) (isLongest_blank hc _) ih
  | word hword hrest _ ih => exact cutsInto_word hword hrest ih

end

/-- Terminals that are written as words with blanks between them are read as just these terminals, in
order and with their values, and then the end marker comes for ever: to whoever asks for all of them, to
a parser that takes the text as its source, and to a reader of the text as an endless sequence. -/
theorem terminals_of_isWritten (ts : List Terminal) (text : List Char) (h : IsWritten ts text) :
    (terminals text).result = .ok (ts.map .ok ++ [.ok endTerminal]) ∧
      (∃ src : Source, (source text).result = .ok src ∧
        ∀ i, (src i).item = some (.ok (ts.getD i endTerminal))) ∧
      ∃ t, (Tokenizer.start words endTerminal text).result = some (.ok t) ∧ ∀ n,
        ((TokenStream.mk (Tokenizer.start words endTerminal text).tokenizer false).items n).result =
          some (.ok (ts.getD n endTerminal)) := by
  have hcuts := h.cutsInto
  refine ⟨result_terminals_of_cutsInto hcuts, ?_, ?_⟩
  · exact result_source_of_cutsInto hcuts
  · exact hcuts.result_items isTied_of_mem_words endTerminal

/-- Values that look like other words, and a blank of another script between them. -/
theorem terminals_of_isWritten_lookalikes :
    IsWritten [{ name := "=" }, operand "memory" "+C5".toList, operand "C" "=".toList,
      { name := "ind" }] " =  M+C5\u3000C= ind".toList ∧
    (terminals " =  M+C5\u3000C= ind".toList).result = .ok [.ok { name := "=" },
      .ok (operand "memory" ['+', 'C', '5']), .ok (operand "C" ['=']), .ok { name := "ind" },
      .ok endTerminal] := by
  have hbehind (c : Char) (hc : Text.isBlank c = true) (rest : List Char) :
      RuleText.AtGap (c :: rest) := RuleText.atGap_cons hc rest
  have hind : IsWritten [{ name := "ind" }] ("ind".toList ++ []) :=
    .word .indirect RuleText.atGap_nil .nil
  have hequals : IsWord [] "=" := by decide
  have hconstant := IsWritten.word (.constant hequals) (hbehind ' ' rfl _) (.blank rfl hind)
  have hplus : IsWord [] "+C5" := by decide
  have hmemory := IsWritten.word (.memory hplus) (hbehind '\u3000' rfl _) (.blank rfl hconstant)
  have hall : IsWritten _ " =  M+C5\u3000C= ind".toList :=
    .blank rfl (.word .equals (hbehind ' ' rfl _) (.blank rfl (.blank rfl hmemory)))
  exact ⟨hall, (terminals_of_isWritten _ _ hall).1⟩

end Instruction

end GuardedGrammar
