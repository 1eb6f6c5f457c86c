/-
  Line endings of rule files.

  A rule file may be written with a carriage return before each line feed.  In the file itself a return
  is a blank, and so it is in a guard, which is cut into tokens as a whole; an action is divided into
  lines first, and there the return belongs to the ending of its line.  The tokens of the two files are
  therefore the same but for the texts of their blocks (`ignoresReturns_ruleTokens`), and these are read
  alike (`ReadsAlike`).

  Main statement: `result_readRules_withReturns`.
-/
import GuardedGrammar.Proofs.ClauseRefusal
import GuardedGrammar.Proofs.Returns
import GuardedGrammar.Proofs.RuleFile
import GuardedGrammar.Proofs.RuleSpelling

namespace GuardedGrammar

/-- The token that stands in the text with returns where this one stands in the text. -/
def RuleToken.withReturns : RuleToken → RuleToken
  | .guardText text => .guardText (Text.withReturns text)
  | .actionText text => .actionText (Text.withReturns text)
  | t => t

namespace RuleText

/-! ## Tokens -/

/-- What is no gap ends no line. -/
theorem not_ending_of_not_isGap {c : Char} (h : ¬IsGap c) : c ≠ '\n' ∧ c ≠ '\r' := by
  constructor
  · rintro rfl
    exact h (by decide)
  · rintro rfl
    exact h (by decide)

/-- A rule that does not read gaps. -/
theorem findsAlike_of_not_isGap {τ : Type} {g : τ → τ} {produce : Match → Option τ} {p : Pattern}
    (hend : p.asksForEnd = false) (hp : p.ReadsOnly fun c => ¬IsGap c)
    (hproduce : ∀ m, (produce m).map g = produce m) (text : List Char) :
    FindsAlike g (.ofPattern p produce) text :=
  findsAlike_of_readsOnly hend (hp.imp fun _ hc => not_ending_of_not_isGap hc) hproduce text

/-- There are no line feeds in a literal. -/
theorem findsAlike_literal (text : List Char) : FindsAlike id (.ofPattern literalPattern fun m =>
    some (ClauseToken.literal (String.ofList (m.group 1)))) text := by
  refine findsAlike_between_marks (by decide) (by decide)
    (CharClass.not_contains_noneOf List.mem_cons_self) (fun h => ?_) (fun u hu => ?_) text
  · exact absurd rfl ((contains_quotable_iff '\n').1 h).2
  · have hline : '\n' ∉ u := fun hmem => ((contains_quotable_iff '\n').1 (hu _ hmem)).2 rfl
    rw [Text.withReturns_eq_self hline]
    rfl

/-- Blocks are found alike, and what they hold differs by the returns. -/
theorem findsAlike_block (opening : Char) {closing : Char}
    (hopening : opening ≠ '\n' ∧ opening ≠ '\r') (hclosing : closing ≠ '\n' ∧ closing ≠ '\r')
    {make : List Char → RuleToken} (hmake : ∀ u, make (Text.withReturns u) = (make u).withReturns)
    (text : List Char) :
    FindsAlike RuleToken.withReturns
      (.ofPattern (enclosed opening closing) fun m => some (make (m.group 1))) text := by
  refine findsAlike_between_marks hopening hclosing (CharClass.not_contains_noneOf List.mem_cons_self)
    (fun _ => ?_) (fun u _ => ?_) text
  · rw [CharClass.contains_noneOf, List.mem_singleton]
    exact hclosing.2.symm
  · exact congrArg some (hmake u)

/-- The tokens of clauses are the same with returns, which are dropped like other blanks. -/
theorem ignoresReturns_clauseTokens : IgnoresReturns clauseTokens id := by
  refine ⟨isTied_of_mem_clauseTokens, fun rule hrule c text hc => ?_, ⟨[], rfl, fun rest => ?_⟩,
    fun rest => ?_⟩
  · -- words, attributes and signs read no line end, literals have none, and one character is like
    -- another
    simp only [clauseTokens, List.mem_cons, List.not_mem_nil, or_false] at hrule
    rcases hrule with rfl | rfl | rfl | rfl | rfl | rfl
    · exact findsAlike_of_not_isGap rfl readsOnly_attributePattern (fun _ => congrFun Option.map_id _) _
    · exact findsAlike_of_not_isGap rfl (Pattern.readsOnly_word (by decide)) (fun _ => rfl) _
    · exact findsAlike_of_not_isGap rfl (Pattern.readsOnly_word (by decide)) (fun _ => rfl) _
    · exact findsAlike_literal _
    · exact findsAlike_one hc (fun _ => rfl) text
    · exact findsAlike_one hc (fun _ => rfl) text
  · exact CutsOff.step (m := ⟨['\n'], []⟩) (isLongest_clauseGap (by decide) rest) .nil
  · exact CutsOff.step (m := ⟨['\r'], []⟩) (isLongest_clauseGap (by decide) rest) .nil

/-- The tokens of rule files are the same with returns, but for those that the texts of blocks
have. -/
theorem ignoresReturns_ruleTokens : IgnoresReturns ruleTokens RuleToken.withReturns := by
  have hsymbol (m : Match) : (symbolOf? m).map RuleToken.withReturns = symbolOf? m := by
    cases hs : symbolOf? m with
    | none => rfl
    | some t =>
      obtain ⟨s, rfl⟩ := exists_symbol_of_symbolOf? hs
      rfl
  refine ⟨isTied_of_mem_ruleTokens, fun rule hrule c text hc => ?_,
    ⟨[.lineEnd], rfl, fun rest => ?_⟩, fun rest => ?_⟩
  · -- only blocks can hold line ends, and they hold them as they stand
    simp only [ruleTokens, List.mem_cons, List.not_mem_nil, or_false] at hrule
    rcases hrule with rfl | rfl | rfl | rfl | rfl | rfl
    · exact findsAlike_of_not_isGap rfl readsOnly_arrow (fun _ => rfl) _
    · exact findsAlike_block '[' (by decide) (by decide) (fun _ => rfl) _
    · exact findsAlike_block '\x7b' (by decide) (by decide) (fun _ => rfl) _
    · exact findsAlike_one hc (fun _ => rfl) text
    · exact findsAlike_one hc (fun _ => rfl) text
    · exact findsAlike_of_not_isGap rfl readsOnly_symbolPattern hsymbol _
  · exact CutsOff.step (m := ⟨['\n'], []⟩) (isLongest_lineEnd rest) .nil
  · exact CutsOff.step (m := ⟨['\r'], []⟩) (isLongest_ruleGap (by decide) (by decide) rest) .nil

/-! ## Blocks -/

/-- A guard is read from a block with returns as from one without. -/
theorem result_readCondition_withReturns (text : List Char) (c : Condition) :
    (readCondition (Text.withReturns text)).result = .ok c ↔ (readCondition text).result = .ok c := by
  have halike := ignoresReturns_clauseTokens.cutsAlike text c.tokens
  rw [result_readCondition_eq_ok_iff, result_readCondition_eq_ok_iff,
    ← cutsInto_iff isTied_of_mem_clauseTokens, ← cutsInto_iff isTied_of_mem_clauseTokens, halike]
  simp

/-- So a block is a guard with returns if it is one without. -/
theorem isGuard_withReturns (text : List Char) (c : Option Condition) :
    IsGuard c [.guardText (Text.withReturns text)] ↔ IsGuard c [.guardText text] := by
  have hblank := Text.isBlankText_withReturns text
  constructor
  · intro h
    cases h with
    | blank h => exact .blank (hblank ▸ h)
    | given h hread => exact .given (hblank ▸ h) ((result_readCondition_withReturns text _).1 hread)
  · intro h
    cases h with
    | blank h => exact .blank (hblank.trans h)
    | given h hread =>
      exact .given (hblank.trans h) ((result_readCondition_withReturns text _).2 hread)

/-- An action is what its lines are. -/
theorem isAction_congr {u v : List Char} (h : Text.lines u = Text.lines v)
    (a : Option (List Statement)) : IsAction a [.actionText u] ↔ IsAction a [.actionText v] := by
  rw [← result_actionOf_eq_ok_iff, ← result_actionOf_eq_ok_iff, actionOf, actionOf, statementLines,
    statementLines, h]

/-- The text of a block stands in the text. -/
theorem isInfix_of_mem_tokens {text : List Char} {ts : List RuleToken}
    (h : CutsInto ruleTokens text ts) {t : RuleToken} (ht : t ∈ ts) {u : List Char}
    (hblock : t = .guardText u ∨ t = .actionText u) : u <:+: text := by
  obtain ⟨before, rest, i, rule, m, rfl, hwins, hproduce⟩ := h.exists_of_mem ht
  obtain ⟨hguard, haction⟩ :=
    eq_enclosed_of_produce (List.mem_of_getElem? hwins.listed) hwins.found hproduce u
  rcases hblock with hblock | hblock
  · rw [hguard hblock]
    exact ⟨before ++ ['['], ']' :: rest, by simp⟩
  · rw [haction hblock]
    exact ⟨before ++ ['\x7b'], '\x7d' :: rest, by simp⟩

/-! ## Rule files -/

/-- Tokens that stand for the same guards and actions, or are the same. -/
inductive ReadsAlike : RuleToken → RuleToken → Prop
  | same (t : RuleToken) : ReadsAlike t t
  | guard {u v : List Char} (h : ∀ c, IsGuard c [.guardText u] ↔ IsGuard c [.guardText v]) :
    ReadsAlike (.guardText u) (.guardText v)
  | action {u v : List Char} (h : ∀ a, IsAction a [.actionText u] ↔ IsAction a [.actionText v]) :
    ReadsAlike (.actionText u) (.actionText v)

/-- It does not matter which of the two has the returns. -/
theorem ReadsAlike.symm {t t' : RuleToken} (h : ReadsAlike t t') : ReadsAlike t' t := by
  cases h with
  | same => exact .same t
  | guard h => exact .guard fun c => (h c).symm
  | action h => exact .action fun a => (h a).symm

/-- A token of a text without returns is read like the one in the text with returns. -/
theorem readsAlike_withReturns {t : RuleToken}
    (h : ∀ u, t = .actionText u → '\r' ∉ u) : ReadsAlike t t.withReturns := by
  cases t with
  | guardText u => exact .guard fun c => (isGuard_withReturns u c).symm
  | actionText u => exact .action (isAction_congr (Text.lines_withReturns (h u rfl)).symm)
  | arrow | lineEnd | symbol => exact .same _

section

variable {ts ts' : List RuleToken}

/-- What stands for a row in two parts is in two parts. -/
theorem exists_append_of_forall₂ {α β : Type} {R : α → β → Prop} {xs ys : List α} {zs : List β}
    (h : List.Forall₂ R (xs ++ ys) zs) :
    ∃ us vs, zs = us ++ vs ∧ List.Forall₂ R xs us ∧ List.Forall₂ R ys vs := by
  induction xs generalizing zs with
  | nil => exact ⟨[], zs, rfl, .nil, h⟩
  | cons x xs ih =>
    cases h with
    | cons hfirst hothers =>
      obtain ⟨us, vs, rfl, hus, hvs⟩ := ih hothers
      exact ⟨_ :: us, vs, rfl, .cons hfirst hus, hvs⟩

/-- Symbols are read alike only as themselves. -/
theorem eq_symbols_of_forall₂ {rhs : List Symbol}
    (h : List.Forall₂ ReadsAlike (rhs.map .symbol) ts) : ts = rhs.map .symbol := by
  induction rhs generalizing ts with
  | nil =>
    cases h
    rfl
  | cons s rhs ih =>
    cases h with
    | cons hfirst hothers =>
      cases hfirst
      rw [ih hothers]
      rfl

/-- A guard is one as well with a block that is read alike. -/
theorem IsGuard.of_forall₂ {c : Option Condition} (h : IsGuard c ts)
    (halike : List.Forall₂ ReadsAlike ts ts') : IsGuard c ts' := by
  have hblock {u : List Char} (h : IsGuard c [.guardText u])
      (halike : List.Forall₂ ReadsAlike [.guardText u] ts') : IsGuard c ts' := by
    cases halike with
    | cons hfirst hothers =>
      cases hothers
      cases hfirst with
      | same => exact h
      | guard hsame => exact (hsame c).1 h
  cases h with
  | absent =>
    cases halike
    exact .absent
  | blank hblank => exact hblock (.blank hblank) halike
  | given hgiven hread => exact hblock (.given hgiven hread) halike

/-- So is an action. -/
theorem IsAction.of_forall₂ {a : Option (List Statement)} (h : IsAction a ts)
    (halike : List.Forall₂ ReadsAlike ts ts') : IsAction a ts' := by
  have hblock {u : List Char} (h : IsAction a [.actionText u])
      (halike : List.Forall₂ ReadsAlike [.actionText u] ts') : IsAction a ts' := by
    cases halike with
    | cons hfirst hothers =>
      cases hothers
      cases hfirst with
      | same => exact h
      | action hsame => exact (hsame a).1 h
  cases h with
  | absent =>
    cases halike
    exact .absent
  | blank hblank => exact hblock (.blank hblank) halike
  | given hgiven hread => exact hblock (.given hgiven hread) halike

/-- So is a rule, part by part. -/
theorem IsRuleLine.of_forall₂ {r : Rule} (h : IsRuleLine r ts)
    (halike : List.Forall₂ ReadsAlike ts ts') : IsRuleLine r ts' := by
  obtain ⟨guard, action, hguard, haction, rfl⟩ := h
  cases halike with
  | cons hlhs halike =>
    cases halike with
    | cons harrow halike =>
      cases hlhs
      cases harrow
      obtain ⟨_, _, rfl, hrhs, hblocks⟩ := exists_append_of_forall₂ halike
      obtain ⟨guard', action', rfl, hguard', haction'⟩ := exists_append_of_forall₂ hblocks
      rw [eq_symbols_of_forall₂ hrhs]
      exact ⟨guard', action', hguard.of_forall₂ hguard', haction.of_forall₂ haction', rfl⟩

/-- A line ends where it ends. -/
theorem AtLineEnd.of_forall₂ (h : AtLineEnd ts) (halike : List.Forall₂ ReadsAlike ts ts') :
    AtLineEnd ts' := by
  rcases h with rfl | ⟨rest, rfl⟩
  · cases halike
    exact .inl rfl
  · cases halike with
    | cons hfirst =>
      cases hfirst
      exact .inr ⟨_, rfl⟩

/-- A rule file stays one of the same rules when its tokens are replaced by such as are read alike. -/
theorem IsRuleFile.of_forall₂ {rules : List Rule} (h : IsRuleFile rules ts)
    (halike : List.Forall₂ ReadsAlike ts ts') : IsRuleFile rules ts' := by
  induction h generalizing ts' with
  | done =>
    cases halike
    exact .done
  | lineEnd _ ih =>
    cases halike with
    | cons hfirst hothers =>
      cases hfirst
      exact .lineEnd (ih hothers)
  | rule hline hend _ ih =>
    obtain ⟨_, _, rfl, halikeLine, halikeRest⟩ := exists_append_of_forall₂ halike
    exact .rule (hline.of_forall₂ halikeLine) (hend.of_forall₂ halikeRest) (ih halikeRest)

end

/-- A text of rules without carriage returns is read as the same rules with a carriage return before each
line feed, or in neither form. -/
theorem result_readRules_withReturns (text : List Char) (hreturn : '\r' ∉ text) (rules : List Rule) :
    (readRules (Text.withReturns text)).result = .ok rules ↔ (readRules text).result = .ok rules := by
  have hcuts := ignoresReturns_ruleTokens.cutsAlike text
  have halike {ts : List RuleToken} (hts : CutsInto ruleTokens text ts) :
      ∀ t ∈ ts, ReadsAlike t t.withReturns := by
    intro t ht
    refine readsAlike_withReturns fun u hu hmem => hreturn ?_
    exact (isInfix_of_mem_tokens hts ht (.inr hu)).subset hmem
  -- the tokens of the one text are those of the other, read alike
  constructor
  · intro h
    obtain ⟨_, hvalues, hfile⟩ := exists_isRuleFile_of_readRules h
    obtain ⟨ts, hts, rfl⟩ := (hcuts _).1 ((cutsInto_iff isTied_of_mem_ruleTokens).2 hvalues)
    refine result_readRules_of_isRuleFile (hts.values?_ofText isTied_of_mem_ruleTokens)
      (hfile.of_forall₂ ?_)
    exact List.forall₂_map_left_iff.2 (List.forall₂_same.2 fun t ht => (halike hts t ht).symm)
  · intro h
    obtain ⟨ts, hvalues, hfile⟩ := exists_isRuleFile_of_readRules h
    have hts := (cutsInto_iff isTied_of_mem_ruleTokens).2 hvalues
    have hreturns := (hcuts _).2 ⟨ts, hts, rfl⟩
    refine result_readRules_of_isRuleFile (hreturns.values?_ofText isTied_of_mem_ruleTokens)
      (hfile.of_forall₂ ?_)
    exact List.forall₂_map_right_iff.2 (List.forall₂_same.2 (halike hts))

/-- A rule with a guard that goes over two lines and an action between lines of its own, and another rule
behind an empty line. -/
theorem result_readRules_withReturns_blocks :
    '\r' ∉ "S -> a [x.n\n= \"b\"] \x7b\nemit\n\x7d\n\nT ->".toList ∧
      (readRules (Text.withReturns "S -> a [x.n\n= \"b\"] \x7b\nemit\n\x7d\n\nT ->".toList)).result =
        .ok [⟨⟨"S", none⟩, [⟨"a", none⟩], some ⟨.read ⟨.named "x", "n"⟩, .literal "b"⟩,
          some [.emit []]⟩, ⟨⟨"T", none⟩, [], none, none⟩] := by
  have hreturn : '\r' ∉ "S -> a [x.n\n= \"b\"] \x7b\nemit\n\x7d\n\nT ->".toList := by decide
  have htokens : (Tokens.ofText ruleTokens
      "S -> a [x.n\n= \"b\"] \x7b\nemit\n\x7d\n\nT ->".toList).values? =
        some ([.symbol ⟨"S", none⟩, .arrow, .symbol ⟨"a", none⟩, .guardText "x.n\n= \"b\"".toList,
          .actionText "\nemit\n".toList] ++ [.lineEnd, .lineEnd, .symbol ⟨"T", none⟩, .arrow]) := by
    decide +kernel
  have hguard : IsGuard (some ⟨.read ⟨.named "x", "n"⟩, .literal "b"⟩)
      [.guardText "x.n\n= \"b\"".toList] :=
    (result_guardOf_eq_ok_iff _ _).1 (by decide +kernel)
  have haction : IsAction (some [.emit []]) [.actionText "\nemit\n".toList] :=
    (result_actionOf_eq_ok_iff _ _).1 (by decide +kernel)
  have hsecond : IsRuleLine ⟨⟨"T", none⟩, [], none, none⟩ [.symbol ⟨"T", none⟩, .arrow] :=
    ⟨[], [], .absent, .absent, rfl⟩
  refine ⟨hreturn, (result_readRules_withReturns _ hreturn _).2 ?_⟩
  refine result_readRules_of_isRuleFile htokens ?_
  refine .rule ⟨_, _, hguard, haction, rfl⟩ (.inr ⟨_, rfl⟩) (.lineEnd (.lineEnd ?_))
  exact .rule hsecond (.inl rfl) .done

end RuleText

end GuardedGrammar
