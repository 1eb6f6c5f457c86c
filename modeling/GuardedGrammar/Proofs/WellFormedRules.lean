/-
  What rules can be read at all.

  Whatever the text is, the rules that are read from it are well formed: names are words without dollar
  signs, indices have nine digits at most, literals stand on one line, and an action has statements.
  The reader checks none of this.  It is so because of the patterns that the tokens are found by, of
  which the groups are read (`wellFormed_of_mem_clauseTokens`, `wellFormed_of_mem_ruleTokens`), and
  because all that is put together from tokens takes them as they are.

  The names that stand for the start symbol and for the end of the input have a dollar sign in them, so
  rules that are read never use one.  What is left to go wrong with them is that there are none, or that
  a state disputes a terminal.

  Main statement: `rules_read_are_wellFormed`.
-/
import GuardedGrammar.GrammarFile
import GuardedGrammar.Proofs.ClauseRefusal
import GuardedGrammar.Proofs.Outcome
import GuardedGrammar.Proofs.RuleFile
import GuardedGrammar.Proofs.RuleSpelling

namespace GuardedGrammar

/-! ## Well-formed rules -/

/-- The name is a word without dollar signs, and the index can be written. -/
structure Symbol.WellFormed (s : Symbol) : Prop where
  name : IsWord ['$'] s.name
  index : ∀ i ∈ s.index, i ≤ greatestIndex

/-- A target is a word, or the number of an index. -/
def Target.WellFormed : Target → Prop
  | .named name => IsWord ['$'] name
  | .numbered index => index ≤ greatestIndex

/-- The target is well-formed, and the name of the attribute is a word. -/
structure AttributeRef.WellFormed (ref : AttributeRef) : Prop where
  target : ref.target.WellFormed
  name : IsWord ['$'] ref.name

/-- Its attribute is well formed, or its text can stand between double quotes on one line. -/
def Expression.WellFormed : Expression → Prop
  | .newRegister => True
  | .literal text => RuleText.IsQuotable text
  | .read ref => ref.WellFormed

/-- Both sides are well-formed. -/
structure Condition.WellFormed (c : Condition) : Prop where
  left : c.left.WellFormed
  right : c.right.WellFormed

/-- All expressions are well-formed, and so is what is assigned to. -/
def Statement.WellFormed : Statement → Prop
  | .emit parts => ∀ e ∈ parts, e.WellFormed
  | .assign destination value => destination.WellFormed ∧ value.WellFormed

/-- All parts are well formed, and an action is not empty. -/
structure Rule.WellFormed (r : Rule) : Prop where
  symbols : ∀ s ∈ r.symbols, s.WellFormed
  condition : ∀ c ∈ r.condition, c.WellFormed
  action : ∀ statements ∈ r.action, statements ≠ [] ∧ ∀ s ∈ statements, s.WellFormed

/-- What is read of a clause is well-formed. -/
def ClauseToken.WellFormed : ClauseToken → Prop
  | .attributeRef ref => ref.WellFormed
  | .literal text => RuleText.IsQuotable text
  | _ => True

/-- What is read of a rule is well-formed. -/
def RuleToken.WellFormed : RuleToken → Prop
  | .symbol s => s.WellFormed
  | _ => True

/-- An expression is as well formed as its token. -/
theorem Expression.wellFormed_of_token {e : Expression} (h : e.token.WellFormed) : e.WellFormed := by
  cases e with
  | newRegister => trivial
  | literal text => exact h
  | read ref => exact h

/-- A well-formed symbol is not one of those that are reserved: these have dollar signs. -/
theorem Symbol.WellFormed.unreserved {s : Symbol} (h : s.WellFormed) :
    s.name ≠ startName ∧ s.name ≠ endName := by
  have hdollar : '$' ∉ s.name.toList := fun hmem => (h.name.2 '$' hmem).2 List.mem_cons_self
  constructor
  · intro he
    rw [he] at hdollar
    exact hdollar (by decide)
  · intro he
    rw [he] at hdollar
    exact hdollar (by decide)

namespace RuleText

/-! ## Tokens -/

/-- What is captured as a name is a word. -/
theorem IsName.isWord {u : List Char} (h : IsName u) : IsWord ['$'] (String.ofList u) := by
  refine ⟨fun he => h.ne_nil (String.ofList_eq_empty_iff.1 he), fun c hc => ?_⟩
  rw [String.toList_ofList] at hc
  obtain ⟨hdollar, hblank⟩ := (CharClass.contains_nameChar c).1 (h.chars c hc)
  exact ⟨hblank, fun hmem => hdollar (List.mem_singleton.1 hmem)⟩

/-- What is captured as an index has a value within the bound. -/
theorem IsIndex.le_greatestIndex {digits : List Char} (h : IsIndex digits) {index : Nat}
    (hread : indexOf? digits = some index) : index ≤ greatestIndex := by
  have hplus : '+' ∉ digits := fun hmem => absurd (h.digits '+' hmem) (by decide)
  have hdigits := isDigit_of_indexOf? hplus hread
  have hne : digits ≠ [] := by
    rintro rfl
    exact nomatch hread
  obtain rfl : Text.valueOf digits = index :=
    Option.some.inj ((indexOf?_of_isDigit hne hdigits h.length_le).symm.trans hread)
  exact Nat.le_of_lt_succ (valueOf_lt_of_length_le hdigits h.length_le)

section

variable {u : List Char} {gs : List (Nat × List Char)}

/-- A symbol that is made from what has been read is well-formed. -/
theorem wellFormed_of_symbolOf? (hfound : IsSymbolText u gs) {t : RuleToken}
    (h : symbolOf? ⟨u, gs⟩ = some t) : t.WellFormed := by
  cases hfound with
  | plain hname =>
    obtain rfl := Option.some.inj h
    exact ⟨hname.isWord, fun _ h => nomatch h⟩
  | indexed hname hdigits =>
    obtain ⟨index, hread, rfl⟩ := Option.map_eq_some_iff.1 h
    refine ⟨hname.isWord, fun i hi => ?_⟩
    rw [← Option.some.inj hi]
    exact hdigits.le_greatestIndex hread

/-- An attribute that is made from what has been read is well-formed. -/
theorem wellFormed_of_attributeOf? (hfound : IsAttributeText u gs) {t : ClauseToken}
    (h : attributeOf? ⟨u, gs⟩ = some t) : t.WellFormed := by
  obtain ⟨target, htarget, rfl⟩ := Option.map_eq_some_iff.1 h
  cases hfound with
  | named hnamed hname =>
    obtain rfl := Option.some.inj htarget
    exact ⟨hnamed.isWord, hname.isWord⟩
  | numbered hdigits hname =>
    obtain ⟨index, hread, rfl⟩ := Option.map_eq_some_iff.1 htarget
    exact ⟨hdigits.le_greatestIndex hread, hname.isWord⟩

end

/-- What stands between quotes can be quoted. -/
theorem isQuotable_of_firstMatch? {text : List Char} {m : Match}
    (h : literalPattern.firstMatch? text = some m) : IsQuotable (String.ofList (m.group 1)) := by
  obtain ⟨u, -, hu, -, rfl⟩ := Pattern.exists_of_firstMatch?_between_marks h
  show IsQuotable (String.ofList u)
  intro c hc
  rw [String.toList_ofList] at hc
  exact (contains_quotable_iff c).1 (hu c hc)

/-- The tokens of guards and statements are well formed, whatever the text. -/
theorem wellFormed_of_mem_clauseTokens {text : List Char} {ts : List ClauseToken}
    (h : CutsInto clauseTokens text ts) : ∀ t ∈ ts, t.WellFormed := by
  refine h.cutsOff.forall_mem fun rule hrule ahead m t hfound hproduce => ?_
  simp only [clauseTokens, List.mem_cons, List.not_mem_nil, or_false] at hrule
  rcases hrule with rfl | rfl | rfl | rfl | rfl | rfl
  · exact wellFormed_of_attributeOf?
      (isAttributeText_of_captures (Pattern.captures_of_firstMatch? hfound)) hproduce
  · obtain rfl := Option.some.inj hproduce
    trivial
  · obtain rfl := Option.some.inj hproduce
    trivial
  · obtain rfl := Option.some.inj hproduce
    exact isQuotable_of_firstMatch? hfound
  · obtain rfl := Option.some.inj hproduce
    trivial
  · cases hproduce

/-- The tokens of rules are well formed, whatever the text. -/
theorem wellFormed_of_mem_ruleTokens {text : List Char} {ts : List RuleToken}
    (h : CutsInto ruleTokens text ts) : ∀ t ∈ ts, t.WellFormed := by
  refine h.cutsOff.forall_mem fun rule hrule ahead m t hfound hproduce => ?_
  simp only [ruleTokens, List.mem_cons, List.not_mem_nil, or_false] at hrule
  rcases hrule with rfl | rfl | rfl | rfl | rfl | rfl
  · obtain rfl := Option.some.inj hproduce
    trivial
  · obtain rfl := Option.some.inj hproduce
    trivial
  · obtain rfl := Option.some.inj hproduce
    trivial
  · obtain rfl := Option.some.inj hproduce
    trivial
  · cases hproduce
  · exact wellFormed_of_symbolOf?
      (isSymbolText_of_captures (Pattern.captures_of_firstMatch? hfound)) hproduce

/-! ## Guards and statements -/

/-! So the guards and the statements that are read are well-formed. -/

theorem wellFormed_of_readCondition {text : List Char} {c : Condition}
    (h : (readCondition text).result = .ok c) : c.WellFormed := by
  rw [result_readCondition_eq_ok_iff, ← cutsInto_iff isTied_of_mem_clauseTokens] at h
  have hall := wellFormed_of_mem_clauseTokens h
  exact ⟨Expression.wellFormed_of_token (hall _ (by simp [Condition.tokens])),
    Expression.wellFormed_of_token (hall _ (by simp [Condition.tokens]))⟩

theorem wellFormed_of_readStatement {text : List Char} {s : Statement}
    (h : (readStatement text).result = .ok s) : s.WellFormed := by
  rw [result_readStatement_eq_ok_iff, ← cutsInto_iff isTied_of_mem_clauseTokens] at h
  have hall := wellFormed_of_mem_clauseTokens h
  cases s with
  | emit parts =>
    intro e he
    exact Expression.wellFormed_of_token
      (hall _ (List.mem_cons_of_mem _ (List.mem_map_of_mem he)))
  | assign destination value =>
    exact ⟨hall (.attributeRef destination) List.mem_cons_self,
      Expression.wellFormed_of_token (hall _ (by simp [Statement.tokens]))⟩

/-- A block that is a guard stands for a well-formed one. -/
theorem IsGuard.wellFormed {c : Option Condition} {guard : List RuleToken} (h : IsGuard c guard) :
    ∀ c' ∈ c, c'.WellFormed := by
  cases h with
  | absent => exact fun _ h => nomatch h
  | blank => exact fun _ h => nomatch h
  | given _ hread =>
    intro c' hc'
    rw [← Option.some.inj hc']
    exact wellFormed_of_readCondition hread

/-- Statements that are read from lines are well-formed. -/
theorem wellFormed_of_lines {lines : List (List Char)} {statements : List Statement}
    (h : List.Forall₂ (fun line s => (readStatement line).result = .ok s) lines statements) :
    ∀ s ∈ statements, s.WellFormed := by
  induction h with
  | nil => exact List.forall_mem_nil _
  | cons hs _ ih => exact List.forall_mem_cons.2 ⟨wellFormed_of_readStatement hs, ih⟩

/-- A block that is an action stands for well-formed statements, one at least. -/
theorem IsAction.wellFormed {a : Option (List Statement)} {action : List RuleToken}
    (h : IsAction a action) : ∀ statements ∈ a, statements ≠ [] ∧ ∀ s ∈ statements, s.WellFormed := by
  cases h with
  | absent => exact fun _ h => nomatch h
  | blank => exact fun _ h => nomatch h
  | given hgiven hread =>
    intro statements hstatements
    rw [← Option.some.inj hstatements]
    exact ⟨hgiven, wellFormed_of_lines hread⟩

/-! ## Rules -/

/-- A line of well-formed tokens stands for a well-formed rule. -/
theorem IsRuleLine.wellFormed {r : Rule} {line : List RuleToken} (h : IsRuleLine r line)
    (hline : ∀ t ∈ line, t.WellFormed) : r.WellFormed := by
  obtain ⟨guard, action, hguard, haction, rfl⟩ := h
  refine ⟨List.forall_mem_cons.2 ⟨?_, fun s hs => ?_⟩, hguard.wellFormed, haction.wellFormed⟩
  · exact hline (.symbol r.lhs) List.mem_cons_self
  · have hmem : RuleToken.symbol s ∈ r.rhs.map .symbol := List.mem_map_of_mem hs
    refine hline (.symbol s) (List.mem_cons_of_mem _ (List.mem_cons_of_mem _ ?_))
    exact List.mem_append_left _ hmem

/-- By induction on the file: each rule is as well formed as the tokens of its line. -/
theorem IsRuleFile.wellFormed {rs : List Rule} {ts : List RuleToken} (h : IsRuleFile rs ts)
    (hts : ∀ t ∈ ts, t.WellFormed) : ∀ r ∈ rs, r.WellFormed := by
  induction h with
  | done => exact List.forall_mem_nil _
  | lineEnd _ ih => exact ih (List.forall_mem_cons.1 hts).2
  | rule hline _ _ ih =>
    obtain ⟨hfirst, hothers⟩ := List.forall_mem_append.1 hts
    exact List.forall_mem_cons.2 ⟨hline.wellFormed hfirst, ih hothers⟩

/-- The rules that are read from a text are well-formed. -/
theorem wellFormed_of_readRules {text : List Char} {rs : List Rule}
    (h : (readRules text).result = .ok rs) : ∀ r ∈ rs, r.WellFormed := by
  obtain ⟨ts, hts, hfile⟩ := exists_isRuleFile_of_readRules h
  rw [← cutsInto_iff isTied_of_mem_ruleTokens] at hts
  exact hfile.wellFormed (wellFormed_of_mem_ruleTokens hts)

/-! ## Grammars -/

/-- No name of well-formed rules is reserved. -/
theorem not_isFirstReserved {rs : List Rule} (h : ∀ r ∈ rs, r.WellFormed) (name : String) :
    ¬Grammar.IsFirstReserved rs name := by
  intro hfirst
  have hnone : Grammar.reserved? rs = none :=
    (Grammar.reserved?_eq_none_iff rs).2 fun r hr s hs => ((h r hr).symbols s hs).unreserved
  rw [(Grammar.reserved?_eq_some_iff rs name).2 hfirst] at hnone
  exact nomatch hnone

/-- If no grammar can be built from well-formed rules, then there are none of them, or there is a dispute
between reading on and a reduction. -/
theorem error_of_build {rs : List Rule} (hrs : ∀ r ∈ rs, r.WellFormed) {e : BuildError}
    (h : (Grammar.build rs).result = .error e) :
    e = .emptyGrammar ∨ ∃ i name c, e = .tableConflict .shiftReduce i name c := by
  have houtcome := Grammar.outcome_build rs
  rw [h] at houtcome
  cases houtcome with
  | empty => exact .inl rfl
  | reserved hname => exact absurd hname (not_isFirstReserved hrs _)
  | disputed => exact .inr ⟨_, _, _, rfl⟩

/-- The rules of a text are refused in two ways only. -/
theorem error_of_ofText {text : List Char} {e : BuildError}
    (h : (Grammar.ofText text).result = .error (.badRules e)) :
    e = .emptyGrammar ∨ ∃ i name c, e = .tableConflict .shiftReduce i name c := by
  unfold Grammar.ofText at h
  rw [Traced.result_bind_eq_error_iff] at h
  rcases h with h | ⟨rs, hread, h⟩
  · obtain ⟨_, -, he⟩ := (Traced.result_mapError_eq_error_iff _ _ _).1 h
    exact nomatch he
  · obtain ⟨e', hbuild, he⟩ := (Traced.result_mapError_eq_error_iff _ _ _).1 h
    obtain rfl := GrammarFileError.badRules.inj he
    rw [Traced.result_mapError_eq_ok_iff] at hread
    exact error_of_build (wellFormed_of_readRules hread) hbuild

/-- The rules of a file are refused in two ways only. -/
theorem error_of_ofFile {content : FileContent} {e : BuildError}
    (h : (Grammar.ofFile content).result = .error (.badRules e)) :
    e = .emptyGrammar ∨ ∃ i name c, e = .tableConflict .shiftReduce i name c := by
  unfold Grammar.ofFile at h
  rw [Traced.result_bind_eq_error_iff] at h
  rcases h with h | ⟨text, -, h⟩
  · obtain ⟨_, -, he⟩ := (Traced.result_mapError_eq_error_iff _ _ _).1 h
    exact nomatch he
  · exact error_of_ofText h

/-- Whatever can be read is well formed.  So of the failures to build a grammar from a file, only two
come about: that there are no rules, and that a state disputes a terminal.  No name is ever reserved, and
neither are the tables inconsistent, nor is there another kind of conflict. -/
theorem rules_read_are_wellFormed :
    (∀ text rs, (readRules text).result = .ok rs → ∀ r ∈ rs, r.WellFormed) ∧
    ∀ content e, (Grammar.ofFile content).result = .error (.badRules e) →
      e = .emptyGrammar ∨ ∃ i name c, e = .tableConflict .shiftReduce i name c :=
  ⟨fun _ _ h => wellFormed_of_readRules h, fun _ _ h => error_of_ofFile h⟩

/-- An even number of the same terminal, with a guard and an action in the middle. -/
def foldedRules : List Rule :=
  [ { lhs := ⟨"S", none⟩, rhs := [⟨"a", none⟩, ⟨"S", none⟩, ⟨"a", none⟩] },
    { lhs := ⟨"S", none⟩
      rhs := []
      condition := some ⟨.read ⟨.named "S", "n"⟩, .literal "b c"⟩
      action := some [.emit [.newRegister]] } ]

/-- A sentence and its mirror image, with a guard, and with an action on lines of its own. -/
def foldedText : String := "S -> a S a\nS -> [S.n = \"b c\"] \x7b\nemit <newReg>\n\x7d"

/-- The text is read as its two rules. -/
theorem result_readRules_foldedText : (readRules foldedText.toList).result = .ok foldedRules := by
  have htokens : (Tokens.ofText ruleTokens foldedText.toList).values? =
      some ([.symbol ⟨"S", none⟩, .arrow, .symbol ⟨"a", none⟩, .symbol ⟨"S", none⟩,
        .symbol ⟨"a", none⟩] ++ .lineEnd :: ([.symbol ⟨"S", none⟩, .arrow,
          .guardText "S.n = \"b c\"".toList, .actionText "\nemit <newReg>\n".toList] ++ [])) := by
    decide +kernel
  -- the tokens are taken apart line by line
  have hfirst : IsRuleLine ⟨⟨"S", none⟩, [⟨"a", none⟩, ⟨"S", none⟩, ⟨"a", none⟩], none, none⟩
      [.symbol ⟨"S", none⟩, .arrow, .symbol ⟨"a", none⟩, .symbol ⟨"S", none⟩, .symbol ⟨"a", none⟩] :=
    ⟨[], [], .absent, .absent, rfl⟩
  have hguard : IsGuard (some ⟨.read ⟨.named "S", "n"⟩, .literal "b c"⟩)
      [.guardText "S.n = \"b c\"".toList] :=
    (result_guardOf_eq_ok_iff _ _).1 (by decide +kernel)
  have haction : IsAction (some [.emit [.newRegister]]) [.actionText "\nemit <newReg>\n".toList] :=
    (result_actionOf_eq_ok_iff _ _).1 (by decide +kernel)
  refine result_readRules_of_isRuleFile htokens (.rule hfirst (.inr ⟨_, rfl⟩) (.lineEnd ?_))
  exact .rule ⟨_, _, hguard, haction, rfl⟩ (.inl rfl) .done

/-- Where the middle is cannot be known, so that a file of these rules is read, but gives no grammar. -/
theorem foldedRules_wellFormed_and_disputed :
    (readRules foldedText.toList).result = .ok foldedRules ∧ (∀ r ∈ foldedRules, r.WellFormed) ∧
    ∃ e, (Grammar.ofFile (.ok foldedText.toUTF8)).result = .error (.badRules e) ∧
      (e = .emptyGrammar ∨ ∃ i name c, e = .tableConflict .shiftReduce i name c) := by
  have hbuild : (Grammar.build foldedRules).result =
      .error (.tableConflict .shiftReduce 0 "a" [.shift 2, .reduce 2]) := by
    decide +kernel
  have hfile : (Grammar.ofFile (.ok foldedText.toUTF8)).result =
      .error (.badRules (.tableConflict .shiftReduce 0 "a" [.shift 2, .reduce 2])) := by
    unfold Grammar.ofFile Grammar.ofText
    simp only [Traced.result_bind_eq_error_iff, Traced.result_mapError_eq_error_iff,
      Traced.result_mapError_eq_ok_iff, Traced.result_ofExcept]
    exact .inr ⟨_, FileContent.text_toUTF8 _, .inr ⟨_, result_readRules_foldedText, _, hbuild, rfl⟩⟩
  obtain ⟨hrules, herrors⟩ := rules_read_are_wellFormed
  exact ⟨result_readRules_foldedText, hrules _ _ result_readRules_foldedText, _, hfile,
    herrors _ _ hfile⟩

end RuleText

end GuardedGrammar
