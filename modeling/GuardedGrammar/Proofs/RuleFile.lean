/-
  Which texts are rule files.

  The tokens of a rule file are rules, each at the end of its line, with any number of line ends around
  them (`IsRuleFile`).  The reader looks one token ahead and stops at the first token that does not
  fit, so for each part of a rule there are two lemmas: what has been read is of the form of the part
  (`startsWith_of_heading` and so on), and what is of that form is read, if what follows cannot be part of
  it (`exists_heading` and so on).  They are put together along the recursion of the reader in the one
  direction, and along the derivation of the file in the other.

  Main statement: `result_readRules_eq_ok_iff`.
-/
import Mathlib.Data.List.Forall2
import GuardedGrammar.Proofs.TokenValues
import GuardedGrammar.RuleText.Rules

namespace GuardedGrammar.RuleText

/-! ## The grammar of rule files -/

/-- The tokens that stand for a guard, or for none. -/
inductive IsGuard : Option Condition → List RuleToken → Prop
  | absent : IsGuard none []
  | blank {text : List Char} (hblank : Text.isBlankText text = true) :
    IsGuard none [.guardText text]
  | given {text : List Char} {c : Condition} (hgiven : Text.isBlankText text = false)
      (hread : (readCondition text).result = .ok c) : IsGuard (some c) [.guardText text]

/-- The tokens that stand for an action, or for none. -/
inductive IsAction : Option (List Statement) → List RuleToken → Prop
  | absent : IsAction none []
  | blank {text : List Char} (hblank : ∀ line ∈ Text.lines text, Text.isBlankText line = true) :
    IsAction none [.actionText text]
  | given {text : List Char} {statements : List Statement} (hgiven : statements ≠ [])
      (hread : List.Forall₂ (fun line s => (readStatement line).result = .ok s)
        ((Text.lines text).filter fun line => !Text.isBlankText line) statements) :
    IsAction (some statements) [.actionText text]

/-- The tokens of a rule. -/
def IsRuleLine (r : Rule) (line : List RuleToken) : Prop :=
  ∃ guard action, IsGuard r.condition guard ∧ IsAction r.action action ∧
    line = .symbol r.lhs :: .arrow :: (r.rhs.map .symbol ++ (guard ++ action))

/-- Nothing follows on the line. -/
def AtLineEnd (ts : List RuleToken) : Prop := ts = [] ∨ ∃ rest, ts = .lineEnd :: rest

/-- The tokens of rules with any number of line ends around them, but one at least behind each that
another one follows. -/
inductive IsRuleFile : List Rule → List RuleToken → Prop
  | done : IsRuleFile [] []
  | lineEnd {rules : List Rule} {ts : List RuleToken} (h : IsRuleFile rules ts) :
    IsRuleFile rules (.lineEnd :: ts)
  | rule {r : Rule} {rules : List Rule} {line ts : List RuleToken} (hline : IsRuleLine r line)
      (hend : AtLineEnd ts) (h : IsRuleFile rules ts) : IsRuleFile (r :: rules) (line ++ ts)

/-- Line ends in front do not matter. -/
theorem IsRuleFile.replicate_append {rules : List Rule} {ts : List RuleToken}
    (h : IsRuleFile rules ts) (n : Nat) : IsRuleFile rules (List.replicate n .lineEnd ++ ts) := by
  induction n with
  | zero => exact h
  | succ n ih => exact .lineEnd ih

/-! What comes behind a part of a rule cannot be taken for the part. -/

section

variable {ts : List RuleToken} {t : RuleToken}

/-- A part for a guard begins with the guard, or with what comes behind it. -/
theorem IsGuard.head?_cases {c : Option Condition} {guard : List RuleToken} (h : IsGuard c guard)
    (ht : (guard ++ ts).head? = some t) : (∃ text, t = .guardText text) ∨ ts.head? = some t := by
  cases h with
  | absent => exact .inr ht
  | blank => exact .inl ⟨_, (Option.some.inj ht).symm⟩
  | given => exact .inl ⟨_, (Option.some.inj ht).symm⟩

/-- A part for an action begins with the action, or with what comes behind it. -/
theorem IsAction.head?_cases {a : Option (List Statement)} {action : List RuleToken}
    (h : IsAction a action) (ht : (action ++ ts).head? = some t) :
    (∃ text, t = .actionText text) ∨ ts.head? = some t := by
  cases h with
  | absent => exact .inr ht
  | blank => exact .inl ⟨_, (Option.some.inj ht).symm⟩
  | given => exact .inl ⟨_, (Option.some.inj ht).symm⟩

theorem AtLineEnd.eq_lineEnd (h : AtLineEnd ts) (ht : ts.head? = some t) : t = .lineEnd := by
  rcases h with rfl | ⟨rest, rfl⟩
  · exact nomatch ht
  · exact (Option.some.inj ht).symm

end

/-! ## What has been read -/

section

variable {tokens rest : RuleTokens}

/-- A heading is a symbol and an arrow. -/
theorem startsWith_of_heading {lhs : Symbol} (h : (heading tokens).result = .ok (lhs, rest)) :
    tokens.StartsWith [.symbol lhs, .arrow] rest := by
  unfold heading at h
  split at h
  · rw [Traced.result_bind_eq_ok_iff] at h
    obtain ⟨_, _, h⟩ := h
    split at h
    · rw [Traced.result_bind_eq_ok_iff] at h
      obtain ⟨_, _, h⟩ := h
      cases h
      exact (Tokens.startsWith_singleton ..).append (Tokens.startsWith_singleton ..)
    · exact nomatch h
  · exact nomatch h

/-- The symbols that are read are tokens of the row. By induction on the reader's recursion. -/
theorem startsWith_of_symbols {rhs : List Symbol} (h : (symbols tokens).result = .ok (rhs, rest)) :
    tokens.StartsWith (rhs.map .symbol) rest := by
  fun_induction symbols tokens generalizing rhs with
  | case1 _ _ _ next ih =>
    simp only [Traced.result_bind_eq_ok_iff] at h
    obtain ⟨_, _, ⟨others, after⟩, hothers, h⟩ := h
    cases h
    exact (Tokens.startsWith_singleton ..).append (ih hothers)
  | case2 =>
    cases h
    exact Tokens.startsWith_nil _

/-- A block is read as a guard exactly if it is one. -/
theorem result_guardOf_eq_ok_iff (text : List Char) (c : Option Condition) :
    (guardOf text).result = .ok c ↔ IsGuard c [.guardText text] := by
  unfold guardOf
  cases hblank : Text.isBlankText text with
  | true =>
    rw [if_pos rfl]
    constructor
    · rintro h
      cases h
      -- a blank block stands for no guard
      exact .blank hblank
    · intro h
      cases h with
      | blank => rfl
      | given hgiven => exact nomatch hblank.symm.trans hgiven
  | false =>
    rw [if_neg Bool.false_ne_true, Traced.result_bind_eq_ok_iff]
    constructor
    · rintro ⟨c', hread, h⟩
      cases h
      exact .given hblank hread
    · intro h
      cases h with
      | blank h => exact nomatch hblank.symm.trans h
      | given _ hread => exact ⟨_, hread, rfl⟩

/-- The guard that is read is a part of the row, be it absent. -/
theorem startsWith_of_guardPart {c : Option Condition}
    (h : (guardPart tokens).result = .ok (c, rest)) :
    ∃ guard, IsGuard c guard ∧ tokens.StartsWith guard rest := by
  unfold guardPart at h
  split at h
  · simp only [Traced.result_bind_eq_ok_iff] at h
    obtain ⟨c', hguard, _, _, h⟩ := h
    cases h
    exact ⟨_, (result_guardOf_eq_ok_iff _ _).1 hguard, Tokens.startsWith_singleton ..⟩
  · cases h
    exact ⟨[], .absent, Tokens.startsWith_nil _⟩

/-- Lines are read one by one. -/
theorem result_readStatements_eq_ok_iff (lines : List (List Char)) (statements : List Statement) :
    (readStatements lines).result = .ok statements ↔
      List.Forall₂ (fun line s => (readStatement line).result = .ok s) lines statements := by
  induction lines generalizing statements with
  | nil =>
    rw [List.forall₂_nil_left_iff]
    exact ⟨fun h => (Except.ok.inj h).symm, fun h => congrArg Except.ok h.symm⟩
  | cons line lines ih =>
    simp only [readStatements, Traced.result_bind_eq_ok_iff, ih, List.forall₂_cons_left_iff]
    constructor
    · rintro ⟨s, hs, others, hothers, h⟩
      exact ⟨s, others, hs, hothers, (Except.ok.inj h).symm⟩
    · rintro ⟨s, others, hs, hothers, rfl⟩
      exact ⟨s, hs, others, hothers, rfl⟩

/-- There is no statement exactly if all lines are blank. -/
theorem statementLines_eq_nil_iff (text : List Char) :
    statementLines text = [] ↔ ∀ line ∈ Text.lines text, Text.isBlankText line = true := by
  rw [statementLines, List.filter_eq_nil_iff]
  simp only [Bool.not_eq_true, Bool.not_eq_false']

/-- A block is read as an action exactly if it is one. -/
theorem result_actionOf_eq_ok_iff (text : List Char) (a : Option (List Statement)) :
    (actionOf text).result = .ok a ↔ IsAction a [.actionText text] := by
  unfold actionOf
  simp only [Traced.result_bind_eq_ok_iff, result_readStatements_eq_ok_iff]
  constructor
  · rintro ⟨statements, hread, h⟩
    cases h
    cases statements with
    -- a block of blank lines stands for no action
    | nil => exact .blank ((statementLines_eq_nil_iff text).1 (List.forall₂_nil_right_iff.1 hread))
    | cons s statements => exact .given (List.cons_ne_nil _ _) hread
  · intro h
    cases h with
    | blank hblank =>
      refine ⟨[], ?_, rfl⟩
      rw [(statementLines_eq_nil_iff text).2 hblank]
      exact .nil
    | @given _ statements hgiven hread =>
      refine ⟨statements, hread, ?_⟩
      rw [List.isEmpty_eq_false_iff.2 hgiven]
      rfl

/-- The action that is read is a part of the row, be it absent. -/
theorem startsWith_of_actionPart {a : Option (List Statement)}
    (h : (actionPart tokens).result = .ok (a, rest)) :
    ∃ action, IsAction a action ∧ tokens.StartsWith action rest := by
  unfold actionPart at h
  split at h
  · simp only [Traced.result_bind_eq_ok_iff] at h
    obtain ⟨a', haction, _, _, h⟩ := h
    cases h
    exact ⟨_, (result_actionOf_eq_ok_iff _ _).1 haction, Tokens.startsWith_singleton ..⟩
  · cases h
    exact ⟨[], .absent, Tokens.startsWith_nil _⟩

/-- The line end of a rule could as well be read as the first of those behind it. -/
theorem result_skipLineEnds_of_lineEnd (h : (lineEnd tokens).result = .ok rest) :
    (skipLineEnds tokens).result = (skipLineEnds rest).result := by
  unfold lineEnd at h
  split at h
  · rw [Traced.result_bind_eq_ok_iff] at h
    obtain ⟨_, henter, h⟩ := h
    cases h
    rw [skipLineEnds, Traced.result_bind, henter]
    rfl
  · cases h
    rfl
  · exact nomatch h

/-- A line end is read only where a line ends. -/
theorem atLineEnd_of_lineEnd (h : (lineEnd tokens).result = .ok rest) {ts : List RuleToken}
    (hts : tokens.values? = some ts) : AtLineEnd ts := by
  unfold lineEnd at h
  split at h
  · obtain ⟨others, -, rfl⟩ := Option.map_eq_some_iff.1 hts
    exact .inr ⟨others, rfl⟩
  · exact .inl (Option.some.inj hts).symm
  · exact nomatch h

/-- What is skipped are line ends. -/
theorem startsWith_of_skipLineEnds (h : (skipLineEnds tokens).result = .ok rest) :
    ∃ n, tokens.StartsWith (List.replicate n .lineEnd) rest := by
  fun_induction skipLineEnds tokens with
  | case1 _ _ next ih =>
    rw [Traced.result_bind_eq_ok_iff] at h
    obtain ⟨_, _, h⟩ := h
    obtain ⟨n, hn⟩ := ih h
    exact ⟨n + 1, (Tokens.startsWith_singleton ..).append hn⟩
  | case2 =>
    cases h
    exact ⟨0, Tokens.startsWith_nil _⟩

/-- Before its line end, a rule has been read as its parts are written. -/
theorem startsWith_of_rule {r : Rule} (h : (rule tokens).result = .ok (r, rest)) :
    ∃ line behind, IsRuleLine r line ∧ tokens.StartsWith line behind ∧
      (lineEnd behind).result = .ok rest := by
  simp only [rule, Traced.result_bind_eq_ok_iff] at h
  obtain ⟨⟨lhs, _⟩, hheading, ⟨rhs, _⟩, hsymbols, ⟨c, _⟩, hguard, ⟨a, behind⟩, haction, _, hend, _, _,
    h⟩ := h
  cases h
  obtain ⟨guard, hisGuard, hguard⟩ := startsWith_of_guardPart hguard
  obtain ⟨action, hisAction, haction⟩ := startsWith_of_actionPart haction
  have hline := (startsWith_of_heading hheading).append
    ((startsWith_of_symbols hsymbols).append (hguard.append haction))
  exact ⟨_, behind, ⟨guard, action, hisGuard, hisAction, rfl⟩, hline, hend⟩

/-- A rule file with line ends in front, which have been skipped, is a rule file. -/
theorem isRuleFile_of_skipLineEnds {rs : List Rule} {ts : List RuleToken}
    (h : (skipLineEnds tokens).result = .ok rest) (hrest : rest.values? = some ts)
    (hfile : IsRuleFile rs ts) : ∃ ts', tokens.values? = some ts' ∧ IsRuleFile rs ts' := by
  obtain ⟨n, hstart⟩ := startsWith_of_skipLineEnds h
  exact ⟨_, hstart.values?_eq hrest, hfile.replicate_append n⟩

/-- The rules that are read have a file. By induction on the reader's recursion. -/
theorem isRuleFile_of_rules {rs : List Rule} (h : (rules tokens).result = .ok rs) :
    ∃ ts, tokens.values? = some ts ∧ IsRuleFile rs ts := by
  fun_induction rules tokens generalizing rs with
  | case1 tokens hend =>
    cases h
    cases tokens with
    | ended => exact ⟨[], rfl, .done⟩
    | stuck => exact nomatch hend
    | token => exact nomatch hend
  | case2 => exact nomatch h
  | case3 tokens _ first r rest hfirst =>
    rename_i ih
    -- the other rules have been read, since the first one does not fail alone
    obtain ⟨rs', hrules, rfl⟩ : ∃ rs', (rules rest).result = .ok rs' ∧ r :: rs' = rs := by
      change (rules rest).result.map (r :: ·) = .ok rs at h
      cases hrules : (rules rest).result with
      | error e =>
        rw [hrules] at h
        exact nomatch h
      | ok rs' =>
        rw [hrules] at h
        exact ⟨rs', rfl, Except.ok.inj h⟩
    obtain ⟨ts, hts, hfile⟩ := ih hrules
    simp only [first, ruleAndGap, Traced.result_bind_eq_ok_iff] at hfirst
    obtain ⟨⟨r', after⟩, hrule, rest', hgap, he⟩ := hfirst
    cases he
    obtain ⟨line, behind, hline, hstart, hend⟩ := startsWith_of_rule hrule
    -- the line end of the rule is counted among those that are skipped
    rw [← result_skipLineEnds_of_lineEnd hend] at hgap
    obtain ⟨ts', hts', hfile'⟩ := isRuleFile_of_skipLineEnds hgap hts hfile
    exact ⟨line ++ ts', hstart.values?_eq hts', .rule hline (atLineEnd_of_lineEnd hend hts') hfile'⟩

end

/-! ## What is read -/

section

variable {tokens : RuleTokens} {ts : List RuleToken}

/-- A symbol and an arrow are read as a heading. -/
theorem exists_heading {lhs : Symbol} (h : tokens.values? = some (.symbol lhs :: .arrow :: ts)) :
    ∃ rest, (heading tokens).result = .ok (lhs, rest) ∧ rest.values? = some ts := by
  obtain ⟨_, _, next, rfl, hnext⟩ := Tokens.exists_token_of_values?_eq_cons h
  obtain ⟨_, _, rest, rfl, hrest⟩ := Tokens.exists_token_of_values?_eq_cons hnext
  refine ⟨rest, ?_, hrest⟩
  rw [heading, Traced.result_bind, result_enter_of_values? hnext]
  show ((enter rest) >>= fun _ => pure (lhs, rest)).result = _
  rw [Traced.result_bind, result_enter_of_values? hrest]
  rfl

/-- A row of symbols is read up to where it ends. -/
theorem exists_symbols {rhs : List Symbol} (h : tokens.values? = some (rhs.map .symbol ++ ts))
    (hts : ∀ s, ts.head? ≠ some (.symbol s)) :
    ∃ rest, (symbols tokens).result = .ok (rhs, rest) ∧ rest.values? = some ts := by
  induction rhs generalizing tokens with
  | nil =>
    refine ⟨tokens, ?_, h⟩
    unfold symbols
    split
    · -- the row of symbols has ended, so what comes next is no symbol
      obtain ⟨others, -, rfl⟩ := Option.map_eq_some_iff.1 h
      exact absurd rfl (hts _)
    · rfl
  | cons s rhs ih =>
    obtain ⟨_, _, next, rfl, hnext⟩ := Tokens.exists_token_of_values?_eq_cons h
    obtain ⟨rest, hsymbols, hrest⟩ := ih hnext
    refine ⟨rest, ?_, hrest⟩
    rw [symbols, Traced.result_bind, result_enter_of_values? hnext]
    show ((symbols next) >>= fun x => pure (s :: x.1, x.2)).result = _
    rw [Traced.result_bind, hsymbols]
    rfl

/-- A guard is read as such, if there is not another one behind it. -/
theorem exists_guardPart {c : Option Condition} {guard : List RuleToken} (hguard : IsGuard c guard)
    (h : tokens.values? = some (guard ++ ts)) (hts : ∀ text, ts.head? ≠ some (.guardText text)) :
    ∃ rest, (guardPart tokens).result = .ok (c, rest) ∧ rest.values? = some ts := by
  have hread (text : List Char) (hg : guard = [.guardText text]) :
      ∃ rest, (guardPart tokens).result = .ok (c, rest) ∧ rest.values? = some ts := by
    subst hg
    obtain ⟨_, _, rest, rfl, hrest⟩ := Tokens.exists_token_of_values?_eq_cons h
    refine ⟨rest, ?_, hrest⟩
    rw [guardPart, Traced.result_bind, (result_guardOf_eq_ok_iff text c).2 hguard]
    show ((enter rest) >>= fun _ => pure (c, rest)).result = _
    rw [Traced.result_bind, result_enter_of_values? hrest]
    rfl
  cases hguard with
  | absent =>
    refine ⟨tokens, ?_, h⟩
    unfold guardPart
    split
    · obtain ⟨others, -, rfl⟩ := Option.map_eq_some_iff.1 h
      exact absurd rfl (hts _)
    · rfl
  | @blank text => exact hread text rfl
  | @given text => exact hread text rfl

/-- An action is read as such, if there is not another one behind it. -/
theorem exists_actionPart {a : Option (List Statement)} {action : List RuleToken}
    (haction : IsAction a action) (h : tokens.values? = some (action ++ ts))
    (hts : ∀ text, ts.head? ≠ some (.actionText text)) :
    ∃ rest, (actionPart tokens).result = .ok (a, rest) ∧ rest.values? = some ts := by
  have hread (text : List Char) (ha : action = [.actionText text]) :
      ∃ rest, (actionPart tokens).result = .ok (a, rest) ∧ rest.values? = some ts := by
    subst ha
    obtain ⟨_, _, rest, rfl, hrest⟩ := Tokens.exists_token_of_values?_eq_cons h
    refine ⟨rest, ?_, hrest⟩
    rw [actionPart, Traced.result_bind, (result_actionOf_eq_ok_iff text a).2 haction]
    show ((enter rest) >>= fun _ => pure (a, rest)).result = _
    rw [Traced.result_bind, result_enter_of_values? hrest]
    rfl
  cases haction with
  | absent =>
    refine ⟨tokens, ?_, h⟩
    unfold actionPart
    split
    · obtain ⟨others, -, rfl⟩ := Option.map_eq_some_iff.1 h
      exact absurd rfl (hts _)
    · rfl
  | @blank text => exact hread text rfl
  | @given text => exact hread text rfl

/-- The end of a line is read, be it that of the text. -/
theorem exists_lineEnd (hend : AtLineEnd ts) (h : tokens.values? = some ts) :
    ∃ rest, (lineEnd tokens).result = .ok rest := by
  rcases hend with rfl | ⟨others, rfl⟩
  · obtain ⟨_, _, rfl⟩ := Tokens.exists_ended_of_values?_eq_nil h
    exact ⟨_, rfl⟩
  · obtain ⟨_, _, rest, rfl, hrest⟩ := Tokens.exists_token_of_values?_eq_cons h
    refine ⟨rest, ?_⟩
    rw [lineEnd, Traced.result_bind, result_enter_of_values? hrest]
    rfl

/-- A rule is read up to its line end, and then beyond it. -/
theorem exists_rule {r : Rule} {line : List RuleToken} (hline : IsRuleLine r line)
    (hend : AtLineEnd ts) (h : tokens.values? = some (line ++ ts)) :
    ∃ behind rest, behind.values? = some ts ∧ (lineEnd behind).result = .ok rest ∧
      (rule tokens).result = .ok (r, rest) := by
  obtain ⟨guard, action, hisGuard, hisAction, rfl⟩ := hline
  -- behind each part stands none of the kinds that the part might be
  have hactionText (text : List Char) : ts.head? ≠ some (.actionText text) :=
    fun ht => nomatch hend.eq_lineEnd ht
  have hguardText (text : List Char) : (action ++ ts).head? ≠ some (.guardText text) := by
    intro ht
    rcases hisAction.head?_cases ht with ⟨_, he⟩ | ht
    · exact nomatch he
    · exact nomatch hend.eq_lineEnd ht
  have hsymbol (s : Symbol) : (guard ++ (action ++ ts)).head? ≠ some (.symbol s) := by
    intro ht
    rcases hisGuard.head?_cases ht with ⟨_, he⟩ | ht
    · exact nomatch he
    · rcases hisAction.head?_cases ht with ⟨_, he⟩ | ht
      · exact nomatch he
      · exact nomatch hend.eq_lineEnd ht
  rw [List.cons_append, List.cons_append, List.append_assoc, List.append_assoc] at h
  obtain ⟨afterArrow, hheading, h⟩ := exists_heading h
  obtain ⟨afterSymbols, hsymbols, h⟩ := exists_symbols h hsymbol
  obtain ⟨afterGuard, hguard, h⟩ := exists_guardPart hisGuard h hguardText
  obtain ⟨behind, haction, h⟩ := exists_actionPart hisAction h hactionText
  obtain ⟨rest, hlineEnd⟩ := exists_lineEnd hend h
  refine ⟨behind, rest, h, hlineEnd, ?_⟩
  simp only [rule, Traced.result_bind_eq_ok_iff]
  exact ⟨_, hheading, _, hsymbols, _, hguard, _, haction, _, hlineEnd, (), rfl, rfl⟩

/-- The first rule is read, and then the others. -/
theorem result_rules_of_ruleAndGap {r : Rule} {rest : RuleTokens} (hmore : atEnd tokens = false)
    (h : (ruleAndGap tokens).result = .ok (r, rest)) :
    (rules tokens).result = (rules rest).result.map (r :: ·) := by
  rw [rules, hmore, if_neg Bool.false_ne_true]
  dsimp only
  split
  · next e he => cases h.symm.trans he
  · next r' rest' he =>
    cases h.symm.trans he
    rfl

/-- The rules of a rule file are read, once the line ends that it begins with are skipped. -/
theorem exists_rules {rs : List Rule} (hfile : IsRuleFile rs ts) (h : tokens.values? = some ts) :
    ∃ rest, (skipLineEnds tokens).result = .ok rest ∧ (rules rest).result = .ok rs := by
  induction hfile generalizing tokens with
  | done =>
    obtain ⟨_, _, rfl⟩ := Tokens.exists_ended_of_values?_eq_nil h
    refine ⟨_, rfl, ?_⟩
    rw [rules]
    rfl
  | lineEnd _ ih =>
    obtain ⟨_, _, next, rfl, hnext⟩ := Tokens.exists_token_of_values?_eq_cons h
    obtain ⟨rest, hskip, hrules⟩ := ih hnext
    refine ⟨rest, ?_, hrules⟩
    rw [skipLineEnds, Traced.result_bind, result_enter_of_values? hnext]
    exact hskip
  | @rule r rs line ts hline hend _ ih =>
    obtain ⟨behind, rest, hbehind, hlineEnd, hrule⟩ := exists_rule hline hend h
    -- the line end of the rule is read with the rule, and not with those behind it
    obtain ⟨next, hskip, hrules⟩ := ih hbehind
    rw [result_skipLineEnds_of_lineEnd hlineEnd] at hskip
    have hfirst : (ruleAndGap tokens).result = .ok (r, next) := by
      simp only [ruleAndGap, Traced.result_bind_eq_ok_iff]
      exact ⟨_, hrule, _, hskip, rfl⟩
    obtain ⟨_, _, _, _, rfl⟩ := hline
    obtain ⟨_, _, _, rfl, _⟩ := Tokens.exists_token_of_values?_eq_cons h
    refine ⟨_, rfl, ?_⟩
    rw [result_rules_of_ruleAndGap rfl hfirst, hrules]
    rfl

end

/-- A rule file is read as its rules. -/
theorem result_readRules_of_isRuleFile {text : List Char} {rs : List Rule} {ts : List RuleToken}
    (hts : (Tokens.ofText ruleTokens text).values? = some ts) (hfile : IsRuleFile rs ts) :
    (readRules text).result = .ok rs := by
  obtain ⟨rest, hskip, hrules⟩ := exists_rules hfile hts
  simp only [readRules, Traced.result_bind_eq_ok_iff]
  exact ⟨(), result_enter_of_values? hts, rest, hskip, hrules⟩

/-- Only rule files are read. -/
theorem exists_isRuleFile_of_readRules {text : List Char} {rs : List Rule}
    (h : (readRules text).result = .ok rs) :
    ∃ ts, (Tokens.ofText ruleTokens text).values? = some ts ∧ IsRuleFile rs ts := by
  simp only [readRules, Traced.result_bind_eq_ok_iff] at h
  obtain ⟨_, _, rest, hskip, hrules⟩ := h
  obtain ⟨ts, hts, hfile⟩ := isRuleFile_of_rules hrules
  exact isRuleFile_of_skipLineEnds hskip hts hfile

/-- Reading succeeds with just those rules that the tokens of the text are a file of. In particular, all
of the text can be cut into tokens then. -/
theorem result_readRules_eq_ok_iff (text : List Char) (rs : List Rule) :
    (readRules text).result = .ok rs ↔
      ∃ ts, (Tokens.ofText ruleTokens text).values? = some ts ∧ IsRuleFile rs ts := by
  constructor
  · exact exists_isRuleFile_of_readRules
  · rintro ⟨ts, hts, hfile⟩
    exact result_readRules_of_isRuleFile hts hfile

end GuardedGrammar.RuleText
