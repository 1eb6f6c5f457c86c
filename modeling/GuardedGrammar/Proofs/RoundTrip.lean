/-
  Rules that are written can be read again.

  A text that is written token by token is cut into these tokens, and the readers find in them what has
  been written.  Both halves meet at rows of tokens: `Condition.tokens` and `Statement.tokens` for what
  stands between the marks of a guard or an action, `IsRuleLine` and `IsRuleFile` for what stands around
  them.  In between, what is written for a clause must not close the marks that it stands between
  (`isInner_of_mem_condition`), nor begin another line (`statementLines_eq_singleton`).

  Main statement: `result_readRules_joinLines_render`.
-/
import GuardedGrammar.Proofs.RuleFile
import GuardedGrammar.Proofs.RuleSpelling

namespace GuardedGrammar

/-! ## What can be read again -/

/-- A guard that can be read again. -/
structure Condition.IsLegible (c : Condition) : Prop where
  left : c.left.IsLegible
  right : c.right.IsLegible

/-- A statement that can be read again. -/
def Statement.IsLegible : Statement → Prop
  | .emit parts => ∀ e ∈ parts, e.IsLegible
  | .assign destination value => destination.IsLegible ∧ value.IsLegible

/-- An action that can be read again. It is written on one line, where only one statement is read. -/
def IsLegibleAction (statements : List Statement) : Prop :=
  statements.length = 1 ∧ ∀ s ∈ statements, s.IsLegible

/-- A rule that can be read again. -/
structure Rule.IsLegible (r : Rule) : Prop where
  lhs : r.lhs.IsLegible
  rhs : ∀ s ∈ r.rhs, s.IsLegible
  condition : ∀ c ∈ r.condition, c.IsLegible
  action : ∀ statements ∈ r.action, IsLegibleAction statements

instance Condition.decidableIsLegible (c : Condition) : Decidable c.IsLegible :=
  decidable_of_iff (c.left.IsLegible ∧ c.right.IsLegible)
    ⟨fun h => ⟨h.1, h.2⟩, fun h => ⟨h.left, h.right⟩⟩

instance Statement.decidableIsLegible : (s : Statement) → Decidable s.IsLegible
  | .emit parts => inferInstanceAs (Decidable (∀ e ∈ parts, e.IsLegible))
  | .assign _ _ => inferInstanceAs (Decidable (_ ∧ _))

instance IsLegibleAction.decidable (statements : List Statement) :
    Decidable (IsLegibleAction statements) :=
  inferInstanceAs (Decidable (_ ∧ _))

instance Rule.decidableIsLegible (r : Rule) : Decidable r.IsLegible :=
  decidable_of_iff (r.lhs.IsLegible ∧ (∀ s ∈ r.rhs, s.IsLegible) ∧
      (∀ c ∈ r.condition, c.IsLegible) ∧ ∀ statements ∈ r.action, IsLegibleAction statements)
    ⟨fun h => ⟨h.1, h.2.1, h.2.2.1, h.2.2.2⟩, fun h => ⟨h.lhs, h.rhs, h.condition, h.action⟩⟩

namespace RuleText

/-! ## Rows of texts with a blank in front of each -/

section

variable {α : Type} (render : α → String) (xs : List α)

/-- Texts with a blank before each, as one row of characters. -/
theorem toList_join_spaced : (String.join (xs.map fun x => " " ++ render x)).toList =
    xs.flatMap fun x => ' ' :: (render x).toList := by
  rw [String.toList_join, List.flatMap_map]
  congr 1
  funext x
  rw [String.toList_append]
  rfl

/-- Texts with a blank before each begin with a blank, if there are any. -/
theorem atGap_spaced {rest : List Char} (hrest : AtGap rest) :
    AtGap ((xs.flatMap fun x => ' ' :: (render x).toList) ++ rest) := by
  cases xs with
  | nil => exact hrest
  | cons x xs => exact atGap_cons (by decide) _

end

/-! ## Clauses -/

/-! How guards and statements are written, as rows of characters. -/

theorem toList_render_condition (c : Condition) :
    c.render.toList = c.left.render.toList ++ ' ' :: '=' :: ' ' :: c.right.render.toList := by
  simp [Condition.render]

theorem toList_render_emit (parts : List Expression) :
    (Statement.emit parts).render.toList =
      "emit".toList ++ parts.flatMap fun e => ' ' :: e.render.toList := by
  rw [Statement.render, String.toList_append, toList_join_spaced]

theorem toList_render_assign (destination : AttributeRef) (value : Expression) :
    (Statement.assign destination value).render.toList =
      destination.render.toList ++ ' ' :: '=' :: ' ' :: value.render.toList := by
  simp [Statement.render]

/-- An equals sign with a legible expression behind it is cut into two tokens. -/
theorem cutsInto_equalsTo {e : Expression} (he : e.IsLegible) :
    CutsInto clauseTokens (' ' :: '=' :: ' ' :: e.render.toList) [.equals, e.token] := by
  have hvalue : CutsInto clauseTokens e.render.toList [e.token] := by
    have h := cutsInto_expression he atGap_nil .nil
    rwa [List.append_nil] at h
  exact cutsInto_clauseGap (by decide)
    (cutsInto_equals (atGap_cons (by decide) _) (cutsInto_clauseGap (by decide) hvalue))

/-- A legible guard is cut into its tokens. -/
theorem cutsInto_condition {c : Condition} (hc : c.IsLegible) :
    CutsInto clauseTokens c.render.toList c.tokens := by
  rw [toList_render_condition]
  exact cutsInto_expression hc.left (atGap_cons (by decide) _) (cutsInto_equalsTo hc.right)

theorem atGap_parts (parts : List Expression) :
    AtGap (parts.flatMap fun e => ' ' :: e.render.toList) := by
  have h := atGap_spaced Expression.render parts atGap_nil
  rwa [List.append_nil] at h

/-- The legible parts of a line are cut into their tokens. -/
theorem cutsInto_parts {parts : List Expression} (hparts : ∀ e ∈ parts, e.IsLegible) :
    CutsInto clauseTokens (parts.flatMap fun e => ' ' :: e.render.toList)
      (parts.map Expression.token) := by
  induction parts with
  | nil => exact .nil
  | cons e parts ih =>
    obtain ⟨he, hparts⟩ := List.forall_mem_cons.1 hparts
    exact cutsInto_clauseGap (by decide)
      (cutsInto_expression he (atGap_parts parts) (ih hparts))

/-- A legible statement is cut into its tokens. -/
theorem cutsInto_statement {s : Statement} (hs : s.IsLegible) :
    CutsInto clauseTokens s.render.toList s.tokens := by
  cases s with
  | emit parts =>
    rw [toList_render_emit]
    exact cutsInto_emit (atGap_parts parts) (cutsInto_parts hs)
  | assign destination value =>
    rw [toList_render_assign]
    exact cutsInto_attributeRef hs.1 (atGap_cons (by decide) _) (cutsInto_equalsTo hs.2)

/-! ## What stands between marks

A guard ends at the first bracket and an action at the first brace. In legible ones no word and no
text has any of these, or a line feed. -/

/-- A character that neither closes the marks of a guard or an action nor ends the line. -/
def IsInner (c : Char) : Prop := c ≠ ']' ∧ c ≠ '\x7d' ∧ c ≠ '\n'

instance IsInner.decidable (c : Char) : Decidable (IsInner c) :=
  inferInstanceAs (Decidable (_ ∧ _ ∧ _))

/-- A word that may not hold the closing marks holds inner characters only. -/
theorem isInner_of_isWord {excluded : List Char} {s : String} (hs : IsWord excluded s)
    (hguard : ']' ∈ excluded) (haction : '\x7d' ∈ excluded) : ∀ c ∈ s.toList, IsInner c := by
  intro c hc
  obtain ⟨hblank, hexcluded⟩ := hs.2 c hc
  refine ⟨fun he => hexcluded (he ▸ hguard), fun he => hexcluded (he ▸ haction), fun he => ?_⟩
  rw [he] at hblank
  exact absurd hblank (by decide)

/-- Digits are inner characters. -/
theorem isInner_of_mem_digitsOf {index : Nat} {c : Char} (hc : c ∈ digitsOf index) :
    IsInner c := by
  have hdigit := isDigit_of_mem_digitsOf hc
  refine ⟨?_, ?_, ?_⟩
  all_goals
    rintro rfl
    exact absurd hdigit (by decide)

/-- Targets are written in inner characters. -/
theorem isInner_of_mem_target {t : Target} (ht : t.IsLegible) :
    ∀ c ∈ t.render.toList, IsInner c := by
  cases t with
  | named name =>
    have hname : IsWord ['$', '"', ']', '\x7d'] name := ht
    exact isInner_of_isWord hname (by decide) (by decide)
  | numbered index =>
    intro c hc
    rw [Target.render, String.toList_append, List.mem_append] at hc
    rcases hc with hc | hc
    · rw [List.mem_singleton.1 hc]
      decide
    · exact isInner_of_mem_digitsOf hc

/-- Attributes are written in inner characters. -/
theorem isInner_of_mem_attributeRef {ref : AttributeRef} (href : ref.IsLegible) :
    ∀ c ∈ ref.render.toList, IsInner c := by
  intro c hc
  rw [AttributeRef.render, String.toList_append, String.toList_append, List.mem_append,
    List.mem_append] at hc
  rcases hc with (hc | hc) | hc
  · exact isInner_of_mem_target href.target c hc
  · rw [List.mem_singleton.1 hc]
    decide
  · exact isInner_of_isWord href.name (by decide) (by decide) c hc

/-- Expressions are written in inner characters. -/
theorem isInner_of_mem_expression {e : Expression} (he : e.IsLegible) :
    ∀ c ∈ e.render.toList, IsInner c := by
  cases e with
  | newRegister =>
    show ∀ c ∈ "<newReg>".toList, IsInner c
    simp [IsInner]
  | read ref => exact isInner_of_mem_attributeRef he
  | literal text =>
    -- the text is between quotes, and a plain text has no line feeds
    obtain ⟨hquoted, hcharacters⟩ := he
    have hplain := Text.isPlain_of_quoted_eq hquoted
    intro c hc
    rw [Expression.render, hquoted, String.toList_append, String.toList_append, List.mem_append,
      List.mem_append] at hc
    rcases hc with (hc | hc) | hc
    · rw [List.mem_singleton.1 hc]
      decide
    · obtain ⟨-, hguard, haction⟩ := hcharacters c hc
      refine ⟨hguard, haction, fun hfeed => ?_⟩
      have hplain := hplain c hc
      rw [hfeed] at hplain
      exact absurd hplain (by unfold Text.IsPlain; decide)
    · rw [List.mem_singleton.1 hc]
      decide

/-- Two sides in inner characters, with an equals sign between them, are in inner characters. -/
theorem isInner_of_mem_equation {u v : List Char} (hu : ∀ c ∈ u, IsInner c)
    (hv : ∀ c ∈ v, IsInner c) : ∀ c ∈ u ++ ' ' :: '=' :: ' ' :: v, IsInner c :=
  List.forall_mem_append.2 ⟨hu, List.forall_mem_cons.2 ⟨by decide,
    List.forall_mem_cons.2 ⟨by decide, List.forall_mem_cons.2 ⟨by decide, hv⟩⟩⟩⟩

/-- Guards are written in inner characters. -/
theorem isInner_of_mem_condition {c : Condition} (hc : c.IsLegible) :
    ∀ d ∈ c.render.toList, IsInner d := by
  rw [toList_render_condition]
  exact isInner_of_mem_equation (isInner_of_mem_expression hc.left)
    (isInner_of_mem_expression hc.right)

/-- Statements are written in inner characters. -/
theorem isInner_of_mem_statement {s : Statement} (hs : s.IsLegible) :
    ∀ c ∈ s.render.toList, IsInner c := by
  cases s with
  | emit parts =>
    rw [toList_render_emit]
    refine List.forall_mem_append.2 ⟨by simp [IsInner], fun c hc => ?_⟩
    obtain ⟨e, he, hc⟩ := List.mem_flatMap.1 hc
    rcases List.mem_cons.1 hc with rfl | hc
    · decide
    · exact isInner_of_mem_expression (hs e he) c hc
  | assign destination value =>
    rw [toList_render_assign]
    exact isInner_of_mem_equation (isInner_of_mem_attributeRef hs.1)
      (isInner_of_mem_expression hs.2)

theorem isBlankText_eq_false {text : List Char} {c : Char} (hc : c ∈ text)
    (hblank : Text.isBlank c = false) : Text.isBlankText text = false := by
  rw [← Bool.not_eq_true, Text.isBlankText, List.all_eq_true]
  exact fun h => Bool.false_ne_true (hblank.symm.trans (h c hc))

theorem isBlankText_condition (c : Condition) : Text.isBlankText c.render.toList = false := by
  refine isBlankText_eq_false (c := '=') ?_ (by decide)
  simp [toList_render_condition]

theorem isBlankText_statement (s : Statement) : Text.isBlankText s.render.toList = false := by
  cases s with
  | emit parts =>
    refine isBlankText_eq_false (c := 'e') ?_ (by decide)
    simp [toList_render_emit]
  | assign destination value =>
    refine isBlankText_eq_false (c := '=') ?_ (by decide)
    simp [toList_render_assign]

/-- A text without line feeds is one line. -/
theorem statementLines_eq_singleton {text : List Char} (hfeed : ∀ c ∈ text, c ≠ '\n')
    (hblank : Text.isBlankText text = false) : statementLines text = [text] := by
  have hne : text.isEmpty = false := by
    rw [List.isEmpty_eq_false_iff]
    rintro rfl
    exact nomatch hblank
  rw [statementLines, Text.lines, Text.linesFrom_of_forall_ne [] text hfeed, hne]
  simp [hblank]

/-! ## Rules

A rule is written with a blank in front of each of its parts, so each part is followed by a gap. -/

/-- A guard as it is written behind the sides of a rule. -/
def renderGuard : Option Condition → List Char
  | some c => ' ' :: '[' :: (c.render.toList ++ [']'])
  | none => []

/-- An action as it is written behind the guard of a rule. -/
def renderAction : Option (List Statement) → List Char
  | some statements =>
    ' ' :: '\x7b' :: ((String.intercalate "; " (statements.map (·.render))).toList ++ ['\x7d'])
  | none => []

/-- How a rule is written. -/
theorem toList_render_rule (r : Rule) : r.render.toList =
    r.lhs.render.toList ++ (' ' :: ("->".toList ++
      ((r.rhs.flatMap fun s => ' ' :: s.render.toList) ++
        (renderGuard r.condition ++ renderAction r.action)))) := by
  obtain ⟨lhs, rhs, condition, action⟩ := r
  rw [Rule.render, String.toList_append, String.toList_append, Rule.renderSides,
    String.toList_append, String.toList_append, toList_join_spaced]
  cases condition <;> cases action <;> simp [renderGuard, renderAction]

variable {rest : List Char} {values : List RuleToken}

/-- A legible guard is cut into one token, which is read as that guard. -/
theorem exists_cutsInto_guard {c : Option Condition} (hc : ∀ d ∈ c, d.IsLegible)
    (hrest : AtGap rest) (h : CutsInto ruleTokens rest values) :
    ∃ guard, IsGuard c guard ∧ AtGap (renderGuard c ++ rest) ∧
      CutsInto ruleTokens (renderGuard c ++ rest) (guard ++ values) := by
  cases c with
  | none => exact ⟨[], .absent, hrest, h⟩
  | some c =>
    have hlegible := hc c rfl
    have hread : (readCondition c.render.toList).result = .ok c :=
      result_readCondition_of_values?
        ((cutsInto_condition hlegible).values?_ofText isTied_of_mem_clauseTokens)
    have hclosing : ']' ∉ c.render.toList :=
      fun hmem => (isInner_of_mem_condition hlegible _ hmem).1 rfl
    exact ⟨_, .given (isBlankText_condition c) hread, atGap_cons (by decide) _,
      cutsInto_ruleGap (cutsInto_guard hclosing hrest h)⟩

/-- A legible action is cut into one token, which is read as that action. -/
theorem exists_cutsInto_action {a : Option (List Statement)}
    (ha : ∀ statements ∈ a, IsLegibleAction statements)
    (hrest : AtGap rest) (h : CutsInto ruleTokens rest values) :
    ∃ action, IsAction a action ∧ AtGap (renderAction a ++ rest) ∧
      CutsInto ruleTokens (renderAction a ++ rest) (action ++ values) := by
  cases a with
  | none => exact ⟨[], .absent, hrest, h⟩
  | some statements =>
    obtain ⟨hlength, hstatements⟩ := ha statements rfl
    obtain ⟨s, rfl⟩ := List.length_eq_one_iff.1 hlength
    have hs : s.IsLegible := hstatements s List.mem_cons_self
    -- a single statement in inner characters is a single line, and the action ends behind it
    have hinner := isInner_of_mem_statement hs
    have hread : (readStatement s.render.toList).result = .ok s :=
      result_readStatement_of_values?
        ((cutsInto_statement hs).values?_ofText isTied_of_mem_clauseTokens)
    have hlines : statementLines s.render.toList = [s.render.toList] :=
      statementLines_eq_singleton (fun c hc => (hinner c hc).2.2) (isBlankText_statement s)
    have haction : IsAction (some [s]) [.actionText s.render.toList] := by
      refine .given (List.cons_ne_nil _ _) ?_
      change List.Forall₂ _ (statementLines s.render.toList) [s]
      rw [hlines]
      exact .cons hread .nil
    exact ⟨_, haction, atGap_cons (by decide) _,
      cutsInto_ruleGap (cutsInto_action (fun hmem => (hinner _ hmem).2.1 rfl) hrest h)⟩

/-- Legible symbols are cut into one token each. -/
theorem cutsInto_symbols {symbols : List Symbol} (hsymbols : ∀ s ∈ symbols, s.IsLegible)
    (hrest : AtGap rest) (h : CutsInto ruleTokens rest values) :
    CutsInto ruleTokens ((symbols.flatMap fun s => ' ' :: s.render.toList) ++ rest)
      (symbols.map .symbol ++ values) := by
  induction symbols with
  | nil => exact h
  | cons s symbols ih =>
    obtain ⟨hs, hsymbols⟩ := List.forall_mem_cons.1 hsymbols
    rw [List.flatMap_cons, List.append_assoc, List.cons_append]
    exact cutsInto_ruleGap (cutsInto_symbol hs (atGap_spaced _ _ hrest) (ih hsymbols))

/-- A legible rule is cut into the tokens of a line for it. -/
theorem exists_cutsInto_rule {r : Rule} (hr : r.IsLegible) (hrest : AtGap rest)
    (h : CutsInto ruleTokens rest values) :
    ∃ line, IsRuleLine r line ∧ CutsInto ruleTokens (r.render.toList ++ rest) (line ++ values) := by
  obtain ⟨action, haction, hbeforeAction, h⟩ := exists_cutsInto_action hr.action hrest h
  obtain ⟨guard, hguard, hbeforeGuard, h⟩ := exists_cutsInto_guard hr.condition hbeforeAction h
  have hrhs := cutsInto_symbols hr.rhs hbeforeGuard h
  have harrow := cutsInto_ruleGap (cutsInto_arrow (atGap_spaced _ _ hbeforeGuard) hrhs)
  have hrule := cutsInto_symbol hr.lhs (atGap_cons (by decide) _) harrow
  refine ⟨_, ⟨guard, action, hguard, haction, rfl⟩, ?_⟩
  rw [toList_render_rule]
  simpa only [List.append_assoc, List.cons_append] using hrule

/-- By induction on the rules; behind each rule but the last is a line feed. -/
theorem exists_cutsInto_joinLines {rs : List Rule} (hrs : ∀ r ∈ rs, r.IsLegible) :
    ∃ ts, CutsInto ruleTokens (Text.joinLines (rs.map fun r => r.render.toList)) ts ∧
      IsRuleFile rs ts := by
  induction rs with
  | nil => exact ⟨[], .nil, .done⟩
  | cons r rs ih =>
    obtain ⟨hr, hrs⟩ := List.forall_mem_cons.1 hrs
    obtain ⟨ts, hcuts, hfile⟩ := ih hrs
    cases rs with
    | nil =>
      -- the last rule ends with the text
      obtain ⟨line, hline, hrule⟩ := exists_cutsInto_rule hr atGap_nil .nil
      refine ⟨line ++ [], ?_, .rule hline (.inl rfl) .done⟩
      rw [Text.joinLines, List.map_singleton, List.intercalate_singleton]
      rwa [List.append_nil] at hrule
    | cons next rs =>
      obtain ⟨line, hline, hrule⟩ :=
        exists_cutsInto_rule hr (atGap_cons (by decide) _) (cutsInto_lineEnd hcuts)
      refine ⟨line ++ .lineEnd :: ts, ?_, .rule hline (.inr ⟨ts, rfl⟩) (.lineEnd hfile)⟩
      -- all others end with a line feed
      rw [Text.joinLines, List.map_cons, List.map_cons, List.intercalate_cons_cons,
        List.append_assoc]
      exact hrule

/-- Rules that are written one below the other are read again. -/
theorem result_readRules_joinLines_render (rs : List Rule) (hrs : ∀ r ∈ rs, r.IsLegible) :
    (readRules (Text.joinLines (rs.map fun r => r.render.toList))).result = .ok rs := by
  obtain ⟨ts, hcuts, hfile⟩ := exists_cutsInto_joinLines hrs
  exact result_readRules_of_isRuleFile (hcuts.values?_ofText isTied_of_mem_ruleTokens) hfile

/-- A rule with a guard, whose symbols have indices, one that derives a symbol which begins like an
arrow, and one that derives the empty word. The target of an attribute has a dot, and the last rule
writes an empty line. -/
def pairRules : List Rule :=
  [ { lhs := ⟨"Pair", none⟩
      rhs := [⟨"Item", some 1⟩, ⟨"Item", some 2⟩]
      condition := some ⟨.read ⟨.numbered 1, "kind"⟩, .literal "a = b"⟩
      action := some [.emit [.newRegister, .read ⟨.named "Item.first", "value"⟩]] },
    { lhs := ⟨"Item", none⟩
      rhs := [⟨"->>", none⟩]
      action := some [.assign ⟨.named "Item", "value"⟩ .newRegister] },
    { lhs := ⟨"Item", none⟩
      rhs := []
      action := some [.emit []] } ]

/-- The rules for pairs are legible, so they are read again as they are. -/
theorem pairRules_read_again : (∀ r ∈ pairRules, r.IsLegible) ∧
    (readRules (Text.joinLines (pairRules.map fun r => r.render.toList))).result = .ok pairRules :=
  have hlegible : ∀ r ∈ pairRules, r.IsLegible := by decide
  ⟨hlegible, result_readRules_joinLines_render pairRules hlegible⟩

end RuleText

end GuardedGrammar
