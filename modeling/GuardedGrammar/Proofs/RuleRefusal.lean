/-
  How rule files are refused.

  A rule file is a row of tokens, and at each place of it there is a kind of rows that may still come
  (`IsFromSymbols` and so on).  For each reader there are two lemmas: what it refuses is refused as a row
  of the kind it reads (`refuses_symbols` and so on), and what is refused behind it is refused before it
  (`leadsOn_symbols` and so on).  A block is refused when the text in it is, as a guard or as the
  statement on a line of it, and then the place counts from the beginning of that text.  It is then not
  the place of a failure of the whole text: that would have to be behind the block.

  Main statement: `readRules_refuses`.
-/
import GuardedGrammar.Proofs.ClauseRefusal
import GuardedGrammar.Proofs.RuleFile
import GuardedGrammar.Proofs.RuleSpelling

namespace GuardedGrammar.RuleText

/-! ## What may still come -/

/-- A part of some kind, and then a row of some kind. -/
def After (IsPart IsRow : List RuleToken → Prop) (ts : List RuleToken) : Prop :=
  ∃ part more, ts = part ++ more ∧ IsPart part ∧ IsRow more

section

variable {IsPart IsRow : List RuleToken → Prop} {ts : List RuleToken}

/-- Where nothing but an absent part can stand, it does. -/
theorem after_iff_of_absent (hnil : IsPart [])
    (hother : ∀ part, IsPart part → part ≠ [] → part.head? ≠ ts.head?) :
    After IsPart IsRow ts ↔ IsRow ts := by
  constructor
  · rintro ⟨part, more, rfl, hpart, hmore⟩
    by_cases hne : part = []
    · subst hne
      exact hmore
    · exact absurd (List.head?_append_of_ne_nil part hne).symm (hother part hpart hne)
  · exact fun h => ⟨[], ts, rfl, hnil, h⟩

/-- The parts are single blocks of a kind, or absent. -/
structure IsOptional (block : List Char → RuleToken) (IsPart : List RuleToken → Prop) : Prop where
  absent : IsPart []
  cases : ∀ part, IsPart part → part = [] ∨ ∃ text, part = [block text]

/-- Where no block of the kind stands, the part is absent. -/
theorem IsOptional.after_iff {block : List Char → RuleToken} (h : IsOptional block IsPart)
    (hts : ∀ text, ts.head? ≠ some (block text)) : After IsPart IsRow ts ↔ IsRow ts := by
  refine after_iff_of_absent h.absent fun part hpart hne heq => ?_
  rcases h.cases part hpart with rfl | ⟨text, rfl⟩
  · exact hne rfl
  · exact hts text heq.symm

/-- A block that is a part is one where it stands, if nothing that may follow begins so. -/
theorem IsOptional.after_cons_iff {block : List Char → RuleToken} (h : IsOptional block IsPart)
    {text : List Char} (hblock : IsPart [block text]) (hrow : ¬IsRow (block text :: ts)) :
    After IsPart IsRow (block text :: ts) ↔ IsRow ts := by
  constructor
  · rintro ⟨part, more, heq, hpart, hmore⟩
    rcases h.cases part hpart with rfl | ⟨_, rfl⟩
    · subst heq
      exact absurd hmore hrow
    · obtain ⟨-, rfl⟩ := List.cons.inj heq
      exact hmore
  · exact fun h => ⟨[block text], ts, rfl, hblock, h⟩

end

/-- The rows of tokens that are rule files. -/
def IsFile (ts : List RuleToken) : Prop := ∃ rs, IsRuleFile rs ts

/-- What may come from the end of a rule on. -/
def IsFromEnd (ts : List RuleToken) : Prop := AtLineEnd ts ∧ IsFile ts

/-- What may come from the action of a rule on. -/
def IsFromAction : List RuleToken → Prop := After (fun part => ∃ a, IsAction a part) IsFromEnd

/-- What may come from the guard of a rule on. -/
def IsFromGuard : List RuleToken → Prop := After (fun part => ∃ c, IsGuard c part) IsFromAction

/-- What may come from the symbols of the right-hand side on. -/
def IsFromSymbols : List RuleToken → Prop :=
  After (fun part => ∃ rhs : List Symbol, part = rhs.map .symbol) IsFromGuard

/-- What may come from a rule on. -/
def IsFromRule (ts : List RuleToken) : Prop :=
  ∃ lhs more, ts = .symbol lhs :: .arrow :: more ∧ IsFromSymbols more

/-! A rule file may be empty, so from the symbols of a rule on nothing more need come, at any place.
-/

theorem isFile_nil : IsFile [] := ⟨[], .done⟩

theorem isFromEnd_nil : IsFromEnd [] := ⟨.inl rfl, isFile_nil⟩

theorem isFromAction_nil : IsFromAction [] := ⟨[], [], rfl, ⟨none, .absent⟩, isFromEnd_nil⟩

theorem isFromGuard_nil : IsFromGuard [] := ⟨[], [], rfl, ⟨none, .absent⟩, isFromAction_nil⟩

theorem isFromSymbols_nil : IsFromSymbols [] := ⟨[], [], rfl, ⟨[], rfl⟩, isFromGuard_nil⟩

/-! What comes from some place on begins with one of the parts that may stand there. -/

section

variable {t : RuleToken} {ts : List RuleToken}

/-- A guard is a single block, or absent. -/
theorem isOptional_guard : IsOptional .guardText fun part => ∃ c, IsGuard c part where
  absent := ⟨none, .absent⟩
  cases := by
    rintro part ⟨c, h⟩
    cases h with
    | absent => exact .inl rfl
    | blank => exact .inr ⟨_, rfl⟩
    | given => exact .inr ⟨_, rfl⟩

/-- An action is a single block, or absent. -/
theorem isOptional_action : IsOptional .actionText fun part => ∃ a, IsAction a part where
  absent := ⟨none, .absent⟩
  cases := by
    rintro part ⟨a, h⟩
    cases h with
    | absent => exact .inl rfl
    | blank => exact .inr ⟨_, rfl⟩
    | given => exact .inr ⟨_, rfl⟩

/-! At the end of a rule comes a line end. From the action on there may also come an action, and
from the guard on a guard. -/

theorem head?_of_isFromEnd (h : IsFromEnd ts) (ht : ts.head? = some t) : t = .lineEnd :=
  h.1.eq_lineEnd ht

theorem head?_of_isFromAction (h : IsFromAction ts) (ht : ts.head? = some t) :
    (∃ text, t = .actionText text) ∨ t = .lineEnd := by
  obtain ⟨part, more, rfl, ⟨a, haction⟩, hmore⟩ := h
  rcases haction.head?_cases ht with ht | ht
  · exact .inl ht
  · exact .inr (head?_of_isFromEnd hmore ht)

theorem head?_of_isFromGuard (h : IsFromGuard ts) (ht : ts.head? = some t) :
    (∃ text, t = .guardText text) ∨ (∃ text, t = .actionText text) ∨ t = .lineEnd := by
  obtain ⟨part, more, rfl, ⟨c, hguard⟩, hmore⟩ := h
  rcases hguard.head?_cases ht with ht | ht
  · exact .inl ht
  · exact .inr (head?_of_isFromAction hmore ht)

end

/-! What may come behind a token, or if a part is absent. -/

section

variable {ts : List RuleToken}

/-- A line end in front does not matter for a rule file. -/
theorem isFile_lineEnd_iff (ts : List RuleToken) : IsFile (.lineEnd :: ts) ↔ IsFile ts := by
  constructor
  · rintro ⟨rs, h⟩
    generalize hrow : RuleToken.lineEnd :: ts = row at h
    cases h with
    | done => exact nomatch hrow
    | lineEnd h =>
      obtain ⟨-, rfl⟩ := List.cons.inj hrow
      exact ⟨rs, h⟩
    | rule hline =>
      obtain ⟨_, _, -, -, rfl⟩ := hline
      exact nomatch (List.cons.inj hrow).1
  · exact fun ⟨rs, h⟩ => ⟨rs, .lineEnd h⟩

/-! Behind the line end of a rule comes a rule file, and behind an action comes the end of the rule,
as it does at once if there is no action. -/

theorem isFromEnd_lineEnd_iff (ts : List RuleToken) : IsFromEnd (.lineEnd :: ts) ↔ IsFile ts := by
  unfold IsFromEnd
  rw [isFile_lineEnd_iff]
  exact and_iff_right (.inr ⟨ts, rfl⟩)

theorem isFromAction_actionText_iff {a : Option (List Statement)} {text : List Char}
    (h : IsAction a [.actionText text]) (ts : List RuleToken) :
    IsFromAction (.actionText text :: ts) ↔ IsFromEnd ts :=
  isOptional_action.after_cons_iff ⟨a, h⟩ fun hrow => nomatch head?_of_isFromEnd hrow rfl

theorem isFromAction_iff (hts : ∀ text, ts.head? ≠ some (.actionText text)) :
    IsFromAction ts ↔ IsFromEnd ts :=
  isOptional_action.after_iff hts

/-! In the same way, what may come from the action on comes behind a guard, or at once if there is
none, and what may come from the guard on comes behind the last symbol. -/

theorem isFromGuard_guardText_iff {c : Option Condition} {text : List Char}
    (h : IsGuard c [.guardText text]) (ts : List RuleToken) :
    IsFromGuard (.guardText text :: ts) ↔ IsFromAction ts := by
  refine isOptional_guard.after_cons_iff ⟨c, h⟩ fun hrow => ?_
  rcases head?_of_isFromAction hrow rfl with ⟨_, he⟩ | he
  · exact nomatch he
  · exact nomatch he

theorem isFromGuard_iff (hts : ∀ text, ts.head? ≠ some (.guardText text)) :
    IsFromGuard ts ↔ IsFromAction ts :=
  isOptional_guard.after_iff hts

theorem isFromSymbols_iff (hts : ∀ s, ts.head? ≠ some (.symbol s)) :
    IsFromSymbols ts ↔ IsFromGuard ts := by
  refine after_iff_of_absent ⟨[], rfl⟩ fun part hpart hne heq => ?_
  obtain ⟨rhs, rfl⟩ := hpart
  cases rhs with
  | nil => exact hne rfl
  | cons s rhs => exact hts s heq.symm

theorem isFromSymbols_symbol_iff (s : Symbol) (ts : List RuleToken) :
    IsFromSymbols (.symbol s :: ts) ↔ IsFromSymbols ts := by
  constructor
  · rintro ⟨part, more, heq, ⟨rhs, rfl⟩, hmore⟩
    cases rhs with
    | nil =>
      subst heq
      rcases head?_of_isFromGuard hmore rfl with ⟨_, he⟩ | ⟨_, he⟩ | he
      · exact nomatch he
      · exact nomatch he
      · exact nomatch he
    | cons s' rhs =>
      obtain ⟨-, rfl⟩ := List.cons.inj heq
      exact ⟨_, more, rfl, ⟨rhs, rfl⟩, hmore⟩
  · rintro ⟨part, more, rfl, ⟨rhs, rfl⟩, hmore⟩
    exact ⟨_, more, rfl, ⟨s :: rhs, rfl⟩, hmore⟩

/-- A rule file that does not begin with a line end begins with a rule. -/
theorem isFile_iff (hne : ts ≠ []) (hts : ts.head? ≠ some .lineEnd) : IsFile ts ↔ IsFromRule ts := by
  constructor
  · rintro ⟨rs, h⟩
    cases h with
    | done => exact absurd rfl hne
    | lineEnd => exact absurd rfl hts
    | @rule r _ _ ts hline hend h =>
      obtain ⟨guard, action, hguard, haction, rfl⟩ := hline
      refine ⟨r.lhs, r.rhs.map .symbol ++ (guard ++ (action ++ ts)), ?_, r.rhs.map .symbol, _, rfl,
        ⟨r.rhs, rfl⟩, guard, _, rfl, ⟨_, hguard⟩, action, ts, rfl, ⟨_, haction⟩, hend, _, h⟩
      simp only [List.cons_append, List.append_assoc]
  · rintro ⟨lhs, _, rfl, _, _, rfl, ⟨rhs, rfl⟩, guard, _, rfl, ⟨c, hguard⟩, action, more, rfl,
      ⟨a, haction⟩, hend, rs, h⟩
    refine ⟨⟨lhs, rhs, c, a⟩ :: rs, ?_⟩
    have hfile := IsRuleFile.rule (r := ⟨lhs, rhs, c, a⟩) ⟨guard, action, hguard, haction, rfl⟩ hend h
    simpa only [List.cons_append, List.append_assoc] using hfile

end

/-! ## Blocks -/

/-- The text of a block is refused: that of a guard, or a line of an action behind lines that are
statements. -/
inductive IsBlockFault : RuleToken → ReadError → Prop
  | guard {text : List Char} {e : ReadError} (hgiven : Text.isBlankText text = false)
    (hrefused : (readCondition text).result = .error e) : IsBlockFault (.guardText text) e
  | action {text : List Char} {earlier later : List (List Char)} {line : List Char} {e : ReadError}
    (hlines : statementLines text = earlier ++ line :: later)
    (hearlier : ∀ l ∈ earlier, ∃ s, (readStatement l).result = .ok s)
    (hrefused : (readStatement line).result = .error e) : IsBlockFault (.actionText text) e

/-- A block that is refused as a guard is at fault. -/
theorem isBlockFault_of_guardOf {text : List Char} {e : ReadError}
    (h : (guardOf text).result = .error e) : IsBlockFault (.guardText text) e := by
  unfold guardOf at h
  split at h
  · exact nomatch h
  · next hgiven =>
    rcases (Traced.result_bind_eq_error_iff _ _ _).1 h with h | ⟨_, _, h⟩
    · exact .guard (Bool.eq_false_iff.2 hgiven) h
    · exact nomatch h

/-- The first line that is no statement is refused. -/
theorem exists_of_readStatements {lines : List (List Char)} {e : ReadError}
    (h : (readStatements lines).result = .error e) :
    ∃ earlier line later, lines = earlier ++ line :: later ∧
      (∀ l ∈ earlier, ∃ s, (readStatement l).result = .ok s) ∧
      (readStatement line).result = .error e := by
  induction lines with
  | nil => cases h
  | cons line lines ih =>
    simp only [readStatements, Traced.result_bind_eq_error_iff] at h
    rcases h with h | ⟨s, hs, h | ⟨_, _, h⟩⟩
    · exact ⟨[], line, lines, rfl, List.forall_mem_nil _, h⟩
    · obtain ⟨earlier, refused, later, rfl, hearlier, hrefused⟩ := ih h
      exact ⟨line :: earlier, refused, later, rfl,
        List.forall_mem_cons.2 ⟨⟨s, hs⟩, hearlier⟩, hrefused⟩
    · cases h

/-- A block that is refused as an action is at fault. -/
theorem isBlockFault_of_actionOf {text : List Char} {e : ReadError}
    (h : (actionOf text).result = .error e) : IsBlockFault (.actionText text) e := by
  rcases (Traced.result_bind_eq_error_iff _ _ _).1 h with h | ⟨_, _, h⟩
  · obtain ⟨_, _, _, hlines, hearlier, hrefused⟩ := exists_of_readStatements h
    exact .action hlines hearlier hrefused
  · exact nomatch h

/-! ## Readers -/

/-- What is refused behind is refused before, and the token that comes next has been asked for. -/
structure LeadsOn (IsRow IsNext : List RuleToken → Prop) (tokens rest : RuleTokens) : Prop where
  entered : (enter rest).result = .ok ()
  refuses : ∀ e, Refuses IsBlockFault IsNext rest e → Refuses IsBlockFault IsRow tokens e

section

variable {tokens rest : RuleTokens} {e : ReadError}

theorem LeadsOn.trans {IsRow IsMiddle IsNext : List RuleToken → Prop} {middle : RuleTokens}
    (h : LeadsOn IsRow IsMiddle tokens middle) (h' : LeadsOn IsMiddle IsNext middle rest) :
    LeadsOn IsRow IsNext tokens rest :=
  ⟨h'.entered, fun e hrest => h.refuses e (h'.refuses e hrest)⟩

/-- Where there is a first token, there are tokens. -/
theorem exists_token_of_head? {t : RuleToken} (h : head? tokens = some t) :
    ∃ seen place next, tokens = .token seen t place next := by
  cases tokens with
  | ended => exact nomatch h
  | stuck => exact nomatch h
  | token seen _ place next =>
    obtain rfl := Option.some.inj h
    exact ⟨seen, place, next, rfl⟩

/-- Behind the left-hand side comes the arrow. -/
theorem isFromRule_symbol_iff (s : Symbol) (ts : List RuleToken) :
    IsFromRule (.symbol s :: ts) ↔ ∃ more, ts = .arrow :: more ∧ IsFromSymbols more := by
  constructor
  · rintro ⟨_, more, h, hmore⟩
    exact ⟨more, (List.cons.inj h).2, hmore⟩
  · rintro ⟨more, rfl, hmore⟩
    exact ⟨s, more, rfl, hmore⟩

theorem arrow_iff (ts : List RuleToken) :
    (∃ more, RuleToken.arrow :: ts = .arrow :: more ∧ IsFromSymbols more) ↔ IsFromSymbols ts := by
  constructor
  · rintro ⟨_, h, hmore⟩
    obtain ⟨-, rfl⟩ := List.cons.inj h
    exact hmore
  · exact fun h => ⟨ts, rfl, h⟩

theorem exists_isFromRule : ∃ ts, IsFromRule ts := ⟨_, ⟨"", none⟩, [], rfl, isFromSymbols_nil⟩

/-- A heading is refused where the symbol or the arrow is missing. -/
theorem refuses_heading (hentered : (enter tokens).result = .ok ())
    (h : (heading tokens).result = .error e) : Refuses IsBlockFault IsFromRule tokens e := by
  have hopen : ∃ ts, ∃ more, ts = RuleToken.arrow :: more ∧ IsFromSymbols more :=
    ⟨_, [], rfl, isFromSymbols_nil⟩
  unfold heading at h
  split at h
  · next s _ next =>
    refine Refuses.behind ?_ (isFromRule_symbol_iff s)
    rcases (Traced.result_bind_eq_error_iff _ _ _).1 h with h | ⟨_, hnext, h⟩
    · exact refuses_of_enter hopen h
    · split at h
      · rcases (Traced.result_bind_eq_error_iff _ _ _).1 h with h | ⟨_, _, h⟩
        · exact (refuses_of_enter ⟨[], isFromSymbols_nil⟩ h).behind arrow_iff
        · exact nomatch h
      · next harrow =>
        cases h
        cases next with
        | stuck => exact nomatch hnext
        | ended => exact .ended hopen fun ⟨_, he, _⟩ => nomatch he
        | token seen t place next =>
          refine .token hopen fun ts ⟨_, he, _⟩ => ?_
          obtain ⟨rfl, -⟩ := List.cons.inj he
          exact harrow _ _ _ rfl
  · next hsymbol =>
    cases h
    cases tokens with
    | stuck => exact nomatch hentered
    | ended => exact .ended exists_isFromRule fun ⟨_, _, he, _⟩ => nomatch he
    | token seen t place next =>
      refine .token exists_isFromRule fun ts ⟨_, _, he, _⟩ => ?_
      obtain ⟨rfl, -⟩ := List.cons.inj he
      exact hsymbol _ _ _ _ rfl

/-- What is refused behind a heading is refused before it. -/
theorem leadsOn_heading {lhs : Symbol} (h : (heading tokens).result = .ok (lhs, rest)) :
    LeadsOn IsFromRule IsFromSymbols tokens rest := by
  unfold heading at h
  split at h
  · obtain ⟨_, _, h⟩ := (Traced.result_bind_eq_ok_iff _ _ _).1 h
    split at h
    · obtain ⟨_, hrest, h⟩ := (Traced.result_bind_eq_ok_iff _ _ _).1 h
      cases h
      exact ⟨hrest, fun e h => (h.behind arrow_iff).behind (isFromRule_symbol_iff lhs)⟩
    · exact nomatch h
  · exact nomatch h

/-- Symbols are refused only where the text cannot be cut. -/
theorem refuses_symbols (h : (symbols tokens).result = .error e) :
    Refuses IsBlockFault IsFromSymbols tokens e := by
  fun_induction symbols tokens with
  | case1 _ s _ next ih =>
    refine Refuses.behind ?_ (isFromSymbols_symbol_iff s)
    simp only [Traced.result_bind_eq_error_iff] at h
    rcases h with h | ⟨_, _, h | ⟨_, _, h⟩⟩
    · exact refuses_of_enter ⟨[], isFromSymbols_nil⟩ h
    · exact ih h
    · cases h
  | case2 => cases h

/-- What is refused behind the symbols is refused before them. -/
theorem leadsOn_symbols {rhs : List Symbol} (hentered : (enter tokens).result = .ok ())
    (h : (symbols tokens).result = .ok (rhs, rest)) :
    LeadsOn IsFromSymbols IsFromGuard tokens rest := by
  fun_induction symbols tokens generalizing rhs with
  | case1 _ s _ next ih =>
    simp only [Traced.result_bind_eq_ok_iff] at h
    obtain ⟨_, hnext, ⟨others, after⟩, hothers, h⟩ := h
    cases h
    have hbehind := ih hnext hothers
    exact ⟨hbehind.entered, fun e h => (hbehind.refuses e h).behind (isFromSymbols_symbol_iff s)⟩
  | case2 tokens hother =>
    cases h
    -- the reader stays where it is, and the next token is no symbol
    refine ⟨hentered, fun e h => h.widen ⟨[], isFromSymbols_nil⟩ fun ts hts => ?_⟩
    refine isFromSymbols_iff fun s hs => ?_
    obtain ⟨_, _, _, rfl⟩ := exists_token_of_head? (hts.symm.trans hs)
    exact hother _ _ _ _ rfl

/-- A guard is refused if its block is at fault, or where the text cannot be cut. -/
theorem refuses_guardPart (h : (guardPart tokens).result = .error e) :
    Refuses IsBlockFault IsFromGuard tokens e := by
  unfold guardPart at h
  split at h
  · simp only [Traced.result_bind_eq_error_iff] at h
    rcases h with h | ⟨_, hguard, h | ⟨_, _, h⟩⟩
    · exact .fault ⟨[], isFromGuard_nil⟩ (isBlockFault_of_guardOf h)
    · refine Refuses.behind ?_ (isFromGuard_guardText_iff ((result_guardOf_eq_ok_iff _ _).1 hguard))
      exact refuses_of_enter ⟨[], isFromAction_nil⟩ h
    · exact nomatch h
  · exact nomatch h

/-- What is refused behind a guard, be it absent, is refused before it. -/
theorem leadsOn_guardPart {c : Option Condition} (hentered : (enter tokens).result = .ok ())
    (h : (guardPart tokens).result = .ok (c, rest)) :
    LeadsOn IsFromGuard IsFromAction tokens rest := by
  unfold guardPart at h
  split at h
  · simp only [Traced.result_bind_eq_ok_iff] at h
    obtain ⟨_, hguard, _, hrest, h⟩ := h
    cases h
    exact ⟨hrest, fun e h =>
      h.behind (isFromGuard_guardText_iff ((result_guardOf_eq_ok_iff _ _).1 hguard))⟩
  · next hother =>
    cases h
    -- there is no guard, and the reader stays where it is
    refine ⟨hentered, fun e h => h.widen ⟨[], isFromGuard_nil⟩ fun ts hts => ?_⟩
    refine isFromGuard_iff fun text htext => ?_
    obtain ⟨_, _, _, rfl⟩ := exists_token_of_head? (hts.symm.trans htext)
    exact hother _ _ _ _ rfl

/-- An action is refused if its block is at fault, or where the text cannot be cut. -/
theorem refuses_actionPart (h : (actionPart tokens).result = .error e) :
    Refuses IsBlockFault IsFromAction tokens e := by
  unfold actionPart at h
  split at h
  · simp only [Traced.result_bind_eq_error_iff] at h
    rcases h with h | ⟨_, haction, h | ⟨_, _, h⟩⟩
    · exact .fault ⟨[], isFromAction_nil⟩ (isBlockFault_of_actionOf h)
    · refine Refuses.behind ?_
        (isFromAction_actionText_iff ((result_actionOf_eq_ok_iff _ _).1 haction))
      exact refuses_of_enter ⟨[], isFromEnd_nil⟩ h
    · exact nomatch h
  · exact nomatch h

/-- What is refused behind an action, be it absent, is refused before it. -/
theorem leadsOn_actionPart {a : Option (List Statement)} (hentered : (enter tokens).result = .ok ())
    (h : (actionPart tokens).result = .ok (a, rest)) :
    LeadsOn IsFromAction IsFromEnd tokens rest := by
  unfold actionPart at h
  split at h
  · simp only [Traced.result_bind_eq_ok_iff] at h
    obtain ⟨_, haction, _, hrest, h⟩ := h
    cases h
    exact ⟨hrest, fun e h =>
      h.behind (isFromAction_actionText_iff ((result_actionOf_eq_ok_iff _ _).1 haction))⟩
  · next hother =>
    cases h
    -- there is no action, and the reader stays where it is
    refine ⟨hentered, fun e h => h.widen ⟨[], isFromAction_nil⟩ fun ts hts => ?_⟩
    refine isFromAction_iff fun text htext => ?_
    obtain ⟨_, _, _, rfl⟩ := exists_token_of_head? (hts.symm.trans htext)
    exact hother _ _ _ _ rfl

/-- The end of a rule is refused where there is another token. -/
theorem refuses_lineEnd (hentered : (enter tokens).result = .ok ())
    (h : (lineEnd tokens).result = .error e) : Refuses IsBlockFault IsFromEnd tokens e := by
  unfold lineEnd at h
  split at h
  · refine Refuses.behind ?_ isFromEnd_lineEnd_iff
    rcases (Traced.result_bind_eq_error_iff _ _ _).1 h with h | ⟨_, _, h⟩
    · exact refuses_of_enter ⟨[], isFile_nil⟩ h
    · exact nomatch h
  · exact nomatch h
  · next hlineEnd hended =>
    cases h
    cases tokens with
    | stuck => exact nomatch hentered
    | ended => exact (hended _ _ rfl).elim
    | token seen t place next =>
      -- only a line end may come there
      refine .token ⟨[], isFromEnd_nil⟩ fun ts hts => ?_
      obtain rfl := head?_of_isFromEnd hts rfl
      exact hlineEnd _ _ _ rfl

/-- What is refused behind the line end of a rule is refused before it. -/
theorem leadsOn_lineEnd (hentered : (enter tokens).result = .ok ())
    (h : (lineEnd tokens).result = .ok rest) : LeadsOn IsFromEnd IsFile tokens rest := by
  unfold lineEnd at h
  split at h
  · obtain ⟨_, hrest, h⟩ := (Traced.result_bind_eq_ok_iff _ _ _).1 h
    cases h
    exact ⟨hrest, fun e h => h.behind isFromEnd_lineEnd_iff⟩
  · cases h
    -- a file may end here
    refine ⟨hentered, fun e h => ?_⟩
    cases h with
    | ended _ hshort => exact absurd isFile_nil hshort
  · exact nomatch h

/-- Line ends are refused only where the text cannot be cut. -/
theorem refuses_skipLineEnds (h : (skipLineEnds tokens).result = .error e) :
    Refuses IsBlockFault IsFile tokens e := by
  fun_induction skipLineEnds tokens with
  | case1 _ _ next ih =>
    refine Refuses.behind ?_ isFile_lineEnd_iff
    rcases (Traced.result_bind_eq_error_iff _ _ _).1 h with h | ⟨_, _, h⟩
    · exact refuses_of_enter ⟨[], isFile_nil⟩ h
    · exact ih h
  | case2 => cases h

/-- What is refused behind skipped line ends is refused before them. -/
theorem leadsOn_skipLineEnds (hentered : (enter tokens).result = .ok ())
    (h : (skipLineEnds tokens).result = .ok rest) :
    LeadsOn IsFile IsFile tokens rest ∧ head? rest ≠ some .lineEnd := by
  fun_induction skipLineEnds tokens with
  | case1 _ _ next ih =>
    obtain ⟨_, hnext, h⟩ := (Traced.result_bind_eq_ok_iff _ _ _).1 h
    obtain ⟨hbehind, hhead⟩ := ih hnext h
    exact ⟨⟨hbehind.entered, fun e h => (hbehind.refuses e h).behind isFile_lineEnd_iff⟩, hhead⟩
  | case2 tokens hother =>
    cases h
    refine ⟨⟨hentered, fun _ h => h⟩, fun hhead => ?_⟩
    obtain ⟨_, _, _, rfl⟩ := exists_token_of_head? hhead
    exact hother _ _ _ rfl

/-! ## Rules -/

/-- A rule is refused where one of its parts is; those before it lead on to it. -/
theorem refuses_rule (hentered : (enter tokens).result = .ok ())
    (h : (rule tokens).result = .error e) : Refuses IsBlockFault IsFromRule tokens e := by
  simp only [rule, Traced.result_bind_eq_error_iff] at h
  rcases h with h | ⟨⟨lhs, _⟩, hheading, h⟩
  · exact refuses_heading hentered h
  have hfromSymbols := leadsOn_heading hheading
  rcases h with h | ⟨⟨rhs, _⟩, hsymbols, h⟩
  · exact hfromSymbols.refuses e (refuses_symbols h)
  have hfromGuard := hfromSymbols.trans (leadsOn_symbols hfromSymbols.entered hsymbols)
  rcases h with h | ⟨⟨c, _⟩, hguard, h⟩
  · exact hfromGuard.refuses e (refuses_guardPart h)
  have hfromAction := hfromGuard.trans (leadsOn_guardPart hfromGuard.entered hguard)
  rcases h with h | ⟨⟨a, _⟩, haction, h⟩
  · exact hfromAction.refuses e (refuses_actionPart h)
  have hfromEnd := hfromAction.trans (leadsOn_actionPart hfromAction.entered haction)
  rcases h with h | ⟨_, _, h | ⟨_, _, h⟩⟩
  · exact hfromEnd.refuses e (refuses_lineEnd hfromEnd.entered h)
  · cases h
  · cases h

/-- What is refused behind a rule is refused before it. -/
theorem leadsOn_rule {r : Rule} (h : (rule tokens).result = .ok (r, rest)) :
    LeadsOn IsFromRule IsFile tokens rest := by
  simp only [rule, Traced.result_bind_eq_ok_iff] at h
  obtain ⟨⟨lhs, _⟩, hheading, ⟨rhs, _⟩, hsymbols, ⟨c, _⟩, hguard, ⟨a, _⟩, haction, _, hend, _, _, h⟩ := h
  cases h
  have hfromSymbols := leadsOn_heading hheading
  have hfromGuard := hfromSymbols.trans (leadsOn_symbols hfromSymbols.entered hsymbols)
  have hfromAction := hfromGuard.trans (leadsOn_guardPart hfromGuard.entered hguard)
  have hfromEnd := hfromAction.trans (leadsOn_actionPart hfromAction.entered haction)
  exact hfromEnd.trans (leadsOn_lineEnd hfromEnd.entered hend)

/-- A rule with the line ends behind it is refused where one of both is. -/
theorem refuses_ruleAndGap (hentered : (enter tokens).result = .ok ())
    (h : (ruleAndGap tokens).result = .error e) : Refuses IsBlockFault IsFromRule tokens e := by
  simp only [ruleAndGap, Traced.result_bind_eq_error_iff] at h
  rcases h with h | ⟨⟨r, _⟩, hrule, h | ⟨_, _, h⟩⟩
  · exact refuses_rule hentered h
  · exact (leadsOn_rule hrule).refuses e (refuses_skipLineEnds h)
  · cases h

/-- What is refused behind a rule and its line ends is refused before them. -/
theorem leadsOn_ruleAndGap {r : Rule} (h : (ruleAndGap tokens).result = .ok (r, rest)) :
    LeadsOn IsFromRule IsFile tokens rest ∧ head? rest ≠ some .lineEnd := by
  simp only [ruleAndGap, Traced.result_bind_eq_ok_iff] at h
  obtain ⟨⟨_, _⟩, hrule, _, hskip, h⟩ := h
  cases h
  have hbehind := leadsOn_rule hrule
  obtain ⟨hgap, hhead⟩ := leadsOn_skipLineEnds hbehind.entered hskip
  exact ⟨hbehind.trans hgap, hhead⟩

/-- Where a rule begins, a file is refused as the rule is. -/
theorem Refuses.file_of_rule (h : Refuses IsBlockFault IsFromRule tokens e)
    (hmore : atEnd tokens = false) (hhead : head? tokens ≠ some .lineEnd) :
    Refuses IsBlockFault IsFile tokens e := by
  cases tokens with
  | ended => exact nomatch hmore
  | stuck =>
    cases h
    exact .stuck ⟨[], isFile_nil⟩
  | token seen t place next =>
    refine h.widen ⟨[], isFile_nil⟩ fun ts hts => isFile_iff (fun hnil => ?_) (hts ▸ hhead)
    rw [hnil] at hts
    exact nomatch hts

/-- By induction along the rules; none begins with a line end, because those are skipped before. -/
theorem refuses_rules (hentered : (enter tokens).result = .ok ())
    (hhead : head? tokens ≠ some .lineEnd) (h : (rules tokens).result = .error e) :
    Refuses IsBlockFault IsFile tokens e := by
  fun_induction rules tokens with
  | case1 => cases h
  | case2 tokens hmore first e' hfirst =>
    cases h
    exact (refuses_ruleAndGap hentered hfirst).file_of_rule (Bool.eq_false_iff.2 hmore) hhead
  | case3 tokens hmore first r rest hfirst others ih =>
    obtain ⟨hbehind, hnext⟩ := leadsOn_ruleAndGap hfirst
    -- the first rule has been read, so it is the others that are refused
    have hothers : (rules rest).result = .error e := by
      change (rules rest).result.map (r :: ·) = .error e at h
      cases hrules : (rules rest).result with
      | error e' =>
        rw [hrules] at h
        exact congrArg Except.error (Except.error.inj h)
      | ok rs =>
        rw [hrules] at h
        cases h
    have hrule := hbehind.refuses e (ih hbehind.entered hnext hothers)
    exact hrule.file_of_rule (Bool.eq_false_iff.2 hmore) hhead

/-- A text is refused as a rule file. -/
theorem refuses_readRules {text : List Char} (h : (readRules text).result = .error e) :
    Refuses IsBlockFault IsFile (Tokens.ofText ruleTokens text) e := by
  simp only [readRules, Traced.result_bind_eq_error_iff] at h
  rcases h with h | ⟨_, hentered, h | ⟨rest, hskip, h⟩⟩
  · exact refuses_of_enter ⟨[], isFile_nil⟩ h
  · exact refuses_skipLineEnds h
  · obtain ⟨hbehind, hhead⟩ := leadsOn_skipLineEnds hentered hskip
    exact hbehind.refuses e (refuses_rules hbehind.entered hhead h)

end

/-! ## Texts -/

/-- How a text of rules is refused because of a block in it, up to which its tokens begin a rule file:
what is told is told of the text in the block, if that is a guard, or of one of its lines. -/
inductive IsBlockRefusal (text : List Char) : ReadError → Prop
  | guard {read block : List Char} {before : List RuleToken} {e : ReadError}
    (hstands : StandsAt ruleTokens text read before ⟨'[' :: (block ++ [']']), [(1, block)]⟩
      (.guardText block)) (hopen : ∃ ts, IsFile (before ++ ts))
    (hgiven : Text.isBlankText block = false)
    (hfails : FailsAt clauseTokens IsGuardRow block e) : IsBlockRefusal text e
  | action {read block : List Char} {before : List RuleToken} {earlier later : List (List Char)}
    {line : List Char} {e : ReadError}
    (hstands : StandsAt ruleTokens text read before ⟨'\x7b' :: (block ++ ['\x7d']), [(1, block)]⟩
      (.actionText block)) (hopen : ∃ ts, IsFile (before ++ ts))
    (hlines : statementLines block = earlier ++ line :: later)
    (hearlier : ∀ l ∈ earlier, ∃ s, (readStatement l).result = .ok s)
    (hfails : FailsAt clauseTokens IsStatementRow line e) : IsBlockRefusal text e

section

variable {text : List Char} {m : Match}

/-- A block stands in the text between its marks. -/
theorem StandsAt.eq_enclosed {read block : List Char} {before : List RuleToken} {t : RuleToken}
    (h : StandsAt ruleTokens text read before m t) :
    (t = .guardText block → m = ⟨'[' :: (block ++ [']']), [(1, block)]⟩) ∧
      (t = .actionText block → m = ⟨'\x7b' :: (block ++ ['\x7d']), [(1, block)]⟩) := by
  obtain ⟨rest, i, rule, -, -, hwins, hproduce⟩ := h.exists_rest
  exact eq_enclosed_of_produce (List.mem_of_getElem? hwins.listed) hwins.found hproduce _

/-- What is told of a part of a block is not told of the text: it is a place within the part, and the
text could fail behind the block only. -/
theorem not_failsAt_of_block {read block part : List Char} {before : List RuleToken} {t : RuleToken}
    {e : ReadError} {IsRow : List ClauseToken → Prop} {opening closing : Char}
    (hstands : StandsAt ruleTokens text read before ⟨opening :: (block ++ [closing]), [(1, block)]⟩ t)
    (hopen : ∃ ts, IsFile (before ++ ts)) (hpart : part <:+: block)
    (hfails : FailsAt clauseTokens IsRow part e) : ¬FailsAt ruleTokens IsFile text e := by
  intro hfile
  obtain ⟨w, hbehind⟩ := hfile.exists_place_behind hstands hopen
  obtain ⟨u, rest, rfl, hwithin⟩ := hfails.exists_place
  have hsame := congrArg Location.offset (hbehind.symm.trans hwithin)
  have hsize := Text.byteSize_le_of_isInfix hpart
  have hpos := Char.utf8Size_pos opening
  simp only [Location.offset_advanceOver, Text.byteSize_append, Text.byteSize_cons] at hsame hsize
  omega

/-- If a block is refused, the place is not one where the text fails as a rule file. -/
theorem IsBlockRefusal.not_failsAt {e : ReadError} (h : IsBlockRefusal text e) :
    ¬FailsAt ruleTokens IsFile text e := by
  cases h with
  | guard hstands hopen _ hfails => exact not_failsAt_of_block hstands hopen (List.infix_refl _) hfails
  | action hstands hopen hlines _ hfails =>
    refine not_failsAt_of_block hstands hopen (Text.isInfix_of_mem_lines ?_) hfails
    refine List.mem_of_mem_filter (p := fun line => !Text.isBlankText line) ?_
    rw [← statementLines, hlines]
    exact List.mem_append_right _ List.mem_cons_self

end

/-- A text that is refused is refused in the text itself, with the place counted from its beginning and
what is shown taken from there on, just if it is not refused because of a block. -/
theorem readRules_refuses (text : List Char) (e : ReadError)
    (h : (readRules text).result = .error e) :
    Xor (FailsAt ruleTokens IsFile text e) (IsBlockRefusal text e) := by
  rcases failsAt_or_fault isTied_of_mem_ruleTokens (refuses_readRules h) with
    hfails | ⟨read, before, m, t, hstands, hopen, hfault⟩
  · exact .inl ⟨hfails, fun hblock => hblock.not_failsAt hfails⟩
  have hblock : IsBlockRefusal text e := by
    cases hfault with
    | guard hgiven hrefused =>
      obtain rfl := hstands.eq_enclosed.1 rfl
      exact .guard hstands hopen hgiven (failsAt_of_readCondition hrefused)
    | action hlines hearlier hrefused =>
      obtain rfl := hstands.eq_enclosed.2 rfl
      exact .action hstands hopen hlines hearlier (failsAt_of_readStatement hrefused)
  exact .inr ⟨hblock, hblock.not_failsAt⟩

/-- The second arrow of a rule is where the text is refused. -/
theorem readRules_refuses_two_arrows :
    (readRules "S -> a -> b".toList).result = .error (.syntaxError ⟨9, 1, 9⟩ .noLineEnd) ∧
      Xor (FailsAt ruleTokens IsFile "S -> a -> b".toList (.syntaxError ⟨9, 1, 9⟩ .noLineEnd))
        (IsBlockRefusal "S -> a -> b".toList (.syntaxError ⟨9, 1, 9⟩ .noLineEnd)) :=
  have hrefused : (readRules "S -> a -> b".toList).result =
      .error (.syntaxError ⟨9, 1, 9⟩ .noLineEnd) := by decide +kernel
  ⟨hrefused, readRules_refuses _ _ hrefused⟩

/-- The place of what is wrong in a guard counts from the opening bracket on: nowhere in the text does it
go on as is shown for the place that is told. -/
theorem place_in_guard_not_in_text :
    (readRules "S -> a [#]".toList).result = .error (.unknownToken ⟨⟨0, 1, 0⟩, "#"⟩) ∧
      ¬∃ read rest, "S -> a [#]".toList = read ++ rest ∧
        ({} : Location).advanceOver read = ⟨0, 1, 0⟩ ∧ String.ofList (rest.take 50) = "#" := by
  refine ⟨by decide +kernel, ?_⟩
  rintro ⟨read, rest, htext, hplace, hpreview⟩
  have hsize : Text.byteSize read = 0 := by
    have hoffset := congrArg Location.offset hplace
    rw [Location.offset_advanceOver] at hoffset
    simpa using hoffset
  obtain rfl : read = [] := by
    by_contra hne
    exact absurd hsize (Nat.ne_of_gt ((Text.byteSize_pos_iff read).2 hne))
  rw [List.nil_append] at htext
  rw [← htext] at hpreview
  exact absurd hpreview (by decide)

end GuardedGrammar.RuleText
