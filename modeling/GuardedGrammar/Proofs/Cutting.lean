/-
  Texts that are cut off in front of a rest.

  What a lexer cuts off first may depend on all of the text ahead, so the beginning of a text is cut
  with its rest in view (`CutsOff`); behind it the lexer goes on as if nothing stood before
  (`CutsOff.cutsInto_iff`).  A text is cut to its end into just the values that reading its tokens
  gives (`cutsInto_iff`), wherever it begins.

  What reading tokens comes upon next, the end, a failure or a token, is found in the text in three
  lemmas (`exists_of_tokensFrom_eq_ended` and so on), which say where it stands.
-/
import GuardedGrammar.Proofs.Spelling

namespace GuardedGrammar

variable {τ : Type} {rules : List (TokenRule τ)}

/-- There is one longest match only. -/
theorem IsLongest.unique {text : List Char} {i j : Nat} {rule other : TokenRule τ} {m n : Match}
    (h : IsLongest rules text i rule m) (h' : IsLongest rules text j other n) :
    rule = other ∧ m = n := by
  have hlength : n.text.length = m.text.length :=
    Nat.le_antisymm (h.longest j other n h'.listed h'.found) (h'.longest i rule m h.listed h.found)
  obtain rfl : i = j :=
    Nat.le_antisymm (h.first j other n h'.listed h'.found hlength)
      (h'.first i rule m h.listed h.found hlength.symm)
  obtain rfl := Option.some.inj (h.listed.symm.trans h'.listed)
  exact ⟨rfl, Option.some.inj (h.found.symm.trans h'.found)⟩

/-- In front of the rest, the text is cut into these tokens. -/
inductive CutsOff (rules : List (TokenRule τ)) : List Char → List Char → List τ → Prop
  | nil {rest : List Char} : CutsOff rules [] rest []
  | step {i : Nat} {rule : TokenRule τ} {m : Match} {u rest : List Char} {values : List τ}
    (hwins : IsLongest rules (m.text ++ (u ++ rest)) i rule m) (h : CutsOff rules u rest values) :
    CutsOff rules (m.text ++ u) rest ((rule.produce m).toList ++ values)

/-- A match that wins is cut off. -/
theorem IsLongest.cutsOff {i : Nat} {rule : TokenRule τ} {m : Match} {rest : List Char} {t : τ}
    (h : IsLongest rules (m.text ++ rest) i rule m) (hproduce : rule.produce m = some t) :
    CutsOff rules m.text rest [t] := by
  have hcuts := CutsOff.step (u := []) h .nil
  rwa [List.append_nil, hproduce] at hcuts

/-- A text that is cut to its end is cut off at its end. -/
theorem CutsInto.cutsOff {text : List Char} {values : List τ} (h : CutsInto rules text values) :
    CutsOff rules text [] values := by
  induction h with
  | nil => exact .nil
  | @step _ _ _ rest _ hwins _ ih =>
    rw [← List.append_nil rest] at hwins
    exact .step hwins ih

/-- Each token is made of a match that wins somewhere in the text. -/
theorem CutsOff.exists_of_mem {u rest : List Char} {values : List τ} (h : CutsOff rules u rest values)
    {t : τ} (ht : t ∈ values) : ∃ before behind i rule m, u = before ++ (m.text ++ behind) ∧
      IsLongest rules (m.text ++ (behind ++ rest)) i rule m ∧ rule.produce m = some t := by
  induction h with
  | nil => exact nomatch ht
  | @step i rule m u rest values hwins _ ih =>
    rcases List.mem_append.1 ht with ht | ht
    · exact ⟨[], u, i, rule, m, rfl, hwins, Option.mem_toList.1 ht⟩
    · obtain ⟨before, behind, i', rule', m', rfl, hwins', hproduce⟩ := ih ht
      exact ⟨m.text ++ before, behind, i', rule', m', (List.append_assoc ..).symm, hwins', hproduce⟩

/-- In a text that is cut to its end, too, each token is made of a match that wins. -/
theorem CutsInto.exists_of_mem {text : List Char} {values : List τ} (h : CutsInto rules text values)
    {t : τ} (ht : t ∈ values) : ∃ before rest i rule m, text = before ++ (m.text ++ rest) ∧
      IsLongest rules (m.text ++ rest) i rule m ∧ rule.produce m = some t := by
  obtain ⟨before, rest, i, rule, m, rfl, hwins, hproduce⟩ := h.cutsOff.exists_of_mem ht
  rw [List.append_nil] at hwins
  exact ⟨before, rest, i, rule, m, rfl, hwins, hproduce⟩

/-- What holds of whatever the rules make holds of all tokens. -/
theorem CutsOff.forall_mem {P : τ → Prop} {u rest : List Char} {values : List τ}
    (h : CutsOff rules u rest values)
    (hmakes : ∀ rule ∈ rules, ∀ ahead m t, rule.find? ahead = some m → rule.produce m = some t → P t) :
    ∀ t ∈ values, P t := by
  intro t ht
  obtain ⟨_, _, i, rule, m, -, hwins, hproduce⟩ := h.exists_of_mem ht
  exact hmakes rule (List.mem_of_getElem? hwins.listed) _ m t hwins.found hproduce

namespace CutsOff

variable {u v rest : List Char} {xs ys : List τ}

/-- One beginning behind the other, if the first is cut in front of the second. -/
theorem append (h : CutsOff rules u (v ++ rest) xs) (h' : CutsOff rules v rest ys) :
    CutsOff rules (u ++ v) rest (xs ++ ys) := by
  generalize hbehind : v ++ rest = behind at h
  induction h with
  | nil => exact h'
  | @step _ _ _ u _ _ hwins _ ih =>
    subst hbehind
    rw [← List.append_assoc u] at hwins
    rw [List.append_assoc, List.append_assoc]
    exact .step hwins (ih rfl)

/-- What is dropped behind a beginning goes with it. -/
theorem append_dropped (h : CutsOff rules u (v ++ rest) xs) (h' : CutsOff rules v rest []) :
    CutsOff rules (u ++ v) rest xs := by
  have hall := h.append h'
  rwa [List.append_nil] at hall

/-- A beginning that is cut off, and the rest cut to its end. -/
theorem cutsInto (h : CutsOff rules u rest xs) (h' : CutsInto rules rest ys) :
    CutsInto rules (u ++ rest) (xs ++ ys) := by
  induction h with
  | nil => exact h'
  | step hwins _ ih =>
    rw [List.append_assoc, List.append_assoc]
    exact .step hwins (ih h')

/-- What the search for the longest match finds is cut off. -/
theorem of_longest? (htied : ∀ rule ∈ rules, rule.IsTied) {c : Candidate τ}
    (hlongest : longest? rules (c.text ++ (u ++ rest)) = some c) (h : CutsOff rules u rest xs) :
    CutsOff rules (c.text ++ u) rest (c.token.toList ++ xs) := by
  obtain ⟨rule, m, hwins, hc⟩ := (longest?_eq_some_iff htied).1 hlongest
  have htext : c.text = m.text := congrArg Candidate.text hc
  have htoken : c.token = rule.produce m := congrArg Candidate.token hc
  rw [htext] at hwins ⊢
  rw [htoken]
  exact .step hwins h

/-- What is not empty begins with the match that wins. -/
theorem exists_of_isLongest (h : CutsOff rules u rest xs) (hne : u ≠ []) {i : Nat}
    {rule : TokenRule τ} {m : Match} (hwins : IsLongest rules (u ++ rest) i rule m) :
    ∃ w ys, u = m.text ++ w ∧ xs = (rule.produce m).toList ++ ys ∧ CutsOff rules w rest ys := by
  cases h with
  | nil => exact absurd rfl hne
  | step hfirst h =>
    rw [List.append_assoc] at hwins
    obtain ⟨rfl, rfl⟩ := hfirst.unique hwins
    exact ⟨_, _, rfl, rfl, h⟩

/-- Something wins at the beginning of what is cut off, unless it is empty. -/
theorem exists_isLongest (h : CutsOff rules u rest xs) (hne : u ≠ []) :
    ∃ i rule m, IsLongest rules (u ++ rest) i rule m := by
  cases h with
  | nil => exact absurd rfl hne
  | step hwins _ =>
    rw [← List.append_assoc] at hwins
    exact ⟨_, _, _, hwins⟩

/-- Nothing is cut into no tokens. -/
theorem eq_nil (h : CutsOff rules [] rest xs) : xs = [] := by
  generalize hu : ([] : List Char) = u at h
  cases h with
  | nil => rfl
  | step hwins => exact absurd (List.append_eq_nil_iff.1 hu.symm).1 hwins.reads

/-- Of two beginnings of a text that are cut off, the longer one goes on where the shorter one
ends. -/
theorem of_length_le {behind : List Char} (h : CutsOff rules u rest xs)
    (h' : CutsOff rules v behind ys) (htext : u ++ rest = v ++ behind) (hle : u.length ≤ v.length) :
    ∃ w zs, v = u ++ w ∧ ys = xs ++ zs ∧ CutsOff rules w behind zs := by
  induction h generalizing v ys with
  | nil => exact ⟨v, ys, rfl, rfl, h'⟩
  | @step _ rule m u rest _ hwins _ ih =>
    have hne : v ≠ [] := by
      rintro rfl
      exact hwins.reads (List.append_eq_nil_iff.1 (List.length_eq_zero_iff.1 (Nat.le_zero.1 hle))).1
    rw [← List.append_assoc, htext] at hwins
    -- the longer beginning starts with the same match, and the induction is on what is behind it
    obtain ⟨v, ys, rfl, rfl, hv⟩ := h'.exists_of_isLongest hne hwins
    rw [List.append_assoc, List.append_assoc] at htext
    rw [List.length_append, List.length_append] at hle
    obtain ⟨w, zs, rfl, rfl, hw⟩ := ih hv (List.append_cancel_left htext) (Nat.le_of_add_le_add_left hle)
    exact ⟨w, zs, (List.append_assoc ..).symm, (List.append_assoc ..).symm, hw⟩

end CutsOff

/-! ## Values -/

/-- Cutting a text to its end gives its tokens. The place where it begins and what has been dropped
before do not matter. -/
theorem values?_tokensFrom_eq_some_iff (htied : ∀ rule ∈ rules, rule.IsTied) (place : Location)
    (dropped : List Matched) {text : List Char} {values : List τ} :
    ((lexFrom rules place text).tokensFrom dropped).values? = some values ↔
      CutsInto rules text values := by
  refine ⟨fun h => ?_, fun h => h.values?_tokensFrom htied place dropped⟩
  have hmunches := munches_lexFrom htied place text
  generalize lexFrom rules place text = l at h hmunches
  -- a match without a token is dropped, and the values are those of what follows
  induction hmunches generalizing dropped values with
  | finished =>
    obtain rfl := Option.some.inj h
    exact .nil
  | stuck => exact nomatch h
  | @step _ _ _ rule m _ hwins _ ih =>
    cases hproduce : rule.produce m with
    | none =>
      rw [hproduce] at h
      have hcuts := CutsInto.step hwins (ih _ h)
      rwa [hproduce] at hcuts
    | some t =>
      rw [hproduce] at h
      obtain ⟨others, hothers, rfl⟩ := Option.map_eq_some_iff.1 h
      have hcuts := CutsInto.step hwins (ih _ hothers)
      rwa [hproduce] at hcuts

/-- What is cut to its end has the tokens that reading gives. -/
theorem cutsInto_iff (htied : ∀ rule ∈ rules, rule.IsTied) {text : List Char} {values : List τ} :
    CutsInto rules text values ↔ (Tokens.ofText rules text).values? = some values :=
  (values?_tokensFrom_eq_some_iff htied _ _).symm

/-- Behind a match that wins, a text is cut as if nothing stood before. -/
theorem cutsInto_append_iff (htied : ∀ rule ∈ rules, rule.IsTied) {i : Nat} {rule : TokenRule τ}
    {m : Match} {rest : List Char} {values : List τ}
    (hwins : IsLongest rules (m.text ++ rest) i rule m) :
    CutsInto rules (m.text ++ rest) values ↔
      ∃ ys, CutsInto rules rest ys ∧ values = (rule.produce m).toList ++ ys := by
  rw [cutsInto_iff htied, Tokens.ofText, lex, lexFrom_append htied hwins]
  cases rule.produce m with
  | none =>
    show ((lexFrom rules _ rest).tokensFrom _).values? = _ ↔ _
    rw [values?_tokensFrom_eq_some_iff htied]
    simp
  | some t =>
    show ((lexFrom rules _ rest).tokensFrom []).values?.map (t :: ·) = _ ↔ _
    simp only [Option.map_eq_some_iff, values?_tokensFrom_eq_some_iff htied, Option.toList_some,
      List.singleton_append, eq_comm (a := values)]

/-- Behind a beginning that is cut off, a text is cut as if nothing stood before. -/
theorem CutsOff.cutsInto_iff (htied : ∀ rule ∈ rules, rule.IsTied) {u rest : List Char}
    {xs values : List τ} (h : CutsOff rules u rest xs) :
    CutsInto rules (u ++ rest) values ↔ ∃ ys, CutsInto rules rest ys ∧ values = xs ++ ys := by
  induction h generalizing values with
  | nil => simp
  | step hwins _ ih =>
    rw [List.append_assoc, cutsInto_append_iff htied hwins]
    simp only [ih]
    constructor
    · rintro ⟨_, ⟨ys, hys, rfl⟩, rfl⟩
      exact ⟨ys, hys, (List.append_assoc ..).symm⟩
    · rintro ⟨ys, hys, rfl⟩
      exact ⟨_, ⟨ys, hys, rfl⟩, List.append_assoc ..⟩

/-! ## What reading tokens comes upon -/

section

variable {place behind : Location} {dropped seen : List Matched} {text : List Char}

/-- The end comes behind all of the text. -/
theorem exists_of_tokensFrom_eq_ended (htied : ∀ rule ∈ rules, rule.IsTied)
    (h : (lexFrom rules place text).tokensFrom dropped = .ended seen behind) :
    CutsOff rules text [] [] ∧ behind = place.advanceOver text := by
  have hmunches := munches_lexFrom htied place text
  generalize lexFrom rules place text = l at h hmunches
  induction hmunches generalizing dropped with
  | finished =>
    cases h
    exact ⟨.nil, rfl⟩
  | stuck => exact nomatch h
  | @step place rest _ rule m _ hwins _ ih =>
    cases hproduce : rule.produce m with
    | none =>
      rw [hproduce] at h
      obtain ⟨hcuts, rfl⟩ := ih h
      rw [← List.append_nil rest] at hwins
      have hstep := CutsOff.step hwins hcuts
      rw [hproduce] at hstep
      exact ⟨hstep, (Location.advanceOver_append ..).symm⟩
    | some t =>
      rw [hproduce] at h
      exact nomatch h

/-- A failure comes where no rule reads anything of the text that is left. -/
theorem exists_of_tokensFrom_eq_stuck (htied : ∀ rule ∈ rules, rule.IsTied) {e : UnknownToken}
    (h : (lexFrom rules place text).tokensFrom dropped = .stuck seen e) :
    ∃ u rest, text = u ++ rest ∧ CutsOff rules u rest [] ∧ rest ≠ [] ∧
      (∀ rule ∈ rules, ∀ m, rule.find? rest = some m → m.text = []) ∧
      e = ⟨place.advanceOver u, String.ofList (rest.take 50)⟩ := by
  have hmunches := munches_lexFrom htied place text
  generalize lexFrom rules place text = l at h hmunches
  induction hmunches generalizing dropped with
  | finished => exact nomatch h
  | stuck htext hnone =>
    cases h
    exact ⟨[], _, rfl, .nil, htext, hnone, rfl⟩
  | @step place _ _ rule m _ hwins _ ih =>
    cases hproduce : rule.produce m with
    | none =>
      rw [hproduce] at h
      obtain ⟨u, rest, rfl, hcuts, hrest, hnone, rfl⟩ := ih h
      have hstep := CutsOff.step hwins hcuts
      rw [hproduce] at hstep
      refine ⟨m.text ++ u, rest, (List.append_assoc ..).symm, hstep, hrest, hnone, ?_⟩
      rw [Location.advanceOver_append]
    | some t =>
      rw [hproduce] at h
      exact nomatch h

/-- A token comes where its rule wins, and the tokens that follow it are those of the text behind. -/
theorem exists_of_tokensFrom_eq_token (htied : ∀ rule ∈ rules, rule.IsTied) {t : τ}
    {next : Tokens τ}
    (h : (lexFrom rules place text).tokensFrom dropped = .token seen t behind next) :
    ∃ u m rest i rule, text = u ++ (m.text ++ rest) ∧ CutsOff rules u (m.text ++ rest) [] ∧
      IsLongest rules (m.text ++ rest) i rule m ∧ rule.produce m = some t ∧
      behind = place.advanceOver (u ++ m.text) ∧
      next = (lexFrom rules behind rest).tokensFrom [] := by
  have hmunches := munches_lexFrom htied place text
  generalize lexFrom rules place text = l at h hmunches
  induction hmunches generalizing dropped with
  | finished => exact nomatch h
  | stuck => exact nomatch h
  | @step place rest i rule m l hwins hmunches ih =>
    obtain rfl := (munches_iff htied).1 hmunches
    -- a match without a token goes before the token, and one with a token is it
    cases hproduce : rule.produce m with
    | none =>
      rw [hproduce] at h
      obtain ⟨u, n, after, j, other, rfl, hcuts, hlongest, hvalue, hbehind, hnext⟩ := ih h
      have hstep := CutsOff.step hwins hcuts
      rw [hproduce] at hstep
      refine ⟨m.text ++ u, n, after, j, other, (List.append_assoc ..).symm, hstep, hlongest, hvalue,
        ?_, hnext⟩
      rw [hbehind, List.append_assoc, Location.advanceOver_append place]
    | some value =>
      rw [hproduce] at h
      cases h
      exact ⟨[], m, rest, i, rule, rfl, .nil, hwins, hproduce, rfl, rfl⟩

end

end GuardedGrammar
