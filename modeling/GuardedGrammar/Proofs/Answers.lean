/-
  What a parse learns of its source.

  As a step learns nothing of the source but the one answer that it asks for, two parses go on alike as
  long as their sources answer alike (`parse_eq_of_agrees`).

  How often a source has been asked is said without looking into the session: the texts that a parse
  reports are those that come with the answers, whatever texts these are marked with (`Asks`).

  Main statement: `parse_asks_once_per_shift`.
-/
import GuardedGrammar.Proofs.Asking

namespace GuardedGrammar

/-- The first `k` answers of two sources have the same items. -/
def Source.Agrees (source source' : Source) (k : Nat) : Prop :=
  ∀ i < k, (source' i).item = (source i).item

/-- A list that goes on gives the same items first. -/
theorem Source.agrees_ofList_append (items more : List (Except ParseError Terminal)) :
    (ofList items).Agrees (ofList (items ++ more)) items.length :=
  fun _ hi => List.getElem?_append_left hi

/-- A source whose answers come with other texts. -/
def Source.marked (source : Source) (marks : Nat → List Matched) : Source :=
  fun i => { source i with seen := marks i }

/-- The texts are not part of what is answered. -/
theorem Source.agrees_marked (source : Source) (marks : Nat → List Matched) (k : Nat) :
    source.Agrees (source.marked marks) k :=
  fun _ _ => rfl

variable {g : Grammar} {source source' : Source} {output : Sink} {c : Configuration}

namespace Grammar

/-! ## Two sources -/

/-- All that matters of an answer is its item. -/
theorem ask_congr {s : Session}
    (h : (source' s.stats.terminals).item = (source s.stats.terminals).item)
    (log log' : List Event) :
    (Configuration.after log' ((ask source').run s)).session =
        (Configuration.after log ((ask source).run s)).session ∧
      (Configuration.after log' ((ask source').run s)).status =
        (Configuration.after log ((ask source).run s)).status := by
  rw [Configuration.status_after, Configuration.status_after, run_ask, run_ask, h]
  cases (source s.stats.terminals).item <;> exact ⟨rfl, rfl⟩

/-- Where two parses are at the same point, a step leads both to the same point, if the sources give the
same answer to the question that it asks. -/
theorem next_congr {c' : Configuration} (hasked : HasAsked source c)
    (hsession : c'.session = c.session) (hstatus : c'.status = c.status)
    (hagrees : source.Agrees source' ((c.next g source).session.stats.shifts + 1)) :
    (c'.next g source').session = (c.next g source).session ∧
      (c'.next g source').status = (c.next g source).status := by
  cases hread : c.status with
  | ended r =>
    rw [hread] at hstatus
    rw [Configuration.next_of_ended g source c r hread,
      Configuration.next_of_ended g source' c' r hstatus, hread]
    exact ⟨hsession, hstatus⟩
  | reading t =>
    rw [hread] at hstatus
    rw [Configuration.next_of_reading hread] at hagrees ⊢
    rw [Configuration.next_of_reading hstatus, hsession]
    rcases step_cases g c.session t with ⟨j, -, hrun⟩ | ⟨task, -, -, hrun⟩
    · rw [hrun source, Configuration.after_behind] at hagrees ⊢
      rw [hrun source', Configuration.after_behind]
      -- the question comes after as many answers as terminals have been shifted
      rw [shifts_after_ask] at hagrees
      have hterminals : (c.session.shifted j t).stats.terminals =
          (c.session.shifted j t).stats.shifts := (hasked.reading t hread).2
      refine ask_congr (hagrees _ ?_) _ _
      rw [hterminals]
      exact Nat.lt_succ_self _
    · rw [hrun source, hrun source', Configuration.status_after, Configuration.status_after]
      exact ⟨rfl, rfl⟩

/-- Two parses go on alike as long as their sources answer alike. -/
theorem parse_eq_of_agrees (n : Nat)
    (h : source.Agrees source' ((g.parse source output n).session.stats.shifts + 1)) :
    (g.parse source' output n).session = (g.parse source output n).session ∧
      (g.parse source' output n).status = (g.parse source output n).status := by
  induction n with
  | zero => exact ask_congr (h 0 (Nat.succ_pos _)) [] []
  | succ n ih =>
    rw [parse_succ] at h
    rw [parse_succ, parse_succ]
    -- the sources agree on the questions up to here, since no step takes a shift back
    have hle : (g.parse source output n).session.stats.shifts ≤
        ((g.parse source output n).next g source).session.stats.shifts := by
      rcases shifts_next g source (g.parse source output n) with heq | heq <;> omega
    obtain ⟨hsession, hstatus⟩ := ih fun i hi => h i (by omega)
    exact next_congr (hasAsked_parse g source output n) hsession hstatus h

/-! ## How often the source is asked -/

/-- In `n` steps a parse asks its source `k` times: whatever texts the answers come with, the texts of
the first `k` answers are those that the parse reports, in order. -/
def Asks (g : Grammar) (source : Source) (output : Sink) (n k : Nat) : Prop :=
  ∀ marks : Nat → List Matched,
    matchedTexts (g.parse (source.marked marks) output n).events = (List.range k).flatMap marks

/-- The source is asked once to begin with, and once for each terminal that is shifted. -/
theorem asks_iff (g : Grammar) (source : Source) (output : Sink) (n k : Nat) :
    g.Asks source output n k ↔ k = (g.parse source output n).session.stats.shifts + 1 := by
  have hasks : g.Asks source output n ((g.parse source output n).session.stats.shifts + 1) := by
    intro marks
    have hagree : (g.parse (source.marked marks) output n).session =
        (g.parse source output n).session :=
      (parse_eq_of_agrees n (source.agrees_marked marks _)).1
    rw [(hasAsked_parse g (source.marked marks) output n).matched, hagree]
    rfl
  constructor
  · intro hk
    -- a mark for each question shows how many there have been
    have hcount := (hk fun _ => [⟨0, {}, []⟩]).symm.trans (hasks fun _ => [⟨0, {}, []⟩])
    have hlength := congrArg List.length hcount
    rw [List.length_flatMap, List.length_flatMap] at hlength
    simpa using hlength
  · rintro rfl
    exact hasks

/-- A question but the first is asked by the step that shifts a terminal. -/
theorem exists_step_of_shifts_pos {n : Nat}
    (h : 0 < (g.parse source output n).session.stats.shifts) :
    ∃ m < n, (g.parse source output (m + 1)).session.stats.shifts =
        (g.parse source output m).session.stats.shifts + 1 ∧
      (g.parse source output n).session.stats.shifts =
        (g.parse source output (m + 1)).session.stats.shifts := by
  induction n with
  | zero => exact absurd (parse_zero g source output).1 (Nat.ne_of_gt h)
  | succ n ih =>
    have hnext := shifts_next g source (g.parse source output n)
    rw [← parse_succ] at hnext
    rcases hnext with heq | heq
    · rw [heq] at h ⊢
      obtain ⟨m, hlt, hm⟩ := ih h
      exact ⟨m, by omega, hm⟩
    · exact ⟨n, Nat.lt_succ_self n, heq, rfl⟩

/-- A step that shifts a terminal writes nothing. -/
theorem output_of_shifts_next
    (h : (c.next g source).session.stats.shifts = c.session.stats.shifts + 1) :
    (c.next g source).session.output = c.session.output := by
  cases hread : c.status with
  | ended r => rw [Configuration.next_of_ended g source c r hread]
  | reading t =>
    rw [Configuration.next_of_reading hread] at h ⊢
    rcases step_cases g c.session t with ⟨j, -, hrun⟩ | ⟨task, hin, -, hrun⟩
    · rw [hrun source, run_ask]
      cases (source (c.session.shifted j t).stats.terminals).item <;> rfl
    · rw [hrun source] at h
      have hsame : (task.run c.session).state.stats.shifts = c.session.stats.shifts + 1 := h
      have hkept := (hin c.session).shifts
      omega

/-- An error that the source has answered with is the error of the parse, and nothing has been written
since the question. -/
theorem parse_of_error {n : Nat} {e : ParseError}
    (he : (source (g.parse source output n).session.stats.shifts).item = some (.error e)) :
    (g.parse source output n).status = .ended (.error e) ∧
      ((g.parse source output n).session.stats.shifts = 0 ∧
          (g.parse source output n).session.output = output ∨
        ∃ m < n, (g.parse source output n).session.stats.shifts =
            (g.parse source output m).session.stats.shifts + 1 ∧
          g.parse source output n = g.parse source output (m + 1) ∧
          (g.parse source output n).session.output =
            (g.parse source output m).session.output) := by
  refine ⟨(hasAsked_parse g source output n).failed e he, ?_⟩
  -- either it was the first question, or a step has shifted a terminal and asked it
  rcases Nat.eq_zero_or_pos (g.parse source output n).session.stats.shifts with hzero | hpos
  · obtain ⟨hshifts, -, houtput⟩ := parse_zero g source output
    rw [hzero, ← hshifts] at he
    have hended := (hasAsked_parse g source output 0).failed e he
    refine .inl ⟨hzero, ?_⟩
    rw [parse_of_ended hended (Nat.zero_le n)]
    exact houtput
  · obtain ⟨m, hlt, hstep, hsame⟩ := exists_step_of_shifts_pos hpos
    rw [hsame] at he
    have hended := (hasAsked_parse g source output (m + 1)).failed e he
    have heq := parse_of_ended hended (Nat.succ_le_of_lt hlt)
    refine .inr ⟨m, hlt, hsame.trans hstep, heq, ?_⟩
    rw [heq]
    rw [parse_succ] at hstep ⊢
    exact output_of_shifts_next hstep

/-- A parse asks its source once to begin with and once for each terminal that it shifts; nothing but
the answers to these questions decides how it goes on and ends.  If it succeeds, its last question was
answered with the first end marker.  An error that the source answers with is the error of the parse,
and nothing is written after that question. -/
theorem parse_asks_once_per_shift {rules : List Rule} {g : Grammar}
    (h : (build rules).result = .ok g) (source : Source) (output : Sink) (n : Nat) :
    (∀ k, g.Asks source output n k ↔ k = (g.parse source output n).session.stats.shifts + 1) ∧
      (∀ source' k, g.Asks source output n k → source.Agrees source' k →
        g.Asks source' output n k ∧
          (g.parse source' output n).session = (g.parse source output n).session ∧
          (g.parse source' output n).result? = (g.parse source output n).result?) ∧
      (∀ stats, (g.parse source output n).result? = some (.ok stats) →
        stats.terminals = stats.shifts + 1 ∧ g.Asks source output n stats.terminals ∧
          (∃ e, (source stats.shifts).item = some (.ok e) ∧ e.name = endName) ∧
          ∀ i < stats.shifts, ∃ t, (source i).item = some (.ok t) ∧ t.name ≠ endName) ∧
      ∀ k e, g.Asks source output n (k + 1) → (source k).item = some (.error e) →
        (g.parse source output n).result? = some (.error e) ∧
          (k = 0 ∧ (g.parse source output n).session.output = output ∨
            ∃ m < n, g.Asks source output m k ∧ g.Asks source output (m + 1) (k + 1) ∧
              (g.parse source output n).session.output =
                (g.parse source output m).session.output) := by
  obtain ⟨first, rest, rfl, hg⟩ := isBuiltFrom_of_build h
  refine ⟨asks_iff g source output n, ?_, ?_, ?_⟩
  · intro source' k hk hagrees
    obtain rfl := (asks_iff g source output n k).1 hk
    obtain ⟨hsession, hstatus⟩ := parse_eq_of_agrees n hagrees
    refine ⟨(asks_iff g source' output n _).2 (by rw [hsession]), hsession, ?_⟩
    unfold Configuration.result?
    rw [hstatus]
  · intro stats hok
    obtain ⟨ts, e, rfl, htrace, haccept⟩ := exists_trace_of_ok hg hok
    obtain ⟨hshifts, hterminals⟩ := htrace.stats
    have hgives := htrace.gives
    have hcount : (g.parse source output n).session.stats.terminals =
        (g.parse source output n).session.stats.shifts + 1 := by omega
    refine ⟨hcount, (asks_iff g source output n _).2 hcount, ⟨e, ?_, ?_⟩, fun i hi => ?_⟩
    · rw [hshifts]
      exact hgives ts.length e List.getElem?_concat_length
    · exact (htrace.isPath.of_accept_mem_actions hg haccept).1
    · have hlt : i < ts.length := hshifts ▸ hi
      refine ⟨ts[i], hgives i ts[i] ?_, htrace.shifted_ne_endName hg _ (List.getElem_mem hlt)⟩
      rw [List.getElem?_append_left hlt, List.getElem?_eq_getElem hlt]
  · intro k e hk he
    have hshifts : (g.parse source output n).session.stats.shifts = k :=
      (Nat.succ.inj ((asks_iff g source output n _).1 hk)).symm
    obtain ⟨hstatus, hwritten⟩ := parse_of_error (by rw [hshifts]; exact he)
    refine ⟨Configuration.result?_eq_some_iff.2 hstatus, ?_⟩
    rcases hwritten with ⟨hzero, hsame⟩ | ⟨m, hlt, hstep, heq, hsame⟩
    · exact .inl ⟨hshifts.symm.trans hzero, hsame⟩
    · refine .inr ⟨m, hlt, (asks_iff g source output m k).2 (hshifts.symm.trans hstep), ?_, hsame⟩
      refine (asks_iff g source output (m + 1) _).2 ?_
      rw [← heq, hshifts]

/-- A parse of two pairs of brackets asks five times, and does not learn that a source is broken behind
the end marker. -/
theorem parse_nested_asks_five_times : ∃ g, (build nested).result = .ok g ∧
    g.Asks (.ofList (twoPairs.map .ok)) {} 8 5 ∧
    (g.parse (.ofList (twoPairs.map .ok ++ [.error (.broken "closed")])) {} 8).result? =
      some (.ok { terminals := 5, shifts := 4, reductions := 3, guards := 2 }) := by
  have hrun : (build nested).result.map (fun g =>
      (g.parse (.ofList (twoPairs.map .ok)) {} 8).result?) =
        .ok (some (.ok { terminals := 5, shifts := 4, reductions := 3, guards := 2 })) := by
    decide +kernel
  obtain ⟨g, hg, hok⟩ := exists_of_map_eq_ok hrun
  obtain ⟨-, hsame, haccepted, -⟩ :=
    parse_asks_once_per_shift hg (.ofList (twoPairs.map .ok)) {} 8
  obtain ⟨-, hfive, -⟩ := haccepted _ hok
  obtain ⟨-, -, hresult⟩ := hsame _ 5 hfive (Source.agrees_ofList_append _ _)
  exact ⟨g, hg, hfive, hresult.trans hok⟩

end Grammar

end GuardedGrammar
