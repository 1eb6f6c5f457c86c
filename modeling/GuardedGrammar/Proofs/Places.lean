/-
  The places of a tokenizer.

  A tokenizer does not look at the text behind it again.  Its place is where the texts of its matches
  lead, one behind the other, and each of them begins where the one before it ends.  So the place
  counts these texts, whatever the rules find (`Tracks`, one lemma for a match and one for two parts of
  a way).

  That they are also the beginning of the text is up to the rules: it holds of every text exactly if
  whatever wins stands where the text ahead begins (`WinAhead`).  Otherwise what is counted is other text
  than what stands there, and the place may be inside a character, where no call comes to an answer any
  more.  A rule from a written pattern is tied if the first step of its program is
  (`isTied_of_ofText?`); one that closes a parenthesis which it has not opened need not be.

  Main statement: `tokenizer_keeps_place`.
-/
import Mathlib.Data.List.Induction
import GuardedGrammar.Lexer.Written
import GuardedGrammar.Proofs.MaximalMunch

namespace GuardedGrammar

/-! ## What a place counts -/

/-- The place counts this text: its bytes, its lines, and the characters behind its last line feed. -/
structure Location.Counts (l : Location) (text : List Char) : Prop where
  offset : l.offset = Text.byteSize text
  line : l.line = 1 + text.count '\n'
  column : l.column = (text.reverse.takeWhile (· ≠ '\n')).length

/-- By induction from the end of the text. -/
theorem Location.counts_advanceOver (text : List Char) :
    (({} : Location).advanceOver text).Counts text := by
  refine ⟨(offset_advanceOver {} text).trans (Nat.zero_add _), ?_, ?_⟩
  · induction text using List.reverseRecOn with
    | nil => rfl
    | append_singleton text c ih =>
      rw [advanceOver_append, List.count_append, ← Nat.add_assoc, ← ih]
      by_cases hc : c = '\n'
      · subst hc
        rfl
      · rw [List.count_singleton, if_neg (by simpa using hc)]
        simp [advance, hc]
  · induction text using List.reverseRecOn with
    | nil => rfl
    | append_singleton text c ih =>
      rw [advanceOver_append, List.reverse_append]
      by_cases hc : c = '\n'
      · subst hc
        rfl
      · simp [advance, hc, ih]

/-! ## Written patterns

A pattern that is written in a file becomes a program, whose threads carry the place where their
match started. If the first step asks for the start of the text, no thread survives that started
elsewhere. -/

namespace Program

variable {program : Program}

/-- Where a match starts does not change on the way. -/
theorem start_of_mem_successors {place : Place} {t s : Thread} {step : Pattern.Step}
    (h : s ∈ successors place t step) : s.start = t.start := by
  -- the end of a group is noted without touching the start
  have hclose (number : Nat) : (t.closeAt number place.before).start = t.start := by
    unfold Thread.closeAt
    split <;> rfl
  have hsingle {u : Thread} (h : s ∈ [u]) (hu : u.start = t.start) : s.start = t.start :=
    (congrArg Thread.start (List.mem_singleton.1 h)).trans hu
  unfold successors at h
  split at h
  · exact hsingle h rfl
  · rcases List.mem_pair.1 h with rfl | rfl
    · rfl
    · rfl
  · exact hsingle h rfl
  · exact hsingle h (hclose _)
  · split at h
    · exact hsingle h rfl
    · exact nomatch h
  · split at h
    · exact hsingle h rfl
    · exact nomatch h
  · exact nomatch h
  · exact nomatch h

/-- Where all threads that wait started at one place, so did those that settle. -/
theorem start_of_mem_settled {place : Place} {start : Nat} {seen : Array Bool}
    {waiting pending : List Thread} (hwaiting : ∀ t ∈ waiting, t.start = start)
    (hpending : ∀ t ∈ pending, t.start = start) :
    ∀ t ∈ program.settled place seen waiting pending, t.start = start := by
  fun_induction settled program place seen waiting pending with
  | case1 => exact fun t ht => hwaiting t (List.mem_reverse.1 ht)
  | case2 _ _ _ _ _ _ ih => exact ih hwaiting (List.forall_mem_cons.1 hpending).2
  | case3 seen waiting t pending _ step _ ih =>
    obtain ⟨hfirst, hothers⟩ := List.forall_mem_cons.1 hpending
    refine ih ?_ (List.forall_mem_append.2 ⟨fun s hs => ?_, hothers⟩)
    · split
      · exact List.forall_mem_cons.2 ⟨hfirst, hwaiting⟩
      · exact hwaiting
    · exact (start_of_mem_successors hs).trans hfirst
  | case4 _ _ _ _ _ ih => exact ih hwaiting (List.forall_mem_cons.1 hpending).2

/-- Where no match starts elsewhere, a new thread starts at the start of the text. -/
theorem start_of_mem_threadsAt {place : Place} {before : Nat} {pending : List Thread}
    {found : Option Found} (hpending : ∀ t ∈ pending, t.start = 0) :
    ∀ t ∈ program.threadsAt place (pending ++ entering false before found), t.start = 0 := by
  refine start_of_mem_settled (List.forall_mem_nil _) (List.forall_mem_append.2 ⟨hpending, ?_⟩)
  intro t ht
  unfold entering at ht
  split at ht
  · next hstart =>
    rw [List.mem_singleton.1 ht]
    simpa using (Bool.and_eq_true_iff.1 hstart).2
  · exact nomatch ht

/-- If no thread started elsewhere, neither did the match that is found next. -/
theorem start_of_mem_found {threads : List Thread} {before : Nat} {found : Option Found}
    (hthreads : ∀ t ∈ threads, t.start = 0) (hfound : ∀ f ∈ found, f.thread.start = 0) :
    ∀ f ∈ ((threads.find? program.accepts).map fun t => Found.mk t before).or found,
      f.thread.start = 0 := by
  intro f hf
  rcases Option.or_eq_some_iff.1 hf with hf | ⟨-, hf⟩
  · obtain ⟨t, ht, rfl⟩ := Option.map_eq_some_iff.1 hf
    exact hthreads t (List.mem_of_find?_eq_some ht)
  · exact hfound f hf

/-- If no match starts elsewhere, then all start at the start of the text. By induction on the text. -/
theorem start_of_run {before : Nat} {pending : List Thread} {found : Option Found}
    {text : List Char} {g : Found} (hpending : ∀ t ∈ pending, t.start = 0)
    (hfound : ∀ f ∈ found, f.thread.start = 0)
    (h : program.run false before pending found text = some g) : g.thread.start = 0 := by
  induction text generalizing before pending found with
  | nil =>
    unfold run at h
    dsimp only at h
    split at h
    · exact hfound g h
    · exact start_of_mem_found (start_of_mem_threadsAt hpending) hfound g h
  | cons c rest ih =>
    unfold run at h
    dsimp only at h
    split at h
    · exact hfound g h
    · refine ih (fun t ht => ?_) (start_of_mem_found (start_of_mem_threadsAt hpending) hfound) h
      obtain ⟨s, hs, hadvance⟩ := List.mem_filterMap.1 ht
      have hstart := start_of_mem_threadsAt hpending s ((List.takeWhile_sublist _).subset hs)
      unfold advance at hadvance
      split at hadvance
      · split at hadvance
        · rw [← Option.some.inj hadvance]
          exact hstart
        · exact nomatch hadvance
      · exact nomatch hadvance

/-- A program that begins by asking for the start of the text matches nowhere else. -/
theorem roams_eq_false {next : Nat} (h : program[0]? = some (.atStart next)) :
    program.roams = false := by
  have hsize : 0 < program.size := (Array.getElem?_eq_some_iff.1 h).1
  have hnone (last : Bool) : program.threadsAt ⟨1, last⟩ [{ step := 0, start := 1 }] = [] := by
    -- the first step has not been tried yet, and it fails everywhere but at the start
    have hseen : (Array.replicate program.size false)[0]? = some false := by
      rw [Array.getElem?_replicate, if_pos hsize]
    unfold threadsAt settled
    split
    · rw [show program[({ step := 0, start := 1 } : Thread).step]? = some (.atStart next) from h]
      exact settled.eq_1 ..
    · next hother => exact absurd hseen hother
  simp [roams, hnone]

/-- What such a program finds is the beginning of the text. -/
theorem isPrefix_of_find? {next : Nat} (hfirst : program[0]? = some (.atStart next))
    {text : List Char} {m : Match} (h : program.find? text = some m) : m.text <+: text := by
  obtain ⟨found, hrun, hm⟩ := Option.map_eq_some_iff.1 h
  rw [roams_eq_false hfirst] at hrun
  have hstart := start_of_run (List.forall_mem_nil _) (fun f hf => absurd hf (Option.not_mem_none f)) hrun
  rw [← hm]
  show (text.drop found.thread.start).take _ <+: text
  rw [hstart]
  exact List.take_prefix _ _

end Program

/-- A rule from a written pattern is tied if its program begins by asking for the start of the text
ahead. -/
theorem TokenRule.isTied_of_ofText? {τ : Type} {pattern : String} {produce : Match → Option τ}
    {rule : TokenRule τ} (h : ofText? pattern produce = some rule) {next : Nat}
    (hfirst : (program? pattern).bind (·[0]?) = some (.atStart next)) : rule.IsTied := by
  obtain ⟨program, hprogram, hrule⟩ := Option.map_eq_some_iff.1 h
  rw [hprogram] at hfirst
  exact hrule ▸ fun _ _ => Program.isPrefix_of_find? hfirst

/-- What a rule from a written pattern finds is a part of the text ahead. -/
theorem TokenRule.isInfix_of_ofText? {τ : Type} {pattern : String} {produce : Match → Option τ}
    {rule : TokenRule τ} (h : ofText? pattern produce = some rule) {text : List Char} {m : Match}
    (hfind : rule.find? text = some m) : m.text <:+: text := by
  obtain ⟨program, -, rfl⟩ := Option.map_eq_some_iff.1 h
  exact Program.isInfix_of_find? hfind

/-! ## Matches in a row

Each call makes a few matches and leaves the place behind the last of them. Ways of this kind can be
put together, so that all calls up to some number make one way from the start of the text. -/

/-- The texts of matches, one behind the other. -/
def Matched.join (ms : List Matched) : List Char := ms.flatMap Matched.text

/-- From a place on, each match reads something, and begins where those before it lead. -/
def AreInARow : Location → List Matched → Prop
  | _, [] => True
  | place, m :: ms => m.location = place ∧ m.text ≠ [] ∧ AreInARow (place.advanceOver m.text) ms

/-- Two rows of matches are one if the second begins where the first leads. -/
theorem AreInARow.append {place : Location} {ms ns : List Matched} (h : AreInARow place ms)
    (h' : AreInARow (place.advanceOver (Matched.join ms)) ns) : AreInARow place (ms ++ ns) := by
  induction ms generalizing place with
  | nil => exact h'
  | cons m ms ih =>
    obtain ⟨hplace, hreads, hothers⟩ := h
    rw [Matched.join, List.flatMap_cons, Location.advanceOver_append] at h'
    exact ⟨hplace, hreads, ih hothers h'⟩

/-- A match of the row begins where those before it lead, and reads something. -/
theorem AreInARow.of_append_cons {place : Location} {before after : List Matched} {m : Matched}
    (h : AreInARow place (before ++ m :: after)) :
    m.location = place.advanceOver (Matched.join before) ∧ m.text ≠ [] := by
  induction before generalizing place with
  | nil => exact ⟨h.1, h.2.1⟩
  | cons n before ih =>
    rw [Matched.join, List.flatMap_cons, Location.advanceOver_append]
    exact ih h.2.2

section

variable {τ : Type} {rules : List (TokenRule τ)}

/-- Whatever wins stands where the text ahead begins. -/
def WinAhead (rules : List (TokenRule τ)) : Prop :=
  ∀ text c, text ≠ [] → longest? rules text = some c → c.text <+: text

/-- Rules that only match at the start of the text ahead win there. -/
theorem winAhead_of_isTied (htied : ∀ rule ∈ rules, rule.IsTied) : WinAhead rules :=
  fun _ _ _ => isPrefix_of_longest? htied

/-- All that the rules find are parts of the text ahead. -/
def FindsParts (rules : List (TokenRule τ)) : Prop :=
  ∀ rule ∈ rules, ∀ text m, rule.find? text = some m → m.text <:+: text

/-- Then the match that wins has no more bytes than the text ahead. -/
theorem FindsParts.byteSize_le (h : FindsParts rules) {text : List Char} {c : Candidate τ}
    (hwins : longest? rules text = some c) : Text.byteSize c.text ≤ Text.byteSize text := by
  refine of_foldl_better (P := fun c => Text.byteSize c.text ≤ Text.byteSize text) _ none
    (fun _ hb => nomatch hb) (fun d hd _ => ?_) c hwins
  obtain ⟨rule, m, hlisted, hfound, hd⟩ := mem_candidates.1 hd
  rw [hd]
  exact Text.byteSize_le_of_isInfix (h rule (List.mem_of_getElem? hlisted) text m hfound)

/-- How many characters of a text are left at a place. Inside a character, none can be told. -/
def charsFrom (text : List Char) (place : Location) : Nat :=
  ((Text.sliceFrom? place.offset text).map List.length).getD 0

theorem charsFrom_of_some {text rest : List Char} {place : Location}
    (h : Text.sliceFrom? place.offset text = some rest) : charsFrom text place = rest.length := by
  rw [charsFrom, h]
  rfl

/-- Matches lead from a place of the text to another one. -/
structure Tracks (rules : List (TokenRule τ)) (text : List Char) (place : Location)
    (ms : List Matched) (behind : Location) : Prop where
  inARow : AreInARow place ms
  leadsTo : behind = place.advanceOver (Matched.join ms)
  /-- Each match leaves less than there was. -/
  shorter : ms.length + charsFrom text behind ≤ charsFrom text place
  within : FindsParts rules → place.offset ≤ Text.byteSize text → behind.offset ≤ Text.byteSize text
  whole : WinAhead rules → ∀ rest, Text.sliceFrom? place.offset text = some rest →
    ∃ left, Matched.join ms ++ left = rest ∧ Text.sliceFrom? behind.offset text = some left

namespace Tracks

variable {place behind : Location} {text rest : List Char} {ms ns : List Matched}

theorem refl (text : List Char) (place : Location) : Tracks rules text place [] place :=
  ⟨trivial, rfl, Nat.le_of_eq (Nat.zero_add _), fun _ hplace => hplace,
    fun _ rest hrest => ⟨rest, rfl, hrest⟩⟩

/-- Two parts of a way are one way. -/
theorem append {between : Location} (h : Tracks rules text place ms between)
    (h' : Tracks rules text between ns behind) : Tracks rules text place (ms ++ ns) behind where
  inARow := h.inARow.append (h.leadsTo ▸ h'.inARow)
  leadsTo := by
    rw [Matched.join, List.flatMap_append, Location.advanceOver_append]
    exact h.leadsTo ▸ h'.leadsTo
  shorter := by
    have := h.shorter
    have := h'.shorter
    rw [List.length_append]
    omega
  within hparts hplace := h'.within hparts (h.within hparts hplace)
  whole hahead rest hrest := by
    obtain ⟨middle, hfirst, hmiddle⟩ := h.whole hahead rest hrest
    obtain ⟨left, hsecond, hleft⟩ := h'.whole hahead middle hmiddle
    refine ⟨left, ?_, hleft⟩
    rw [Matched.join, List.flatMap_append, List.append_assoc]
    exact (congrArg _ hsecond).trans hfirst

/-- The match that wins leads behind its text. -/
theorem of_longest? {c : Candidate τ} (hrest : Text.sliceFrom? place.offset text = some rest)
    (hne : rest ≠ []) (h : longest? rules rest = some c) :
    Tracks rules text place [⟨c.rule, place, c.text⟩] (place.advanceOver c.text) where
  inARow := ⟨rfl, text_ne_nil_of_longest? h, trivial⟩
  leadsTo := congrArg place.advanceOver (List.append_nil c.text).symm
  shorter := by
    have hpos := List.length_pos_iff.2 hne
    rw [charsFrom_of_some hrest, List.length_singleton]
    -- behind the match there may be no place to take up the text, and then nothing counts
    cases hleft : Text.sliceFrom? (place.advanceOver c.text).offset text with
    | none =>
      rw [charsFrom, hleft]
      exact hpos
    | some left =>
      have hsize : 0 < Text.byteSize c.text := size_pos_of_longest? h
      have := Text.length_lt_of_sliceFrom? hrest hleft (by
        rw [Location.offset_advanceOver]
        omega)
      rw [charsFrom_of_some hleft]
      omega
  within hparts _ := by
    have hle := hparts.byteSize_le h
    obtain ⟨before, rfl, hsize⟩ := Text.sliceFrom?_eq_some_iff.1 hrest
    rw [Location.offset_advanceOver, Text.byteSize_append]
    omega
  whole hahead ahead hplace := by
    obtain rfl := Option.some.inj (hrest.symm.trans hplace)
    obtain ⟨left, rfl⟩ := hahead rest c hne h
    obtain ⟨before, rfl, hsize⟩ := Text.sliceFrom?_eq_some_iff.1 hrest
    refine ⟨left, congrArg (· ++ left) (List.append_nil c.text), ?_⟩
    rw [Location.offset_advanceOver, ← hsize, ← Text.byteSize_append, ← List.append_assoc]
    exact Text.sliceFrom?_append _ left

end Tracks

/-- Looking for the next token follows the matches that it makes. By induction on the matches that are
dropped. -/
theorem exists_tracks_nextToken (rules : List (TokenRule τ)) (text : List Char)
    (dropped : List Matched) (place : Location) :
    ∃ ms, (nextToken rules text dropped place).1 = dropped.reverse ++ ms ∧
      Tracks rules text place ms (nextToken rules text dropped place).2.place := by
  fun_induction nextToken rules text dropped place with
  | case1 => exact ⟨[], (List.append_nil _).symm, .refl _ _⟩
  | case2 => exact ⟨[], (List.append_nil _).symm, .refl _ _⟩
  | case3 => exact ⟨[], (List.append_nil _).symm, .refl _ _⟩
  | case4 dropped place rest hrest hne c hbest =>
    exact ⟨[⟨c.rule, place, c.text⟩], List.reverse_cons, .of_longest? hrest hne hbest⟩
  | case5 dropped place rest hrest hne c hbest seen behind _ ih =>
    obtain ⟨ms, hseen, htracks⟩ := ih
    refine ⟨⟨c.rule, place, c.text⟩ :: ms, ?_,
      (Tracks.of_longest? hrest hne hbest).append htracks⟩
    rw [hseen, List.reverse_cons, List.append_assoc]
    rfl

/-! ## Calls -/

namespace Tokenizer

/-- A call leads along its matches. -/
theorem tracks_advance (t : Tokenizer τ) :
    Tracks t.rules t.text t.place t.advance.seen t.advance.tokenizer.place := by
  obtain ⟨ms, hseen, htracks⟩ := exists_tracks_nextToken t.rules t.text [] t.place
  have hms : t.advance.seen = ms := hseen
  rw [hms]
  exact htracks

/-- All matches that are made from the first call to the one of the given number, those of dropped text
included. -/
def matchedUpTo (rules : List (TokenRule τ)) (endToken : τ) (text : List Char) (n : Nat) :
    List Matched :=
  (List.range (n + 1)).flatMap fun k => (calls rules endToken text k).seen

/-- The matches of all calls so far lead from the start of the text to the place of the reader. By
induction on the calls. -/
theorem tracks_calls (rules : List (TokenRule τ)) (endToken : τ) (text : List Char) (n : Nat) :
    Tracks rules text {} (matchedUpTo rules endToken text n)
      (calls rules endToken text n).tokenizer.place := by
  induction n with
  | zero =>
    rw [matchedUpTo, List.range_one, List.flatMap_singleton]
    exact tracks_advance { rules, endToken, text, current := endToken }
  | succ n ih =>
    obtain ⟨hrules, -, htext⟩ := calls_keeps rules endToken text n
    have hstep := tracks_advance (calls rules endToken text n).tokenizer
    rw [hrules, htext] at hstep
    rw [matchedUpTo, List.range_succ, List.flatMap_append, List.flatMap_singleton]
    exact ih.append hstep

theorem rest?_calls (rules : List (TokenRule τ)) (endToken : τ) (text : List Char) (n : Nat) :
    (calls rules endToken text n).tokenizer.rest? =
      Text.sliceFrom? (calls rules endToken text n).tokenizer.place.offset text := by
  rw [rest?, (calls_keeps rules endToken text n).2.2]

/-- Once the place is inside a character, no call comes to an answer, and none moves the reader. -/
theorem calls_of_torn {text : List Char} {endToken : τ} {n : Nat}
    (h : Text.sliceFrom? (calls rules endToken text n).tokenizer.place.offset text = none) (m : Nat)
    (hm : n < m) :
    calls rules endToken text m = ⟨[], none, (calls rules endToken text n).tokenizer⟩ := by
  rw [← rest?_calls] at h
  induction hm with
  | refl => exact advance_of_torn h
  | step _ ih =>
    rw [calls, ih]
    exact advance_of_torn h

/-- The first match of all is the one that wins in the text. -/
theorem exists_matchedUpTo_eq_cons {text : List Char} {c : Candidate τ} (htext : text ≠ [])
    (h : longest? rules text = some c) (endToken : τ) :
    ∃ ms, matchedUpTo rules endToken text 0 = ⟨c.rule, {}, c.text⟩ :: ms := by
  have hnext : ∃ ms, (nextToken rules text [] {}).1 = ⟨c.rule, {}, c.text⟩ :: ms := by
    rw [nextToken_of_longest? (Text.sliceFrom?_zero text) htext h]
    split
    · exact ⟨[], rfl⟩
    · obtain ⟨ms, hseen, -⟩ := exists_tracks_nextToken rules text [⟨c.rule, {}, c.text⟩]
        (({} : Location).advanceOver c.text)
      exact ⟨ms, hseen⟩
  rw [matchedUpTo, List.range_one, List.flatMap_singleton]
  exact hnext

end Tokenizer

/-! ## Main theorem -/

/-- Whatever the rules are, the matches of the calls up to some number read something each and begin
where those before them end, there are no more of them than there are characters, and the place
counts their texts; it stays within the text if what the rules find are parts of it. A call comes to
no answer only where the text cannot be taken up at the place, and from there on no call does. That
the matches begin the text, for every text and after every call, comes down to whatever wins
standing where the text ahead begins. Then every call comes to an answer, and the text can be taken
up at the place, behind the matches. -/
theorem tokenizer_keeps_place (rules : List (TokenRule τ)) (endToken : τ) :
    (∀ text n, (Tokenizer.calls rules endToken text n).tokenizer.place.Counts
        (Matched.join (Tokenizer.matchedUpTo rules endToken text n)) ∧
      (∀ before m after,
        Tokenizer.matchedUpTo rules endToken text n = before ++ m :: after →
          m.text ≠ [] ∧ m.location.Counts (Matched.join before)) ∧
      (Tokenizer.matchedUpTo rules endToken text n).length ≤ text.length ∧
      (FindsParts rules → (Tokenizer.calls rules endToken text n).tokenizer.place.offset ≤
        Text.byteSize text) ∧
      ((Tokenizer.calls rules endToken text n).result = none → Text.sliceFrom?
        (Tokenizer.calls rules endToken text n).tokenizer.place.offset text = none) ∧
      (Text.sliceFrom? (Tokenizer.calls rules endToken text n).tokenizer.place.offset text = none →
        ∀ m, n < m → Tokenizer.calls rules endToken text m =
          ⟨[], none, (Tokenizer.calls rules endToken text n).tokenizer⟩)) ∧
    ((∀ text n, Matched.join (Tokenizer.matchedUpTo rules endToken text n) <+: text) ↔
      WinAhead rules) ∧
    (WinAhead rules → ∀ text n, ∃ rest answer,
      Matched.join (Tokenizer.matchedUpTo rules endToken text n) ++ rest = text ∧
      Text.sliceFrom? (Tokenizer.calls rules endToken text n).tokenizer.place.offset text =
        some rest ∧
      (Tokenizer.calls rules endToken text n).result = some answer) := by
  have htracks (text : List Char) (n : Nat) := Tokenizer.tracks_calls rules endToken text n
  have htorn (text : List Char) (n : Nat)
      (h : (Tokenizer.calls rules endToken text n).result = none) : Text.sliceFrom?
        (Tokenizer.calls rules endToken text n).tokenizer.place.offset text = none := by
    obtain ⟨t, hcall, -⟩ := Tokenizer.exists_calls_eq_advance rules endToken text n
    rw [← Tokenizer.rest?_calls]
    rw [hcall] at h ⊢
    exact Tokenizer.rest?_advance_of_none h
  refine ⟨fun text n => ⟨?_, fun before m after hsplit => ?_, ?_,
    fun hparts => (htracks text n).within hparts (Nat.zero_le _), htorn text n,
    Tokenizer.calls_of_torn⟩, ⟨?_, ?_⟩, ?_⟩
  · rw [(htracks text n).leadsTo]
    exact Location.counts_advanceOver _
  · have hrow := (htracks text n).inARow
    rw [hsplit] at hrow
    obtain ⟨hplace, hreads⟩ := hrow.of_append_cons
    exact ⟨hreads, hplace ▸ Location.counts_advanceOver _⟩
  · have hall : charsFrom text {} = text.length := charsFrom_of_some (Text.sliceFrom?_zero text)
    have hshorter := (htracks text n).shorter
    rw [hall] at hshorter
    exact Nat.le_of_add_right_le hshorter
  · -- the first match of a text is what wins in it
    intro hbegins text c htext hwins
    obtain ⟨ms, hms⟩ := Tokenizer.exists_matchedUpTo_eq_cons htext hwins endToken
    have hfirst := hbegins text 0
    rw [hms, Matched.join, List.flatMap_cons] at hfirst
    exact (List.prefix_append _ _).trans hfirst
  · intro hahead text n
    obtain ⟨rest, hwhole, -⟩ := (htracks text n).whole hahead text (Text.sliceFrom?_zero text)
    exact ⟨rest, hwhole⟩
  · intro hahead text n
    obtain ⟨rest, hwhole, hrest⟩ := (htracks text n).whole hahead text (Text.sliceFrom?_zero text)
    have hanswer : (Tokenizer.calls rules endToken text n).result ≠ none := fun hnone =>
      nomatch hrest.symm.trans (htorn text n hnone)
    obtain ⟨answer, hresult⟩ := Option.ne_none_iff_exists'.1 hanswer
    exact ⟨rest, answer, hwhole, hrest, hresult⟩

end

/-- Words, and the blanks between them, which are dropped: the matches make up the text as far
as it has been read, and the offset is within the text, where the rest begins. -/
theorem tokenizer_keeps_place_written : ∃ word blank : TokenRule (List Char),
    TokenRule.ofText? "\\S+" (fun m => some m.text) = some word ∧
    TokenRule.ofText? "\\s" (fun _ => none) = some blank ∧
    ∀ n, ∃ rest answer,
      Matched.join (Tokenizer.matchedUpTo [word, blank] [] "né\nb".toList n) ++ rest =
        "né\nb".toList ∧
      Text.sliceFrom? (Tokenizer.calls [word, blank] [] "né\nb".toList n).tokenizer.place.offset
        "né\nb".toList = some rest ∧
      (Tokenizer.calls [word, blank] [] "né\nb".toList n).result = some answer ∧
      (Tokenizer.calls [word, blank] [] "né\nb".toList n).tokenizer.place.offset ≤ 5 := by
  have hword : (TokenRule.program? "\\S+").bind (·[0]?) = some (.atStart 1) := by decide +kernel
  have hblank : (TokenRule.program? "\\s").bind (·[0]?) = some (.atStart 1) := by decide +kernel
  obtain ⟨word, hwordRule⟩ : ∃ word,
      TokenRule.ofText? "\\S+" (fun m => some m.text) = some word := by
    obtain ⟨program, hprogram, -⟩ := Option.bind_eq_some_iff.1 hword
    exact ⟨_, congrArg (Option.map _) hprogram⟩
  obtain ⟨blank, hblankRule⟩ : ∃ blank,
      TokenRule.ofText? "\\s" (fun _ => (none : Option (List Char))) = some blank := by
    obtain ⟨program, hprogram, -⟩ := Option.bind_eq_some_iff.1 hblank
    exact ⟨_, congrArg (Option.map _) hprogram⟩
  have hahead : WinAhead [word, blank] := winAhead_of_isTied (List.forall_mem_cons.2
    ⟨TokenRule.isTied_of_ofText? hwordRule hword,
      List.forall_mem_singleton.2 (TokenRule.isTied_of_ofText? hblankRule hblank)⟩)
  have hparts : FindsParts [word, blank] := List.forall_mem_cons.2
    ⟨fun _ _ => TokenRule.isInfix_of_ofText? hwordRule,
      List.forall_mem_singleton.2 fun _ _ => TokenRule.isInfix_of_ofText? hblankRule⟩
  refine ⟨word, blank, hwordRule, hblankRule, fun n => ?_⟩
  obtain ⟨-, -, -, hwithin, -⟩ := (tokenizer_keeps_place [word, blank] []).1 "né\nb".toList n
  obtain ⟨rest, answer, hwhole, hrest, hanswer⟩ :=
    (tokenizer_keeps_place [word, blank] []).2.2 hahead "né\nb".toList n
  exact ⟨rest, answer, hwhole, hrest, hanswer, hwithin hparts⟩

/-- The rule for `^(?:a)|(b)`, whose second alternative is not tied to the start of the text ahead. -/
def straying : TokenRule (List Char) where
  find? := (Program.ofPattern (.alt (.seq .start (.char 'a')) (.group 1 (.char 'b')))).find?
  produce m := some m.text

/-- An alternative behind a parenthesis that the pattern closes without having opened it is found further
on in the text. So what has been matched need not be the beginning of the text, and what is counted can
end inside a character, so that the second call comes to no answer. -/
theorem not_begins_with_matched : ∃ rule, TokenRule.ofText? "a)|(b" (fun m => some m.text) = some rule ∧
    ¬Matched.join (Tokenizer.matchedUpTo [rule] [] ['c', 'b'] 0) <+: ['c', 'b'] ∧
    (Tokenizer.calls [rule] [] ['é', 'b'] 0).result = some (.ok ['b']) ∧
    (Tokenizer.calls [rule] [] ['é', 'b'] 1).result = none := by
  have hprogram : TokenRule.program? "a)|(b" = some (Program.ofPattern
      (.alt (.seq .start (.char 'a')) (.group 1 (.char 'b')))) := by
    decide +kernel
  have hwins : longest? [straying] ['c', 'b'] = some ⟨0, ['b'], some ['b']⟩ := by decide +kernel
  refine ⟨straying, congrArg (Option.map _) hprogram, fun hbegins => ?_, by decide +kernel,
    by decide +kernel⟩
  obtain ⟨ms, hms⟩ := Tokenizer.exists_matchedUpTo_eq_cons (by decide) hwins []
  rw [hms] at hbegins
  exact absurd (List.cons_prefix_cons.1 hbegins).1 (by decide)

end GuardedGrammar
