/-
  Maximal munch.

  What a list of token rules cuts a text into can be said without searching: at every place the rule
  that wins is the one that reads most, and the first listed of those that read as much (`IsLongest`).
  `Munches` cuts a text by that alone.  It counts characters where the lexer counts bytes; for matches
  that begin at the same place the one is longer exactly if the other is (`byteSize_le_iff`).

  The crux is the search for the best rule, a fold that keeps the best of those that it has seen
  (`IsBest`, one lemma for each thing that the next one can be).  From there on the lexer and the
  relation run side by side (`munches_iff`), and a reader that is asked again and again goes through
  the same matches, skipping those that are dropped (`result_calls`).

  Main statement: `tokenizer_munches_maximally`.
-/
import Mathlib.Data.List.Basic
import GuardedGrammar.Lexer.Tokenizer

namespace GuardedGrammar

variable {τ : Type} {rules : List (TokenRule τ)} {text : List Char}

/-! ## Longest matches -/

/-- In this text the rule of the given number finds the match, which reads something; no rule reads
more, and no rule that is listed before it reads as much. -/
structure IsLongest (rules : List (TokenRule τ)) (text : List Char) (i : Nat) (rule : TokenRule τ)
    (m : Match) : Prop where
  listed : rules[i]? = some rule
  found : rule.find? text = some m
  reads : m.text ≠ []
  longest : ∀ (j : Nat) (other : TokenRule τ) (n : Match), rules[j]? = some other →
    other.find? text = some n → n.text.length ≤ m.text.length
  first : ∀ (j : Nat) (other : TokenRule τ) (n : Match), rules[j]? = some other →
    other.find? text = some n → n.text.length = m.text.length → i ≤ j

/-- Cutting a text that begins at a given place by maximal munch. -/
inductive Munches (rules : List (TokenRule τ)) : Location → List Char → Lexing τ → Prop
  | finished {place : Location} : Munches rules place [] (.finished place)
  /-- No rule reads anything; the failure shows up to fifty characters of the text. -/
  | stuck {place : Location} {text : List Char} (htext : text ≠ [])
    (hnone : ∀ rule ∈ rules, ∀ m, rule.find? text = some m → m.text = []) :
    Munches rules place text (.stuck ⟨place, String.ofList (text.take 50)⟩ text)
  | step {place : Location} {rest : List Char} {i : Nat} {rule : TokenRule τ} {m : Match}
    {next : Lexing τ} (hwins : IsLongest rules (m.text ++ rest) i rule m)
    (hnext : Munches rules (place.advanceOver m.text) rest next) :
    Munches rules place (m.text ++ rest) (.step ⟨i, place, m.text⟩ (rule.produce m) next)

/-- What a cutting answers to one request after the other: the tokens of the matches that are not
dropped, and then the end token, or the failure, for ever. -/
def Lexing.answer (endToken : τ) : Lexing τ → Nat → Except UnknownToken τ
  | .finished _, _ => .ok endToken
  | .stuck error _, _ => .error error
  | .step _ none next, n => next.answer endToken n
  | .step _ (some t) _, 0 => .ok t
  | .step _ (some _) next, n + 1 => next.answer endToken n

/-! ## Bytes and characters -/

/-- Of two texts that a text begins with, the one with more characters has more bytes. -/
theorem Text.byteSize_le_iff {a b text : List Char} (ha : a <+: text) (hb : b <+: text) :
    byteSize a ≤ byteSize b ↔ a.length ≤ b.length := by
  rcases List.prefix_or_prefix_of_prefix ha hb with ⟨t, rfl⟩ | ⟨t, rfl⟩
  · simp [byteSize_append]
  · have hpos := byteSize_pos_iff t
    rw [byteSize_append, List.length_append]
    cases t with
    | nil => simp
    | cons c t =>
      have := hpos.2 (by simp)
      simp only [List.length_cons]
      omega

/-! ## The search for the longest match -/

/-- The candidates are the rules that find something, each with what it finds. -/
theorem mem_candidates {c : Candidate τ} :
    c ∈ candidates rules text ↔ ∃ rule m, rules[c.rule]? = some rule ∧
      rule.find? text = some m ∧ c = ⟨c.rule, m.text, rule.produce m⟩ := by
  unfold candidates
  rw [List.mem_filterMap]
  constructor
  · rintro ⟨⟨rule, i⟩, hmem, hc⟩
    obtain ⟨m, hm, rfl⟩ := Option.map_eq_some_iff.1 hc
    exact ⟨rule, m, List.mem_zipIdx_iff_getElem?.1 hmem, hm, rfl⟩
  · rintro ⟨rule, m, hlisted, hm, hc⟩
    refine ⟨(rule, c.rule), List.mem_zipIdx_iff_getElem?.2 hlisted, ?_⟩
    exact Option.map_eq_some_iff.2 ⟨m, hm, hc.symm⟩

/-- The candidates are listed as their rules are. -/
theorem pairwise_candidates (rules : List (TokenRule τ)) (text : List Char) :
    (candidates rules text).Pairwise fun c d => c.rule < d.rule := by
  have hnumbers : (rules.zipIdx.map Prod.snd).Pairwise (· < ·) := by
    rw [List.zipIdx_map_snd]
    exact List.pairwise_lt_range'
  refine List.Pairwise.filterMap _ ?_ (List.pairwise_map.1 hnumbers)
  intro p q hlt c hc d hd
  obtain ⟨m, -, rfl⟩ := Option.map_eq_some_iff.1 hc
  obtain ⟨n, -, rfl⟩ := Option.map_eq_some_iff.1 hd
  exact hlt

/-- The best of the candidates that have been seen: none reads more, and none before it as much.
There is none as long as all of them read nothing. -/
def IsBest (seen : List (Candidate τ)) : Option (Candidate τ) → Prop
  | none => ∀ d ∈ seen, d.size = 0
  | some b => b ∈ seen ∧ 0 < b.size ∧
      ∀ d ∈ seen, d.size ≤ b.size ∧ (d.size = b.size → b.rule ≤ d.rule)

/-- The next candidate takes the place of the best one if it reads more, and only then. -/
theorem IsBest.better {seen : List (Candidate τ)} {best : Option (Candidate τ)}
    (h : IsBest seen best) (c : Candidate τ) (hlater : ∀ d ∈ seen, d.rule < c.rule) :
    IsBest (seen ++ [c]) (Candidate.better best c) := by
  unfold Candidate.better
  cases best with
  -- nothing has been read yet, so reading anything at all is more
  | none =>
    have hnone : ∀ d ∈ seen, d.size = 0 := h
    split
    · rename_i hpos
      refine ⟨by simp, hpos, fun d hd => ?_⟩
      rcases List.mem_append.1 hd with hd | hd
      · have := hnone d hd
        simp only [Option.map_none, Option.getD_none] at hpos
        omega
      · obtain rfl := List.mem_singleton.1 hd
        exact ⟨Nat.le_refl _, fun _ => Nat.le_refl _⟩
    · rename_i hpos
      intro d hd
      rcases List.mem_append.1 hd with hd | hd
      · exact hnone d hd
      · obtain rfl := List.mem_singleton.1 hd
        simp only [Option.map_none, Option.getD_none] at hpos
        omega
  | some b =>
    obtain ⟨hb, hpos, hmost⟩ : b ∈ seen ∧ 0 < b.size ∧
      ∀ d ∈ seen, d.size ≤ b.size ∧ (d.size = b.size → b.rule ≤ d.rule) := h
    split
    · rename_i hmore
      simp only [Option.map_some, Option.getD_some] at hmore
      refine ⟨by simp, by omega, fun d hd => ?_⟩
      rcases List.mem_append.1 hd with hd | hd
      · have := (hmost d hd).1
        omega
      · obtain rfl := List.mem_singleton.1 hd
        exact ⟨Nat.le_refl _, fun _ => Nat.le_refl _⟩
    · rename_i hmore
      simp only [Option.map_some, Option.getD_some] at hmore
      -- the next one comes later, so it does not win where it reads as much
      refine ⟨List.mem_append_left _ hb, hpos, fun d hd => ?_⟩
      rcases List.mem_append.1 hd with hd | hd
      · exact hmost d hd
      · obtain rfl := List.mem_singleton.1 hd
        have := hlater b hb
        omega

/-- So the fold ends with the best of all. By induction on the candidates that are still to come. -/
theorem IsBest.foldl {seen : List (Candidate τ)} {best : Option (Candidate τ)}
    (h : IsBest seen best) (cs : List (Candidate τ))
    (hlisted : (seen ++ cs).Pairwise fun c d => c.rule < d.rule) :
    IsBest (seen ++ cs) (cs.foldl Candidate.better best) := by
  induction cs generalizing seen best with
  | nil => simpa using h
  | cons c cs ih =>
    have hlater : ∀ d ∈ seen, d.rule < c.rule := fun d hd =>
      (List.pairwise_append.1 hlisted).2.2 d hd c List.mem_cons_self
    rw [List.append_cons] at hlisted ⊢
    exact ih (h.better c hlater) hlisted

/-- The search ends with the best of the candidates. -/
theorem isBest_longest? (rules : List (TokenRule τ)) (text : List Char) :
    IsBest (candidates rules text) (longest? rules text) := by
  have hstart : IsBest ([] : List (Candidate τ)) none := fun _ hd => nomatch hd
  exact hstart.foldl _ (pairwise_candidates rules text)

/-- No rule wins exactly where no rule reads anything. -/
theorem longest?_eq_none_iff : longest? rules text = none ↔
    ∀ rule ∈ rules, ∀ m, rule.find? text = some m → m.text = [] := by
  have hbest := isBest_longest? rules text
  constructor
  · intro h rule hrule m hm
    rw [h] at hbest
    obtain ⟨i, hi⟩ := List.getElem?_of_mem hrule
    have hzero : Text.byteSize m.text = 0 := hbest ⟨i, m.text, rule.produce m⟩
      (mem_candidates.2 ⟨rule, m, hi, hm, rfl⟩)
    by_contra hne
    have := (Text.byteSize_pos_iff _).2 hne
    omega
  · intro h
    cases hlongest : longest? rules text with
    | none => rfl
    | some c =>
      rw [hlongest] at hbest
      obtain ⟨rule, m, hi, hm, hc⟩ := mem_candidates.1 hbest.1
      have hempty := h rule (List.mem_of_getElem? hi) m hm
      have hpos : 0 < c.size := hbest.2.1
      rw [hc, Candidate.size, hempty] at hpos
      exact absurd hpos (Nat.lt_irrefl 0)

/-- The rule that wins is the one whose match is longest. -/
theorem longest?_eq_some_iff (htied : ∀ rule ∈ rules, rule.IsTied) {c : Candidate τ} :
    longest? rules text = some c ↔ ∃ rule m, IsLongest rules text c.rule rule m ∧
      c = ⟨c.rule, m.text, rule.produce m⟩ := by
  have hbest := isBest_longest? rules text
  have hbegins : ∀ {j : Nat} {other : TokenRule τ} {n : Match}, rules[j]? = some other →
      other.find? text = some n → n.text <+: text :=
    fun hj hn => htied _ (List.mem_of_getElem? hj) _ _ hn
  constructor
  · intro h
    rw [h] at hbest
    obtain ⟨hmem, hpos, hmost⟩ := hbest
    obtain ⟨rule, m, hi, hm, hc⟩ := mem_candidates.1 hmem
    have hsize : c.size = Text.byteSize m.text := congrArg Candidate.size hc
    have hother (j : Nat) (other : TokenRule τ) (n : Match) (hj : rules[j]? = some other)
        (hn : other.find? text = some n) := hmost ⟨j, n.text, other.produce n⟩
      (mem_candidates.2 ⟨other, n, hj, hn, rfl⟩)
    refine ⟨rule, m, ⟨hi, hm, ?_, fun j other n hj hn => ?_, fun j other n hj hn hlen => ?_⟩, hc⟩
    · rw [hsize] at hpos
      exact (Text.byteSize_pos_iff _).1 hpos
    · rw [← Text.byteSize_le_iff (hbegins hj hn) (hbegins hi hm), ← hsize]
      exact (hother j other n hj hn).1
    · refine (hother j other n hj hn).2 ?_
      have hle := (Text.byteSize_le_iff (hbegins hj hn) (hbegins hi hm)).2 (Nat.le_of_eq hlen)
      have hge := (Text.byteSize_le_iff (hbegins hi hm) (hbegins hj hn)).2 (Nat.le_of_eq hlen.symm)
      rw [hsize]
      exact Nat.le_antisymm hle hge
  · rintro ⟨rule, m, hwins, hc⟩
    cases hlongest : longest? rules text with
    | none =>
      exact absurd (longest?_eq_none_iff.1 hlongest rule (List.mem_of_getElem? hwins.listed) m
        hwins.found) hwins.reads
    | some b =>
      rw [hlongest] at hbest
      obtain ⟨hmem, -, hmost⟩ := hbest
      -- what wins and what reads most are not shorter than each other, so they are the same text
      obtain ⟨rule', m', hi', hm', hb⟩ := mem_candidates.1 hmem
      have hlen : m'.text.length ≤ m.text.length := hwins.longest _ _ _ hi' hm'
      have hof := hmost c (mem_candidates.2 ⟨rule, m, hwins.listed, hwins.found, hc⟩)
      rw [hb, hc] at hof
      have hlen' : m.text.length ≤ m'.text.length :=
        (Text.byteSize_le_iff (hbegins hwins.listed hwins.found) (hbegins hi' hm')).1 hof.1
      have hsame : m.text = m'.text :=
        (List.prefix_of_prefix_length_le (hbegins hwins.listed hwins.found) (hbegins hi' hm')
          hlen').eq_of_length (Nat.le_antisymm hlen' hlen)
      -- and both are the first of those that read it
      have hle : c.rule ≤ b.rule := hwins.first _ _ _ hi' hm' (by rw [hsame])
      have hge : b.rule ≤ c.rule := hof.2 (congrArg Text.byteSize hsame)
      have hnumber : b.rule = c.rule := Nat.le_antisymm hge hle
      rw [hnumber, hwins.listed] at hi'
      cases hi'
      rw [hwins.found] at hm'
      cases hm'
      rw [hb, hc, hnumber]

/-! ## The whole cutting -/

/-- If no rule reads anything, the lexer is stuck. -/
theorem lexFrom_of_none {place : Location} (htext : text ≠ []) (h : longest? rules text = none) :
    lexFrom rules place text = .stuck (.before place text) text := by
  rw [lexFrom, dif_neg htext]
  split
  · rfl
  · rename_i hsome
    rw [h] at hsome
    cases hsome

/-- If a rule wins, the lexer takes what it has read and goes on behind it. -/
theorem lexFrom_of_some {place : Location} {c : Candidate τ} (htext : text ≠ [])
    (h : longest? rules text = some c) : lexFrom rules place text =
      .step ⟨c.rule, place, c.text⟩ c.token
        (lexFrom rules (place.advanceOver c.text) (text.drop c.text.length)) := by
  rw [lexFrom, dif_neg htext]
  split
  · rename_i hnone
    rw [h] at hnone
    cases hnone
  · rename_i hsome
    rw [h] at hsome
    cases hsome
    rfl

/-- The lexer cuts by maximal munch. By induction on its recursion. -/
theorem munches_lexFrom (htied : ∀ rule ∈ rules, rule.IsTied) (place : Location)
    (text : List Char) : Munches rules place text (lexFrom rules place text) := by
  fun_induction lexFrom rules place text with
  | case1 => exact .finished
  | case2 place text htext hbest => exact .stuck htext (longest?_eq_none_iff.1 hbest)
  | case3 place text htext c hbest ih =>
    obtain ⟨rule, m, hwins, hc⟩ := (longest?_eq_some_iff htied).1 hbest
    have htoken : c.token = rule.produce m := congrArg Candidate.token hc
    have hread : c.text = m.text := congrArg Candidate.text hc
    obtain ⟨rest, rfl⟩ := htied rule (List.mem_of_getElem? hwins.listed) _ _ hwins.found
    rw [hread, List.drop_left] at ih
    rw [htoken, hread, List.drop_left]
    exact .step hwins ih

/-- Where a rule wins, the lexer takes its match and goes on behind it. -/
theorem lexFrom_append (htied : ∀ rule ∈ rules, rule.IsTied) {i : Nat} {rule : TokenRule τ}
    {m : Match} {rest : List Char} (hwins : IsLongest rules (m.text ++ rest) i rule m)
    (place : Location) : lexFrom rules place (m.text ++ rest) =
      .step ⟨i, place, m.text⟩ (rule.produce m) (lexFrom rules (place.advanceOver m.text) rest) := by
  have hlongest : longest? rules (m.text ++ rest) = some ⟨i, m.text, rule.produce m⟩ :=
    (longest?_eq_some_iff htied).2 ⟨rule, m, hwins, rfl⟩
  have htext : m.text ++ rest ≠ [] := List.append_ne_nil_of_left_ne_nil hwins.reads rest
  rw [lexFrom_of_some htext hlongest, List.drop_left]

/-- The lexer cuts a text by maximal munch, and there is no other way to do so. -/
theorem munches_iff (htied : ∀ rule ∈ rules, rule.IsTied) {place : Location} {l : Lexing τ} :
    Munches rules place text l ↔ l = lexFrom rules place text := by
  constructor
  · intro h
    induction h with
    | finished =>
      rw [lexFrom]
      rfl
    | stuck htext hnone =>
      rw [lexFrom_of_none htext (longest?_eq_none_iff.2 hnone)]
      rfl
    | step hwins _ ih => rw [lexFrom_append htied hwins, ih]
  · -- the cutting exists, and the lexer finds it
    rintro rfl
    exact munches_lexFrom htied place text

/-! ## Answers -/

/-- After a failure there are no other answers. -/
theorem Lexing.answer_of_error {l : Lexing τ} {endToken : τ} {n : Nat} {e : UnknownToken}
    (h : l.answer endToken n = .error e) {m : Nat} (hm : n ≤ m) :
    l.answer endToken m = .error e := by
  induction l generalizing n m with
  | finished => exact nomatch h
  | stuck error rest => exact h
  | step matched token next ih =>
    cases token with
    | none => exact ih h hm
    | some t =>
      cases n with
      | zero => exact nomatch h
      | succ n =>
        cases m with
        | zero => omega
        | succ m => exact ih h (Nat.le_of_succ_le_succ hm)

/-- The place of a text between what has been read and the rest. -/
structure IsBetween (text : List Char) (place : Location) (read rest : List Char) : Prop where
  whole : read ++ rest = text
  place : place = ({} : Location).advanceOver read

namespace IsBetween

variable {place : Location} {read rest : List Char}

theorem start (text : List Char) : IsBetween text {} [] text := ⟨rfl, rfl⟩

/-- At the place the text can be taken up, and the rest is what is there. -/
theorem sliceFrom? (h : IsBetween text place read rest) :
    Text.sliceFrom? place.offset text = some rest := by
  rw [← h.whole, h.place, Location.offset_advanceOver, Nat.zero_add]
  exact Text.sliceFrom?_append read rest

theorem behind {u : List Char} (h : IsBetween text place read (u ++ rest)) :
    IsBetween text (place.advanceOver u) (read ++ u) rest where
  whole := (List.append_assoc ..).trans h.whole
  place := by rw [h.place, Location.advanceOver_append]

end IsBetween

/-- What comes next is the first answer of the cutting ahead, and from behind it the others are given. -/
theorem exists_answers_nextToken (htied : ∀ rule ∈ rules, rule.IsTied) (endToken : τ)
    (dropped : List Matched) {place : Location} {read rest : List Char}
    (h : IsBetween text place read rest) :
    (nextToken rules text dropped place).2.result endToken =
        some ((lexFrom rules place rest).answer endToken 0) ∧
      ∃ read' rest', IsBetween text (nextToken rules text dropped place).2.place read' rest' ∧
        ∀ n, (lexFrom rules (nextToken rules text dropped place).2.place rest').answer endToken n =
          (lexFrom rules place rest).answer endToken (n + 1) := by
  fun_induction nextToken rules text dropped place generalizing read rest with
  -- between what has been read and the rest there is always a place
  | case1 dropped place hrest => cases hrest.symm.trans h.sliceFrom?
  | case2 dropped place hrest =>
    obtain rfl := Option.some.inj (hrest.symm.trans h.sliceFrom?)
    have hend : lexFrom rules place [] = .finished place := by rw [lexFrom, dif_pos rfl]
    rw [hend]
    refine ⟨rfl, read, [], h, fun n => ?_⟩
    exact congrArg (Lexing.answer endToken · n) hend
  | case3 dropped place left hrest hend hbest =>
    obtain rfl := Option.some.inj (hrest.symm.trans h.sliceFrom?)
    have hstuck : lexFrom rules place left = .stuck (.before place left) left :=
      lexFrom_of_none hend hbest
    rw [hstuck]
    refine ⟨rfl, read, left, h, fun n => ?_⟩
    exact congrArg (Lexing.answer endToken · n) hstuck
  | case4 dropped place left hrest hend c hbest =>
    rename_i htoken
    obtain rfl := Option.some.inj (hrest.symm.trans h.sliceFrom?)
    rw [lexFrom_of_some hend hbest, htoken]
    obtain ⟨rest, rfl⟩ := isPrefix_of_longest? htied hbest
    rw [List.drop_left]
    exact ⟨rfl, read ++ c.text, rest, h.behind, fun _ => rfl⟩
  | case5 dropped place left hrest hend c hbest =>
    rename_i htoken ih
    obtain rfl := Option.some.inj (hrest.symm.trans h.sliceFrom?)
    rw [lexFrom_of_some hend hbest, htoken]
    obtain ⟨rest, rfl⟩ := isPrefix_of_longest? htied hbest
    rw [List.drop_left]
    -- a dropped match gives no answer, neither here nor there
    exact ih h.behind

/-! ## Readers that are asked again and again

A reader keeps only its place between two calls. What it is to answer from there on are the answers
of the one cutting that have not been given. -/

namespace Tokenizer

/-- The reader is between what it has read and the rest, and what is ahead of it answers like the cutting
from the given number on. -/
def Awaits (t : Tokenizer τ) (l : Lexing τ) (number : Nat) : Prop :=
  ∃ read rest, IsBetween t.text t.place read rest ∧
    ∀ n, (lexFrom t.rules t.place rest).answer t.endToken n = l.answer t.endToken (number + n)

/-- A step of a reader gives the first of the answers that it awaits, and leaves the others. -/
theorem Awaits.advance {t : Tokenizer τ} {l : Lexing τ} {number : Nat} (h : t.Awaits l number)
    (htied : ∀ rule ∈ t.rules, rule.IsTied) :
    t.advance.result = some (l.answer t.endToken number) ∧
      t.advance.tokenizer.Awaits l (number + 1) := by
  obtain ⟨read, rest, hbetween, hanswers⟩ := h
  obtain ⟨hfirst, read', rest', hbetween', hothers⟩ :=
    exists_answers_nextToken htied t.endToken [] hbetween
  refine ⟨hfirst.trans (congrArg some (hanswers 0)), read', rest', hbetween', fun n => ?_⟩
  rw [Nat.add_right_comm]
  exact (hothers n).trans (hanswers (n + 1))

/-- The token that is given is kept as the current one. -/
theorem current_of_ok {t : Tokenizer τ} {value : τ} (h : t.advance.result = some (.ok value)) :
    t.advance.tokenizer.current = value := by
  unfold advance at h ⊢
  cases hnext : t.next.2 with
  | ended =>
    rw [hnext] at h
    exact Except.ok.inj (Option.some.inj h)
  | stuck => exact nomatch hnext ▸ h
  | torn => exact nomatch hnext ▸ h
  | token =>
    rw [hnext] at h
    exact Except.ok.inj (Option.some.inj h)

/-- The calls of a reader: its start at a text, and then one step after the other. -/
def calls (rules : List (TokenRule τ)) (endToken : τ) (text : List Char) : Nat → Advance τ
  | 0 => start rules endToken text
  | n + 1 => (calls rules endToken text n).tokenizer.advance

/-- A reader keeps its rules, its end token and its text. -/
theorem calls_keeps (rules : List (TokenRule τ)) (endToken : τ) (text : List Char) (n : Nat) :
    (calls rules endToken text n).tokenizer.rules = rules ∧
      (calls rules endToken text n).tokenizer.endToken = endToken ∧
      (calls rules endToken text n).tokenizer.text = text := by
  induction n with
  | zero => exact ⟨rfl, rfl, rfl⟩
  | succ n ih => exact ih

/-- Each call is a step of the reader that the call before it has left. -/
theorem exists_calls_eq_advance (rules : List (TokenRule τ)) (endToken : τ) (text : List Char)
    (n : Nat) : ∃ t : Tokenizer τ, calls rules endToken text n = t.advance ∧ t.rules = rules ∧
      t.text = text ∧ ∀ before, n = before + 1 → t = (calls rules endToken text before).tokenizer := by
  cases n with
  | zero => exact ⟨_, rfl, rfl, rfl, fun _ h => nomatch h⟩
  | succ n =>
    obtain ⟨hrules, -, htext⟩ := calls_keeps rules endToken text n
    exact ⟨_, rfl, hrules, htext, fun before h => by rw [Nat.succ.inj h]⟩

/-- Each call gives the next answer. By induction on the calls, with what the reader awaits behind
each. -/
theorem result_calls (htied : ∀ rule ∈ rules, rule.IsTied) (endToken : τ) (text : List Char)
    (n : Nat) :
    (calls rules endToken text n).result = some ((lex rules text).answer endToken n) ∧
      (calls rules endToken text n).tokenizer.Awaits (lex rules text) (n + 1) := by
  induction n with
  | zero =>
    have hstart : Awaits { rules, endToken, text, current := endToken } (lex rules text) 0 :=
      ⟨[], text, .start text, fun n => by rw [Nat.zero_add]; rfl⟩
    exact hstart.advance htied
  | succ n ih =>
    obtain ⟨hrules, hend, -⟩ := calls_keeps rules endToken text n
    obtain ⟨hfirst, hothers⟩ := ih.2.advance (hrules.symm ▸ htied)
    rw [hend] at hfirst
    exact ⟨hfirst, hothers⟩

end Tokenizer

/-- The items of an endless sequence of tokens. -/
def TokenStream.items (s : TokenStream τ) : Nat → Advance τ
  | 0 => s.next
  | n + 1 => s.after.items n

/-- Once it has started, an endless sequence gives what its reader awaits. -/
theorem TokenStream.result_items_of_started {t : Tokenizer τ} {l : Lexing τ} {number : Nat}
    (h : t.Awaits l number) (htied : ∀ rule ∈ t.rules, rule.IsTied) (n : Nat) :
    ((TokenStream.mk t true).items n).result = some (l.answer t.endToken (number + n)) := by
  induction n generalizing t number with
  | zero => exact (h.advance htied).1
  | succ n ih =>
    have hitems := ih (h.advance htied).2 htied
    rw [Nat.add_right_comm] at hitems
    exact hitems

/-- An endless sequence from the start of a text gives the answers of its cutting. -/
theorem TokenStream.result_items (htied : ∀ rule ∈ rules, rule.IsTied) {endToken : τ}
    {text : List Char} {t : τ} (h : (Tokenizer.start rules endToken text).result = some (.ok t))
    (n : Nat) :
    ((TokenStream.mk (Tokenizer.start rules endToken text).tokenizer false).items n).result =
      some ((lex rules text).answer endToken n) := by
  obtain ⟨hfirst, hothers⟩ := Tokenizer.result_calls htied endToken text 0
  cases n with
  | zero =>
    rw [← hfirst]
    exact (congrArg (some <| Except.ok ·) (Tokenizer.current_of_ok h)).trans h.symm
  | succ n =>
    have hitems := TokenStream.result_items_of_started hothers htied n
    rw [Nat.zero_add, Nat.add_comm] at hitems
    exact hitems

/-- The calls of a tokenizer, and likewise the items of its tokens as an endless sequence, are the
answers of the one cutting of the text by maximal munch.  A call that fails has read some of the text;
it shows where that ends and how the text goes on there, where no rule reads anything.  It leaves the
current token as it was, and all later calls fail in the same way. -/
theorem tokenizer_munches_maximally (htied : ∀ rule ∈ rules, rule.IsTied) (endToken : τ)
    (text : List Char) : ∃ l, (∀ l', Munches rules {} text l' ↔ l' = l) ∧
      (∀ n, (Tokenizer.calls rules endToken text n).result = some (l.answer endToken n)) ∧
      (∀ t, (Tokenizer.start rules endToken text).result = some (.ok t) → ∀ n,
        ((TokenStream.mk (Tokenizer.start rules endToken text).tokenizer false).items n).result =
          some (l.answer endToken n)) ∧
      ∀ n e, (Tokenizer.calls rules endToken text n).result = some (.error e) →
        (∃ read rest, read ++ rest = text ∧ rest ≠ [] ∧
          (∀ rule ∈ rules, ∀ m, rule.find? rest = some m → m.text = []) ∧
          e = ⟨({} : Location).advanceOver read, String.ofList (rest.take 50)⟩ ∧
          (Tokenizer.calls rules endToken text n).tokenizer.place = e.location ∧
          (Tokenizer.calls rules endToken text n).tokenizer.rest? = some rest) ∧
        (∀ before, n = before + 1 → (Tokenizer.calls rules endToken text n).tokenizer.current =
          (Tokenizer.calls rules endToken text before).tokenizer.current) ∧
        ∀ m, n ≤ m → (Tokenizer.calls rules endToken text m).result = some (.error e) := by
  have hcalls := Tokenizer.result_calls htied endToken text
  refine ⟨lex rules text, fun _ => munches_iff htied, fun n => (hcalls n).1,
    fun t ht n => TokenStream.result_items htied ht n, fun n e h => ?_⟩
  have hanswer : (lex rules text).answer endToken n = .error e :=
    Option.some.inj ((hcalls n).1.symm.trans h)
  obtain ⟨read, left, hbetween, -⟩ := (hcalls n).2
  rw [(Tokenizer.calls_keeps rules endToken text n).2.2] at hbetween
  obtain ⟨t, hcall, hrules, htext, hbefore⟩ :=
    Tokenizer.exists_calls_eq_advance rules endToken text n
  rw [hcall] at h
  obtain ⟨hreader, rest, hrest, hne, hnone, herror⟩ := Tokenizer.advance_of_error h
  rw [← hcall] at hreader hrest
  rw [hrules] at hnone
  have hlocation : (Tokenizer.calls rules endToken text n).tokenizer.place = e.location :=
    congrArg Tokenizer.place hreader
  -- what is left over is the same, whether it is taken up or counted
  have hsame : some rest = some left := by
    rw [← hrest, Tokenizer.rest?, (Tokenizer.calls_keeps rules endToken text n).2.2]
    exact hbetween.sliceFrom?
  obtain rfl := Option.some.inj hsame
  refine ⟨⟨read, rest, hbetween.whole, hne, longest?_eq_none_iff.1 hnone, ?_, hlocation, hrest⟩, ?_,
    fun m hm => ?_⟩
  · rw [← hbetween.place, hlocation]
    exact herror
  · intro before hn
    rw [← hbefore before hn, hreader]
  · rw [(hcalls m).1, Lexing.answer_of_error hanswer hm]

/-- A letter, a word that begins with it, the same word again, any number of zeros, and line feeds,
which are dropped. -/
def overlapping : List (TokenRule String) :=
  [ .ofPattern (.char 'a') (fun _ => some "letter"),
    .ofPattern (.word ['a', 'b']) (fun _ => some "word"),
    .ofPattern (.word ['a', 'b']) (fun _ => some "again"),
    .ofPattern (.star true (.char '0')) (fun _ => some "zeros"),
    .ofPattern (.char '\n') (fun _ => none) ]

/-- The longer match wins, of two that are equally long the first, and an empty one does not count;
the line feed before the failure has been read. -/
theorem overlapping_munches_maximally :
    (∀ rule ∈ overlapping, rule.IsTied) ∧ ∃ l, Munches overlapping {} "a\nab\n#".toList l ∧
      l.answer "end" 0 = .ok "letter" ∧ l.answer "end" 1 = .ok "word" ∧
      ∀ n ≥ 2, l.answer "end" n = .error ⟨⟨5, 3, 0⟩, "#"⟩ := by
  have htied : ∀ rule ∈ overlapping, rule.IsTied := by
    simp [overlapping, TokenRule.isTied_ofPattern]
  obtain ⟨l, hunique, hcalls, -, herror⟩ :=
    tokenizer_munches_maximally htied "end" "a\nab\n#".toList
  have hfirst : (Tokenizer.calls overlapping "end" "a\nab\n#".toList 0).result =
      some (.ok "letter") := by
    decide +kernel
  have hsecond : (Tokenizer.calls overlapping "end" "a\nab\n#".toList 1).result =
      some (.ok "word") := by
    decide +kernel
  -- the line feed is dropped on the way to the failure
  have hthird : (Tokenizer.calls overlapping "end" "a\nab\n#".toList 2).result =
      some (.error ⟨⟨5, 3, 0⟩, "#"⟩) := by
    decide +kernel
  refine ⟨htied, l, (hunique l).2 rfl, Option.some.inj ((hcalls 0).symm.trans hfirst),
    Option.some.inj ((hcalls 1).symm.trans hsecond), fun n hn => ?_⟩
  exact Option.some.inj ((hcalls n).symm.trans ((herror 2 _ hthird).2.2 n hn))

end GuardedGrammar
