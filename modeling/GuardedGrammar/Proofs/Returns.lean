/-
  Carriage returns before line feeds.

  A text with a carriage return before each of its line feeds is cut like the text, if the rules for
  tokens have nothing to do with line endings (`IgnoresReturns`).  Where the text does not begin with a
  line feed, each rule finds the same in both, up to the returns in what it finds; and what is longer
  in the text is longer in the other one as well, since returns are put into both of what is compared
  (`length_withReturns_le_iff`).  At a line feed the return is dropped first.

  Most patterns can read neither of the two characters (`firstMatch?_withReturns`).  What a longer match
  can have in it of them stands between marks, and a return can stand there wherever a line feed can
  (`firstMatch?_between_marks_withReturns`).

  Main statement: `IgnoresReturns.cutsAlike`.
-/
import GuardedGrammar.Proofs.Cutting
import GuardedGrammar.Proofs.FurtherText
import GuardedGrammar.Text.Lines

namespace GuardedGrammar

namespace Text

/-- The text with a carriage return before each line feed. -/
def withReturns (text : List Char) : List Char :=
  text.flatMap fun c => if c = '\n' then ['\r', '\n'] else [c]

variable {text : List Char}

/-! A carriage return is put before each line feed, and other characters stay as they are. -/

@[simp] theorem withReturns_nil : withReturns [] = [] := rfl

theorem withReturns_cons_feed (text : List Char) :
    withReturns ('\n' :: text) = '\r' :: '\n' :: withReturns text := rfl

theorem withReturns_cons {c : Char} (hc : c ≠ '\n') (text : List Char) :
    withReturns (c :: text) = c :: withReturns text := by
  rw [withReturns, List.flatMap_cons, if_neg hc]
  rfl

theorem withReturns_append (first second : List Char) :
    withReturns (first ++ second) = withReturns first ++ withReturns second :=
  List.flatMap_append

/-- A text on one line stays as it is. -/
theorem withReturns_eq_self (h : '\n' ∉ text) : withReturns text = text := by
  induction text with
  | nil => rfl
  | cons c text ih =>
    rw [List.mem_cons, not_or] at h
    rw [withReturns_cons (Ne.symm h.1), ih h.2]

/-- No character is lost. -/
theorem length_le_length_withReturns (text : List Char) :
    text.length ≤ (withReturns text).length := by
  induction text with
  | nil => exact Nat.le_refl _
  | cons c text ih =>
    by_cases hc : c = '\n'
    · rw [hc, withReturns_cons_feed, List.length_cons, List.length_cons, List.length_cons]
      omega
    · rw [withReturns_cons hc, List.length_cons, List.length_cons]
      omega

/-- A text is empty with carriage returns exactly if it is so without. -/
theorem withReturns_eq_nil_iff : withReturns text = [] ↔ text = [] := by
  constructor
  · intro h
    have := length_le_length_withReturns text
    rw [h] at this
    exact List.length_eq_zero_iff.1 (Nat.le_zero.1 this)
  · rintro rfl
    rfl

/-- All characters of a text are there with carriage returns too. -/
theorem mem_withReturns {c : Char} (h : c ∈ text) : c ∈ withReturns text := by
  refine List.mem_flatMap.2 ⟨c, h, ?_⟩
  split
  · next hc => exact hc ▸ List.mem_pair.2 (.inr rfl)
  · exact List.mem_singleton_self c

/-- There are no new characters but carriage returns, and those only where there are line feeds. -/
theorem mem_of_mem_withReturns {c : Char} (h : c ∈ withReturns text) :
    c ∈ text ∨ c = '\r' ∧ '\n' ∈ text := by
  obtain ⟨d, hd, hc⟩ := List.mem_flatMap.1 h
  split at hc
  · next hfeed =>
    subst hfeed
    rcases List.mem_pair.1 hc with rfl | rfl
    · exact .inr ⟨rfl, hd⟩
    · exact .inl hd
  · exact .inl (List.mem_singleton.1 hc ▸ hd)

/-- Returns do not change which of two beginnings of a text is the longer one. -/
theorem length_withReturns_le_iff {a b : List Char} (ha : a <+: text) (hb : b <+: text) :
    (withReturns a).length ≤ (withReturns b).length ↔ a.length ≤ b.length := by
  rcases List.prefix_or_prefix_of_prefix ha hb with ⟨t, rfl⟩ | ⟨t, rfl⟩
  · simp [withReturns_append]
  · have hmore := length_le_length_withReturns t
    rw [withReturns_append, List.length_append, List.length_append]
    cases t with
    | nil => simp
    | cons c t =>
      rw [List.length_cons] at hmore ⊢
      omega

/-- A character that belongs to no line ending divides the text as it divides the one with returns. -/
theorem exists_of_withReturns_eq_append {c : Char} (hfeed : c ≠ '\n') (hreturn : c ≠ '\r')
    {a b : List Char} (h : withReturns text = a ++ c :: b) :
    ∃ u v, text = u ++ c :: v ∧ a = withReturns u ∧ b = withReturns v := by
  induction text generalizing a with
  | nil => exact absurd (List.append_eq_nil_iff.1 h.symm).2 (List.cons_ne_nil _ _)
  | cons d text ih =>
    by_cases hd : d = '\n'
    · subst hd
      rw [withReturns_cons_feed] at h
      -- neither of the two characters is the one that divides
      cases a with
      | nil => exact absurd (List.cons.inj h).1.symm hreturn
      | cons x a =>
        obtain ⟨rfl, hbehind⟩ := List.cons.inj h
        cases a with
        | nil => exact absurd (List.cons.inj hbehind).1.symm hfeed
        | cons x a =>
          obtain ⟨rfl, hrest⟩ := List.cons.inj hbehind
          obtain ⟨u, v, rfl, rfl, rfl⟩ := ih hrest
          exact ⟨'\n' :: u, v, rfl, rfl, rfl⟩
    · rw [withReturns_cons hd] at h
      cases a with
      | nil =>
        obtain ⟨rfl, rfl⟩ := List.cons.inj h
        exact ⟨[], text, rfl, rfl, rfl⟩
      | cons x a =>
        obtain ⟨rfl, hrest⟩ := List.cons.inj h
        obtain ⟨u, v, rfl, rfl, rfl⟩ := ih hrest
        exact ⟨d :: u, v, rfl, (withReturns_cons hd u).symm, rfl⟩

/-! A carriage return at the end of a line is dropped, and nothing else. -/

theorem dropReturn_of_not_mem {line : List Char} (h : '\r' ∉ line) : dropReturn line = line :=
  if_neg fun hlast => h (List.mem_of_getLast? hlast)

theorem dropReturn_append_return (line : List Char) : dropReturn (line ++ ['\r']) = line := by
  rw [dropReturn, if_pos List.getLast?_concat, List.dropLast_concat]

/-- By induction on the text; `line` is what has been read of the current line, last first. -/
theorem linesFrom_withReturns {line : List Char} (hline : '\r' ∉ line) (htext : '\r' ∉ text) :
    linesFrom line (withReturns text) = linesFrom line text := by
  induction text generalizing line with
  | nil => rfl
  | cons c text ih =>
    rw [List.mem_cons, not_or] at htext
    by_cases hc : c = '\n'
    · subst hc
      -- the carriage return ends the line, and is dropped again
      have hends : dropReturn ('\r' :: line).reverse = dropReturn line.reverse := by
        rw [List.reverse_cons, dropReturn_append_return,
          dropReturn_of_not_mem fun h => hline (List.mem_reverse.1 h)]
      rw [withReturns_cons_feed, linesFrom, if_neg (by decide), linesFrom, if_pos rfl, linesFrom,
        if_pos rfl, ih List.not_mem_nil htext.2, hends]
    · rw [withReturns_cons hc, linesFrom, if_neg hc, linesFrom, if_neg hc]
      exact ih (List.not_mem_cons_of_ne_of_not_mem htext.1 hline) htext.2

theorem lines_withReturns (h : '\r' ∉ text) : lines (withReturns text) = lines text :=
  linesFrom_withReturns List.not_mem_nil h

/-- A text is blank with carriage returns exactly if it is so without. -/
theorem isBlankText_withReturns (text : List Char) :
    isBlankText (withReturns text) = isBlankText text := by
  rw [Bool.eq_iff_iff, isBlankText, isBlankText, List.all_eq_true, List.all_eq_true]
  constructor
  · exact fun h c hc => h c (mem_withReturns hc)
  · intro h c hc
    rcases mem_of_mem_withReturns hc with hc | ⟨rfl, -⟩
    · exact h c hc
    · rfl

end Text

/-! ## Matches -/

namespace Pattern

/-- A pattern that reads neither of the characters of a line ending finds the same in both texts. -/
theorem firstMatch?_withReturns {p : Pattern} (hend : p.asksForEnd = false)
    (hp : p.ReadsOnly fun c => c ≠ '\n' ∧ c ≠ '\r') (text : List Char) :
    p.firstMatch? (Text.withReturns text) = p.firstMatch? text := by
  by_cases hfeed : '\n' ∈ text
  · obtain ⟨a, b, rfl, ha⟩ := List.eq_append_cons_of_mem hfeed
    -- neither what follows the first return nor what follows the first line feed is looked at
    rw [Text.withReturns_append, Text.withReturns_cons_feed, Text.withReturns_eq_self ha,
      firstMatch?_append_cons hend (hp.imp fun _ hc => hc.2),
      firstMatch?_append_cons hend (hp.imp fun _ hc => hc.1)]
  · rw [Text.withReturns_eq_self hfeed]

/-- What stands between marks in a text stands there with returns in the text with returns, and nothing
else does. -/
theorem firstMatch?_between_marks_withReturns {opening closing : Char} {k : CharClass}
    (hopening : opening ≠ '\n' ∧ opening ≠ '\r') (hclosing : closing ≠ '\n' ∧ closing ≠ '\r')
    (hclass : k.contains closing = false)
    (hendings : k.contains '\n' = true → k.contains '\r' = true) (text : List Char) :
    Option.Rel (fun m n => ∃ u, (∀ c ∈ u, k.contains c = true) ∧
        m = ⟨opening :: (u ++ [closing]), [(1, u)]⟩ ∧
        n = ⟨opening :: (Text.withReturns u ++ [closing]), [(1, Text.withReturns u)]⟩)
      ((concat [.char opening, .group 1 (.star true (.one k)), .char closing]).firstMatch? text)
      ((concat [.char opening, .group 1 (.star true (.one k)), .char closing]).firstMatch?
        (Text.withReturns text)) := by
  have hreads {u : List Char} (hu : ∀ c ∈ u, k.contains c = true) :
      ∀ c ∈ Text.withReturns u, k.contains c = true := by
    intro c hc
    rcases Text.mem_of_mem_withReturns hc with hmem | ⟨rfl, hmem⟩
    · exact hu c hmem
    · exact hendings (hu _ hmem)
  cases hfound : (concat [.char opening, .group 1 (.star true (.one k)),
      .char closing]).firstMatch? text with
  | some m =>
    obtain ⟨u, rest, hu, rfl, rfl⟩ := exists_of_firstMatch?_between_marks hfound
    rw [Text.withReturns_cons hopening.1, Text.withReturns_append,
      Text.withReturns_cons hclosing.1, firstMatch?_between_marks opening (hreads hu) hclass]
    exact .some ⟨u, hu, rfl, rfl⟩
  | none =>
    cases hother : (concat [.char opening, .group 1 (.star true (.one k)),
        .char closing]).firstMatch? (Text.withReturns text) with
    | none => exact .none
    | some n =>
      obtain ⟨v, rest, hv, htext, rfl⟩ := exists_of_firstMatch?_between_marks hother
      -- both marks are characters of the text
      obtain ⟨before, behind, rfl, hbefore, hbehind⟩ :=
        Text.exists_of_withReturns_eq_append (a := []) hopening.1 hopening.2 htext
      obtain rfl := Text.withReturns_eq_nil_iff.1 hbefore.symm
      obtain ⟨u, more, rfl, rfl, rfl⟩ :=
        Text.exists_of_withReturns_eq_append hclosing.1 hclosing.2 hbehind.symm
      have hfirst := firstMatch?_between_marks opening
        (fun c hc => hv c (Text.mem_withReturns hc)) hclass more
      exact nomatch hfound.symm.trans hfirst

end Pattern

/-! ## Cutting

A text is cut alike with carriage returns if its rules find alike, and if a carriage return in front
of a line feed is dropped. By induction on the length of the text, match by match. -/

section

variable {τ : Type} {rules : List (TokenRule τ)} {g : τ → τ}

/-- What a rule finds in the text with returns is what it finds in the text, with returns, and the token
that it makes is the one given by `g`. -/
def FindsAlike (g : τ → τ) (rule : TokenRule τ) (text : List Char) : Prop :=
  Option.Rel (fun m n => n.text = Text.withReturns m.text ∧
      rule.produce n = (rule.produce m).map g)
    (rule.find? text) (rule.find? (Text.withReturns text))

/-- What a rule finds in a text it finds with carriage returns too. -/
theorem FindsAlike.of_some {rule : TokenRule τ} {text : List Char} (h : FindsAlike g rule text)
    {m : Match} (hm : rule.find? text = some m) :
    ∃ n, rule.find? (Text.withReturns text) = some n ∧ n.text = Text.withReturns m.text ∧
      rule.produce n = (rule.produce m).map g := by
  unfold FindsAlike at h
  rw [hm] at h
  generalize rule.find? (Text.withReturns text) = found at h
  cases h with
  | some h => exact ⟨_, rfl, h⟩

/-- What a rule finds with carriage returns it finds without them too. -/
theorem FindsAlike.of_withReturns {rule : TokenRule τ} {text : List Char}
    (h : FindsAlike g rule text) {n : Match} (hn : rule.find? (Text.withReturns text) = some n) :
    ∃ m, rule.find? text = some m ∧ n.text = Text.withReturns m.text := by
  unfold FindsAlike at h
  rw [hn] at h
  generalize rule.find? text = found at h
  cases h with
  | some h => exact ⟨_, rfl, h.1⟩

/-- A rule that reads neither of the characters of a line ending. -/
theorem findsAlike_of_readsOnly {p : Pattern} {produce : Match → Option τ}
    (hend : p.asksForEnd = false) (hp : p.ReadsOnly fun c => c ≠ '\n' ∧ c ≠ '\r')
    (hproduce : ∀ m, (produce m).map g = produce m) (text : List Char) :
    FindsAlike g (.ofPattern p produce) text := by
  unfold FindsAlike
  rw [TokenRule.find?_ofPattern, TokenRule.find?_ofPattern,
    Pattern.firstMatch?_withReturns hend hp text]
  cases hfound : p.firstMatch? text with
  | none => exact .none
  | some m =>
    have hline : '\n' ∉ m.text := fun hmem =>
      ((Pattern.denotes_of_firstMatch? hfound).forall_of_readsOnly hp '\n' hmem).1 rfl
    exact .some ⟨(Text.withReturns_eq_self hline).symm, (hproduce m).symm⟩

/-- A rule for one character, where there is no line feed. -/
theorem findsAlike_one {k : CharClass} {produce : Match → Option τ} {c : Char} (hc : c ≠ '\n')
    (hproduce : ∀ m, (produce m).map g = produce m) (text : List Char) :
    FindsAlike g (.ofPattern (.one k) produce) (c :: text) := by
  unfold FindsAlike
  rw [TokenRule.find?_ofPattern, TokenRule.find?_ofPattern, Text.withReturns_cons hc,
    Pattern.firstMatch?_one_cons, Pattern.firstMatch?_one_cons]
  split
  · refine .some ⟨?_, (hproduce _).symm⟩
    rw [Text.withReturns_cons hc, Text.withReturns_nil]
  · exact .none

/-- A rule for what stands between marks. -/
theorem findsAlike_between_marks {opening closing : Char} {k : CharClass}
    {produce : Match → Option τ} (hopening : opening ≠ '\n' ∧ opening ≠ '\r')
    (hclosing : closing ≠ '\n' ∧ closing ≠ '\r') (hclass : k.contains closing = false)
    (hendings : k.contains '\n' = true → k.contains '\r' = true)
    (hproduce : ∀ u, (∀ c ∈ u, k.contains c = true) →
      produce ⟨opening :: (Text.withReturns u ++ [closing]), [(1, Text.withReturns u)]⟩ =
        (produce ⟨opening :: (u ++ [closing]), [(1, u)]⟩).map g) (text : List Char) :
    FindsAlike g (.ofPattern (.concat [.char opening, .group 1 (.star true (.one k)),
      .char closing]) produce) text := by
  have halike :=
    Pattern.firstMatch?_between_marks_withReturns hopening hclosing hclass hendings text
  unfold FindsAlike
  rw [TokenRule.find?_ofPattern, TokenRule.find?_ofPattern]
  -- what is found in the one text decides what is found in the other
  generalize Pattern.firstMatch? _ text = found at halike ⊢
  generalize Pattern.firstMatch? _ (Text.withReturns text) = found' at halike ⊢
  cases halike with
  | none => exact .none
  | some h =>
    obtain ⟨u, hu, rfl, rfl⟩ := h
    refine .some ⟨?_, hproduce u hu⟩
    rw [Text.withReturns_cons hopening.1, Text.withReturns_append, Text.withReturns_cons hclosing.1,
      Text.withReturns_nil]

/-- Where all rules find alike, what wins in the text wins in the text with returns. -/
theorem IsLongest.withReturns (htied : ∀ rule ∈ rules, rule.IsTied) {text : List Char}
    (hfinds : ∀ rule ∈ rules, FindsAlike g rule text) {i : Nat} {rule : TokenRule τ} {m : Match}
    (h : IsLongest rules text i rule m) :
    ∃ n, IsLongest rules (Text.withReturns text) i rule n ∧ n.text = Text.withReturns m.text ∧
      rule.produce n = (rule.produce m).map g := by
  have hrule := List.mem_of_getElem? h.listed
  obtain ⟨n, hn, hread, hproduce⟩ := (hfinds rule hrule).of_some h.found
  -- all other rules find matches whose lengths are in the same order
  have hother (j : Nat) (other : TokenRule τ) (n' : Match) (hj : rules[j]? = some other)
      (hn' : other.find? (Text.withReturns text) = some n') :
      ∃ m', other.find? text = some m' ∧
        (n'.text.length ≤ n.text.length ↔ m'.text.length ≤ m.text.length) ∧
        (n.text.length ≤ n'.text.length ↔ m.text.length ≤ m'.text.length) := by
    have hmem := List.mem_of_getElem? hj
    obtain ⟨m', hm', hread'⟩ := (hfinds other hmem).of_withReturns hn'
    have hbegins := htied rule hrule text m h.found
    have hbegins' := htied other hmem text m' hm'
    rw [hread, hread']
    exact ⟨m', hm', Text.length_withReturns_le_iff hbegins' hbegins,
      Text.length_withReturns_le_iff hbegins hbegins'⟩
  refine ⟨n, ⟨h.listed, hn, ?_, fun j other n' hj hn' => ?_, fun j other n' hj hn' hlen => ?_⟩,
    hread, hproduce⟩
  · rw [hread, ne_eq, Text.withReturns_eq_nil_iff]
    exact h.reads
  · obtain ⟨m', hm', hle, -⟩ := hother j other n' hj hn'
    exact hle.2 (h.longest j other m' hj hm')
  · obtain ⟨m', hm', hle, hge⟩ := hother j other n' hj hn'
    exact h.first j other m' hj hm'
      (Nat.le_antisymm (hle.1 (Nat.le_of_eq hlen)) (hge.1 (Nat.le_of_eq hlen.symm)))

/-- Rules for which a carriage return before a line feed makes no difference, but for what `g` makes of
tokens: a return is dropped, a line feed is a match by itself, and anything else is found in both texts. -/
structure IgnoresReturns (rules : List (TokenRule τ)) (g : τ → τ) : Prop where
  tied : ∀ rule ∈ rules, rule.IsTied
  finds : ∀ rule ∈ rules, ∀ c text, c ≠ '\n' → FindsAlike g rule (c :: text)
  feed : ∃ values : List τ, values.map g = values ∧ ∀ rest, CutsOff rules ['\n'] rest values
  dropped : ∀ rest, CutsOff rules ['\r'] rest []

/-- A text that no rule reads anything of is not cut. -/
theorem not_cutsInto_of_none {text : List Char} (htext : text ≠ [])
    (hnone : ∀ rule ∈ rules, ∀ m, rule.find? text = some m → m.text = []) (values : List τ) :
    ¬CutsInto rules text values := by
  intro h
  cases h with
  | nil => exact htext rfl
  | step hwins => exact hwins.reads (hnone _ (List.mem_of_getElem? hwins.listed) _ hwins.found)

/-- The text with returns is cut as the text is, but for what `g` makes of tokens. -/
def CutsAlike (rules : List (TokenRule τ)) (g : τ → τ) (text : List Char) : Prop :=
  ∀ values, CutsInto rules (Text.withReturns text) values ↔
    ∃ others, CutsInto rules text others ∧ values = others.map g

namespace IgnoresReturns

/-- An empty text is cut alike. -/
theorem cutsAlike_nil : CutsAlike rules g [] := by
  intro values
  constructor
  · intro hcuts
    obtain rfl : values = [] := hcuts.cutsOff.eq_nil
    exact ⟨[], .nil, rfl⟩
  · rintro ⟨others, hcuts, rfl⟩
    obtain rfl : others = [] := hcuts.cutsOff.eq_nil
    exact .nil

/-- The return before a line feed is dropped, and then the line feed is what it is in the text. -/
theorem cutsAlike_feed (h : IgnoresReturns rules g) {text : List Char}
    (hbehind : CutsAlike rules g text) : CutsAlike rules g ('\n' :: text) := by
  intro values
  obtain ⟨xs, hxs, hfeed⟩ := h.feed
  -- the carriage return is dropped, and the line feed is read in both texts
  have hboth : CutsOff rules (['\r'] ++ ['\n']) (Text.withReturns text) ([] ++ xs) :=
    (h.dropped _).append (hfeed _)
  have hreturns : CutsInto rules (['\r'] ++ ['\n'] ++ Text.withReturns text) values ↔ _ :=
    hboth.cutsInto_iff h.tied
  have htext (others : List τ) : CutsInto rules (['\n'] ++ text) others ↔ _ :=
    (hfeed text).cutsInto_iff h.tied
  show CutsInto rules (['\r'] ++ ['\n'] ++ Text.withReturns text) values ↔
    ∃ others, CutsInto rules (['\n'] ++ text) others ∧ _
  simp only [hreturns, htext, hbehind _, List.nil_append]
  constructor
  · rintro ⟨_, ⟨ys, hys, rfl⟩, rfl⟩
    exact ⟨_, ⟨ys, hys, rfl⟩, by rw [List.map_append, hxs]⟩
  · rintro ⟨_, ⟨ys, hys, rfl⟩, rfl⟩
    exact ⟨_, ⟨ys, hys, rfl⟩, by rw [List.map_append, hxs]⟩

/-- Elsewhere the same rule wins in both, if any does. -/
theorem cutsAlike_cons (h : IgnoresReturns rules g) {c : Char} (hc : c ≠ '\n') {text : List Char}
    (hbehind : ∀ rest : List Char, rest.length < (c :: text).length → CutsAlike rules g rest) :
    CutsAlike rules g (c :: text) := by
  intro values
  have hfinds (rule : TokenRule τ) (hrule : rule ∈ rules) := h.finds rule hrule c text hc
  cases hlongest : longest? rules (c :: text) with
  | none =>
    have hnone := longest?_eq_none_iff.1 hlongest
    -- no rule reads anything of either text
    have hne : Text.withReturns (c :: text) ≠ [] :=
      mt Text.withReturns_eq_nil_iff.1 (List.cons_ne_nil c text)
    have hnone' : ∀ rule ∈ rules, ∀ n,
        rule.find? (Text.withReturns (c :: text)) = some n → n.text = [] := by
      intro rule hrule n hn
      obtain ⟨m, hm, hread⟩ := (hfinds rule hrule).of_withReturns hn
      rw [hread, hnone rule hrule m hm, Text.withReturns_nil]
    constructor
    · exact fun hcuts => absurd hcuts (not_cutsInto_of_none hne hnone' _)
    · rintro ⟨others, hcuts, -⟩
      exact absurd hcuts (not_cutsInto_of_none (List.cons_ne_nil _ _) hnone _)
  | some b =>
    obtain ⟨rule, m, hwins, -⟩ := (longest?_eq_some_iff h.tied).1 hlongest
    -- the same rule wins in both texts, and what is behind its match is shorter
    obtain ⟨n, hwins', hread, hproduce⟩ := hwins.withReturns h.tied hfinds
    obtain ⟨rest, hrest⟩ := h.tied rule (List.mem_of_getElem? hwins.listed) _ m hwins.found
    have hshorter : rest.length < (c :: text).length := by
      have := List.length_pos_iff.2 hwins.reads
      rw [← hrest, List.length_append]
      omega
    rw [← hrest] at hwins hwins' ⊢
    rw [Text.withReturns_append, ← hread] at hwins' ⊢
    simp only [cutsInto_append_iff h.tied hwins, cutsInto_append_iff h.tied hwins',
      hbehind rest hshorter _, hproduce, Option.toList_map]
    constructor
    · rintro ⟨_, ⟨ys, hys, rfl⟩, rfl⟩
      exact ⟨_, ⟨ys, hys, rfl⟩, (List.map_append ..).symm⟩
    · rintro ⟨_, ⟨ys, hys, rfl⟩, rfl⟩
      exact ⟨_, ⟨ys, hys, rfl⟩, List.map_append ..⟩

/-- By induction on the length of the text. -/
theorem cutsAlike (h : IgnoresReturns rules g) (text : List Char) : CutsAlike rules g text := by
  generalize hlength : text.length = n
  induction n using Nat.strongRecOn generalizing text with
  | ind n ih =>
    subst hlength
    cases text with
    | nil => exact cutsAlike_nil
    | cons c text =>
      by_cases hc : c = '\n'
      · exact hc ▸ h.cutsAlike_feed (ih text.length (Nat.lt_succ_self _) text rfl)
      · exact h.cutsAlike_cons hc fun rest hrest => ih rest.length hrest rest rfl

end IgnoresReturns

end

end GuardedGrammar
