/-
  Instructions are read line by line.

  Blank lines and comments are left out, and what is left is put together again with a line feed between
  any two lines.  That glues no words together and splits none: apart from the rule that drops blanks,
  which reads one character, no rule can read a line feed, so that whatever a rule finds in a line it
  finds in front of the next one too (`find?_before_lineFeed`), and so does a rule that finds nothing.
  Hence a line is cut off as if it were the only one (`cutsOff_below`), and the first line that cannot be
  cut to its end stops the reading of all of them where it stops its own (`cutsOff_before_lines`).

  Main statement: `terminals_stripComments`.
-/
import GuardedGrammar.Proofs.Concatenation
import GuardedGrammar.Proofs.InstructionWords

namespace GuardedGrammar

/-! ## Where a text cannot be cut -/

section

variable {τ : Type} {rules : List (TokenRule τ)} {u rest : List Char} {values : List τ}

/-- The text is not at its end, and no rule reads anything of it. -/
structure IsUnread (rules : List (TokenRule τ)) (text : List Char) : Prop where
  ne_nil : text ≠ []
  unread : ∀ rule ∈ rules, ∀ m, rule.find? text = some m → m.text = []

/-- A text is cut to its end, or to where it cannot be cut. -/
theorem exists_cutsOff (htied : ∀ rule ∈ rules, rule.IsTied) (text : List Char) :
    (∃ values, CutsInto rules text values) ∨ ∃ u rest values, text = u ++ rest ∧
      CutsOff rules u rest values ∧ IsUnread rules rest := by
  have hmunches := munches_lexFrom htied {} text
  generalize lexFrom rules {} text = l at hmunches
  generalize ({} : Location) = place at hmunches
  -- the text is cut by one match after the other, until nothing is left or nothing is read
  induction hmunches with
  | finished => exact .inl ⟨[], .nil⟩
  | stuck htext hnone => exact .inr ⟨[], _, [], rfl, .nil, htext, hnone⟩
  | step hwins _ ih =>
    rcases ih with ⟨values, hcuts⟩ | ⟨u, rest, values, rfl, hcuts, hrest⟩
    · exact .inl ⟨_, .step hwins hcuts⟩
    · exact .inr ⟨_, rest, _, (List.append_assoc ..).symm, .step hwins hcuts, hrest⟩

/-- Asking for all tokens gives those of the beginning, and then the failure. -/
theorem CutsOff.items_ofText (htied : ∀ rule ∈ rules, rule.IsTied) (h : CutsOff rules u rest values)
    (hrest : IsUnread rules rest) (endToken : τ) :
    (Tokens.ofText rules (u ++ rest)).items endToken =
      values.map .ok ++ [.error (.before (({} : Location).advanceOver u) rest)] := by
  obtain ⟨behind, hbehind⟩ := h.items_tokensFrom htied endToken {} []
  rw [lexFrom_of_none hrest.ne_nil (longest?_eq_none_iff.2 hrest.unread)] at hbehind
  exact hbehind

end

namespace Text

/-! ## Lines -/

/-- The lines of a text: each up to the next line feed, without the carriage return that may stand right
before that. What stands behind the last line feed is a line unless it is empty. -/
inductive HasLines : List Char → List (List Char) → Prop
  | nil : HasLines [] []
  | last {line : List Char} (hline : '\n' ∉ line) (hne : line ≠ []) : HasLines line [line]
  | line {line rest : List Char} {rows : List (List Char)} (hline : '\n' ∉ line)
    (h : HasLines rest rows) : HasLines (line ++ '\n' :: rest) (dropReturn line :: rows)

/-- By induction on the text, with what has been read of the current line. -/
theorem hasLines_linesFrom {line : List Char} (hline : '\n' ∉ line) (text : List Char) :
    HasLines (line.reverse ++ text) (linesFrom line text) := by
  induction text generalizing line with
  | nil =>
    rw [linesFrom, List.append_nil]
    cases line with
    | nil => exact .nil
    | cons c line =>
      refine .last (fun h => hline (List.mem_reverse.1 h)) fun h => ?_
      exact List.cons_ne_nil c line (List.reverse_eq_nil_iff.1 h)
  | cons c rest ih =>
    rw [linesFrom]
    -- a line feed closes the line, any other character makes it longer
    split
    · next hfeed =>
      subst hfeed
      exact .line (fun h => hline (List.mem_reverse.1 h)) (ih List.not_mem_nil)
    · next hother =>
      have hlonger : HasLines ((c :: line).reverse ++ rest) (linesFrom (c :: line) rest) := by
        refine ih fun h => ?_
        rcases List.mem_cons.1 h with he | h
        · exact hother he.symm
        · exact hline h
      rwa [List.reverse_cons, List.append_assoc] at hlonger

theorem hasLines_lines (text : List Char) : HasLines text (lines text) :=
  hasLines_linesFrom List.not_mem_nil text

/-! One line is a text by itself; between two lines there is a line feed. -/

theorem joinLines_singleton (line : List Char) : joinLines [line] = line :=
  List.intercalate_singleton

theorem joinLines_cons_cons (line next : List Char) (rows : List (List Char)) :
    joinLines (line :: next :: rows) = line ++ '\n' :: joinLines (next :: rows) := by
  rw [joinLines, List.intercalate_cons_cons, List.append_assoc]
  rfl

theorem joinLines_cons {rows : List (List Char)} (hrows : rows ≠ []) (line : List Char) :
    joinLines (line :: rows) = line ++ '\n' :: joinLines rows := by
  obtain ⟨next, rows, rfl⟩ := List.exists_cons_of_ne_nil hrows
  exact joinLines_cons_cons line next rows

/-- A row of lines can be taken apart in the middle of one of them. -/
theorem joinLines_append_cons (before after : List (List Char)) (u v : List Char) :
    joinLines (before ++ (u ++ v) :: after) =
      joinLines (before ++ [u]) ++ joinLines (v :: after) := by
  induction before with
  | nil =>
    cases after with
    | nil => simp only [List.nil_append, joinLines_singleton]
    | cons next after =>
      rw [List.nil_append, List.nil_append, joinLines_singleton, joinLines_cons_cons,
        joinLines_cons_cons, List.append_assoc]
  | cons line before ih =>
    have hne (others : List (List Char)) (w : List Char) : before ++ w :: others ≠ [] :=
      List.append_ne_nil_of_right_ne_nil _ (List.cons_ne_nil _ _)
    rw [List.cons_append, List.cons_append, joinLines_cons (hne _ _), joinLines_cons (hne _ _), ih,
      List.append_assoc, List.cons_append]

end Text

namespace Instruction

/-! ## Lines that say something -/

/-- A line that is more than blanks and does not begin with two strokes behind its blanks. -/
def SaysSomething (line : List Char) : Prop :=
  Text.trimStart line ≠ [] ∧ ¬['/', '/'] <+: Text.trimStart line

instance : DecidablePred SaysSomething :=
  fun line => inferInstanceAs (Decidable (Text.trimStart line ≠ [] ∧ ¬['/', '/'] <+: _))

/-- A line is kept if it says something. -/
theorem isKept_iff (line : List Char) : isKept line = true ↔ SaysSomething line := by
  unfold isKept SaysSomething
  generalize Text.trimStart line = words
  split
  · simp
  · simp
  · next hnil hstrokes =>
    refine iff_of_true rfl ⟨hnil, fun hprefix => ?_⟩
    obtain ⟨rest, hrest⟩ := hprefix
    exact hstrokes rest hrest.symm

/-- The lines of a text that say something. -/
def spokenLines (text : List Char) : List (List Char) :=
  (Text.lines text).filter fun line => SaysSomething line

/-- What is left of a text are the lines that say something, one below the other. -/
theorem stripComments_eq (text : List Char) :
    stripComments text = Text.joinLines (spokenLines text) := by
  rw [stripComments, spokenLines]
  refine congrArg Text.joinLines (List.filter_congr fun line _ => ?_)
  rw [Bool.eq_iff_iff, isKept_iff, decide_eq_true_iff]

/-! ## Words in front of a line feed -/

section

variable {u rest more text : List Char} {ts us : List Terminal}

/-- An operand reads no line feed. -/
theorem readsOnly_operandPattern_no_feed {letter : Char} (hletter : ¬RuleText.IsGap letter) :
    (operandPattern letter).ReadsOnly (· ≠ '\n') := by
  refine (readsOnly_operandPattern hletter).imp fun c hc => ?_
  rintro rfl
  exact hc (by decide)

/-- In front of a line feed, the rules find what they find at the end. -/
theorem find?_before_lineFeed (htext : text ≠ []) (more : List Char) :
    ∀ rule ∈ words, rule.find? (text ++ '\n' :: more) = rule.find? text := by
  intro rule hrule
  simp only [words, List.mem_cons, List.not_mem_nil, or_false] at hrule
  rcases hrule with rfl | rfl | rfl | rfl | rfl | rfl | rfl
  all_goals rw [TokenRule.find?_ofPattern, TokenRule.find?_ofPattern]
  · exact Pattern.firstMatch?_one_append _ htext _
  · exact Pattern.firstMatch?_one_append _ htext _
  · exact Pattern.firstMatch?_append_cons rfl (Pattern.readsOnly_word (by decide)) text
  · exact Pattern.firstMatch?_append_cons rfl (readsOnly_operandPattern_no_feed (by decide)) text
  · -- a blank may be a line feed, but it is one character
    exact Pattern.firstMatch?_one_append _ htext _
  · exact Pattern.firstMatch?_append_cons rfl (readsOnly_operandPattern_no_feed (by decide)) text
  · exact Pattern.firstMatch?_append_cons rfl (readsOnly_operandPattern_no_feed (by decide)) text

/-- What is cut off of a line is cut off as well if others come below it. -/
theorem cutsOff_before_lineFeed (h : CutsOff words u rest ts) (more : List Char) :
    CutsOff words u (rest ++ '\n' :: more) ts := by
  induction h with
  | nil => exact .nil
  | @step _ _ m u rest _ hwins _ ih =>
    have htext : m.text ++ (u ++ rest) ≠ [] := List.append_ne_nil_of_left_ne_nil hwins.reads _
    have hlonger := hwins.congr (find?_before_lineFeed htext more)
    rw [List.append_assoc, List.append_assoc] at hlonger
    exact .step hlonger ih

/-- Where nothing of a line can be read, nothing can be read with others below it. -/
theorem isUnread_before_lineFeed (h : IsUnread words rest) (more : List Char) :
    IsUnread words (rest ++ '\n' :: more) where
  ne_nil := List.append_ne_nil_of_left_ne_nil h.ne_nil _
  unread rule hrule m hm := by
    rw [find?_before_lineFeed h.ne_nil more rule hrule] at hm
    exact h.unread rule hrule m hm

/-! ## Lines one below the other -/

/-- Below a line that is cut to its end, a text is cut as if that line did not stand above. -/
theorem cutsOff_below {line : List Char} (hline : CutsInto words line us)
    (h : CutsOff words u rest ts) : CutsOff words (line ++ '\n' :: u) rest (us ++ ts) := by
  have hnext : CutsOff words ('\n' :: u) rest ts :=
    CutsOff.step (m := ⟨['\n'], []⟩) (isLongest_blank rfl _) h
  have hfirst : CutsOff words line ('\n' :: u ++ rest) us :=
    cutsOff_before_lineFeed hline.cutsOff (u ++ rest)
  exact hfirst.append hnext

/-- Below lines that are cut to their ends, the beginning of a line is cut off as if it were alone. -/
theorem cutsOff_below_lines {rows : List (List Char)} {tss : List (List Terminal)}
    (hrows : List.Forall₂ (CutsInto words) rows tss) (h : CutsOff words u rest ts) :
    CutsOff words (Text.joinLines (rows ++ [u])) rest (tss.flatten ++ ts) := by
  induction hrows with
  | nil => rwa [List.nil_append, Text.joinLines_singleton]
  | @cons line us rows tss hline _ ih =>
    rw [List.cons_append, Text.joinLines_cons (List.append_ne_nil_of_right_ne_nil _ (by simp)),
      List.flatten_cons, List.append_assoc]
    exact cutsOff_below hline ih

/-- Lines that are cut to their ends are cut one below the other. -/
theorem cutsInto_joinLines {rows : List (List Char)} {tss : List (List Terminal)}
    (h : List.Forall₂ (CutsInto words) rows tss) :
    CutsInto words (Text.joinLines rows) tss.flatten := by
  induction h with
  | nil => exact .nil
  | @cons line us rows tss hline hrows ih =>
    cases hrows with
    | nil =>
      rw [Text.joinLines_singleton, List.flatten_singleton]
      exact hline
    | cons =>
      have hcuts := (cutsOff_below hline ih.cutsOff).cutsInto .nil
      rw [List.append_nil, List.append_nil] at hcuts
      rw [Text.joinLines_cons_cons]
      exact hcuts

/-- The first of the lines that cannot be cut to its end. -/
theorem exists_first_unread (rows : List (List Char)) :
    (∃ tss, List.Forall₂ (CutsInto words) rows tss) ∨ ∃ before u rest after tss ts,
      rows = before ++ (u ++ rest) :: after ∧ List.Forall₂ (CutsInto words) before tss ∧
      CutsOff words u rest ts ∧ IsUnread words rest := by
  induction rows with
  | nil => exact .inl ⟨[], .nil⟩
  | cons line rows ih =>
    rcases exists_cutsOff isTied_of_mem_words line with
      ⟨us, hline⟩ | ⟨u, rest, us, rfl, hcuts, hrest⟩
    · rcases ih with ⟨tss, hrows⟩ | ⟨before, u, rest, after, tss, ts, rfl, hbefore, hcuts, hrest⟩
      · exact .inl ⟨us :: tss, .cons hline hrows⟩
      · exact .inr ⟨line :: before, u, rest, after, us :: tss, ts, rfl, .cons hline hbefore, hcuts,
          hrest⟩
    · exact .inr ⟨[], u, rest, rows, [], us, rfl, .nil, hcuts, hrest⟩

/-- Where a line cannot be cut, it cannot be cut if there are others below it. -/
theorem cutsOff_before_lines (hcuts : CutsOff words u rest ts) (hrest : IsUnread words rest)
    (after : List (List Char)) : CutsOff words u (Text.joinLines (rest :: after)) ts ∧
      IsUnread words (Text.joinLines (rest :: after)) := by
  cases after with
  | nil =>
    rw [Text.joinLines_singleton]
    exact ⟨hcuts, hrest⟩
  | cons next after =>
    rw [Text.joinLines_cons_cons]
    exact ⟨cutsOff_before_lineFeed hcuts _, isUnread_before_lineFeed hrest _⟩

/-! ## What reading gives -/

/-- No word is the end marker. -/
theorem name_ne_endName_of_cutsOff (h : CutsOff words u rest ts) : ∀ t ∈ ts, t.name ≠ endName := by
  refine h.forall_mem fun rule hrule _ m t _ ht => ?_
  -- these are the names that words can have
  have hname : t.name ∈ ["+", "=", "ind", "C", "register", "memory"] := by
    simp only [words, List.mem_cons, List.not_mem_nil, or_false] at hrule
    rcases hrule with rfl | rfl | rfl | rfl | rfl | rfl | rfl
    all_goals cases ht
    all_goals simp [operand]
  have hnone : ∀ name ∈ ["+", "=", "ind", "C", "register", "memory"], name ≠ endName := by decide
  exact hnone _ hname

/-- Reading the text gives these terminals and then the end marker, which is not among them. -/
structure Yields (text : List Char) (ts : List Terminal) : Prop where
  no_end : ∀ t ∈ ts, t.name ≠ endName
  result : (terminals text).result = .ok (ts.map .ok ++ [.ok endTerminal])

/-- Reading the text gives these terminals and then fails, or fails at once if there are none. -/
structure FailsAfter (text : List Char) (ts : List Terminal) (e : UnknownToken) : Prop where
  no_end : ∀ t ∈ ts, t.name ≠ endName
  result : (terminals text).result = if ts = [] then .error e else .ok (ts.map .ok ++ [.error e])

/-- A text that is cut to its end gives its terminals. -/
theorem yields_of_cutsInto (h : CutsInto words text ts) : Yields text ts :=
  ⟨name_ne_endName_of_cutsOff h.cutsOff, result_terminals_of_cutsInto h⟩

/-- A text that cannot be cut to its end fails where that is so. -/
theorem failsAfter_of_cutsOff (h : CutsOff words u rest ts) (hrest : IsUnread words rest) :
    FailsAfter (u ++ rest) ts (.before (({} : Location).advanceOver u) rest) where
  no_end := name_ne_endName_of_cutsOff h
  result := by
    rw [result_terminals, h.items_ofText isTied_of_mem_words hrest]
    cases ts <;> rfl

end

/-- What is left of a text without its blank lines and comments is read as the lines that say something
are, each on its own.  If all of them can be read to their ends, then it gives their terminals one line
after the other, and then the end marker.  Otherwise it gives the terminals of the lines before the
first that cannot, and those that this line gives before it fails, and then it fails where that line
does. -/
theorem terminals_stripComments (text : List Char) : Text.HasLines text (Text.lines text) ∧
    ((∃ tss, List.Forall₂ Yields (spokenLines text) tss ∧
        Yields (stripComments text) tss.flatten) ∨
      ∃ before line after tss read rest ts, spokenLines text = before ++ line :: after ∧
        List.Forall₂ Yields before tss ∧ line = read ++ rest ∧
        FailsAfter line ts (.before (({} : Location).advanceOver read) rest) ∧
        FailsAfter (stripComments text) (tss.flatten ++ ts)
          (.before (({} : Location).advanceOver (Text.joinLines (before ++ [read])))
            (Text.joinLines (rest :: after)))) := by
  refine ⟨Text.hasLines_lines text, ?_⟩
  rw [stripComments_eq]
  rcases exists_first_unread (spokenLines text) with
    ⟨tss, hrows⟩ | ⟨before, u, rest, after, tss, ts, hrows, hbefore, hcuts, hrest⟩
  · exact .inl ⟨tss, hrows.imp fun _ _ => yields_of_cutsInto,
      yields_of_cutsInto (cutsInto_joinLines hrows)⟩
  · -- the line fails at the same place with others above and below it
    obtain ⟨hlonger, hunread⟩ := cutsOff_before_lines hcuts hrest after
    have hall := failsAfter_of_cutsOff (cutsOff_below_lines hbefore hlonger) hunread
    rw [← Text.joinLines_append_cons, ← hrows] at hall
    exact .inr ⟨before, u ++ rest, after, tss, u, rest, ts, hrows,
      hbefore.imp fun _ _ => yields_of_cutsInto, rfl, failsAfter_of_cutsOff hcuts hrest, hall⟩

end Instruction

end GuardedGrammar
