/-
  Texts between double quotes.

  A text between double quotes is a literal, unless all of it could be an attribute: the rule for
  attributes knows nothing of quotes, it comes first, and of matches of the same length the first one
  wins.  That is so if there is a dot in the text, but no blank and no dollar sign.  The quotes
  then belong to the attribute, of which the last dot divides the target from the name (`readAs`).

  Main statement: `quoted_texts_read`.
-/
import GuardedGrammar.Proofs.ClauseRefusal

namespace GuardedGrammar.RuleText

/-! ## What a text between double quotes is read as -/

instance IsQuotable.decidable (s : String) : Decidable (IsQuotable s) :=
  inferInstanceAs (Decidable (∀ c ∈ s.toList, c ≠ '"' ∧ c ≠ '\n'))

instance IsUnlikeAttribute.decidable (s : String) : Decidable (IsUnlikeAttribute s) :=
  inferInstanceAs (Decidable ('.' ∈ s.toList → ∃ c ∈ s.toList, Text.isBlank c = true ∨ c = '$'))

/-- What stands before and behind the last dot. -/
def splitLastDot : List Char → Option (List Char × List Char)
  | [] => none
  | c :: u =>
    match splitLastDot u with
    | some (before, behind) => some (c :: before, behind)
    | none => if c = '.' then some ([], u) else none

/-- The expression that a text between double quotes is read as. -/
def readAs (s : String) : Expression :=
  if IsUnlikeAttribute s then .literal s
  else
    match splitLastDot (inQuotes s) with
    | some (target, name) => .read ⟨.named (String.ofList target), String.ofList name⟩
    | none => .literal s

/-- A text is split exactly if it has a dot. -/
theorem splitLastDot_eq_none_iff (u : List Char) : splitLastDot u = none ↔ '.' ∉ u := by
  induction u with
  | nil => exact iff_of_true rfl List.not_mem_nil
  | cons c u ih =>
    rw [List.mem_cons, not_or, ← ih, splitLastDot]
    split
    · next h => simp [h]
    · next h => simp [h, eq_comm (a := c)]

/-- What the split gives are the parts around the last dot. -/
theorem eq_append_of_splitLastDot {u before behind : List Char}
    (h : splitLastDot u = some (before, behind)) : u = before ++ '.' :: behind ∧ '.' ∉ behind := by
  induction u generalizing before with
  | nil => exact nomatch h
  | cons c u ih =>
    unfold splitLastDot at h
    split at h
    · next hsplit =>
      cases h
      obtain ⟨rfl, hnone⟩ := ih hsplit
      exact ⟨rfl, hnone⟩
    · next hsplit =>
      split at h
      · next hdot =>
        cases h
        exact ⟨by rw [hdot]; rfl, (splitLastDot_eq_none_iff _).1 hsplit⟩
      · exact nomatch h

/-- A text is read as a literal exactly if it is unlike attributes. -/
theorem readAs_eq_literal_iff (s : String) : readAs s = .literal s ↔ IsUnlikeAttribute s := by
  unfold readAs
  split
  · next h => exact iff_of_true rfl h
  · next h =>
    refine iff_of_false (fun heq => ?_) h
    split at heq
    · exact nomatch heq
    · next hsplit =>
      -- without a dot there is nothing to show
      refine h fun hdot => absurd ?_ ((splitLastDot_eq_none_iff _).1 hsplit)
      exact List.mem_cons_of_mem _ (List.mem_append_left _ hdot)

section

variable {s : String} {rest : List Char} {values : List ClauseToken}

/-- If the text has neither blanks nor dollar signs, its characters and the quotes are those of
names. -/
theorem nameChar_of_mem_inQuotes (h : ∀ c ∈ s.toList, ¬(Text.isBlank c = true ∨ c = '$')) :
    ∀ c ∈ inQuotes s, CharClass.nameChar.contains c = true := by
  have hquote : CharClass.nameChar.contains '"' = true := by
    rw [CharClass.contains_nameChar]
    decide
  refine List.forall_mem_cons.2 ⟨hquote, List.forall_mem_append.2 ⟨fun c hc => ?_, ?_⟩⟩
  · rw [CharClass.contains_nameChar]
    exact ⟨fun he => h c hc (.inr he), Bool.eq_false_iff.2 fun he => h c hc (.inl he)⟩
  · exact List.forall_mem_singleton.2 hquote

/-- If all of it could be an attribute, it is one, of which the quotes are a part. -/
theorem cutsInto_inQuotes_attribute (hs : IsQuotable s) {target name : List Char}
    (hchars : ∀ c ∈ s.toList, ¬(Text.isBlank c = true ∨ c = '$'))
    (hsplit : splitLastDot (inQuotes s) = some (target, name)) (hrest : AtGap rest)
    (h : CutsInto clauseTokens rest values) :
    CutsInto clauseTokens (inQuotes s ++ rest)
      (.attributeRef ⟨.named (String.ofList target), String.ofList name⟩ :: values) := by
  obtain ⟨hwhole, hdot⟩ := eq_append_of_splitLastDot hsplit
  have hname : ∀ c ∈ target ++ '.' :: name, CharClass.nameChar.contains c = true :=
    hwhole ▸ nameChar_of_mem_inQuotes hchars
  obtain ⟨htargetChars, hnameChars⟩ := List.forall_mem_append.1 hname
  -- the opening quote stands before any dot, and the closing one behind it
  have htne : target ≠ [] := by
    rintro rfl
    exact absurd (List.cons.inj hwhole).1 (by decide)
  have hnne : name ≠ [] := by
    rintro rfl
    have hlast := congrArg List.getLast? hwhole
    rw [inQuotes, ← List.cons_append, List.getLast?_concat, List.getLast?_concat] at hlast
    exact absurd (Option.some.inj hlast) (by decide)
  have hfound := firstMatch?_attributePattern_named htne htargetChars hnne
    (List.forall_mem_cons.1 hnameChars).2 hdot hrest
  rw [← List.cons_append, ← List.append_assoc, ← hwhole] at hfound
  exact cutsInto_clauseToken (i := 0) rfl hfound rfl rfl (inQuotes_ne_nil s) hrest
    (fun n hn => length_le_of_firstMatch?_literal hs hn) (fun _ h => absurd h List.not_mem_nil) h

/-- Whichever it is read as, the token is found where the text stands. -/
theorem cutsInto_readAs (hs : IsQuotable s) (hrest : AtGap rest)
    (h : CutsInto clauseTokens rest values) :
    CutsInto clauseTokens (inQuotes s ++ rest) ((readAs s).token :: values) := by
  unfold readAs
  split
  · next hunlike => exact cutsInto_inQuotes hs hunlike hrest h
  · -- there is a dot, and nothing in the text that an attribute has not
    next hlike =>
    simp only [IsUnlikeAttribute, not_forall, not_exists, not_and] at hlike
    obtain ⟨hdot, hchars⟩ := hlike
    split
    · next hsplit => exact cutsInto_inQuotes_attribute hs hchars hsplit hrest h
    · next hsplit =>
      refine absurd ?_ ((splitLastDot_eq_none_iff _).1 hsplit)
      exact List.mem_cons_of_mem _ (List.mem_append_left _ hdot)

/-! ## Where expressions stand

Expressions stand in lines to be written, in assignments and on both sides of guards. The argument
is the same at each place. -/

/-- Blanks are dropped, however many there are. -/
theorem cutsInto_clauseGaps {gap : List Char} (hgap : ∀ c ∈ gap, IsGap c)
    (h : CutsInto clauseTokens rest values) : CutsInto clauseTokens (gap ++ rest) values := by
  induction gap with
  | nil => exact h
  | cons c gap ih =>
    obtain ⟨hc, hgap⟩ := List.forall_mem_cons.1 hgap
    exact cutsInto_clauseGap hc (ih hgap)

/-- Blanks are a gap, and so is the end behind none of them. -/
theorem atGap_append {gap : List Char} (hgap : ∀ c ∈ gap, IsGap c) (hrest : AtGap rest) :
    AtGap (gap ++ rest) := by
  cases gap with
  | nil => exact hrest
  | cons c gap => exact atGap_cons (hgap c List.mem_cons_self) _

end

/-- Texts between double quotes, each with blanks before it. -/
def spaced (parts : List (List Char × String)) : List Char :=
  parts.flatMap fun p => p.1 ++ inQuotes p.2

/-- The blanks in front of the texts separate them, and the texts can stand between double quotes. -/
def AreSpaced (parts : List (List Char × String)) : Prop :=
  ∀ p ∈ parts, p.1 ≠ [] ∧ (∀ c ∈ p.1, IsGap c) ∧ IsQuotable p.2

instance AreSpaced.decidable (parts : List (List Char × String)) : Decidable (AreSpaced parts) :=
  inferInstanceAs (Decidable (∀ p ∈ parts, p.1 ≠ [] ∧ (∀ c ∈ p.1, IsGap c) ∧ IsQuotable p.2))

/-- Behind a text there is a gap, since the next text has a blank in front of it. -/
theorem atGap_spaced_parts {parts : List (List Char × String)} (hparts : AreSpaced parts)
    {trail : List Char} (htrail : ∀ c ∈ trail, IsGap c) : AtGap (spaced parts ++ trail) := by
  cases parts with
  | nil =>
    rw [spaced, List.flatMap_nil, List.nil_append, ← List.append_nil trail]
    exact atGap_append htrail atGap_nil
  | cons p parts =>
    obtain ⟨⟨hne, hgap, -⟩, -⟩ := List.forall_mem_cons.1 hparts
    obtain ⟨c, gap, hcons⟩ := List.exists_cons_of_ne_nil hne
    rw [spaced, List.flatMap_cons, hcons]
    exact atGap_cons (hgap c (hcons ▸ List.mem_cons_self)) _

/-- By induction on the texts: each is read behind its blanks and in front of the next gap. -/
theorem cutsInto_spaced {parts : List (List Char × String)} (hparts : AreSpaced parts)
    {trail : List Char} (htrail : ∀ c ∈ trail, IsGap c) :
    CutsInto clauseTokens (spaced parts ++ trail) (parts.map fun p => (readAs p.2).token) := by
  induction parts with
  | nil =>
    rw [spaced, List.flatMap_nil, List.nil_append, ← List.append_nil trail]
    exact cutsInto_clauseGaps htrail .nil
  | cons p parts ih =>
    obtain ⟨⟨-, hgap, hs⟩, hothers⟩ := List.forall_mem_cons.1 hparts
    rw [spaced, List.flatMap_cons, List.append_assoc, List.append_assoc]
    exact cutsInto_clauseGaps hgap (cutsInto_readAs hs (atGap_spaced_parts hothers htrail) (ih hothers))

/-- Wherever a text between double quotes stands, its token is one of those of the whole text. -/
theorem values?_ofText_quoted {s : String} (hs : IsQuotable s) {before after : List Char}
    {earlier later : List ClauseToken}
    (hbefore : CutsOff clauseTokens before (inQuotes s ++ after) earlier) (hafter : AtGap after)
    (hlater : CutsInto clauseTokens after later) :
    (Tokens.ofText clauseTokens (before ++ (inQuotes s ++ after))).values? =
      some (earlier ++ (readAs s).token :: later) :=
  (hbefore.cutsInto (cutsInto_readAs hs hafter hlater)).values?_ofText isTied_of_mem_clauseTokens

/-- Behind `emit`, all texts are read in a row. -/
theorem result_readStatement_emit_spaced {lead trail : List Char}
    {parts : List (List Char × String)} (hlead : ∀ c ∈ lead, IsGap c) (hparts : AreSpaced parts)
    (htrail : ∀ c ∈ trail, IsGap c) :
    (readStatement (lead ++ ("emit".toList ++ (spaced parts ++ trail)))).result =
      .ok (.emit (parts.map fun p => readAs p.2)) := by
  have hcuts := cutsInto_clauseGaps hlead
    (cutsInto_emit (atGap_spaced_parts hparts htrail) (cutsInto_spaced hparts htrail))
  refine result_readStatement_of_values? ((hcuts.values?_ofText isTied_of_mem_clauseTokens).trans ?_)
  rw [Statement.tokens, List.map_map]
  rfl

/-- Texts between double quotes with blanks around them are read behind `emit`, and each of them on
either side of a guard and as the value of an assignment, wherever it ends or has a blank behind it.
Each is read as a literal just if it is unlike attributes. -/
theorem quoted_texts_read (lead trail : List Char) (parts : List (List Char × String))
    (hlead : ∀ c ∈ lead, IsGap c) (hparts : AreSpaced parts) (htrail : ∀ c ∈ trail, IsGap c) :
    (readStatement (lead ++ ("emit".toList ++ (spaced parts ++ trail)))).result =
      .ok (.emit (parts.map fun p => readAs p.2)) ∧
    ∀ p ∈ parts, (readAs p.2 = .literal p.2 ↔ IsUnlikeAttribute p.2) ∧
      ∀ before after, AtGap after →
        (∀ right : Expression, CutsOff clauseTokens before (inQuotes p.2 ++ after) [] →
          CutsInto clauseTokens after [.equals, right.token] →
          (readCondition (before ++ (inQuotes p.2 ++ after))).result = .ok ⟨readAs p.2, right⟩) ∧
        (∀ left : Expression,
          CutsOff clauseTokens before (inQuotes p.2 ++ after) [left.token, .equals] →
          CutsInto clauseTokens after [] →
          (readCondition (before ++ (inQuotes p.2 ++ after))).result = .ok ⟨left, readAs p.2⟩) ∧
        ∀ destination : AttributeRef,
          CutsOff clauseTokens before (inQuotes p.2 ++ after) [.attributeRef destination, .equals] →
          CutsInto clauseTokens after [] →
          (readStatement (before ++ (inQuotes p.2 ++ after))).result =
            .ok (.assign destination (readAs p.2)) := by
  refine ⟨result_readStatement_emit_spaced hlead hparts htrail,
    fun p hp => ⟨readAs_eq_literal_iff p.2, fun before after hafter => ?_⟩⟩
  obtain ⟨-, -, hs⟩ := hparts p hp
  refine ⟨fun right hbefore hlater => ?_, fun left hbefore hlater => ?_,
    fun destination hbefore hlater => ?_⟩
  · exact result_readCondition_of_values? (values?_ofText_quoted hs hbefore hafter hlater)
  · exact result_readCondition_of_values? (values?_ofText_quoted hs hbefore hafter hlater)
  · exact result_readStatement_of_values? (values?_ofText_quoted hs hbefore hafter hlater)

/-- A text with a dot is a literal if there is also a blank in it, and else an attribute. -/
theorem quoted_texts_read_with_dots :
    (readStatement "emit \"v. 1\"\t\"v.1\"".toList).result =
      .ok (.emit [.literal "v. 1", .read ⟨.named "\"v", "1\""⟩]) ∧
    (readCondition "\"v.1\" = \"w\"".toList).result =
      .ok ⟨.read ⟨.named "\"v", "1\""⟩, .literal "w"⟩ ∧
    (readCondition "\"w\"=\"v. 1\"".toList).result = .ok ⟨.literal "w", .literal "v. 1"⟩ ∧
    (readStatement "x.y =\"v. 1\" ".toList).result =
      .ok (.assign ⟨.named "x", "y"⟩ (.literal "v. 1")) := by
  have hcandidate {c : Candidate ClauseToken} {u rest : List Char} {xs : List ClauseToken} :=
    @CutsOff.of_longest? _ clauseTokens u rest xs isTied_of_mem_clauseTokens c
  obtain ⟨hemit, hwhere⟩ := quoted_texts_read [] [] [([' '], "v. 1"), (['\t'], "v.1")] (by decide)
    (by decide) (by decide)
  have hspaced (before after : List Char) := (hwhere ([' '], "v. 1") (by decide)).2 before after
  have hdotted (before after : List Char) := (hwhere (['\t'], "v.1") (by decide)).2 before after
  refine ⟨hemit, ?_, ?_, ?_⟩
  · exact (hdotted [] " = \"w\"".toList (atGap_cons (by decide) _)).1 (.literal "w") .nil
      ((cutsInto_iff isTied_of_mem_clauseTokens).2 (by decide +kernel))
  · refine (hspaced ['"', 'w', '"', '='] [] atGap_nil).2.1 (.literal "w") ?_ .nil
    exact hcandidate (c := ⟨3, ['"', 'w', '"'], some (.literal "w")⟩) rfl
      (hcandidate (c := ⟨4, ['='], some .equals⟩) rfl .nil)
  · refine (hspaced "x.y =".toList [' '] (atGap_cons (by decide) _)).2.2 ⟨.named "x", "y"⟩ ?_ ?_
    · exact hcandidate (c := ⟨0, "x.y".toList, some (.attributeRef ⟨.named "x", "y"⟩)⟩) rfl
        (hcandidate (c := ⟨5, [' '], none⟩) rfl (hcandidate (c := ⟨4, ['='], some .equals⟩) rfl .nil))
    · exact (cutsInto_iff isTied_of_mem_clauseTokens).2 (by decide +kernel)

/-- It is not so that texts between double quotes are literals whatever they are. -/
theorem not_literal_of_dot : ¬∀ parts : List String, (∀ s ∈ parts, IsQuotable s) →
    (readStatement ("emit".toList ++ parts.flatMap fun s => ' ' :: inQuotes s)).result =
      .ok (.emit (parts.map .literal)) := by
  intro h
  have hliteral := h ["a.b"] (by decide)
  have hread : (readStatement "emit \"a.b\"".toList).result =
      .ok (.emit [.read ⟨.named "\"a", "b\""⟩]) := by decide +kernel
  exact nomatch hread.symm.trans hliteral

end GuardedGrammar.RuleText
