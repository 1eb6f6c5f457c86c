/-
  How the tokens of guards and statements are written.

  If a token is legible, then it is found where it stands, up to the gap behind it (`cutsInto_expression`
  and so on).  Of the rules only the one for literals reads gaps, and it begins with a double quote; all
  others find no more than the token (`length_le_of_clauseTokens`).  An attribute has a dot in it, which
  is why nothing else may have one.
-/
import GuardedGrammar.Proofs.Clauses
import GuardedGrammar.Proofs.Spelling

namespace GuardedGrammar

/-! ## What can be read again -/

/-- A text that is not empty and has no blanks, and none of the given characters. -/
def IsWord (excluded : List Char) (s : String) : Prop :=
  s ≠ "" ∧ ∀ c ∈ s.toList, Text.isBlank c = false ∧ c ∉ excluded

/-- The greatest index that can be written. -/
def greatestIndex : Nat := 999999999

/-- A target that can be read again. -/
def Target.IsLegible : Target → Prop
  | .named name => IsWord ['$', '"', ']', '\x7d'] name
  | .numbered index => index ≤ greatestIndex

/-- An attribute that can be read again: the last dot stands before its name. -/
structure AttributeRef.IsLegible (ref : AttributeRef) : Prop where
  target : ref.target.IsLegible
  name : IsWord ['.', '$', '"', ']', '\x7d'] ref.name

/-- An expression that can be read again. A literal must not change by being quoted. -/
def Expression.IsLegible : Expression → Prop
  | .newRegister => True
  | .literal text => Text.quoted text = "\"" ++ text ++ "\"" ∧
      ∀ c ∈ text.toList, c ≠ '.' ∧ c ≠ ']' ∧ c ≠ '\x7d'
  | .read ref => ref.IsLegible

-- by going through the characters of the text, rather than through all characters
instance IsWord.decidable (excluded : List Char) (s : String) : Decidable (IsWord excluded s) :=
  @instDecidableAnd _ _ _ (List.decidableBAll _ _)

instance Target.decidableIsLegible : (t : Target) → Decidable t.IsLegible
  | .named name => inferInstanceAs (Decidable (IsWord _ name))
  | .numbered index => inferInstanceAs (Decidable (index ≤ greatestIndex))

instance AttributeRef.decidableIsLegible (ref : AttributeRef) : Decidable ref.IsLegible :=
  decidable_of_iff (ref.target.IsLegible ∧ IsWord _ ref.name)
    ⟨fun h => ⟨h.1, h.2⟩, fun h => ⟨h.target, h.name⟩⟩

instance Expression.decidableIsLegible : (e : Expression) → Decidable e.IsLegible
  | .newRegister => .isTrue trivial
  | .literal _ => @instDecidableAnd _ _ _ (List.decidableBAll _ _)
  | .read ref => inferInstanceAs (Decidable ref.IsLegible)

theorem IsWord.toList_ne_nil {excluded : List Char} {s : String} (h : IsWord excluded s) :
    s.toList ≠ [] :=
  fun he => h.1 (String.toList_eq_nil_iff.1 he)

/-- Without dollar signs, the characters of a word are those of names. -/
theorem IsWord.contains_nameChar {excluded : List Char} {s : String} (h : IsWord excluded s)
    (hdollar : '$' ∈ excluded) : ∀ c ∈ s.toList, CharClass.nameChar.contains c = true := by
  intro c hc
  obtain ⟨hblank, hexcluded⟩ := h.2 c hc
  rw [CharClass.contains_nameChar]
  exact ⟨fun he => hexcluded (he ▸ hdollar), hblank⟩

namespace Text

/-- An escape is not empty. -/
theorem escape_ne_nil (c : Char) : escape c ≠ [] := by
  unfold escape
  split
  all_goals first
    | exact List.cons_ne_nil _ _
    | skip
  split
  · exact List.cons_ne_nil _ _
  · exact List.cons_ne_nil _ _

/-- An escape is not shorter than the character, so a text that is not changed consists of plain
characters. -/
theorem isPlain_of_quoted_eq {s : String} (h : quoted s = "\"" ++ s ++ "\"") :
    ∀ c ∈ s.toList, IsPlain c := by
  have hflat : s.toList.flatMap escape = s.toList := by
    have hlist := congrArg String.toList h
    rw [quoted, String.toList_ofList, quote, String.toList_append, String.toList_append] at hlist
    exact List.append_cancel_right (List.cons.inj hlist).2
  have hlength (text : List Char) : text.length ≤ (text.flatMap escape).length := by
    induction text with
    | nil => exact Nat.le_refl _
    | cons c text ih =>
      have hpos := List.length_pos_iff.2 (escape_ne_nil c)
      rw [List.flatMap_cons, List.length_append, List.length_cons]
      omega
  -- the first character is as long as its escape, since the others do not get shorter either
  generalize s.toList = text at hflat
  induction text with
  | nil => exact List.forall_mem_nil _
  | cons c text ih =>
    rw [List.flatMap_cons] at hflat
    obtain ⟨d, more, hescape⟩ := List.exists_cons_of_ne_nil (escape_ne_nil c)
    rw [hescape] at hflat
    obtain ⟨rfl, htail⟩ := List.cons.inj hflat
    have hnone : more = [] := by
      have hsum := congrArg List.length htail
      rw [List.append_eq, List.length_append] at hsum
      have := hlength text
      exact List.eq_nil_of_length_eq_zero (by omega)
    subst hnone
    exact List.forall_mem_cons.2 ⟨hescape, ih htail⟩

end Text

namespace RuleText

/-! ## Tokens of clauses -/

theorem isTied_of_mem_clauseTokens : ∀ rule ∈ clauseTokens, rule.IsTied := by
  simp [clauseTokens, TokenRule.isTied_ofPattern]

/-! Names and indices do not read gaps, and so attributes and symbols do not, which are made up of
them. -/

theorem readsOnly_namePattern : Pattern.ReadsOnly (fun c => ¬IsGap c) namePattern :=
  not_isGap_of_nameChar

theorem readsOnly_indexPattern (number : Nat) :
    Pattern.ReadsOnly (fun c => ¬IsGap c) (indexPattern number) :=
  have hdigit : Pattern.ReadsOnly (fun c => ¬IsGap c) (.one .digit) := not_isGap_of_digit
  ⟨Pattern.readsOnly_char (by decide), Pattern.readsOnly_between hdigit _ _ _⟩

theorem readsOnly_attributePattern :
    Pattern.ReadsOnly (fun c => ¬IsGap c) attributePattern :=
  ⟨⟨readsOnly_namePattern, readsOnly_indexPattern 2⟩, Pattern.readsOnly_char (by decide),
    readsOnly_namePattern⟩

theorem readsOnly_symbolPattern : Pattern.ReadsOnly (fun c => ¬IsGap c) symbolPattern :=
  ⟨readsOnly_namePattern, readsOnly_indexPattern 2⟩

/-- An attribute that has been found has a dot in it. -/
theorem dot_mem_of_found {text : List Char} {m : Match}
    (h : attributePattern.firstMatch? text = some m) : '.' ∈ m.text := by
  obtain ⟨u, gs⟩ := m
  have hparts : IsAttributeText u gs := isAttributeText_of_captures (Pattern.captures_of_firstMatch? h)
  cases hparts <;> simp

section

variable {u rest : List Char}

/-- An attribute is found only where there is a dot before the next gap. -/
theorem dot_mem_of_firstMatch? (hrest : AtGap rest) {m : Match}
    (h : attributePattern.firstMatch? (u ++ rest) = some m) : '.' ∈ u :=
  (isPrefix_of_readsOnly readsOnly_attributePattern hrest h).subset
    (dot_mem_of_found h)

/-- A class of characters matches one character. -/
theorem length_eq_one_of_firstMatch? {k : CharClass} {m : Match}
    (h : (Pattern.one k).firstMatch? u = some m) : m.text.length = 1 := by
  have hdenotes := Pattern.denotes_of_firstMatch? h
  generalize m.text = v at hdenotes
  cases hdenotes
  rfl

/-- No rule finds more than a token, if the one for literals does not. -/
theorem length_le_of_clauseTokens (hne : u ≠ []) (hrest : AtGap rest)
    (hliteral : ∀ n, literalPattern.firstMatch? (u ++ rest) = some n → n.text.length ≤ u.length) :
    ∀ other ∈ clauseTokens, ∀ n, other.find? (u ++ rest) = some n →
      n.text.length ≤ u.length := by
  have hshort (p : Pattern) (hp : p.ReadsOnly fun c => ¬IsGap c) (n : Match)
      (h : p.firstMatch? (u ++ rest) = some n) : n.text.length ≤ u.length :=
    (isPrefix_of_readsOnly hp hrest h).length_le
  intro other hother n hn
  simp only [clauseTokens, List.mem_cons, List.not_mem_nil, or_false] at hother
  -- the attribute, two words, the literal, the equals sign, and a blank
  rcases hother with rfl | rfl | rfl | rfl | rfl | rfl
  · exact hshort _ readsOnly_attributePattern n hn
  · exact hshort _ (Pattern.readsOnly_word (by decide)) n hn
  · exact hshort _ (Pattern.readsOnly_word (by decide)) n hn
  · exact hliteral n hn
  · exact hshort _ (Pattern.readsOnly_char (by decide)) n hn
  · have hone : n.text.length = 1 := length_eq_one_of_firstMatch? hn
    rw [hone]
    exact List.length_pos_iff.2 hne

/-- Without a dot before the next gap, no attribute is found. -/
theorem attribute_not_found (hdot : '.' ∉ u) (hrest : AtGap rest) (n : Match) :
    attributePattern.firstMatch? (u ++ rest) ≠ some n :=
  fun hn => hdot (dot_mem_of_firstMatch? hrest hn)

/-- A literal is found at a double quote only. -/
theorem literal_not_found (hne : u ≠ []) (hhead : u.head? ≠ some '"') (n : Match) :
    literalPattern.firstMatch? (u ++ rest) ≠ some n :=
  fun hn => hhead (head?_of_opensWith .seq hne hn)

/-- A word is found at its first character only. -/
theorem word_not_found {τ : Type} {produce : Match → Option τ} {w : List Char} (hw : w ≠ [])
    (hne : u ≠ []) (hhead : u.head? ≠ w.head?) (n : Match) :
    (TokenRule.ofPattern (.word w) produce).find? (u ++ rest) ≠ some n := by
  intro hn
  obtain ⟨c, w, rfl⟩ := List.exists_cons_of_ne_nil hw
  cases w with
  | nil => exact hhead (head?_of_opensWith .one hne hn)
  | cons d w => exact hhead (head?_of_opensWith .seq hne hn)

/-- A match that is found where a token stands, and by no earlier rule, wins. -/
theorem isLongest_clauseToken {i : Nat} {rule : TokenRule ClauseToken} {m : Match}
    (listed : clauseTokens[i]? = some rule) (found : rule.find? (u ++ rest) = some m)
    (htext : m.text = u) (hne : u ≠ []) (hrest : AtGap rest)
    (hliteral : ∀ n, literalPattern.firstMatch? (u ++ rest) = some n → n.text.length ≤ u.length)
    (hbefore : ∀ other ∈ clauseTokens.take i, ∀ n, other.find? (u ++ rest) ≠ some n) :
    IsLongest clauseTokens (u ++ rest) i rule m := by
  subst htext
  exact isLongest_of_le listed found hne (length_le_of_clauseTokens hne hrest hliteral)
    fun other hother n hn => absurd hn (hbefore other hother n)

/-- A token that is found where it stands, and is by no earlier rule, is the first of the text. -/
theorem cutsInto_clauseToken {i : Nat} {rule : TokenRule ClauseToken} {m : Match}
    {t : ClauseToken} {values : List ClauseToken} (listed : clauseTokens[i]? = some rule)
    (found : rule.find? (u ++ rest) = some m) (htext : m.text = u)
    (hproduce : rule.produce m = some t) (hne : u ≠ []) (hrest : AtGap rest)
    (hliteral : ∀ n, literalPattern.firstMatch? (u ++ rest) = some n → n.text.length ≤ u.length)
    (hbefore : ∀ other ∈ clauseTokens.take i, ∀ n, other.find? (u ++ rest) ≠ some n)
    (h : CutsInto clauseTokens rest values) :
    CutsInto clauseTokens (u ++ rest) (t :: values) := by
  have hwins := isLongest_clauseToken listed found htext hne hrest hliteral hbefore
  subst htext
  have hcuts := CutsInto.step hwins h
  rwa [hproduce] at hcuts

variable {values : List ClauseToken}

/-- The word for a new register is found where it stands: it has no dot, and no quote in front. -/
theorem cutsInto_newRegister (hrest : AtGap rest) (h : CutsInto clauseTokens rest values) :
    CutsInto clauseTokens ("<newReg>".toList ++ rest) (.newRegister :: values) := by
  refine cutsInto_clauseToken (i := 1) rfl (Pattern.firstMatch?_word "<newReg>".toList rest) rfl rfl
    (by decide) hrest (fun n hn => absurd hn (literal_not_found (by decide) (by decide) n)) ?_ h
  exact List.forall_mem_singleton.2 (attribute_not_found (by decide) hrest)

/-- The word `emit` is found where it stands. -/
theorem isLongest_emit (hrest : AtGap rest) : IsLongest clauseTokens ("emit".toList ++ rest) 2
    (.ofPattern (.word "emit".toList) fun _ => some .emit) ⟨"emit".toList, []⟩ := by
  refine isLongest_clauseToken rfl (Pattern.firstMatch?_word "emit".toList rest) rfl (by decide) hrest
    (fun n hn => absurd hn (literal_not_found (by decide) (by decide) n)) ?_
  refine List.forall_mem_cons.2 ⟨attribute_not_found (by decide) hrest, ?_⟩
  exact List.forall_mem_singleton.2 (word_not_found (by decide) (by decide) (by decide))

theorem cutsInto_emit (hrest : AtGap rest) (h : CutsInto clauseTokens rest values) :
    CutsInto clauseTokens ("emit".toList ++ rest) (.emit :: values) :=
  CutsInto.step (m := ⟨"emit".toList, []⟩) (isLongest_emit hrest) h

/-- An equals sign is found where it stands: no other rule begins with it. -/
theorem cutsInto_equals (hrest : AtGap rest) (h : CutsInto clauseTokens rest values) :
    CutsInto clauseTokens (['='] ++ rest) (.equals :: values) := by
  have hequals : (CharClass.only '=').contains '=' = true := (CharClass.contains_only _ _).2 rfl
  refine cutsInto_clauseToken (i := 4) rfl (Pattern.firstMatch?_one hequals rest) rfl rfl
    (by decide) hrest (fun n hn => absurd hn (literal_not_found (by decide) (by decide) n)) ?_ h
  refine List.forall_mem_cons.2 ⟨attribute_not_found (by decide) hrest, ?_⟩
  refine List.forall_mem_cons.2 ⟨word_not_found (by decide) (by decide) (by decide), ?_⟩
  refine List.forall_mem_cons.2 ⟨word_not_found (by decide) (by decide) (by decide), ?_⟩
  refine List.forall_mem_singleton.2 fun n hn => ?_
  rw [TokenRule.find?_ofPattern] at hn
  exact literal_not_found (by decide) (by decide) n hn

/-- Of an attribute that does not begin with a dollar sign, all characters are those of names. -/
theorem nameChar_of_firstMatch?_attribute {c : Char} (hc : c ≠ '$') {text : List Char} {m : Match}
    (h : attributePattern.firstMatch? (c :: text) = some m) :
    ∀ d ∈ m.text, CharClass.nameChar.contains d = true := by
  have hdot : CharClass.nameChar.contains '.' = true := by
    rw [CharClass.contains_nameChar]
    decide
  obtain ⟨rest, hrest⟩ := Pattern.isPrefix_of_firstMatch? h
  obtain ⟨u, gs⟩ := m
  have hparts : IsAttributeText u gs := isAttributeText_of_captures (Pattern.captures_of_firstMatch? h)
  cases hparts with
  | named htarget hname =>
    exact List.forall_mem_append.2
      ⟨htarget.chars, List.forall_mem_cons.2 ⟨hdot, hname.chars⟩⟩
  | numbered => exact absurd (List.cons.inj hrest).1.symm hc

/-- A text between double quotes. -/
def inQuotes (s : String) : List Char := '"' :: (s.toList ++ ['"'])

/-- A text that can stand between double quotes on one line. -/
def IsQuotable (s : String) : Prop := ∀ c ∈ s.toList, c ≠ '"' ∧ c ≠ '\n'

/-- If there is a dot in the text, then also something that no attribute has in it. -/
def IsUnlikeAttribute (s : String) : Prop :=
  '.' ∈ s.toList → ∃ c ∈ s.toList, Text.isBlank c = true ∨ c = '$'

variable {s : String}

theorem inQuotes_ne_nil (s : String) : inQuotes s ≠ [] := List.cons_ne_nil _ _

/-- What may stand between quotes on one line, as a class of characters. -/
theorem contains_quotable_iff (c : Char) :
    (CharClass.noneOf ['"', '\n']).contains c = true ↔ c ≠ '"' ∧ c ≠ '\n' := by
  rw [CharClass.contains_noneOf, List.mem_pair, not_or]

/-- At a double quote, the text up to the next quote is found. -/
theorem firstMatch?_literalPattern (hs : IsQuotable s) (rest : List Char) :
    literalPattern.firstMatch? (inQuotes s ++ rest) = some ⟨inQuotes s, [(1, s.toList)]⟩ := by
  rw [inQuotes, List.cons_append, List.append_assoc]
  exact Pattern.firstMatch?_between_marks '"' (fun c hc => (contains_quotable_iff c).2 (hs c hc))
    (CharClass.not_contains_noneOf List.mem_cons_self) rest

/-- At a double quote, no rule finds more than the literal. -/
theorem length_le_of_firstMatch?_literal (hs : IsQuotable s) {n : Match}
    (h : literalPattern.firstMatch? (inQuotes s ++ rest) = some n) :
    n.text.length ≤ (inQuotes s).length := by
  obtain rfl := Option.some.inj (h.symm.trans (firstMatch?_literalPattern hs rest))
  exact Nat.le_refl _

/-- What is read as an attribute from the opening quote on is less than the literal, if that is not all
like an attribute. -/
theorem length_lt_of_firstMatch?_attribute (hunlike : IsUnlikeAttribute s) (hrest : AtGap rest)
    {n : Match} (h : attributePattern.firstMatch? (inQuotes s ++ rest) = some n) :
    n.text.length < (inQuotes s).length := by
  have hbegins := isPrefix_of_readsOnly readsOnly_attributePattern hrest h
  refine Nat.lt_of_le_of_ne hbegins.length_le fun hlength => ?_
  have hwhole : n.text = inQuotes s := hbegins.eq_of_length hlength
  have hdot : '.' ∈ inQuotes s := hwhole ▸ dot_mem_of_found h
  have hmem : '.' ∈ s.toList := by simpa [inQuotes] using hdot
  -- all of the literal would be characters of names, and this one is none
  obtain ⟨c, hc, hother⟩ := hunlike hmem
  have hname := nameChar_of_firstMatch?_attribute (by decide) h c
    (hwhole ▸ List.mem_cons_of_mem _ (List.mem_append_left _ hc))
  obtain ⟨hdollar, hblank⟩ := (CharClass.contains_nameChar c).1 hname
  rcases hother with hother | hother
  · exact Bool.false_ne_true (hblank.symm.trans hother)
  · exact hdollar hother

/-- A text between double quotes that is not all like an attribute is a literal. -/
theorem cutsInto_inQuotes (hs : IsQuotable s) (hunlike : IsUnlikeAttribute s) (hrest : AtGap rest)
    (h : CutsInto clauseTokens rest values) :
    CutsInto clauseTokens (inQuotes s ++ rest) (.literal s :: values) := by
  have hproduce : some (ClauseToken.literal (String.ofList s.toList)) = some (.literal s) := by
    rw [String.ofList_toList]
  have hword (w : List Char) (hw : w ≠ []) (hhead : some '"' ≠ w.head?)
      (produce : Match → Option ClauseToken) (n : Match)
      (hn : (TokenRule.ofPattern (.word w) produce).find? (inQuotes s ++ rest) = some n) :
      n.text.length < (inQuotes s).length :=
    absurd hn (word_not_found hw (inQuotes_ne_nil s) hhead n)
  refine CutsInto.token (i := 3) rfl (firstMatch?_literalPattern hs rest) rfl hproduce
    (inQuotes_ne_nil s) ?_ ?_ h
  · exact length_le_of_clauseTokens (inQuotes_ne_nil s) hrest
      fun n hn => length_le_of_firstMatch?_literal hs hn
  · refine List.forall_mem_cons.2
      ⟨fun n hn => length_lt_of_firstMatch?_attribute hunlike hrest hn, ?_⟩
    refine List.forall_mem_cons.2 ⟨hword _ (by decide) (by decide) _, ?_⟩
    exact List.forall_mem_singleton.2 (hword _ (by decide) (by decide) _)

/-- A legible literal has no dots. -/
theorem cutsInto_literal (hs : (Expression.literal s).IsLegible) (hrest : AtGap rest)
    (h : CutsInto clauseTokens rest values) :
    CutsInto clauseTokens ((Text.quoted s).toList ++ rest) (.literal s :: values) := by
  obtain ⟨hquoted, hcharacters⟩ := hs
  have hplain := Text.isPlain_of_quoted_eq hquoted
  have htext : (Text.quoted s).toList = inQuotes s := by
    rw [Text.quoted, String.toList_ofList, Text.quote_of_forall_plain _ hplain]
    rfl
  rw [htext]
  refine cutsInto_inQuotes (fun c hc => ⟨?_, ?_⟩) (fun hdot => ?_) hrest h
  · rintro rfl
    exact absurd (hplain _ hc) (by unfold Text.IsPlain; decide)
  · rintro rfl
    exact absurd (hplain _ hc) (by unfold Text.IsPlain; decide)
  · exact absurd rfl (hcharacters _ hdot).1

/-- Whose attribute it is, a dot, and its name. -/
theorem exists_firstMatch?_attribute {ref : AttributeRef} (href : ref.IsLegible)
    (hrest : AtGap rest) : ∃ m, attributePattern.firstMatch? (ref.render.toList ++ rest) = some m ∧
      m.text = ref.render.toList ∧ attributeOf? m = some (.attributeRef ref) := by
  obtain ⟨target, name⟩ := ref
  have hname : IsWord ['.', '$', '"', ']', '\x7d'] name := href.name
  have hchars := hname.contains_nameChar (by decide)
  have hdot : '.' ∉ name.toList := fun h => (hname.2 _ h).2 (by decide)
  -- a name up to the last dot, or a dollar sign and digits
  cases target with
  | named t =>
    have ht : IsWord ['$', '"', ']', '\x7d'] t := href.target
    have htext : (AttributeRef.render ⟨.named t, name⟩).toList =
        t.toList ++ '.' :: name.toList := by
      simp [AttributeRef.render, Target.render]
    have hfound := firstMatch?_attributePattern_named ht.toList_ne_nil
      (ht.contains_nameChar (by decide)) hname.toList_ne_nil hchars hdot hrest
    refine ⟨⟨_, [(3, name.toList), (1, t.toList)]⟩, ?_, htext.symm, ?_⟩
    · rw [htext, List.append_assoc, List.cons_append]
      exact hfound
    · show some (ClauseToken.attributeRef ⟨.named (String.ofList t.toList),
        String.ofList name.toList⟩) = _
      rw [String.ofList_toList, String.ofList_toList]
  | numbered index =>
    have hindex : index ≤ greatestIndex := href.target
    have htext : (AttributeRef.render ⟨.numbered index, name⟩).toList =
        '$' :: (digitsOf index ++ '.' :: name.toList) := by
      simp [AttributeRef.render, Target.render, digitsOf]
    have hfound := firstMatch?_attributePattern_numbered (digitsOf_ne_nil index)
      (fun c hc => textIsDigit_of_mem_digitsOf hc) (length_digitsOf_le hindex) hname.toList_ne_nil
      hchars hrest
    refine ⟨⟨_, [(3, name.toList), (2, digitsOf index)]⟩, ?_, htext.symm, ?_⟩
    · rw [htext, List.cons_append, List.append_assoc, List.cons_append]
      exact hfound
    · show ((indexOf? (digitsOf index)).map Target.numbered).map (fun target =>
        ClauseToken.attributeRef ⟨target, String.ofList name.toList⟩) = _
      rw [indexOf?_digitsOf hindex, String.ofList_toList]
      rfl

/-- A legible attribute does not begin with a quote. -/
theorem head?_attribute_ne_quote {ref : AttributeRef} (href : ref.IsLegible) :
    ref.render.toList.head? ≠ some '"' := by
  obtain ⟨target, name⟩ := ref
  cases target with
  | named t =>
    have ht : IsWord ['$', '"', ']', '\x7d'] t := href.target
    obtain ⟨c, u, hu⟩ := List.exists_cons_of_ne_nil ht.toList_ne_nil
    intro hhead
    have hc : c = '"' := by
      simpa [AttributeRef.render, Target.render, hu] using hhead
    exact (ht.2 c (hu ▸ List.mem_cons_self)).2 (by rw [hc]; decide)
  | numbered index =>
    intro hhead
    simp [AttributeRef.render, Target.render] at hhead

/-- A legible attribute is found where it stands, and the first rule is the one for attributes. -/
theorem cutsInto_attributeRef {ref : AttributeRef} (href : ref.IsLegible) (hrest : AtGap rest)
    (h : CutsInto clauseTokens rest values) :
    CutsInto clauseTokens (ref.render.toList ++ rest) (.attributeRef ref :: values) := by
  obtain ⟨m, hfound, htext, hproduce⟩ := exists_firstMatch?_attribute href hrest
  have hne : ref.render.toList ≠ [] := by
    rw [← htext]
    exact List.ne_nil_of_mem (dot_mem_of_found hfound)
  refine cutsInto_clauseToken (i := 0) rfl hfound htext hproduce hne hrest (fun n hn => ?_)
    (fun _ h => nomatch h) h
  exact absurd hn (literal_not_found hne (head?_attribute_ne_quote href) n)

/-- Each kind of expression is found where it stands. -/
theorem cutsInto_expression {e : Expression} (he : e.IsLegible) (hrest : AtGap rest)
    (h : CutsInto clauseTokens rest values) :
    CutsInto clauseTokens (e.render.toList ++ rest) (e.token :: values) := by
  cases e with
  | newRegister => exact cutsInto_newRegister hrest h
  | literal text => exact cutsInto_literal he hrest h
  | read ref => exact cutsInto_attributeRef he hrest h

/-- At a blank between two tokens, the rule for blanks wins. -/
theorem isLongest_clauseGap {c : Char} (hc : IsGap c) (rest : List Char) :
    IsLongest clauseTokens (c :: rest) 5 (.ofPattern (.one .blank) fun _ => none) ⟨[c], []⟩ := by
  have hgap : AtGap (c :: rest) := atGap_cons hc rest
  have hblank : CharClass.blank.contains c = true := by
    rw [CharClass.contains_blank]
    exact hc
  have hquote : [c].head? ≠ some '"' := by
    intro he
    rw [Option.some.inj he] at hc
    exact absurd hc (by decide)
  -- of the rules before, none reads a gap, so they find nothing or the empty text
  have hshort : ∀ other ∈ clauseTokens.take 5, ∀ n, other.find? (c :: rest) = some n →
      n.text.length = 0 := by
    intro other hother n hn
    simp only [clauseTokens, List.take_succ_cons, List.take_zero, List.mem_cons, List.not_mem_nil,
      or_false] at hother
    rcases hother with rfl | rfl | rfl | rfl | rfl
    all_goals rw [TokenRule.find?_ofPattern] at hn
    · exact length_eq_zero_of_readsOnly readsOnly_attributePattern hgap hn
    · exact length_eq_zero_of_readsOnly (Pattern.readsOnly_word (by decide)) hgap hn
    · exact length_eq_zero_of_readsOnly (Pattern.readsOnly_word (by decide)) hgap hn
    · exact absurd hn (literal_not_found (u := [c]) (List.cons_ne_nil _ _) hquote n)
    · exact length_eq_zero_of_readsOnly (Pattern.readsOnly_char (by decide)) hgap hn
  refine isLongest_of_le rfl (Pattern.firstMatch?_one hblank rest) (List.cons_ne_nil _ _)
    (fun other hother n hn => ?_) fun other hother n hn => ?_
  · rw [← List.take_append_drop 5 clauseTokens, List.mem_append] at hother
    rcases hother with hother | hother
    · rw [hshort other hother n hn]
      exact Nat.zero_le 1
    · rw [List.mem_singleton.1 hother, TokenRule.find?_ofPattern] at hn
      exact Nat.le_of_eq (length_eq_one_of_firstMatch? hn)
  · rw [hshort other hother n hn]
    exact Nat.zero_lt_one

/-- A blank between two tokens is dropped. -/
theorem cutsInto_clauseGap {c : Char} (hc : IsGap c) (h : CutsInto clauseTokens rest values) :
    CutsInto clauseTokens (c :: rest) values :=
  CutsInto.step (m := ⟨[c], []⟩) (isLongest_clauseGap hc rest) h

end

end RuleText

end GuardedGrammar
