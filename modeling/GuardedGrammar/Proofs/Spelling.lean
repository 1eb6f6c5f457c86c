/-
  Texts that are written token by token.

  If each token of a text is the longest match where it stands, then the text is cut into these tokens
  (`CutsInto`).  Tokens are written with a blank behind them, or at the end, so that a match which does
  not read blanks ends with the token at the latest (`isPrefix_of_readsOnly`).  That
  is why a rule that wins has nothing to fear from the others.
-/
import GuardedGrammar.Proofs.FirstMatch
import GuardedGrammar.Proofs.MaximalMunch
import GuardedGrammar.Proofs.TokenValues
import GuardedGrammar.RuleText.RuleToken
import Mathlib.Algebra.Group.Nat.Defs

namespace GuardedGrammar

/-! ## Cutting -/

section

variable {τ : Type} {rules : List (TokenRule τ)}

/-- The text can be cut to its end, and these are the tokens. -/
inductive CutsInto (rules : List (TokenRule τ)) : List Char → List τ → Prop
  | nil : CutsInto rules [] []
  | step {i : Nat} {rule : TokenRule τ} {m : Match} {rest : List Char} {values : List τ}
    (hwins : IsLongest rules (m.text ++ rest) i rule m) (h : CutsInto rules rest values) :
    CutsInto rules (m.text ++ rest) ((rule.produce m).toList ++ values)

/-- A text that is cut into values has them for tokens, wherever it begins. By induction on the
cutting. -/
theorem CutsInto.values?_tokensFrom (htied : ∀ rule ∈ rules, rule.IsTied) {text : List Char}
    {values : List τ} (h : CutsInto rules text values) (place : Location)
    (dropped : List Matched) :
    ((lexFrom rules place text).tokensFrom dropped).values? = some values := by
  induction h generalizing place dropped with
  | nil =>
    rw [lexFrom]
    rfl
  | @step i rule m rest values hwins _ ih =>
    rw [lexFrom_append htied hwins]
    cases hproduce : rule.produce m with
    | none => exact ih _ _
    | some t =>
      show Option.map (t :: ·) (Tokens.values? _) = _
      rw [ih]
      rfl

/-- A text that is cut into values has them for tokens. -/
theorem CutsInto.values?_ofText (htied : ∀ rule ∈ rules, rule.IsTied) {text : List Char}
    {values : List τ} (h : CutsInto rules text values) :
    (Tokens.ofText rules text).values? = some values :=
  h.values?_tokensFrom htied _ _

theorem TokenRule.find?_ofPattern (p : Pattern) (produce : Match → Option τ) (text : List Char) :
    (TokenRule.ofPattern p produce).find? text = p.firstMatch? text := rfl

/-- A rule wins if no other finds more, and those before it find less. -/
theorem isLongest_of_le {text : List Char} {i : Nat} {rule : TokenRule τ} {m : Match}
    (listed : rules[i]? = some rule) (found : rule.find? text = some m) (reads : m.text ≠ [])
    (hall : ∀ other ∈ rules, ∀ n, other.find? text = some n → n.text.length ≤ m.text.length)
    (hbefore : ∀ other ∈ rules.take i, ∀ n, other.find? text = some n →
      n.text.length < m.text.length) : IsLongest rules text i rule m where
  listed := listed
  found := found
  reads := reads
  longest j other n hj hn := hall other (List.mem_of_getElem? hj) n hn
  first j other n hj hn hlength := by
    refine Nat.le_of_not_lt fun hlt => ?_
    have hmem : other ∈ rules.take i :=
      List.mem_of_getElem? ((List.getElem?_take_of_lt hlt).trans hj)
    exact absurd hlength (Nat.ne_of_lt (hbefore other hmem n hn))

/-- A token that is found where it stands, and by no earlier rule so long, is the first of the text. -/
theorem CutsInto.token {i : Nat} {rule : TokenRule τ} {m : Match} {t : τ} {u rest : List Char}
    {values : List τ} (listed : rules[i]? = some rule) (found : rule.find? (u ++ rest) = some m)
    (htext : m.text = u) (hproduce : rule.produce m = some t) (hne : u ≠ [])
    (hall : ∀ other ∈ rules, ∀ n, other.find? (u ++ rest) = some n → n.text.length ≤ u.length)
    (hbefore : ∀ other ∈ rules.take i, ∀ n, other.find? (u ++ rest) = some n →
      n.text.length < u.length)
    (h : CutsInto rules rest values) : CutsInto rules (u ++ rest) (t :: values) := by
  subst htext
  have hstep := CutsInto.step (isLongest_of_le listed found hne hall hbefore) h
  rw [hproduce] at hstep
  exact hstep

end

/-! ## Characters of a text -/

section

-- such a thing could also be decided by going through all characters that there are
variable (P : Char → Prop) [DecidablePred P]

instance (priority := high) decidableForallMemText (text : List Char) : Decidable (∀ c ∈ text, P c) :=
  List.decidableBAll P text

instance (priority := high) decidableExistsMemText (text : List Char) : Decidable (∃ c ∈ text, P c) :=
  List.decidableBEx P text

instance (priority := high) decidableForallMemHead (head : Option Char) :
    Decidable (∀ c ∈ head, P c) :=
  Option.decidableForallMem head

end

/-! ## Gaps -/

namespace RuleText

/-- What stands between the tokens of a text that is written token by token: any blank. -/
def IsGap (c : Char) : Prop := Text.isBlank c = true

instance IsGap.decidable (c : Char) : Decidable (IsGap c) := inferInstanceAs (Decidable (_ = true))

/-- A token can end before this text. -/
def AtGap (rest : List Char) : Prop := ∀ c ∈ rest.head?, IsGap c

/-! There is a gap behind the text, and where a blank character is ahead. -/

theorem atGap_nil : AtGap [] := fun _ h => nomatch h

theorem atGap_cons {c : Char} (h : IsGap c) (rest : List Char) : AtGap (c :: rest) :=
  fun _ hd => Option.some.inj hd ▸ h

theorem not_contains_of_atGap {k : CharClass} {rest : List Char} (hrest : AtGap rest)
    (hk : ∀ c, k.contains c = true → ¬IsGap c) : ∀ c ∈ rest.head?, k.contains c = false :=
  fun c hc => Bool.eq_false_iff.2 fun hcontains => hk c hcontains (hrest c hc)

/-- A match that does not read gaps ends with the text before the next gap. -/
theorem isPrefix_of_readsOnly {p : Pattern} (hp : p.ReadsOnly fun c => ¬IsGap c)
    {u rest : List Char} (hrest : AtGap rest) {m : Match}
    (h : p.firstMatch? (u ++ rest) = some m) : m.text <+: u := by
  have hgap := (Pattern.denotes_of_firstMatch? h).forall_of_readsOnly hp
  rcases List.prefix_or_prefix_of_prefix (Pattern.isPrefix_of_firstMatch? h)
    (List.prefix_append u rest) with hle | ⟨more, hmore⟩
  · exact hle
  · -- otherwise it would read the first character behind the text
    obtain ⟨after, hafter⟩ := Pattern.isPrefix_of_firstMatch? h
    cases more with
    | nil => exact ⟨[], by rw [List.append_nil, ← hmore, List.append_nil]⟩
    | cons c more =>
      rw [← hmore, List.append_assoc] at hafter
      have hrest' : rest = c :: (more ++ after) := (List.append_cancel_left hafter).symm
      refine absurd (hrest c (by rw [hrest']; rfl)) (hgap c ?_)
      rw [← hmore]
      exact List.mem_append_right _ List.mem_cons_self

/-- At a gap, it reads nothing. -/
theorem length_eq_zero_of_readsOnly {p : Pattern} (hp : p.ReadsOnly fun c => ¬IsGap c)
    {rest : List Char} (hrest : AtGap rest) {m : Match} (h : p.firstMatch? rest = some m) :
    m.text.length = 0 :=
  congrArg List.length (List.prefix_nil.1 (isPrefix_of_readsOnly (u := []) hp hrest h))

/-- Where a match begins. -/
theorem head?_of_opensWith {c : Char} {p : Pattern} (hp : Pattern.OpensWith (.only c) p)
    {u rest : List Char} (hne : u ≠ []) {m : Match}
    (h : p.firstMatch? (u ++ rest) = some m) : u.head? = some c := by
  obtain ⟨d, hd, hc⟩ := Pattern.contains_of_opensWith hp h
  rw [List.head?_append_of_ne_nil _ hne] at hd
  rw [← (CharClass.contains_only c d).1 hc]
  exact hd

/-! ## Numbers -/

/-- The digits of a number. -/
def digitsOf (index : Nat) : List Char := (toString index).toList

/-! A number is written in decimal digits, with one of them at least, and an index with nine at
most. -/

theorem digitsOf_eq (index : Nat) : digitsOf index = Nat.toDigits 10 index := Nat.toList_repr

theorem digitsOf_ne_nil (index : Nat) : digitsOf index ≠ [] := by
  rw [digitsOf_eq]
  exact Nat.toDigits_ne_nil

theorem isDigit_of_mem_digitsOf {index : Nat} {c : Char} (h : c ∈ digitsOf index) :
    c.isDigit = true := by
  rw [digitsOf_eq] at h
  exact Nat.isDigit_of_mem_toDigits (by decide) (by decide) h

theorem textIsDigit_of_mem_digitsOf {index : Nat} {c : Char} (h : c ∈ digitsOf index) :
    Text.isDigit c = true :=
  Text.isDigit_of_isDigit c (isDigit_of_mem_digitsOf h)

theorem length_digitsOf_le {index : Nat} (h : index ≤ 999999999) :
    (digitsOf index).length ≤ 9 := by
  rw [digitsOf_eq, Nat.length_toDigits_le_iff (by decide) (by decide)]
  omega

/-- By induction on the digits, with what has been read before as the value to begin with. -/
theorem foldl_digits_lt {digits : List Char} (hdigits : ∀ c ∈ digits, c.isDigit = true)
    {value bound : Nat} (hvalue : value < bound) :
    digits.foldl (fun value c => 10 * value + (c.toNat - 0x30)) value <
      bound * 10 ^ digits.length := by
  induction digits generalizing value bound with
  | nil => simpa using hvalue
  | cons c digits ih =>
    obtain ⟨hc, hothers⟩ := List.forall_mem_cons.1 hdigits
    have hle : c.toNat ≤ 0x39 := by
      simp only [Char.isDigit, Bool.and_eq_true, decide_eq_true_eq, UInt32.le_iff_toNat_le] at hc
      exact hc.2
    have hnext : 10 * value + (c.toNat - 0x30) < bound * 10 := by omega
    have hall := ih hothers hnext
    rwa [Nat.mul_assoc, ← Nat.pow_succ'] at hall

/-- The value of digits is bounded by how many they are. -/
theorem valueOf_lt {digits : List Char} (hdigits : ∀ c ∈ digits, c.isDigit = true) :
    Text.valueOf digits < 10 ^ digits.length := by
  have hlt := foldl_digits_lt hdigits Nat.zero_lt_one
  rwa [Nat.one_mul] at hlt

/-- Nine digits make no greater number than nine nines. -/
theorem valueOf_lt_of_length_le {digits : List Char} (hdigits : ∀ c ∈ digits, c.isDigit = true)
    (hlength : digits.length ≤ 9) : Text.valueOf digits < 10 ^ 9 :=
  Nat.lt_of_lt_of_le (valueOf_lt hdigits) (Nat.pow_le_pow_right (by decide) hlength)

/-- Without a sign, an index is read from its digits. -/
theorem indexOf?_eq_readDigits? {digits : List Char} (hplus : '+' ∉ digits) :
    indexOf? digits = Text.readDigits? digits := by
  unfold indexOf? Text.readNumber?
  split
  · exact absurd List.mem_cons_self hplus
  · rfl

/-- Up to nine digits can be read as a number. -/
theorem indexOf?_of_isDigit {digits : List Char} (hne : digits ≠ [])
    (hdigits : ∀ c ∈ digits, c.isDigit = true) (hlength : digits.length ≤ 9) :
    indexOf? digits = some (Text.valueOf digits) := by
  have hplus : '+' ∉ digits := fun hmem => absurd (hdigits _ hmem) (by decide)
  have hall : digits.all Char.isDigit = true := List.all_eq_true.2 hdigits
  have hempty : digits.isEmpty = false := List.isEmpty_eq_false_iff.2 hne
  have hbound : ¬Text.numberBound ≤ Text.valueOf digits := by
    have hlt := valueOf_lt_of_length_le hdigits hlength
    unfold Text.numberBound
    omega
  rw [indexOf?_eq_readDigits? hplus, Text.readDigits?, hall, hempty, if_neg (by simpa using hbound)]

/-- Without a sign, an index is made up of digits. -/
theorem isDigit_of_indexOf? {digits : List Char} (hplus : '+' ∉ digits) {index : Nat}
    (h : indexOf? digits = some index) : ∀ c ∈ digits, c.isDigit = true := by
  rw [indexOf?_eq_readDigits? hplus, Text.readDigits?] at h
  split at h
  · exact nomatch h
  · next hread =>
    simp only [Bool.or_eq_true, Bool.not_eq_true', not_or, Bool.not_eq_false] at hread
    exact List.all_eq_true.1 hread.1.2

/-- An index is read again from how it is written. -/
theorem indexOf?_digitsOf {index : Nat} (h : index ≤ 999999999) :
    indexOf? (digitsOf index) = some index := by
  have hvalue : Text.valueOf (digitsOf index) = index := by
    rw [digitsOf_eq]
    exact Nat.ofDigitChars_toDigits (by decide) (by decide)
  rw [indexOf?_of_isDigit (digitsOf_ne_nil index) (fun _ => isDigit_of_mem_digitsOf)
    (length_digitsOf_le h), hvalue]

/-- A dollar sign and digits, of which there are at most nine. If there are nine, more may follow. -/
theorem search_indexPattern {β : Type} {number n : Nat} {digits rest : List Char}
    {gs : List Pattern.Span} {cont : Pattern.Reading → Option β} {out : β} (hne : digits ≠ [])
    (hdigits : ∀ c ∈ digits, Text.isDigit c = true) (hlength : digits.length ≤ 9)
    (hstop : digits.length < 9 → ∀ c ∈ rest.head?, Text.isDigit c = false)
    (hcont : cont ⟨n + 1 + digits.length, rest,
      ⟨number, n + 1, n + 1 + digits.length⟩ :: gs⟩ = some out) :
    Pattern.search (indexPattern number) ⟨n, '$' :: (digits ++ rest), gs⟩ cont = some out := by
  rw [indexPattern, Pattern.search_seq, Pattern.search_char, Pattern.search_group]
  refine Pattern.search_between_one hne hlength (fun c hc => ?_) (fun hlt c hc => ?_) hcont
  · rw [CharClass.contains_digit]
    exact hdigits c hc
  · rw [CharClass.contains_digit]
    exact hstop hlt c hc

/-! ## Symbols -/

/-- No digit is a blank: the runs of ten lie between the blanks. -/
theorem not_isGap_of_digit (c : Char) (h : CharClass.digit.contains c = true) : ¬IsGap c := by
  have hbetween : ∀ first ∈ Text.digitZeros, 0x21 ≤ first ∧ first + 10 ≤ 0x85 ∨
      0xA1 ≤ first ∧ first + 10 ≤ 0x1680 ∨ 0x1681 ≤ first ∧ first + 10 ≤ 0x2000 ∨
      0x3001 ≤ first := by
    decide
  rw [CharClass.contains_digit, Text.isDigit, List.any_eq_true] at h
  obtain ⟨first, hfirst, hc⟩ := h
  rw [Bool.and_eq_true, decide_eq_true_eq, decide_eq_true_eq] at hc
  have := hbetween first hfirst
  unfold IsGap Text.isBlank
  simp only [Bool.or_eq_true, Bool.and_eq_true, decide_eq_true_eq, beq_iff_eq]
  omega

theorem not_isGap_of_nameChar (c : Char) (h : CharClass.nameChar.contains c = true) : ¬IsGap c :=
  fun hgap => Bool.false_ne_true (((CharClass.contains_nameChar c).1 h).2.symm.trans hgap)

/-! Where there is a gap, neither a digit comes nor a character of a name. -/

theorem not_isDigit_of_atGap {rest : List Char} (hrest : AtGap rest) :
    ∀ c ∈ rest.head?, Text.isDigit c = false := by
  intro c hc
  rw [← CharClass.contains_digit]
  exact not_contains_of_atGap hrest not_isGap_of_digit c hc

theorem not_contains_nameChar_of_atGap {rest : List Char} (hrest : AtGap rest) :
    ∀ c ∈ rest.head?, CharClass.nameChar.contains c = false :=
  not_contains_of_atGap hrest not_isGap_of_nameChar

theorem not_head?_of_atGap {rest : List Char} (hrest : AtGap rest) {c : Char} (hc : ¬IsGap c) :
    rest.head? ≠ some c :=
  fun h => hc (hrest c h)

variable {name digits rest : List Char}

/-- A name is read as a symbol up to the gap behind it. -/
theorem firstMatch?_symbolPattern (hne : name ≠ [])
    (hname : ∀ c ∈ name, CharClass.nameChar.contains c = true) (hrest : AtGap rest) :
    symbolPattern.firstMatch? (name ++ rest) = some ⟨name, [(1, name)]⟩ := by
  have hsearch : symbolPattern.search ⟨0, name ++ rest, []⟩ some =
      some ⟨0 + name.length, rest, [⟨1, 0, 0 + name.length⟩]⟩ := by
    rw [symbolPattern, Pattern.search_seq, Pattern.search_group]
    refine Pattern.search_plus_one_run hne hname (not_contains_nameChar_of_atGap hrest) ?_
    -- there is no index, so the optional part is left out
    have hnone : rest.head? ≠ some '$' := not_head?_of_atGap hrest (by decide)
    rw [Pattern.search_opt]
    show ((Pattern.search (.seq (.char '$') _) ⟨_, rest, _⟩ some).or _) = _
    rw [Pattern.search_seq, Pattern.search_char_eq_none hnone]
    rfl
  have hwhole : Pattern.part (name ++ rest) 0 (0 + name.length) = name :=
    Pattern.part_eq [] name rest rfl rfl rfl
  rw [Pattern.firstMatch?_of_search hsearch]
  show some (Match.mk (Pattern.part _ 0 (0 + name.length))
    [(1, Pattern.part _ 0 (0 + name.length))]) = _
  rw [hwhole]

/-- A name with an index is read as a symbol up to the last of the digits. -/
theorem firstMatch?_symbolPattern_indexed (hne : name ≠ [])
    (hname : ∀ c ∈ name, CharClass.nameChar.contains c = true) (hdne : digits ≠ [])
    (hdigits : ∀ c ∈ digits, Text.isDigit c = true) (hlength : digits.length ≤ 9)
    (hstop : digits.length < 9 → ∀ c ∈ rest.head?, Text.isDigit c = false) :
    symbolPattern.firstMatch? (name ++ '$' :: (digits ++ rest)) =
      some ⟨name ++ '$' :: digits, [(2, digits), (1, name)]⟩ := by
  have hsearch : symbolPattern.search ⟨0, name ++ '$' :: (digits ++ rest), []⟩ some =
      some ⟨0 + name.length + 1 + digits.length, rest,
        [⟨2, 0 + name.length + 1, 0 + name.length + 1 + digits.length⟩,
          ⟨1, 0, 0 + name.length⟩]⟩ := by
    rw [symbolPattern, Pattern.search_seq, Pattern.search_group]
    refine Pattern.search_plus_one_run hne hname (fun c hc => ?_) ?_
    · -- the dollar sign ends the name
      rw [← Option.some.inj hc, ← Bool.not_eq_true, CharClass.contains_nameChar]
      exact fun h => absurd rfl h.1
    · rw [Pattern.search_opt]
      refine Option.or_eq_some_iff.2 (.inl ?_)
      exact search_indexPattern hdne hdigits hlength hstop rfl
  have hwhole : Pattern.part (name ++ '$' :: (digits ++ rest)) 0
      (0 + name.length + 1 + digits.length) = name ++ '$' :: digits := by
    refine Pattern.part_eq [] _ rest ?_ rfl ?_
    · simp
    · simp
      omega
  have hfirst : Pattern.part (name ++ '$' :: (digits ++ rest)) 0 (0 + name.length) = name :=
    Pattern.part_eq [] name _ rfl rfl rfl
  have hsecond : Pattern.part (name ++ '$' :: (digits ++ rest)) (0 + name.length + 1)
      (0 + name.length + 1 + digits.length) = digits := by
    refine Pattern.part_eq (name ++ ['$']) digits rest ?_ ?_ rfl
    · simp
    · simp
  rw [Pattern.firstMatch?_of_search hsearch, hwhole]
  show some (Match.mk _ [(2, Pattern.part _ (0 + name.length + 1) _),
    (1, Pattern.part _ 0 (0 + name.length))]) = _
  rw [hfirst, hsecond]

/-! ## Attributes -/

/-- The name of an attribute ends with the token. -/
theorem search_attributeName {n : Nat} {gs : List Pattern.Span} (hne : name ≠ [])
    (hname : ∀ c ∈ name, CharClass.nameChar.contains c = true) (hrest : AtGap rest) :
    Pattern.search (.group 3 namePattern) ⟨n, name ++ rest, gs⟩ some =
      some ⟨n + name.length, rest, ⟨3, n, n + name.length⟩ :: gs⟩ := by
  rw [Pattern.search_group]
  exact Pattern.search_plus_one_run hne hname (not_contains_nameChar_of_atGap hrest) rfl

/-- The last dot divides the target from the name of the attribute. -/
theorem firstMatch?_attributePattern_named {target : List Char} (htne : target ≠ [])
    (htarget : ∀ c ∈ target, CharClass.nameChar.contains c = true) (hne : name ≠ [])
    (hname : ∀ c ∈ name, CharClass.nameChar.contains c = true) (hdot : '.' ∉ name)
    (hrest : AtGap rest) :
    attributePattern.firstMatch? (target ++ '.' :: (name ++ rest)) =
      some ⟨target ++ '.' :: name, [(3, name), (1, target)]⟩ := by
  have hsearch : attributePattern.search ⟨0, target ++ '.' :: (name ++ rest), []⟩ some =
      some ⟨0 + target.length + 1 + name.length, rest,
        [⟨3, 0 + target.length + 1, 0 + target.length + 1 + name.length⟩,
          ⟨1, 0, 0 + target.length⟩]⟩ := by
    show Pattern.search (.seq (.alt (.group 1 namePattern) (indexPattern 2))
      (.seq (.char '.') (.group 3 namePattern))) ⟨0, target ++ ('.' :: name ++ rest), []⟩ some = _
    rw [Pattern.search_seq, Pattern.search_alt, Pattern.search_group]
    refine Option.or_eq_some_iff.2 (.inl ?_)
    refine Pattern.search_plus_one htne htarget (fun c hc => ?_)
      (not_contains_nameChar_of_atGap hrest) (fun a b hab ha => ?_) ?_
    · rcases List.mem_cons.1 hc with rfl | hc
      · rw [CharClass.contains_nameChar]
        decide
      · exact hname c hc
    · -- behind the last dot there is none
      rw [Pattern.search_seq]
      refine Pattern.search_char_eq_none fun hhead => ?_
      obtain ⟨c, a, rfl⟩ := List.exists_cons_of_ne_nil ha
      obtain ⟨-, rfl⟩ := List.cons.inj hab
      cases b with
      | nil => exact not_head?_of_atGap hrest (by decide) hhead
      | cons d b =>
        obtain rfl := Option.some.inj hhead
        exact hdot (List.mem_append_right _ List.mem_cons_self)
    · rw [Pattern.search_seq]
      show Pattern.search (.char '.') ⟨_, '.' :: (name ++ rest), _⟩ _ = _
      rw [Pattern.search_char]
      exact search_attributeName hne hname hrest
  have hwhole : Pattern.part (target ++ '.' :: (name ++ rest)) 0
      (0 + target.length + 1 + name.length) = target ++ '.' :: name := by
    refine Pattern.part_eq [] _ rest ?_ rfl ?_
    · simp
    · simp
      omega
  have hfirst : Pattern.part (target ++ '.' :: (name ++ rest)) 0 (0 + target.length) = target :=
    Pattern.part_eq [] target _ rfl rfl rfl
  have hthird : Pattern.part (target ++ '.' :: (name ++ rest)) (0 + target.length + 1)
      (0 + target.length + 1 + name.length) = name := by
    refine Pattern.part_eq (target ++ ['.']) name rest ?_ ?_ rfl
    · simp
    · simp
  rw [Pattern.firstMatch?_of_search hsearch, hwhole]
  show some (Match.mk _ [(3, Pattern.part _ (0 + target.length + 1) _),
    (1, Pattern.part _ 0 (0 + target.length))]) = _
  rw [hfirst, hthird]

/-- An index with the name of an attribute is read as an attribute up to the gap behind it. -/
theorem firstMatch?_attributePattern_numbered (hdne : digits ≠ [])
    (hdigits : ∀ c ∈ digits, Text.isDigit c = true) (hlength : digits.length ≤ 9) (hne : name ≠ [])
    (hname : ∀ c ∈ name, CharClass.nameChar.contains c = true) (hrest : AtGap rest) :
    attributePattern.firstMatch? ('$' :: (digits ++ '.' :: (name ++ rest))) =
      some ⟨'$' :: (digits ++ '.' :: name), [(3, name), (2, digits)]⟩ := by
  have hsearch : attributePattern.search ⟨0, '$' :: (digits ++ '.' :: (name ++ rest)), []⟩ some =
      some ⟨0 + 1 + digits.length + 1 + name.length, rest,
        [⟨3, 0 + 1 + digits.length + 1, 0 + 1 + digits.length + 1 + name.length⟩,
          ⟨2, 0 + 1, 0 + 1 + digits.length⟩]⟩ := by
    show Pattern.search (.seq (.alt (.group 1 namePattern) (indexPattern 2))
      (.seq (.char '.') (.group 3 namePattern))) _ some = _
    rw [Pattern.search_seq, Pattern.search_alt]
    -- a name cannot begin with the dollar sign, so the first alternative fails
    refine Option.or_eq_some_iff.2 (.inr ⟨?_, ?_⟩)
    · rw [Pattern.search_group]
      refine Pattern.search_plus_one_eq_none fun c hc => ?_
      rw [← Option.some.inj hc, ← Bool.not_eq_true, CharClass.contains_nameChar]
      exact fun h => absurd rfl h.1
    · refine search_indexPattern hdne hdigits hlength (fun _ c hc => ?_) ?_
      · rw [← Option.some.inj hc]
        decide
      · rw [Pattern.search_seq, Pattern.search_char]
        exact search_attributeName hne hname hrest
  have hwhole : Pattern.part ('$' :: (digits ++ '.' :: (name ++ rest))) 0
      (0 + 1 + digits.length + 1 + name.length) = '$' :: (digits ++ '.' :: name) := by
    refine Pattern.part_eq [] _ rest ?_ rfl ?_
    · simp
    · simp
      omega
  have hsecond : Pattern.part ('$' :: (digits ++ '.' :: (name ++ rest))) (0 + 1)
      (0 + 1 + digits.length) = digits :=
    Pattern.part_eq ['$'] digits _ rfl rfl rfl
  have hthird : Pattern.part ('$' :: (digits ++ '.' :: (name ++ rest))) (0 + 1 + digits.length + 1)
      (0 + 1 + digits.length + 1 + name.length) = name := by
    refine Pattern.part_eq ('$' :: (digits ++ ['.'])) name rest ?_ ?_ rfl
    · simp
    · simp
      omega
  rw [Pattern.firstMatch?_of_search hsearch, hwhole]
  show some (Match.mk _ [(3, Pattern.part _ (0 + 1 + digits.length + 1) _),
    (2, Pattern.part _ (0 + 1) _)]) = _
  rw [hsecond, hthird]

/-! ## What is found

The other way round: whatever a pattern finds in any text has the form that its pattern describes.
-/

/-- The text of a name. -/
structure IsName (u : List Char) : Prop where
  ne_nil : u ≠ []
  chars : ∀ c ∈ u, CharClass.nameChar.contains c = true

/-- The digits of an index, in any script. -/
structure IsIndex (u : List Char) : Prop where
  length_le : u.length ≤ 9
  digits : ∀ c ∈ u, Text.isDigit c = true

/-- The texts of symbols, with their groups. -/
inductive IsSymbolText : List Char → List (Nat × List Char) → Prop
  | plain {name : List Char} (hname : IsName name) : IsSymbolText name [(1, name)]
  | indexed {name digits : List Char} (hname : IsName name) (hdigits : IsIndex digits) :
    IsSymbolText (name ++ '$' :: digits) [(2, digits), (1, name)]

/-- The texts of attributes, with their groups. -/
inductive IsAttributeText : List Char → List (Nat × List Char) → Prop
  | named {target name : List Char} (htarget : IsName target) (hname : IsName name) :
    IsAttributeText (target ++ '.' :: name) [(3, name), (1, target)]
  | numbered {digits name : List Char} (hdigits : IsIndex digits) (hname : IsName name) :
    IsAttributeText ('$' :: (digits ++ '.' :: name)) [(3, name), (2, digits)]

section

variable {u : List Char} {gs : List (Nat × List Char)} {number : Nat}

/-- What the pattern of names reads is a name, which it captures. -/
theorem isName_of_captures (h : Pattern.Captures (.group number namePattern) u gs) :
    gs = [(number, u)] ∧ IsName u := by
  obtain ⟨hgroups, hdenotes⟩ := h.of_group rfl
  have hreads : namePattern.ReadsOnly fun c => CharClass.nameChar.contains c = true :=
    fun _ hc => hc
  refine ⟨hgroups, ?_, hdenotes.forall_of_readsOnly hreads⟩
  cases hdenotes with
  | plus hone _ =>
    cases hone
    exact List.cons_ne_nil _ _

/-- What the pattern of indices reads is a dollar sign and digits, which it captures. -/
theorem isIndex_of_captures (h : Pattern.Captures (indexPattern number) u gs) :
    ∃ digits, u = '$' :: digits ∧ gs = [(number, digits)] ∧ IsIndex digits := by
  cases h with
  | @seq _ _ _ digits _ _ hdollar hdigits =>
    obtain ⟨rfl, hdenotes⟩ := hdigits.of_group rfl
    have hreads : (Pattern.one .digit).ReadsOnly fun c => Text.isDigit c = true := by
      intro c hc
      rwa [CharClass.contains_digit] at hc
    refine ⟨digits, ?_, ?_, Pattern.length_le_of_denotes_between hdenotes,
      hdenotes.forall_of_readsOnly (Pattern.readsOnly_between hreads _ _ _)⟩
    · rw [Pattern.denotes_word (w := ['$']) hdollar.denotes]
      rfl
    · rw [hdollar.eq_nil rfl, List.append_nil]

/-- What the pattern of symbols reads is written like a symbol. -/
theorem isSymbolText_of_captures (h : Pattern.Captures symbolPattern u gs) : IsSymbolText u gs := by
  cases h with
  | seq hgroup hindex =>
    obtain ⟨rfl, hname⟩ := isName_of_captures hgroup
    cases hindex with
    | absent =>
      rw [List.append_nil]
      exact .plain hname
    | present hindex =>
      obtain ⟨digits, rfl, rfl, hdigits⟩ := isIndex_of_captures hindex
      exact .indexed hname hdigits

/-- What the pattern of attributes reads is written like an attribute. -/
theorem isAttributeText_of_captures (h : Pattern.Captures attributePattern u gs) :
    IsAttributeText u gs := by
  cases (h : Pattern.Captures (.seq (.alt (.group 1 namePattern) (indexPattern 2))
    (.seq (.char '.') (.group 3 namePattern))) u gs) with
  | seq htarget hbehind =>
    cases hbehind with
    | seq hdot hgroup =>
      obtain ⟨rfl, hname⟩ := isName_of_captures hgroup
      rw [Pattern.denotes_word (w := ['.']) hdot.denotes, hdot.eq_nil rfl]
      cases htarget with
      | left hgroup =>
        obtain ⟨rfl, htarget⟩ := isName_of_captures hgroup
        exact .named htarget hname
      | right hindex =>
        obtain ⟨digits, rfl, rfl, hdigits⟩ := isIndex_of_captures hindex
        exact .numbered hdigits hname

end

end RuleText

end GuardedGrammar
