/-
  Words with indices.

  An index is a dollar sign and digits.  A digit is one of any script, and no more than nine of them are
  taken; but a number is written with ASCII digits.  So there are two ways in which a word of a rule does
  not become the symbol that it is written as, and neither is an error: if its digits denote no number,
  it is dropped, and if there are more than nine, then the others are a symbol of their own
  (`Word.symbols`).  Behind `emit`, where an attribute needs a dot after the index, too many digits are
  an error.

  Main statement: `words_read`.
-/
import GuardedGrammar.Proofs.ClauseRefusal
import GuardedGrammar.Proofs.RuleFile
import GuardedGrammar.Proofs.RuleSpelling
import Mathlib.Algebra.Order.BigOperators.Group.List
import Mathlib.Algebra.Order.Ring.Nat

namespace GuardedGrammar

/-! ## Numbers in digits of any script -/

/-- How far a digit is from the zero of its run. -/
def digitValue (c : Char) : Nat :=
  match Text.digitZeros.find? fun first => first ≤ c.toNat && c.toNat < first + 10 with
  | some first => c.toNat - first
  | none => 0

/-- The number that digits denote to somebody who knows their scripts. -/
def numberOf (digits : List Char) : Nat := digits.foldl (fun value c => 10 * value + digitValue c) 0

/-- A decimal digit has the value that its code tells. -/
theorem digitValue_of_isDigit {c : Char} (h : c.isDigit = true) : digitValue c = c.toNat - 0x30 := by
  have hzero : (0x30 ≤ c.toNat && c.toNat < 0x30 + 10) = true := by
    simp only [Char.isDigit, Bool.and_eq_true, decide_eq_true_eq, UInt32.le_iff_toNat_le] at h
    have h₁ : 0x30 ≤ c.toNat := h.1
    have h₂ : c.toNat ≤ 0x39 := h.2
    simp only [Bool.and_eq_true, decide_eq_true_eq]
    omega
  have hfirst : (Text.digitZeros.find? fun first => first ≤ c.toNat && c.toNat < first + 10) =
      some 0x30 :=
    List.find?_cons_of_pos hzero
  rw [digitValue, hfirst]

/-- Decimal digits have the value that they are read with. -/
theorem numberOf_eq_valueOf {digits : List Char} (h : ∀ c ∈ digits, c.isDigit = true) :
    numberOf digits = Text.valueOf digits :=
  List.foldl_ext _ _ 0 fun value c hc => by rw [digitValue_of_isDigit (h c hc)]

example : numberOf "١٢3".toList = 123 := by decide

/-- Where no summand is more and the sum is not less, no summand is less. -/
theorem eq_of_sum_eq {α : Type} {f g : α → Nat} {l : List α} (hle : ∀ a ∈ l, f a ≤ g a)
    (hsum : (l.map f).sum = (l.map g).sum) : ∀ a ∈ l, f a = g a := by
  intro a ha
  by_contra hne
  exact absurd hsum (Nat.ne_of_lt (List.sum_lt_sum f g hle ⟨a, ha, lt_of_le_of_ne (hle a ha) hne⟩))

/-! ## Words of rules -/

/-- A word as it is written: a name, and the digits of its index, if it has one. -/
structure Word where
  name : String
  index : Option (List Char)

namespace Word

/-- A word that is not taken for anything else. -/
structure IsWritten (w : Word) : Prop where
  name : IsWord ['$'] w.name
  not_arrow : w.name ≠ "->"
  opening : ∀ c ∈ w.name.toList.head?, c ≠ '[' ∧ c ≠ '\x7b'
  index : ∀ digits ∈ w.index, digits ≠ [] ∧ ∀ c ∈ digits, Text.isDigit c = true

instance decidableIsWritten (w : Word) : Decidable w.IsWritten :=
  have : Decidable (∀ c ∈ w.name.toList.head?, c ≠ '[' ∧ c ≠ '\x7b') :=
    Option.decidableForallMem _
  decidable_of_iff (IsWord ['$'] w.name ∧ w.name ≠ "->" ∧
      (∀ c ∈ w.name.toList.head?, c ≠ '[' ∧ c ≠ '\x7b') ∧
      ∀ digits ∈ w.index, digits ≠ [] ∧ ∀ c ∈ digits, Text.isDigit c = true)
    ⟨fun h => ⟨h.1, h.2.1, h.2.2.1, h.2.2.2⟩, fun h => ⟨h.name, h.not_arrow, h.opening, h.index⟩⟩

/-- The text of a word. -/
def text (w : Word) : List Char :=
  w.name.toList ++
    match w.index with
    | none => []
    | some digits => '$' :: digits

/-- The symbol that a word is written as. -/
def symbol (w : Word) : Symbol := ⟨w.name, w.index.map numberOf⟩

/-- The symbols that a word is read as. -/
def symbols (w : Word) : List Symbol :=
  match w.index with
  | none => [⟨w.name, none⟩]
  | some digits =>
    ((RuleText.indexOf? (digits.take 9)).map fun index => Symbol.mk w.name (some index)).toList ++
      if digits.drop 9 = [] then [] else [⟨String.ofList (digits.drop 9), none⟩]

/-- The index of a word is read from nine digits at most; further ones are a word of their own. -/
theorem symbols_numbered (name : String) (digits : List Char) :
    symbols ⟨name, some digits⟩ =
      ((RuleText.indexOf? (digits.take 9)).map fun index => Symbol.mk name (some index)).toList ++
        if digits.drop 9 = [] then [] else [⟨String.ofList (digits.drop 9), none⟩] := rfl

/-- The index, if there is one, is up to nine ASCII digits. -/
def IsKept (w : Word) : Prop :=
  ∀ digits ∈ w.index, digits.length ≤ 9 ∧ ∀ c ∈ digits, c.isDigit = true

theorem not_plus_mem {digits : List Char} (h : ∀ c ∈ digits, Text.isDigit c = true) :
    '+' ∉ digits :=
  fun hmem => absurd (h _ hmem) (by decide)

/-- A word that is kept is read as its symbol. -/
theorem symbols_of_isKept {w : Word} (hw : w.IsWritten) (h : w.IsKept) : w.symbols = [w.symbol] := by
  obtain ⟨name, index⟩ := w
  cases index with
  | none => rfl
  | some digits =>
    obtain ⟨hlength, hall⟩ := h digits rfl
    rw [symbols_numbered, if_pos (List.drop_eq_nil_iff.2 hlength), List.append_nil,
      List.take_of_length_le hlength, RuleText.indexOf?_of_isDigit (hw.index digits rfl).1 hall hlength,
      ← numberOf_eq_valueOf hall]
    rfl

/-- How many of the symbols have an index. -/
def indexed (symbols : List Symbol) : Nat := symbols.countP fun s => s.index.isSome

/-- No word is read with more indices than it is written with. -/
theorem indexed_symbols_le (w : Word) : indexed w.symbols ≤ indexed [w.symbol] := by
  obtain ⟨name, index⟩ := w
  cases index with
  | none => exact Nat.le_refl _
  | some digits =>
    rw [symbols_numbered, indexed, List.countP_append]
    cases RuleText.indexOf? (digits.take 9) with
    | none => split <;> exact Nat.zero_le 1
    | some _ => split <;> exact Nat.le_refl 1

/-- With as many indices, a word is at least one symbol. -/
theorem length_symbols_pos {w : Word} (h : indexed w.symbols = indexed [w.symbol]) :
    1 ≤ w.symbols.length := by
  obtain ⟨name, index⟩ := w
  cases index with
  | none => exact Nat.le_refl 1
  | some digits => exact Nat.le_trans (Nat.le_of_eq h.symm) List.countP_le_length

/-- With as many indices, and as one symbol only, a word is kept. -/
theorem isKept_of_indexed {w : Word} (hw : w.IsWritten)
    (h : indexed w.symbols = indexed [w.symbol]) (hlength : w.symbols.length = 1) : w.IsKept := by
  obtain ⟨name, index⟩ := w
  intro digits hdigits
  obtain rfl : index = some digits := hdigits
  rw [symbols_numbered] at h hlength
  cases hread : RuleText.indexOf? (digits.take 9) with
  | none =>
    rw [hread] at h
    -- digits that cannot be read would have left no symbol with an index
    split at h <;> exact nomatch h
  | some number =>
    rw [hread] at hlength
    split at hlength
    · -- with further digits there would be two symbols
      next hshort =>
      have hle := List.drop_eq_nil_iff.1 hshort
      rw [List.take_of_length_le hle] at hread
      exact ⟨hle, RuleText.isDigit_of_indexOf? (not_plus_mem (hw.index digits rfl).2) hread⟩
    · exact nomatch hlength

/-- The symbols that are read are those that are written just if each word is kept: a loss cannot
be made good by a split, since a word that is lost takes an index with it. -/
theorem flatMap_symbols_eq_iff {words : List Word} (hwords : ∀ w ∈ words, w.IsWritten) :
    words.flatMap symbols = words.map symbol ↔ ∀ w ∈ words, w.IsKept := by
  rw [List.map_eq_flatMap]
  refine ⟨fun h => ?_, fun h => List.flatMap_congr fun w hw => symbols_of_isKept (hwords w hw) (h w hw)⟩
  have hindexed : ∀ w ∈ words, indexed w.symbols = indexed [w.symbol] := by
    refine eq_of_sum_eq (fun w _ => w.indexed_symbols_le) ?_
    have hcount := congrArg indexed h
    rwa [indexed, indexed, List.countP_flatMap, List.countP_flatMap] at hcount
  have hlength : ∀ w ∈ words, 1 = w.symbols.length := by
    refine eq_of_sum_eq (fun w hw => length_symbols_pos (hindexed w hw)) ?_
    have hcount := congrArg List.length h.symm
    rwa [List.length_flatMap, List.length_flatMap] at hcount
  exact fun w hw => isKept_of_indexed (hwords w hw) (hindexed w hw) (hlength w hw).symm

end Word

/-- An attribute of the symbol with an index, as it is written. -/
structure IndexedRead where
  index : List Char
  name : String

namespace IndexedRead

/-- The attribute has a name, and the index has digits. -/
structure IsWritten (r : IndexedRead) : Prop where
  index_ne_nil : r.index ≠ []
  index : ∀ c ∈ r.index, Text.isDigit c = true
  name : IsWord ['$'] r.name

instance decidableIsWritten (r : IndexedRead) : Decidable r.IsWritten :=
  decidable_of_iff (r.index ≠ [] ∧ (∀ c ∈ r.index, Text.isDigit c = true) ∧ IsWord _ r.name)
    ⟨fun h => ⟨h.1, h.2.1, h.2.2⟩, fun h => ⟨h.index_ne_nil, h.index, h.name⟩⟩

/-- The text of a read. -/
def text (r : IndexedRead) : List Char := '$' :: (r.index ++ '.' :: r.name.toList)

/-- The expression that a read is written as. -/
def expression (r : IndexedRead) : Expression := .read ⟨.numbered (numberOf r.index), r.name⟩

/-- The expression that a read is read as, if its index denotes a number. -/
def expression? (r : IndexedRead) : Option Expression :=
  (RuleText.indexOf? r.index).map fun index => .read ⟨.numbered index, r.name⟩

/-- An index in nine decimal digits at most is read as its number. -/
theorem expression?_of_isDigit {r : IndexedRead} (hr : r.IsWritten) (hlength : r.index.length ≤ 9)
    (h : ∀ c ∈ r.index, c.isDigit = true) : r.expression? = some r.expression := by
  rw [expression?, RuleText.indexOf?_of_isDigit hr.index_ne_nil h hlength, expression,
    numberOf_eq_valueOf h]
  rfl

/-- Attributes with up to nine digits are read as they are written just if all digits are ASCII. -/
theorem filterMap_expression?_eq_iff {reads : List IndexedRead} (hreads : ∀ r ∈ reads, r.IsWritten)
    (hlength : ∀ r ∈ reads, r.index.length ≤ 9) :
    reads.filterMap expression? = reads.map expression ↔
      ∀ r ∈ reads, ∀ c ∈ r.index, c.isDigit = true := by
  constructor
  · intro h r hr
    have hall : (reads.filterMap expression?).length = reads.length := by rw [h, List.length_map]
    have hsome := List.filterMap_length_eq_length.1 hall r hr
    rw [expression?, Option.isSome_map] at hsome
    obtain ⟨index, hread⟩ := Option.isSome_iff_exists.1 hsome
    exact RuleText.isDigit_of_indexOf? (Word.not_plus_mem (hreads r hr).index) hread
  · intro h
    rw [← List.filterMap_eq_map]
    exact List.filterMap_congr fun r hr => expression?_of_isDigit (hreads r hr) (hlength r hr) (h r hr)

end IndexedRead

namespace RuleText

/-! ## Reading words -/

section

variable {u rest : List Char} {values : List RuleToken}

theorem nameChar_of_isDigit {c : Char} (h : Text.isDigit c = true) :
    CharClass.nameChar.contains c = true := by
  rw [CharClass.contains_nameChar]
  refine ⟨?_, ?_⟩
  · rintro rfl
    exact absurd h (by decide)
  · rw [← CharClass.contains_digit] at h
    exact Bool.eq_false_iff.2 (not_isGap_of_digit c h)

/-- A name that does not open like a block, and is no arrow, is a symbol. -/
theorem cutsInto_name (hne : u ≠ []) (hu : ∀ c ∈ u, CharClass.nameChar.contains c = true)
    (hopening : ∀ c ∈ u.head?, c ≠ '[' ∧ c ≠ '\x7b') (harrow : u ≠ "->".toList) (hrest : AtGap rest)
    (h : CutsInto ruleTokens rest values) :
    CutsInto ruleTokens (u ++ rest) (.symbol ⟨String.ofList u, none⟩ :: values) := by
  obtain ⟨c, v, hcons⟩ := List.exists_cons_of_ne_nil hne
  have hhead : u.head? = some c := by rw [hcons]; rfl
  have hblank := ((CharClass.contains_nameChar c).1 (hu c (hcons ▸ List.mem_cons_self))).2
  have hwins := isLongest_symbol (firstMatch?_symbolPattern hne hu hrest) rfl
    ⟨c, hhead, hblank, hopening c hhead⟩
    fun n hn => length_lt_of_firstMatch?_arrow hrest harrow hn
  exact CutsInto.step (m := ⟨u, [(1, u)]⟩) hwins h

/-- The digits beyond the ninth are a name for themselves. -/
theorem cutsInto_furtherDigits {digits : List Char} (hdigits : ∀ c ∈ digits, Text.isDigit c = true)
    (hrest : AtGap rest) (h : CutsInto ruleTokens rest values) :
    CutsInto ruleTokens (digits ++ rest) ((if digits = [] then []
      else [RuleToken.symbol ⟨String.ofList digits, none⟩]) ++ values) := by
  by_cases hne : digits = []
  · rw [if_pos hne, hne]
    exact h
  rw [if_neg hne]
  refine cutsInto_name hne (fun c hc => nameChar_of_isDigit (hdigits c hc)) (fun c hc => ?_)
    (fun he => ?_) hrest h
  · have hdigit := hdigits c (List.mem_of_mem_head? hc)
    exact ⟨by rintro rfl; exact absurd hdigit (by decide),
      by rintro rfl; exact absurd hdigit (by decide)⟩
  · rw [he] at hdigits
    exact absurd (hdigits '-' List.mem_cons_self) (by decide)

/-- A name with up to nine digits wins, and if there are nine, also in front of more. -/
theorem isLongest_indexed {name : String} {digits : List Char} (hname : IsWord ['$'] name)
    (hopening : ∀ c ∈ name.toList.head?, c ≠ '[' ∧ c ≠ '\x7b') (hdne : digits ≠ [])
    (hdigits : ∀ c ∈ digits, Text.isDigit c = true) (hlength : digits.length ≤ 9)
    (hstop : digits.length < 9 → ∀ c ∈ rest.head?, Text.isDigit c = false) :
    IsLongest ruleTokens (name.toList ++ '$' :: digits ++ rest) 5
      (.ofPattern symbolPattern symbolOf?)
      ⟨name.toList ++ '$' :: digits, [(2, digits), (1, name.toList)]⟩ := by
  have hfound := firstMatch?_symbolPattern_indexed hname.toList_ne_nil
    (hname.contains_nameChar (by decide)) hdne hdigits hlength hstop
  rw [← List.cons_append, ← List.append_assoc] at hfound
  obtain ⟨c, v, hcons⟩ := List.exists_cons_of_ne_nil hname.toList_ne_nil
  have hhead : name.toList.head? = some c := by rw [hcons]; rfl
  have hblank := (hname.2 c (hcons ▸ List.mem_cons_self)).1
  refine isLongest_symbol hfound rfl ⟨c, by rw [hcons]; rfl, hblank, hopening c hhead⟩ fun n hn => ?_
  -- there is at least one character of each, and the dollar sign
  have hpos := List.length_pos_iff.2 hname.toList_ne_nil
  have hdpos := List.length_pos_iff.2 hdne
  rw [Pattern.denotes_word (Pattern.denotes_of_firstMatch? hn), List.length_append, List.length_cons]
  show 2 < _
  omega

/-- A name with digits is made a symbol if the digits can be read. -/
theorem symbolOf?_indexed (name : String) (digits : List Char) :
    (TokenRule.ofPattern symbolPattern symbolOf?).produce
      ⟨name.toList ++ '$' :: digits, [(2, digits), (1, name.toList)]⟩ =
        (indexOf? digits).map fun index => .symbol ⟨name, some index⟩ := by
  show (indexOf? digits).map (fun index =>
    RuleToken.symbol ⟨String.ofList name.toList, some index⟩) = _
  rw [String.ofList_toList]

/-- Of a name with digits, the first nine of them are read as its index. -/
theorem cutsInto_numbered {name : String} {digits : List Char}
    (hw : Word.IsWritten ⟨name, some digits⟩) (hrest : AtGap rest)
    (h : CutsInto ruleTokens rest values) :
    CutsInto ruleTokens (Word.text ⟨name, some digits⟩ ++ rest)
      ((Word.symbols ⟨name, some digits⟩).map .symbol ++ values) := by
  obtain ⟨hdne, hdigits⟩ := hw.index digits rfl
  have hothers : ∀ c ∈ digits.drop 9, Text.isDigit c = true :=
    fun c hc => hdigits c (List.mem_of_mem_drop hc)
  -- either nine digits have been read, or there is a gap behind them
  have hstop (hlt : (digits.take 9).length < 9) :
      ∀ c ∈ (digits.drop 9 ++ rest).head?, Text.isDigit c = false := by
    rw [List.length_take] at hlt
    rw [List.drop_eq_nil_iff.2 (by omega), List.nil_append]
    exact not_isDigit_of_atGap hrest
  have hwins := isLongest_indexed hw.name hw.opening
    (fun he => hdne ((List.take_eq_nil_iff.1 he).resolve_left (by decide)))
    (fun c hc => hdigits c (List.mem_of_mem_take hc)) (List.length_take_le 9 digits) hstop
  have hcuts := CutsInto.step
    (m := ⟨name.toList ++ '$' :: digits.take 9, [(2, digits.take 9), (1, name.toList)]⟩) hwins
    (cutsInto_furtherDigits hothers hrest h)
  rw [symbolOf?_indexed, ← List.append_assoc (Option.toList _)] at hcuts
  have htext : Word.text ⟨name, some digits⟩ ++ rest =
      name.toList ++ '$' :: digits.take 9 ++ (digits.drop 9 ++ rest) := by
    show name.toList ++ '$' :: digits ++ rest = _
    rw [← List.append_assoc, List.append_assoc _ _ (digits.drop 9), List.cons_append,
      List.take_append_drop]
  have hvalues : (Word.symbols ⟨name, some digits⟩).map .symbol =
      ((indexOf? (digits.take 9)).map fun index =>
        RuleToken.symbol ⟨name, some index⟩).toList ++
          if digits.drop 9 = [] then [] else [.symbol ⟨String.ofList (digits.drop 9), none⟩] := by
    rw [Word.symbols_numbered, List.map_append, apply_ite (List.map RuleToken.symbol)]
    cases indexOf? (digits.take 9) <;> rfl
  rw [htext, hvalues]
  exact hcuts

/-- A word is read as its symbols. -/
theorem cutsInto_word {w : Word} (hw : w.IsWritten) (hrest : AtGap rest)
    (h : CutsInto ruleTokens rest values) :
    CutsInto ruleTokens (w.text ++ rest) (w.symbols.map .symbol ++ values) := by
  obtain ⟨name, index⟩ := w
  cases index with
  | some digits => exact cutsInto_numbered hw hrest h
  | none =>
    have hname : IsWord ['$'] name := hw.name
    have harrow : name.toList ≠ "->".toList := fun he => hw.not_arrow (String.toList_inj.1 he)
    have hcuts := cutsInto_name hname.toList_ne_nil (hname.contains_nameChar (by decide)) hw.opening
      harrow hrest h
    rw [String.ofList_toList] at hcuts
    rw [Word.text, List.append_nil]
    exact hcuts

/-- The text of words with a blank before each. -/
def spelled (words : List Word) : List Char := words.flatMap fun w => ' ' :: w.text

theorem atGap_spelled (words : List Word) : AtGap (spelled words) := by
  cases words with
  | nil => exact atGap_nil
  | cons w words => exact atGap_cons (by decide) _

/-- Words are cut into their symbols. -/
theorem cutsInto_spelled {words : List Word} (hwords : ∀ w ∈ words, w.IsWritten) :
    CutsInto ruleTokens (spelled words) ((words.flatMap Word.symbols).map .symbol) := by
  induction words with
  | nil => exact .nil
  | cons w words ih =>
    obtain ⟨hw, hothers⟩ := List.forall_mem_cons.1 hwords
    rw [List.flatMap_cons, List.map_append]
    exact cutsInto_ruleGap (cutsInto_word hw (atGap_spelled words) (ih hothers))

/-- A rule with words for its right-hand side is read with their symbols. -/
theorem result_readRules_spelled {words : List Word} (hwords : ∀ w ∈ words, w.IsWritten) :
    (readRules ("S ->".toList ++ spelled words)).result =
      .ok [⟨⟨"S", none⟩, words.flatMap Word.symbols, none, none⟩] := by
  have hlhs : Word.IsWritten ⟨"S", none⟩ :=
    ⟨by decide, by decide, by decide, fun _ h => nomatch h⟩
  have hcuts := cutsInto_word hlhs (atGap_cons (by decide) _)
    (cutsInto_ruleGap (cutsInto_arrow (atGap_spelled words) (cutsInto_spelled hwords)))
  refine result_readRules_of_isRuleFile (hcuts.values?_ofText isTied_of_mem_ruleTokens) ?_
  have hline : IsRuleLine ⟨⟨"S", none⟩, words.flatMap Word.symbols, none, none⟩
      (.symbol ⟨"S", none⟩ :: .arrow :: ((words.flatMap Word.symbols).map .symbol ++ ([] ++ []))) :=
    ⟨[], [], .absent, .absent, rfl⟩
  have hfile := IsRuleFile.rule hline (.inl rfl) .done
  rwa [List.append_nil, List.append_nil, List.append_nil] at hfile

end

/-! ## Reading attributes with indices -/

section

variable {rest : List Char} {values : List ClauseToken}

/-- An attribute of a symbol with an index has at most nine digits before its dot. -/
theorem exists_of_firstMatch?_attribute {text : List Char} {m : Match}
    (h : attributePattern.firstMatch? ('$' :: text) = some m) :
    ∃ v more, v.length ≤ 9 ∧ text = v ++ '.' :: more := by
  obtain ⟨rest, hrest⟩ := Pattern.isPrefix_of_firstMatch? h
  obtain ⟨u, gs⟩ := m
  have hparts : IsAttributeText u gs := isAttributeText_of_captures (Pattern.captures_of_firstMatch? h)
  cases hparts with
  | @named target name htarget _ =>
    -- a name does not begin with a dollar sign
    obtain ⟨c, target, rfl⟩ := List.exists_cons_of_ne_nil htarget.ne_nil
    have hc := htarget.chars c List.mem_cons_self
    rw [(List.cons.inj hrest).1, CharClass.contains_nameChar] at hc
    exact absurd rfl hc.1
  | @numbered digits name hdigits _ =>
    refine ⟨digits, name ++ rest, hdigits.length_le, ?_⟩
    simpa using (List.cons.inj hrest).2.symm

/-- Where there are more than nine digits, no rule reads anything of an index. -/
theorem not_cutsInto_longIndex {digits : List Char} (hdigits : ∀ c ∈ digits, Text.isDigit c = true)
    (hlength : 9 < digits.length) : ¬CutsInto clauseTokens ('$' :: (digits ++ rest)) values := by
  intro h
  generalize htext : '$' :: (digits ++ rest) = text at h
  cases h with
  | nil => exact nomatch htext
  | step hwins _ =>
    rw [← htext] at hwins
    have hfound := hwins.found
    have hmem := List.mem_of_getElem? hwins.listed
    have hword {w : List Char} {produce : Match → Option ClauseToken} (hw : w ≠ [])
        (hhead : some '$' ≠ w.head?) {n : Match} :
        (TokenRule.ofPattern (.word w) produce).find? ('$' :: (digits ++ rest)) ≠ some n :=
      word_not_found (u := ['$']) hw (List.cons_ne_nil _ _) hhead n
    simp only [clauseTokens, List.mem_cons, List.not_mem_nil, or_false] at hmem
    rcases hmem with hrule | hrule | hrule | hrule | hrule | hrule
    all_goals rw [hrule] at hfound
    · obtain ⟨v, more, hv, heq⟩ := exists_of_firstMatch?_attribute hfound
      -- the dot would be one of the digits
      have hdot : (digits ++ rest)[v.length]? = some '.' := by simp [heq]
      rw [List.getElem?_append_left (by omega)] at hdot
      exact absurd (hdigits '.' (List.mem_of_getElem? hdot)) (by decide)
    · exact hword (by decide) (by decide) hfound
    · exact hword (by decide) (by decide) hfound
    · rw [TokenRule.find?_ofPattern] at hfound
      exact absurd (head?_of_opensWith (u := ['$']) .seq (by decide) hfound) (by decide)
    · rw [TokenRule.find?_ofPattern] at hfound
      exact absurd (head?_of_opensWith (u := ['$']) .one (by decide) hfound) (by decide)
    · rw [TokenRule.find?_ofPattern] at hfound
      obtain ⟨c, hc, hblank⟩ := Pattern.contains_of_opensWith .one hfound
      rw [← Option.some.inj hc, CharClass.contains_blank] at hblank
      exact absurd hblank (by decide)

/-- A read whose index has up to nine digits wins. -/
theorem exists_isLongest_read {r : IndexedRead} (hr : r.IsWritten) (hlength : r.index.length ≤ 9)
    (hrest : AtGap rest) : ∃ rule m, IsLongest clauseTokens (r.text ++ rest) 0 rule m ∧
      m.text = r.text ∧ rule.produce m = r.expression?.map Expression.token := by
  obtain ⟨digits, name⟩ := r
  have hdne : digits ≠ [] := hr.index_ne_nil
  have hname : IsWord ['$'] name := hr.name
  have hfound := firstMatch?_attributePattern_numbered hdne hr.index hlength hname.toList_ne_nil
    (hname.contains_nameChar (by decide)) hrest
  have htext : IndexedRead.text ⟨digits, name⟩ ++ rest =
      '$' :: (digits ++ '.' :: (name.toList ++ rest)) := by
    simp [IndexedRead.text]
  rw [← htext] at hfound
  refine ⟨.ofPattern attributePattern attributeOf?, ⟨_, [(3, name.toList), (2, digits)]⟩, ?_, rfl, ?_⟩
  · refine isLongest_clauseToken rfl hfound rfl (List.cons_ne_nil _ _) hrest (fun n hn => ?_)
      (fun _ h => nomatch h)
    exact absurd hn (literal_not_found (List.cons_ne_nil _ _) (by simp) n)
  · show ((indexOf? digits).map Target.numbered).map (fun target =>
      ClauseToken.attributeRef ⟨target, String.ofList name.toList⟩) = _
    rw [String.ofList_toList, IndexedRead.expression?, Option.map_map, Option.map_map]
    rfl

end

/-- The text of reads with a blank before each. -/
def spelledReads (reads : List IndexedRead) : List Char := reads.flatMap fun r => ' ' :: r.text

theorem atGap_spelledReads (reads : List IndexedRead) : AtGap (spelledReads reads) := by
  cases reads with
  | nil => exact atGap_nil
  | cons r reads => exact atGap_cons (by decide) _

/-- Attributes with short indices are cut into those that can be read. -/
theorem cutsInto_spelledReads {reads : List IndexedRead} (hreads : ∀ r ∈ reads, r.IsWritten)
    (hlength : ∀ r ∈ reads, r.index.length ≤ 9) : CutsInto clauseTokens (spelledReads reads)
      ((reads.filterMap IndexedRead.expression?).map Expression.token) := by
  induction reads with
  | nil => exact .nil
  | cons r reads ih =>
    obtain ⟨hr, hothers⟩ := List.forall_mem_cons.1 hreads
    obtain ⟨hrlength, hotherLengths⟩ := List.forall_mem_cons.1 hlength
    obtain ⟨rule, m, hwins, htext, hproduce⟩ :=
      exists_isLongest_read hr hrlength (atGap_spelledReads reads)
    rw [← htext] at hwins
    have hcuts := cutsInto_clauseGap (c := ' ') (by decide)
      (CutsInto.step hwins (ih hothers hotherLengths))
    rw [hproduce, htext] at hcuts
    rw [List.filterMap_cons]
    cases hexpression : r.expression? <;> rw [hexpression] at hcuts <;> exact hcuts

/-- An index with more than nine digits stops the reading there at the latest. -/
theorem not_cutsInto_spelledReads {reads : List IndexedRead} (hreads : ∀ r ∈ reads, r.IsWritten)
    (hlong : ∃ r ∈ reads, 9 < r.index.length) (values : List ClauseToken) :
    ¬CutsInto clauseTokens (spelledReads reads) values := by
  induction reads generalizing values with
  | nil =>
    obtain ⟨_, h, -⟩ := hlong
    exact nomatch h
  | cons r reads ih =>
    obtain ⟨hr, hothers⟩ := List.forall_mem_cons.1 hreads
    intro h
    obtain ⟨behindGap, h, -⟩ := (cutsInto_append_iff isTied_of_mem_clauseTokens (m := ⟨[' '], []⟩)
      (isLongest_clauseGap (by decide) (r.text ++ spelledReads reads))).1 h
    replace h : CutsInto clauseTokens (r.text ++ spelledReads reads) behindGap := h
    by_cases hrlong : 9 < r.index.length
    · have htext : r.text ++ spelledReads reads =
          '$' :: (r.index ++ ('.' :: r.name.toList ++ spelledReads reads)) := by
        simp [IndexedRead.text]
      rw [htext] at h
      exact not_cutsInto_longIndex hr.index hrlong h
    · -- this attribute is read, and the one with the long index is behind it
      obtain ⟨rule, m, hwins, htext, -⟩ :=
        exists_isLongest_read hr (Nat.le_of_not_lt hrlong) (atGap_spelledReads reads)
      rw [← htext] at hwins h
      obtain ⟨behind, h, -⟩ := (cutsInto_append_iff isTied_of_mem_clauseTokens hwins).1 h
      obtain ⟨other, hmem, hother⟩ := hlong
      rcases List.mem_cons.1 hmem with rfl | hmem
      · exact hrlong hother
      · exact ih hothers ⟨other, hmem, hother⟩ behind h

/-- A line with short indices is read with the attributes that can be read. -/
theorem result_readStatement_spelledReads {reads : List IndexedRead}
    (hreads : ∀ r ∈ reads, r.IsWritten) (hlength : ∀ r ∈ reads, r.index.length ≤ 9) :
    (readStatement ("emit".toList ++ spelledReads reads)).result =
      .ok (.emit (reads.filterMap IndexedRead.expression?)) := by
  have hcuts := cutsInto_emit (atGap_spelledReads reads) (cutsInto_spelledReads hreads hlength)
  exact result_readStatement_of_values? (hcuts.values?_ofText isTied_of_mem_clauseTokens)

/-- A line with an index that is too long is not read. -/
theorem result_readStatement_spelledReads_ne_ok {reads : List IndexedRead}
    (hreads : ∀ r ∈ reads, r.IsWritten) (hlong : ∃ r ∈ reads, 9 < r.index.length) (s : Statement) :
    (readStatement ("emit".toList ++ spelledReads reads)).result ≠ .ok s := by
  intro h
  rw [result_readStatement_eq_ok_iff, ← cutsInto_iff isTied_of_mem_clauseTokens] at h
  obtain ⟨behind, h, -⟩ := (cutsInto_append_iff isTied_of_mem_clauseTokens
    (m := ⟨"emit".toList, []⟩) (isLongest_emit (atGap_spelledReads reads))).1 h
  exact not_cutsInto_spelledReads hreads hlong behind h

/-! ## All words -/

/-- Words with indices of any number of digits of any scripts. A rule is read with the symbols of each
word in order, and these are what is written just if each word is kept. Attributes that are emitted are
read if no index has more than nine digits, and else the statement is refused; those are left out whose
digits denote no number, so that what is read is what is written just if all digits are ASCII. -/
theorem words_read (words : List Word) (hwords : ∀ w ∈ words, w.IsWritten)
    (reads : List IndexedRead) (hreads : ∀ r ∈ reads, r.IsWritten) :
    ((readRules ("S ->".toList ++ spelled words)).result =
        .ok [⟨⟨"S", none⟩, words.flatMap Word.symbols, none, none⟩] ∧
      (words.flatMap Word.symbols = words.map Word.symbol ↔ ∀ w ∈ words, w.IsKept)) ∧
    ((∀ r ∈ reads, r.index.length ≤ 9) →
      (readStatement ("emit".toList ++ spelledReads reads)).result =
          .ok (.emit (reads.filterMap IndexedRead.expression?)) ∧
        (reads.filterMap IndexedRead.expression? = reads.map IndexedRead.expression ↔
          ∀ r ∈ reads, ∀ c ∈ r.index, c.isDigit = true)) ∧
    ((∃ r ∈ reads, 9 < r.index.length) →
      ∀ s, (readStatement ("emit".toList ++ spelledReads reads)).result ≠ .ok s) := by
  refine ⟨⟨result_readRules_spelled hwords, Word.flatMap_symbols_eq_iff hwords⟩,
    fun hlength => ⟨?_, ?_⟩, fun hlong => ?_⟩
  · exact result_readStatement_spelledReads hreads hlength
  · exact IndexedRead.filterMap_expression?_eq_iff hreads hlength
  · exact result_readStatement_spelledReads_ne_ok hreads hlong

/-- Of three words, one is dropped, one is two symbols, and one is kept; of two attributes, one is
dropped. -/
theorem words_read_of_two_scripts :
    (readRules "S -> a$٣ b$1234567890 c$12".toList).result =
      .ok [⟨⟨"S", none⟩, [⟨"b", some 123456789⟩, ⟨"0", none⟩, ⟨"c", some 12⟩], none, none⟩] ∧
    (readStatement "emit $٣.x $12.y".toList).result = .ok (.emit [.read ⟨.numbered 12, "y"⟩]) := by
  have hwords : ∀ w ∈ [Word.mk "a" (some "٣".toList), ⟨"b", some "1234567890".toList⟩,
      ⟨"c", some "12".toList⟩], w.IsWritten := by
    decide
  have hreads : ∀ r ∈ [IndexedRead.mk "٣".toList "x", ⟨"12".toList, "y"⟩], r.IsWritten := by
    decide
  obtain ⟨⟨hrule, -⟩, hstatement, -⟩ := words_read _ hwords _ hreads
  exact ⟨hrule, (hstatement (by decide)).1⟩

/-- It is not so that as many symbols and attributes are read as there are words, if something is read:
a digit of another script loses its word, and a tenth digit is a word of its own. -/
theorem words_lost_and_split :
    (∃ rules, (readRules "S -> a$٣ b".toList).result = .ok rules ∧
      ¬∃ rule, rules = [rule] ∧ rule.rhs.length = 2) ∧
    (∃ rules, (readRules "S -> a$1234567890".toList).result = .ok rules ∧
      ¬∃ rule, rules = [rule] ∧ rule.rhs.length = 1) ∧
    ∃ reads, (readStatement "emit $٣.x $12.y".toList).result = .ok (.emit reads) ∧
      reads.length ≠ 2 := by
  have hlost : ∀ w ∈ [Word.mk "a" (some "٣".toList), ⟨"b", none⟩], w.IsWritten := by decide
  have hsplit : ∀ w ∈ [Word.mk "a" (some "1234567890".toList)], w.IsWritten := by decide
  have hreads : ∀ r ∈ [IndexedRead.mk "٣".toList "x", ⟨"12".toList, "y"⟩], r.IsWritten := by
    decide
  refine ⟨⟨_, result_readRules_spelled hlost, ?_⟩, ⟨_, result_readRules_spelled hsplit, ?_⟩,
    ⟨_, result_readStatement_spelledReads hreads (by decide), by decide⟩⟩
  · rintro ⟨rule, hrule, hlength⟩
    rw [← List.singleton_inj.1 hrule] at hlength
    exact absurd hlength (by decide)
  · rintro ⟨rule, hrule, hlength⟩
    rw [← List.singleton_inj.1 hrule] at hlength
    exact absurd hlength (by decide)

end RuleText

end GuardedGrammar
