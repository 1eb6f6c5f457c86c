/-
  How the tokens of rules are written.

  As for guards and statements, a token that is legible is found where it stands.  Here the rules for
  guards and actions read gaps, and begin with their opening marks.  A symbol is found by the last rule,
  so that it must not be taken for anything else; it takes precedence over an arrow that it begins with
  because it is longer.
-/
import GuardedGrammar.Proofs.ClauseSpelling

namespace GuardedGrammar

/-- A symbol that can be read again: it is not taken for an arrow, a guard or an action. -/
structure Symbol.IsLegible (s : Symbol) : Prop where
  word : IsWord ['$'] s.name
  not_arrow : s.name ≠ "->"
  opening : ∀ c ∈ s.name.toList.head?, c ≠ '[' ∧ c ≠ '\x7b'
  index : ∀ i ∈ s.index, i ≤ greatestIndex

instance Symbol.decidableIsLegible (s : Symbol) : Decidable s.IsLegible :=
  have : Decidable (∀ c ∈ s.name.toList.head?, c ≠ '[' ∧ c ≠ '\x7b') :=
    Option.decidableForallMem _
  decidable_of_iff (IsWord ['$'] s.name ∧ s.name ≠ "->" ∧
      (∀ c ∈ s.name.toList.head?, c ≠ '[' ∧ c ≠ '\x7b') ∧ ∀ i ∈ s.index, i ≤ greatestIndex)
    ⟨fun h => ⟨h.1, h.2.1, h.2.2.1, h.2.2.2⟩, fun h => ⟨h.word, h.not_arrow, h.opening, h.index⟩⟩

namespace RuleText

theorem isTied_of_mem_ruleTokens : ∀ rule ∈ ruleTokens, rule.IsTied := by
  simp [ruleTokens, TokenRule.isTied_ofPattern]

variable {u rest : List Char} {values : List RuleToken}

theorem readsOnly_arrow : Pattern.ReadsOnly (fun c => ¬IsGap c) (.word "->".toList) :=
  Pattern.readsOnly_word (by decide)

/-- No rule finds more than a token, if those for guards and actions do not. -/
theorem length_le_of_ruleTokens (hne : u ≠ []) (hrest : AtGap rest)
    (hguard : ∀ n, (enclosed '[' ']').firstMatch? (u ++ rest) = some n → n.text.length ≤ u.length)
    (haction : ∀ n, (enclosed '\x7b' '\x7d').firstMatch? (u ++ rest) = some n →
      n.text.length ≤ u.length) :
    ∀ other ∈ ruleTokens, ∀ n, other.find? (u ++ rest) = some n → n.text.length ≤ u.length := by
  have hpos : 1 ≤ u.length := List.length_pos_iff.2 hne
  intro other hother n hn
  simp only [ruleTokens, List.mem_cons, List.not_mem_nil, or_false] at hother
  rcases hother with rfl | rfl | rfl | rfl | rfl | rfl
  all_goals rw [TokenRule.find?_ofPattern] at hn
  · exact (isPrefix_of_readsOnly readsOnly_arrow hrest hn).length_le
  · exact hguard n hn
  · exact haction n hn
  · exact Nat.le_trans (Nat.le_of_eq (length_eq_one_of_firstMatch? hn)) hpos
  · exact Nat.le_trans (Nat.le_of_eq (length_eq_one_of_firstMatch? hn)) hpos
  · exact (isPrefix_of_readsOnly readsOnly_symbolPattern hrest hn).length_le

/-- A guard or an action is found at its opening mark only. -/
theorem enclosed_not_found {opening : Char} (hne : u ≠ []) (hhead : u.head? ≠ some opening)
    (closing : Char) (n : Match) : (enclosed opening closing).firstMatch? (u ++ rest) ≠ some n :=
  fun hn => hhead (head?_of_opensWith .seq hne hn)

/-- An arrow is cut off before a gap. -/
theorem cutsInto_arrow (hrest : AtGap rest) (h : CutsInto ruleTokens rest values) :
    CutsInto ruleTokens ("->".toList ++ rest) (.arrow :: values) := by
  refine CutsInto.token (i := 0) rfl (Pattern.firstMatch?_word "->".toList rest) rfl rfl
    (by decide) ?_ (fun _ h => nomatch h) h
  refine length_le_of_ruleTokens (by decide) hrest (fun n hn => ?_) fun n hn => ?_
  · exact absurd hn (enclosed_not_found (by decide) (by decide) _ n)
  · exact absurd hn (enclosed_not_found (by decide) (by decide) _ n)

/-- A block is read up to its first closing mark. -/
theorem firstMatch?_enclosed (opening : Char) {closing : Char} (hu : closing ∉ u) (rest : List Char) :
    (enclosed opening closing).firstMatch? (opening :: (u ++ [closing]) ++ rest) =
      some ⟨opening :: (u ++ [closing]), [(1, u)]⟩ := by
  rw [List.cons_append, List.append_assoc]
  refine Pattern.firstMatch?_between_marks opening (fun c hc => ?_)
    (CharClass.not_contains_noneOf List.mem_cons_self) rest
  rw [CharClass.contains_noneOf, List.mem_singleton]
  exact fun he => hu (he ▸ hc)

/-- What is found between marks has no closing mark in it. -/
theorem exists_of_firstMatch?_enclosed {opening closing : Char} {text : List Char} {m : Match}
    (h : (enclosed opening closing).firstMatch? text = some m) :
    ∃ u, closing ∉ u ∧ m = ⟨opening :: (u ++ [closing]), [(1, u)]⟩ := by
  obtain ⟨u, -, hu, -, rfl⟩ := Pattern.exists_of_firstMatch?_between_marks h
  refine ⟨u, fun hmem => ?_, rfl⟩
  exact (CharClass.contains_noneOf [closing] closing).1 (hu closing hmem) List.mem_cons_self

/-- The pattern of symbols makes symbols. -/
theorem exists_symbol_of_symbolOf? {m : Match} {t : RuleToken} (h : symbolOf? m = some t) :
    ∃ s, t = .symbol s := by
  unfold symbolOf? at h
  dsimp only at h
  split at h
  · obtain ⟨index, -, rfl⟩ := Option.map_eq_some_iff.1 h
    exact ⟨_, rfl⟩
  · exact ⟨_, (Option.some.inj h).symm⟩

/-- Only the rules for blocks make blocks. -/
theorem eq_enclosed_of_produce {rule : TokenRule RuleToken} (hrule : rule ∈ ruleTokens)
    {text : List Char} {m : Match} {t : RuleToken} (hfound : rule.find? text = some m)
    (h : rule.produce m = some t) (block : List Char) :
    (t = .guardText block → m = ⟨'[' :: (block ++ [']']), [(1, block)]⟩) ∧
      (t = .actionText block → m = ⟨'\x7b' :: (block ++ ['\x7d']), [(1, block)]⟩) := by
  simp only [ruleTokens, List.mem_cons, List.not_mem_nil, or_false] at hrule
  -- the second and the third rule read blocks, and the others make other tokens
  rcases hrule with rfl | rfl | rfl | rfl | rfl | rfl
  · cases h
    constructor <;> intro h <;> cases h
  · obtain ⟨u, -, rfl⟩ := exists_of_firstMatch?_enclosed hfound
    cases h
    constructor <;> intro h <;> cases h
    rfl
  · obtain ⟨u, -, rfl⟩ := exists_of_firstMatch?_enclosed hfound
    cases h
    constructor <;> intro h <;> cases h
    rfl
  · cases h
    constructor <;> intro h <;> cases h
  · cases h
  · obtain ⟨s, rfl⟩ := exists_symbol_of_symbolOf? h
    constructor <;> intro h <;> cases h

/-- A guard is cut off with its marks. -/
theorem cutsInto_guard (hu : ']' ∉ u) (hrest : AtGap rest) (h : CutsInto ruleTokens rest values) :
    CutsInto ruleTokens ('[' :: (u ++ [']']) ++ rest) (.guardText u :: values) := by
  have hfound := firstMatch?_enclosed '[' hu rest
  have hne : '[' :: (u ++ [']']) ≠ [] := List.cons_ne_nil _ _
  refine CutsInto.token (i := 1) rfl hfound rfl rfl hne ?_ ?_ h
  · refine length_le_of_ruleTokens hne hrest (fun n hn => ?_) fun n hn => ?_
    · obtain rfl := Option.some.inj (hn.symm.trans hfound)
      exact Nat.le_refl _
    · exact absurd hn (enclosed_not_found hne (by simp) _ n)
  · refine List.forall_mem_singleton.2 fun n hn => ?_
    exact absurd hn (word_not_found (by decide) hne (by simp) n)

/-- An action is cut off with its marks. -/
theorem cutsInto_action (hu : '\x7d' ∉ u) (hrest : AtGap rest)
    (h : CutsInto ruleTokens rest values) :
    CutsInto ruleTokens ('\x7b' :: (u ++ ['\x7d']) ++ rest) (.actionText u :: values) := by
  have hfound := firstMatch?_enclosed '\x7b' hu rest
  have hne : '\x7b' :: (u ++ ['\x7d']) ≠ [] := List.cons_ne_nil _ _
  refine CutsInto.token (i := 2) rfl hfound rfl rfl hne ?_ ?_ h
  · refine length_le_of_ruleTokens hne hrest (fun n hn => ?_) fun n hn => ?_
    · exact absurd hn (enclosed_not_found hne (by simp) _ n)
    · obtain rfl := Option.some.inj (hn.symm.trans hfound)
      exact Nat.le_refl _
  · refine List.forall_mem_cons.2 ⟨fun n hn => ?_, List.forall_mem_singleton.2 fun n hn => ?_⟩
    · exact absurd hn (word_not_found (by decide) hne (by simp) n)
    · rw [TokenRule.find?_ofPattern] at hn
      exact absurd hn (enclosed_not_found hne (by simp) _ n)

/-! ## Gaps -/

/-- At a gap, the rules before those for gaps find nothing. -/
theorem length_eq_zero_at_gap {c : Char} (hc : IsGap c) : ∀ other ∈ ruleTokens.take 3, ∀ n,
    other.find? (c :: rest) = some n → n.text.length = 0 := by
  have hhead (opening : Char) (hopening : ¬IsGap opening) : [c].head? ≠ some opening :=
    fun he => hopening (Option.some.inj he ▸ hc)
  intro other hother n hn
  simp only [ruleTokens, List.take_succ_cons, List.take_zero, List.mem_cons, List.not_mem_nil,
    or_false] at hother
  rcases hother with rfl | rfl | rfl
  all_goals rw [TokenRule.find?_ofPattern] at hn
  · exact length_eq_zero_of_readsOnly readsOnly_arrow (atGap_cons hc rest) hn
  · refine absurd hn (enclosed_not_found (u := [c]) (List.cons_ne_nil _ _) (hhead _ ?_) _ n)
    decide
  · refine absurd hn (enclosed_not_found (u := [c]) (List.cons_ne_nil _ _) (hhead _ ?_) _ n)
    decide

/-- At a gap, no rule finds more than one character. -/
theorem length_le_one_at_gap {c : Char} (hc : IsGap c) : ∀ other ∈ ruleTokens, ∀ n,
    other.find? (c :: rest) = some n → n.text.length ≤ 1 := by
  intro other hother n hn
  rw [← List.take_append_drop 3 ruleTokens, List.mem_append] at hother
  rcases hother with hother | hother
  · rw [length_eq_zero_at_gap hc other hother n hn]
    decide
  · simp only [ruleTokens, List.drop_succ_cons, List.drop_zero, List.mem_cons, List.not_mem_nil,
      or_false] at hother
    -- a line feed, a blank, and a symbol, which is no longer than nothing there
    rcases hother with rfl | rfl | rfl
    all_goals rw [TokenRule.find?_ofPattern] at hn
    · exact Nat.le_of_eq (length_eq_one_of_firstMatch? hn)
    · exact Nat.le_of_eq (length_eq_one_of_firstMatch? hn)
    · rw [length_eq_zero_of_readsOnly readsOnly_symbolPattern (atGap_cons hc rest) hn]
      decide

/-- A line feed is a line end rather than a blank. -/
theorem isLongest_lineEnd (rest : List Char) : IsLongest ruleTokens ('\n' :: rest) 3
    (.ofPattern (.char '\n') fun _ => some .lineEnd) ⟨['\n'], []⟩ := by
  have hfeed : (CharClass.only '\n').contains '\n' = true := (CharClass.contains_only _ _).2 rfl
  refine isLongest_of_le rfl (Pattern.firstMatch?_one hfeed rest) (List.cons_ne_nil _ _)
    (length_le_one_at_gap (by decide)) fun other hother n hn => ?_
  rw [length_eq_zero_at_gap (by decide) other hother n hn]
  decide

/-- A line feed is a token. -/
theorem cutsInto_lineEnd (h : CutsInto ruleTokens rest values) :
    CutsInto ruleTokens ('\n' :: rest) (.lineEnd :: values) :=
  CutsInto.step (m := ⟨['\n'], []⟩) (isLongest_lineEnd rest) h

/-- At any other blank, the rule for blanks wins. -/
theorem isLongest_ruleGap {c : Char} (hc : IsGap c) (hfeed : c ≠ '\n') (rest : List Char) :
    IsLongest ruleTokens (c :: rest) 4 (.ofPattern (.one .blank) fun _ => none) ⟨[c], []⟩ := by
  have hblank : CharClass.blank.contains c = true := by
    rw [CharClass.contains_blank]
    exact hc
  refine isLongest_of_le rfl (Pattern.firstMatch?_one hblank rest) (List.cons_ne_nil _ _)
    (length_le_one_at_gap hc) fun other hother n hn => ?_
  rw [List.take_add_one, List.mem_append] at hother
  rcases hother with hother | hother
  · rw [length_eq_zero_at_gap hc other hother n hn]
    exact Nat.zero_lt_one
  · rw [List.mem_singleton.1 hother, TokenRule.find?_ofPattern] at hn
    have hhead : [c].head? = some '\n' := head?_of_opensWith .one (List.cons_ne_nil _ _) hn
    exact absurd (Option.some.inj hhead) hfeed

/-- The blank between two tokens is dropped. -/
theorem cutsInto_ruleGap (h : CutsInto ruleTokens rest values) :
    CutsInto ruleTokens (' ' :: rest) values :=
  CutsInto.step (m := ⟨[' '], []⟩) (isLongest_ruleGap (by decide) (by decide) rest) h

/-! ## Symbols -/

/-- The pattern of symbols reads a legible symbol up to the gap behind it. -/
theorem exists_firstMatch?_symbol {s : Symbol} (hs : s.IsLegible) (hrest : AtGap rest) :
    ∃ m, symbolPattern.firstMatch? (s.render.toList ++ rest) = some m ∧
      m.text = s.render.toList ∧ symbolOf? m = some (.symbol s) := by
  obtain ⟨name, index⟩ := s
  have hname : IsWord ['$'] name := hs.word
  have hchars := hname.contains_nameChar (by decide)
  cases index with
  | none =>
    refine ⟨⟨_, [(1, name.toList)]⟩, firstMatch?_symbolPattern hname.toList_ne_nil hchars hrest,
      rfl, ?_⟩
    show some (RuleToken.symbol ⟨String.ofList name.toList, none⟩) = _
    rw [String.ofList_toList]
  -- the name ends at the dollar sign, and the index at the gap
  | some index =>
    have hindex : index ≤ greatestIndex := hs.index index rfl
    have htext : (Symbol.render ⟨name, some index⟩).toList =
        name.toList ++ '$' :: digitsOf index := by
      simp [Symbol.render, digitsOf]
    have hfound := firstMatch?_symbolPattern_indexed hname.toList_ne_nil hchars
      (digitsOf_ne_nil index) (fun c hc => textIsDigit_of_mem_digitsOf hc) (length_digitsOf_le hindex)
      fun _ => not_isDigit_of_atGap hrest
    refine ⟨⟨_, [(2, digitsOf index), (1, name.toList)]⟩, ?_, htext.symm, ?_⟩
    · rw [htext, List.append_assoc, List.cons_append]
      exact hfound
    · show (indexOf? (digitsOf index)).map (fun index =>
        RuleToken.symbol ⟨String.ofList name.toList, some index⟩) = _
      rw [indexOf?_digitsOf hindex, String.ofList_toList]
      rfl

/-- A symbol begins like its name. -/
theorem exists_head?_symbol {s : Symbol} (hs : s.IsLegible) :
    ∃ c ∈ s.render.toList.head?, Text.isBlank c = false ∧ c ≠ '[' ∧ c ≠ '\x7b' := by
  obtain ⟨c, u, hu⟩ := List.exists_cons_of_ne_nil hs.word.toList_ne_nil
  refine ⟨c, ?_, (hs.word.2 c (hu ▸ List.mem_cons_self)).1, hs.opening c (by rw [hu]; rfl)⟩
  unfold Symbol.render
  split
  · simp [hu]
  · rw [hu]
    rfl

/-- A legible symbol is not written like an arrow. -/
theorem symbol_ne_arrow {s : Symbol} (hs : s.IsLegible) : s.render.toList ≠ "->".toList := by
  intro he
  have hrender : s.render = "->" := String.toList_inj.1 he
  unfold Symbol.render at hrender
  split at hrender
  · have hdollar : '$' ∈ "->".toList := by
      rw [← hrender]
      simp
    exact absurd hdollar (by decide)
  · exact hs.not_arrow hrender

/-- An arrow that is found is shorter than what is not just an arrow. -/
theorem length_lt_of_firstMatch?_arrow (hrest : AtGap rest) (hne : u ≠ "->".toList) {n : Match}
    (h : (Pattern.word "->".toList).firstMatch? (u ++ rest) = some n) :
    n.text.length < u.length := by
  have hbegins := isPrefix_of_readsOnly readsOnly_arrow hrest h
  rw [Pattern.denotes_word (Pattern.denotes_of_firstMatch? h)] at hbegins ⊢
  refine Nat.lt_of_le_of_ne hbegins.length_le fun hlength => ?_
  exact hne (hbegins.eq_of_length hlength).symm

/-- What the rule for symbols finds wins if it does not begin like anything else, and is longer than an
arrow that is found there. -/
theorem isLongest_symbol {m : Match} (hfound : symbolPattern.firstMatch? (u ++ rest) = some m)
    (htext : m.text = u)
    (hhead : ∃ c ∈ u.head?, Text.isBlank c = false ∧ c ≠ '[' ∧ c ≠ '\x7b')
    (harrow : ∀ n, (Pattern.word "->".toList).firstMatch? (u ++ rest) = some n →
      n.text.length < u.length) :
    IsLongest ruleTokens (u ++ rest) 5 (.ofPattern symbolPattern symbolOf?) m := by
  obtain ⟨c, hhead, hblank, hguard, haction⟩ := hhead
  have hne : u ≠ [] := fun he => nomatch (he ▸ hhead : c ∈ ([] : List Char).head?)
  have hopens (d : Char) (hd : c ≠ d) : u.head? ≠ some d :=
    fun he => hd (Option.some.inj (hhead.symm.trans he))
  -- the rules that are listed before read less, or nothing
  have hbefore : ∀ other ∈ ruleTokens.take 5, ∀ n, other.find? (u ++ rest) = some n →
      n.text.length < u.length := by
    intro other hother n hn
    simp only [ruleTokens, List.take_succ_cons, List.take_zero, List.mem_cons, List.not_mem_nil,
      or_false] at hother
    rcases hother with rfl | rfl | rfl | rfl | rfl
    all_goals rw [TokenRule.find?_ofPattern] at hn
    · exact harrow n hn
    · exact absurd hn (enclosed_not_found hne (hopens _ hguard) _ n)
    · exact absurd hn (enclosed_not_found hne (hopens _ haction) _ n)
    · refine absurd (head?_of_opensWith .one hne hn) (hopens _ fun he => ?_)
      exact absurd (he ▸ hblank) (by decide)
    · obtain ⟨d, hd, hdblank⟩ := Pattern.contains_of_opensWith .one hn
      rw [List.head?_append_of_ne_nil _ hne, hhead] at hd
      rw [CharClass.contains_blank, ← Option.some.inj hd, hblank] at hdblank
      exact absurd hdblank Bool.false_ne_true
  refine isLongest_of_le rfl hfound (htext ▸ hne) (fun other hother n hn => ?_)
    fun other hother n hn => htext ▸ hbefore other hother n hn
  rw [← List.take_append_drop 5 ruleTokens, List.mem_append] at hother
  rcases hother with hother | hother
  · exact htext ▸ Nat.le_of_lt (hbefore other hother n hn)
  · rw [List.mem_singleton.1 hother, TokenRule.find?_ofPattern] at hn
    obtain rfl := Option.some.inj (hn.symm.trans hfound)
    exact Nat.le_refl _

/-- A legible symbol is cut off before a gap. -/
theorem cutsInto_symbol {s : Symbol} (hs : s.IsLegible) (hrest : AtGap rest)
    (h : CutsInto ruleTokens rest values) :
    CutsInto ruleTokens (s.render.toList ++ rest) (.symbol s :: values) := by
  obtain ⟨m, hfound, htext, hproduce⟩ := exists_firstMatch?_symbol hs hrest
  have hwins := isLongest_symbol hfound htext (exists_head?_symbol hs)
    fun n hn => length_lt_of_firstMatch?_arrow hrest (symbol_ne_arrow hs) hn
  rw [← htext] at hwins ⊢
  have hcuts := CutsInto.step hwins h
  rwa [show TokenRule.produce _ m = symbolOf? m from rfl, hproduce] at hcuts

end RuleText

end GuardedGrammar
