/-
  Where a text is refused.

  The tokens of a text should be a row of a certain kind.  Reading is refused at the first token with
  which they no longer begin such a row, unless the text cannot be cut any further before, or a token
  is at fault that the row has room for (`Refuses`, along the tokens).  In the text that is a place
  which is told by the beginning of the text up to there (`FailsAt`).

  Main statements: `failsAt_or_fault`, what is refused along the tokens is refused there in the text,
  `FailsAt.exists_place_behind`, a text does not fail before the end of a token up to which its tokens
  begin a row, and `FailsAt.blame_eq`, it fails in one way only.
-/
import GuardedGrammar.Proofs.Cutting

namespace GuardedGrammar

/-- The place that an error tells. -/
def ReadError.place : ReadError → Location
  | unknownToken e => e.location
  | syntaxError location _ => location

/-- What an error tells apart from how it names the token that is wrong and the one expected. -/
def ReadError.blame : ReadError → UnknownToken ⊕ Location
  | unknownToken e => .inl e
  | syntaxError location _ => .inr location

namespace RuleText

variable {τ : Type}

/-- The tokens are refused as a row of the given kind. What has been read before begins such a row in
each case; a token that is at fault is not looked at by the kind. -/
inductive Refuses (IsFault : τ → ReadError → Prop) :
    (List τ → Prop) → Tokens τ → ReadError → Prop
  | stuck {IsRow : List τ → Prop} {seen : List Matched} {e : UnknownToken}
    (hopen : ∃ ts, IsRow ts) : Refuses IsFault IsRow (.stuck seen e) (.unknownToken e)
  | ended {IsRow : List τ → Prop} {seen : List Matched} {place : Location}
    {problem : SyntaxProblem} (hopen : ∃ ts, IsRow ts) (hshort : ¬IsRow []) :
    Refuses IsFault IsRow (.ended seen place) (.syntaxError place problem)
  | token {IsRow : List τ → Prop} {seen : List Matched} {t : τ} {place : Location}
    {next : Tokens τ} {problem : SyntaxProblem} (hopen : ∃ ts, IsRow ts)
    (hoffends : ∀ ts, ¬IsRow (t :: ts)) :
    Refuses IsFault IsRow (.token seen t place next) (.syntaxError place problem)
  | fault {IsRow : List τ → Prop} {seen : List Matched} {t : τ} {place : Location}
    {next : Tokens τ} {e : ReadError} (hopen : ∃ ts, IsRow ts) (hfault : IsFault t e) :
    Refuses IsFault IsRow (.token seen t place next) e
  | later {IsRow : List τ → Prop} {seen : List Matched} {t : τ} {place : Location}
    {next : Tokens τ} {e : ReadError} (h : Refuses IsFault (fun ts => IsRow (t :: ts)) next e) :
    Refuses IsFault IsRow (.token seen t place next) e

/-- Behind the text that has been read, which is cut into the tokens before, a match makes this
token. -/
structure StandsAt (rules : List (TokenRule τ)) (text read : List Char) (before : List τ) (m : Match)
    (t : τ) : Prop where
  exists_rest : ∃ rest i rule, text = read ++ (m.text ++ rest) ∧
    CutsOff rules read (m.text ++ rest) before ∧ IsLongest rules (m.text ++ rest) i rule m ∧
    rule.produce m = some t

/-- How a text is refused whose tokens should be a row of the given kind. -/
inductive FailsAt (rules : List (TokenRule τ)) (IsRow : List τ → Prop) (text : List Char) :
    ReadError → Prop
  /-- No rule reads anything of the rest of the text, which is shown up to its fiftieth character; the
  tokens before begin a row. -/
  | unknown {read rest : List Char} {before : List τ} (htext : text = read ++ rest)
    (hcuts : CutsOff rules read rest before) (hopen : ∃ ts, IsRow (before ++ ts)) (hrest : rest ≠ [])
    (hnone : ∀ rule ∈ rules, ∀ m, rule.find? rest = some m → m.text = []) :
    FailsAt rules IsRow text
      (.unknownToken ⟨({} : Location).advanceOver read, String.ofList (rest.take 50)⟩)
  /-- The tokens before begin a row, and do no longer with this one, which ends at the place. -/
  | token {read : List Char} {before : List τ} {m : Match} {t : τ} {problem : SyntaxProblem}
    (hstands : StandsAt rules text read before m t) (hopen : ∃ ts, IsRow (before ++ ts))
    (hoffends : ∀ ts, ¬IsRow (before ++ t :: ts)) :
    FailsAt rules IsRow text
      (.syntaxError (({} : Location).advanceOver (read ++ m.text)) problem)
  /-- The tokens of the text begin a row, but are none. -/
  | ended {ts : List τ} {problem : SyntaxProblem} (hcuts : CutsOff rules text [] ts)
    (hopen : ∃ more, IsRow (ts ++ more)) (hshort : ¬IsRow ts) :
    FailsAt rules IsRow text (.syntaxError (({} : Location).advanceOver text) problem)

/-! ## Along the tokens -/

namespace Refuses

variable {IsFault : τ → ReadError → Prop} {IsRow IsOther : List τ → Prop} {tokens : Tokens τ}
  {e : ReadError}

/-- Rows that have the same members are the same. -/
theorem congr (h : Refuses IsFault IsRow tokens e) (hsame : ∀ ts, IsRow ts ↔ IsOther ts) :
    Refuses IsFault IsOther tokens e :=
  (funext fun ts => propext (hsame ts) : IsRow = IsOther) ▸ h

/-- What may come behind a token is all that matters for what is refused behind it. -/
theorem behind {seen : List Matched} {t : τ} {place : Location} {next : Tokens τ}
    (h : Refuses IsFault IsOther next e) (hsame : ∀ ts, IsRow (t :: ts) ↔ IsOther ts) :
    Refuses IsFault IsRow (.token seen t place next) e :=
  .later (h.congr fun ts => (hsame ts).symm)

/-- Only rows that begin as the tokens do matter for what is refused. -/
theorem widen (h : Refuses IsFault IsRow tokens e) (hopen : ∃ ts, IsOther ts)
    (hsame : ∀ ts : List τ, ts.head? = head? tokens → (IsOther ts ↔ IsRow ts)) :
    Refuses IsFault IsOther tokens e := by
  cases h with
  | stuck => exact .stuck hopen
  | ended _ hshort => exact .ended hopen fun h => hshort ((hsame [] rfl).1 h)
  | token _ hoffends => exact .token hopen fun ts h => hoffends ts ((hsame _ rfl).1 h)
  | fault _ hfault => exact .fault hopen hfault
  | later h => exact .later (h.congr fun ts => (hsame _ rfl).symm)

end Refuses

/-! ## In the text -/

section

variable {rules : List (TokenRule τ)} {IsFault : τ → ReadError → Prop} {e : ReadError}

/-- By induction on the refusal; `read` is what has been read of the text, and `before` are its
tokens. -/
theorem failsAt_or_fault_behind (htied : ∀ rule ∈ rules, rule.IsTied) {IsRow : List τ → Prop}
    {tokens : Tokens τ} (h : Refuses IsFault IsRow tokens e) (IsWhole : List τ → Prop)
    {read ahead : List Char} {before : List τ} (hcuts : CutsOff rules read ahead before)
    (hrow : ∀ ts, IsRow ts ↔ IsWhole (before ++ ts)) {dropped : List Matched}
    (htokens : (lexFrom rules (({} : Location).advanceOver read) ahead).tokensFrom dropped = tokens) :
    FailsAt rules IsWhole (read ++ ahead) e ∨
      ∃ upTo values m t, StandsAt rules (read ++ ahead) upTo values m t ∧
        (∃ ts, IsWhole (values ++ ts)) ∧ IsFault t e := by
  induction h generalizing read ahead before dropped with
  | stuck hopen =>
    obtain ⟨ts, hts⟩ := hopen
    obtain ⟨u, rest, rfl, hu, hrest, hnone, rfl⟩ := exists_of_tokensFrom_eq_stuck htied htokens
    have hall := hcuts.append_dropped hu
    rw [← Location.advanceOver_append]
    exact .inl (.unknown (List.append_assoc ..).symm hall ⟨ts, (hrow ts).1 hts⟩ hrest hnone)
  -- the rest of the text is dropped, so the tokens before are all that there are
  | ended hopen hshort =>
    obtain ⟨ts, hts⟩ := hopen
    obtain ⟨hahead, rfl⟩ := exists_of_tokensFrom_eq_ended htied htokens
    rw [← List.append_nil ahead] at hcuts
    have hall := hcuts.append hahead
    rw [hrow] at hshort
    rw [← Location.advanceOver_append]
    exact .inl (.ended hall ⟨ts, by rw [List.append_nil]; exact (hrow ts).1 hts⟩ hshort)
  | token hopen hoffends =>
    obtain ⟨ts, hts⟩ := hopen
    obtain ⟨u, m, rest, i, rule, rfl, hu, hwins, hproduce, rfl, -⟩ :=
      exists_of_tokensFrom_eq_token htied htokens
    have hall := hcuts.append_dropped hu
    rw [← Location.advanceOver_append, ← List.append_assoc read u m.text]
    exact .inl (.token ⟨rest, i, rule, (List.append_assoc ..).symm, hall, hwins, hproduce⟩
      ⟨ts, (hrow ts).1 hts⟩ fun ts h => hoffends ts ((hrow _).2 h))
  | fault hopen hfault =>
    obtain ⟨ts, hts⟩ := hopen
    obtain ⟨u, m, rest, i, rule, rfl, hu, hwins, hproduce, -, -⟩ :=
      exists_of_tokensFrom_eq_token htied htokens
    have hall := hcuts.append_dropped hu
    exact .inr ⟨read ++ u, before, m, _, ⟨rest, i, rule, (List.append_assoc ..).symm, hall, hwins,
      hproduce⟩, ⟨ts, (hrow ts).1 hts⟩, hfault⟩
  | @later IsRow _ t _ _ _ _ ih =>
    obtain ⟨u, m, rest, i, rule, rfl, hu, hwins, hproduce, rfl, hnext⟩ :=
      exists_of_tokensFrom_eq_token htied htokens
    have hall := (hcuts.append_dropped hu).append (hwins.cutsOff hproduce)
    rw [← Location.advanceOver_append, ← List.append_assoc read u m.text] at hnext
    have hrow' (ts : List τ) : IsRow (t :: ts) ↔ IsWhole (before ++ [t] ++ ts) := by
      rw [hrow, List.append_assoc]
      rfl
    have hbehind := ih hall hrow' hnext.symm
    rwa [List.append_assoc (read ++ u), List.append_assoc read u] at hbehind

/-- What is refused along the tokens of a text is refused in the text, or a token of it is at fault. -/
theorem failsAt_or_fault (htied : ∀ rule ∈ rules, rule.IsTied) {IsRow : List τ → Prop}
    {text : List Char} (h : Refuses IsFault IsRow (Tokens.ofText rules text) e) :
    FailsAt rules IsRow text e ∨ ∃ read before m t, StandsAt rules text read before m t ∧
      (∃ ts, IsRow (before ++ ts)) ∧ IsFault t e :=
  @failsAt_or_fault_behind _ rules IsFault e htied IsRow _ h IsRow [] text [] .nil
    (fun _ => Iff.rfl) [] rfl

end

/-! ## Places -/

section

variable {rules : List (TokenRule τ)} {IsRow : List τ → Prop} {text read : List Char} {before : List τ}
  {m : Match} {t : τ} {e : ReadError}

/-- Where a text is cut is in front of a token of it, or not before the token ends. -/
theorem StandsAt.before_or_behind (h : StandsAt rules text read before m t) {u rest : List Char}
    {values : List τ} (hcuts : CutsOff rules u rest values) (htext : text = u ++ rest) :
    (∃ w zs behind, before = values ++ zs ∧ rest = w ++ behind ∧ w ≠ [] ∧
      CutsOff rules w behind (zs ++ [t])) ∨ ∃ w, u = read ++ (m.text ++ w) := by
  obtain ⟨behind, i, rule, htoken, hread, hwins, hproduce⟩ := h.exists_rest
  have hsame := htext.symm.trans htoken
  -- the cut is beyond where the token begins, or not
  rcases Nat.lt_or_ge read.length u.length with hlt | hle
  · obtain ⟨w, zs, rfl, -, hw⟩ := hread.of_length_le hcuts hsame.symm (Nat.le_of_lt hlt)
    have hne : w ≠ [] := by
      rintro rfl
      rw [List.append_nil] at hlt
      exact absurd hlt (Nat.lt_irrefl _)
    rw [List.append_assoc] at hsame
    rw [← List.append_cancel_left hsame] at hwins
    obtain ⟨v, -, rfl, -, -⟩ := hw.exists_of_isLongest hne hwins
    exact .inr ⟨v, rfl⟩
  · obtain ⟨w, zs, rfl, rfl, hw⟩ := hcuts.of_length_le hread hsame hle
    rw [List.append_assoc] at hsame
    refine .inl ⟨w ++ m.text, zs, behind, rfl, ?_, ?_, hw.append (hwins.cutsOff hproduce)⟩
    · rw [List.append_assoc]
      exact List.append_cancel_left hsame
    · exact List.append_ne_nil_of_right_ne_nil w hwins.reads

/-- What is told is a place in the text. -/
theorem FailsAt.exists_place (h : FailsAt rules IsRow text e) :
    ∃ u rest, text = u ++ rest ∧ e.place = ({} : Location).advanceOver u := by
  cases h with
  | unknown htext => exact ⟨_, _, htext, rfl⟩
  | token hstands =>
    obtain ⟨rest, -, -, htext, -⟩ := hstands.exists_rest
    exact ⟨_, rest, htext.trans (List.append_assoc ..).symm, rfl⟩
  | ended => exact ⟨text, [], (List.append_nil text).symm, rfl⟩

/-- If the tokens before some token begin a row, then what is told is not before the end of that one. -/
theorem FailsAt.exists_place_behind (h : FailsAt rules IsRow text e)
    (hstands : StandsAt rules text read before m t) (hopen : ∃ ts, IsRow (before ++ ts)) :
    ∃ w, e.place = ({} : Location).advanceOver (read ++ (m.text ++ w)) := by
  obtain ⟨ts, hts⟩ := hopen
  cases h with
  | unknown htext hcuts _ _ hnone =>
    rcases hstands.before_or_behind hcuts htext with ⟨w, _, behind, -, rfl, hne, hw⟩ | ⟨w, rfl⟩
    · -- some rule reads something there
      obtain ⟨i, rule, n, hwins⟩ := hw.exists_isLongest hne
      exact absurd (hnone rule (List.mem_of_getElem? hwins.listed) n hwins.found) hwins.reads
    · exact ⟨w, rfl⟩
  | token hother _ hoffends =>
    obtain ⟨rest, i, rule, htext, hread, hwins, hproduce⟩ := hother.exists_rest
    have hcuts := hread.append (hwins.cutsOff hproduce)
    rcases hstands.before_or_behind hcuts (htext.trans (List.append_assoc ..).symm) with
      ⟨_, zs, _, rfl, -⟩ | ⟨w, heq⟩
    · -- the token that offends would stand before, in the beginning of a row
      rw [List.append_assoc, List.append_assoc] at hts
      exact absurd hts (hoffends _)
    · exact ⟨w, by rw [← heq]; rfl⟩
  | ended hcuts =>
    rcases hstands.before_or_behind hcuts (List.append_nil text).symm with
      ⟨w, _, _, -, hnil, hne, -⟩ | ⟨w, heq⟩
    · -- behind the whole text there is nothing to be cut
      exact absurd (List.append_eq_nil_iff.1 hnil.symm).1 hne
    · exact ⟨w, by rw [← heq]; rfl⟩

end

/-! ## One refusal

The ways in which a text may fail exclude each other. They are told apart by how much of the text is
read before. -/

section

variable {rules : List (TokenRule τ)} {IsRow : List τ → Prop} {text u rest read : List Char}
  {values before ts : List τ} {m : Match} {t : τ} {e e' : ReadError}

/-- Nothing can be cut off beyond the place where no rule reads anything. -/
theorem length_le_of_none (hcuts : CutsOff rules u rest values)
    (hnone : ∀ rule ∈ rules, ∀ m, rule.find? rest = some m → m.text = []) {v behind : List Char}
    {others : List τ} (hother : CutsOff rules v behind others) (htext : u ++ rest = v ++ behind) :
    v.length ≤ u.length := by
  refine Nat.le_of_not_lt fun hlt => ?_
  obtain ⟨w, zs, rfl, -, hw⟩ := hcuts.of_length_le hother htext (Nat.le_of_lt hlt)
  have hne : w ≠ [] := by
    rintro rfl
    rw [List.append_nil] at hlt
    exact absurd hlt (Nat.lt_irrefl _)
  rw [List.append_assoc] at htext
  obtain ⟨i, rule, n, hwins⟩ := hw.exists_isLongest hne
  rw [← List.append_cancel_left htext] at hwins
  exact hwins.reads (hnone rule (List.mem_of_getElem? hwins.listed) n hwins.found)

/-- No row begins with the tokens of more text than that before a token that offends. -/
theorem StandsAt.length_le_of_offends (h : StandsAt rules text read before m t)
    (hoffends : ∀ ts, ¬IsRow (before ++ t :: ts)) (hcuts : CutsOff rules u rest values)
    (htext : text = u ++ rest) (hopen : ∃ ts, IsRow (values ++ ts)) : u.length ≤ read.length := by
  obtain ⟨ts, hts⟩ := hopen
  obtain ⟨behind, i, rule, htoken, hread, hwins, hproduce⟩ := h.exists_rest
  have hsame := htoken.symm.trans htext
  refine Nat.le_of_not_lt fun hlt => ?_
  obtain ⟨w, zs, rfl, rfl, hw⟩ := hread.of_length_le hcuts hsame (Nat.le_of_lt hlt)
  have hne : w ≠ [] := by
    rintro rfl
    rw [List.append_nil] at hlt
    exact absurd hlt (Nat.lt_irrefl _)
  rw [List.append_assoc] at hsame
  rw [List.append_cancel_left hsame] at hwins
  obtain ⟨_, ys, -, rfl, -⟩ := hw.exists_of_isLongest hne hwins
  rw [hproduce, List.append_assoc, List.append_assoc] at hts
  exact hoffends _ hts

/-- What has been read before a token is not the whole text. -/
theorem StandsAt.length_lt (h : StandsAt rules text read before m t) :
    read.length < text.length := by
  obtain ⟨behind, i, rule, rfl, -, hwins, -⟩ := h.exists_rest
  have := List.length_pos_iff.2 hwins.reads
  simp only [List.length_append]
  omega

/-- Of two tokens in one text that no row goes on with, neither stands before the other. -/
theorem StandsAt.eq_of_offends {read' : List Char} {before' : List τ} {m' : Match} {t' : τ}
    (h : StandsAt rules text read before m t) (h' : StandsAt rules text read' before' m' t')
    (hopen : ∃ ts, IsRow (before ++ ts)) (hopen' : ∃ ts, IsRow (before' ++ ts))
    (hoffends : ∀ ts, ¬IsRow (before ++ t :: ts))
    (hoffends' : ∀ ts, ¬IsRow (before' ++ t' :: ts)) : read = read' ∧ m = m' := by
  obtain ⟨behind, i, rule, htext, hread, hwins, -⟩ := h.exists_rest
  obtain ⟨behind', i', rule', htext', hread', hwins', -⟩ := h'.exists_rest
  have hlength : read.length = read'.length :=
    Nat.le_antisymm (h'.length_le_of_offends hoffends' hread htext hopen)
      (h.length_le_of_offends hoffends hread' htext' hopen')
  obtain ⟨rfl, hahead⟩ := List.append_inj (htext.symm.trans htext') hlength
  rw [← hahead] at hwins'
  exact ⟨rfl, (hwins.unique hwins').2⟩

/-- Where no rule reads anything behind the beginning of a row, that is how the text fails. -/
theorem FailsAt.blame_of_none {u rest : List Char} {values : List τ} (h : FailsAt rules IsRow text e)
    (htext : text = u ++ rest) (hcuts : CutsOff rules u rest values)
    (hopen : ∃ ts, IsRow (values ++ ts)) (hrest : rest ≠ [])
    (hnone : ∀ rule ∈ rules, ∀ m, rule.find? rest = some m → m.text = []) :
    e.blame = .inl ⟨({} : Location).advanceOver u, String.ofList (rest.take 50)⟩ := by
  cases h with
  | unknown htext' hcuts' _ _ hnone' =>
    have hsame := htext.symm.trans htext'
    have hlength := Nat.le_antisymm (length_le_of_none hcuts' hnone' hcuts hsame.symm)
      (length_le_of_none hcuts hnone hcuts' hsame)
    obtain ⟨rfl, rfl⟩ := List.append_inj hsame hlength
    rfl
  | token hstands _ hoffends =>
    obtain ⟨behind, i, rule, htoken, hread, hwins, hproduce⟩ := hstands.exists_rest
    have hle := hstands.length_le_of_offends hoffends hcuts htext hopen
    -- a token that ends further on would have been read
    have hbeyond := length_le_of_none hcuts hnone (hread.append (hwins.cutsOff hproduce))
      (htext.symm.trans (htoken.trans (List.append_assoc ..).symm))
    have := List.length_pos_iff.2 hwins.reads
    rw [List.length_append] at hbeyond
    omega
  | ended hends =>
    have hle := length_le_of_none hcuts hnone hends (htext.symm.trans (List.append_nil text).symm)
    have := List.length_pos_iff.2 hrest
    rw [htext, List.length_append] at hle
    omega

/-- A text fails in one way only, up to how that is worded. -/
theorem FailsAt.blame_eq (h : FailsAt rules IsRow text e) (h' : FailsAt rules IsRow text e') :
    e.blame = e'.blame := by
  cases h with
  | unknown htext hcuts hopen hrest hnone =>
    exact (h'.blame_of_none htext hcuts hopen hrest hnone).symm
  | token hstands hopen hoffends =>
    cases h' with
    | unknown htext hcuts hopen' hrest hnone =>
      exact FailsAt.blame_of_none (.token hstands hopen hoffends) htext hcuts hopen' hrest hnone
    | token hstands' hopen' hoffends' =>
      obtain ⟨rfl, rfl⟩ := hstands.eq_of_offends hstands' hopen hopen' hoffends hoffends'
      rfl
    | ended hends hopen' =>
      have hle := hstands.length_le_of_offends hoffends hends (List.append_nil text).symm hopen'
      -- the tokens of the whole text begin a row, those up to the offending one do not
      exact absurd hstands.length_lt (Nat.not_lt_of_le hle)
  | ended hends hopen hshort =>
    cases h' with
    | unknown htext hcuts hopen' hrest hnone =>
      exact FailsAt.blame_of_none (.ended hends hopen hshort) htext hcuts hopen' hrest hnone
    | token hstands _ hoffends =>
      have hle := hstands.length_le_of_offends hoffends hends (List.append_nil text).symm hopen
      exact absurd hstands.length_lt (Nat.not_lt_of_le hle)
    | ended => rfl

/-- How a failure is worded does not matter for whether a text fails so. -/
theorem FailsAt.of_blame_eq (h : FailsAt rules IsRow text e) (hsame : e'.blame = e.blame) :
    FailsAt rules IsRow text e' := by
  cases h with
  | unknown htext hcuts hopen hrest hnone =>
    cases e' with
    | unknownToken => cases hsame; exact .unknown htext hcuts hopen hrest hnone
    | syntaxError => exact nomatch hsame
  | token hstands hopen hoffends =>
    cases e' with
    | unknownToken => exact nomatch hsame
    | syntaxError => cases hsame; exact .token hstands hopen hoffends
  | ended hcuts hopen hshort =>
    cases e' with
    | unknownToken => exact nomatch hsame
    | syntaxError => cases hsame; exact .ended hcuts hopen hshort

/-- A text whose tokens are a row does not fail. -/
theorem FailsAt.not_isRow (h : FailsAt rules IsRow text e) (hcuts : CutsInto rules text ts) :
    ¬IsRow ts := by
  intro hrow
  have hcuts := hcuts.cutsOff
  -- a row begins itself
  have hopen : ∃ more, IsRow (ts ++ more) := ⟨[], by rwa [List.append_nil]⟩
  cases h with
  | unknown htext hread _ hrest hnone =>
    have hle := length_le_of_none hread hnone hcuts (htext.symm.trans (List.append_nil text).symm)
    have := List.length_pos_iff.2 hrest
    rw [htext, List.length_append] at hle
    omega
  | token hstands _ hoffends =>
    have hle := hstands.length_le_of_offends hoffends hcuts (List.append_nil text).symm hopen
    exact absurd hstands.length_lt (Nat.not_lt_of_le hle)
  | ended hends _ hshort =>
    obtain ⟨w, zs, hw, rfl, hbehind⟩ := hends.of_length_le hcuts rfl (Nat.le_refl _)
    obtain rfl := List.self_eq_append_right.1 hw
    rw [hbehind.eq_nil, List.append_nil] at hrow
    exact hshort hrow

end

end RuleText

end GuardedGrammar
