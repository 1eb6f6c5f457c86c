/-
  Reading tokens on demand.

  A tokenizer counts how far it is in a text and moves to the next token when it is asked to.  Before each
  match it takes up the text at the bytes that it has counted.  It keeps giving the end token once the
  text is read, and keeps failing with the same error once it is stuck; a failure leaves the current token
  as it was, but text that was dropped on the way to the failure has been read.

  What is counted are the bytes of the matches.  Rules that match further on in the text can lead into
  the middle of a character, where the text cannot be taken up.  Such a call comes to no result at all
  (`none`), and neither do the calls that follow.

  A token stream gives the token that a tokenizer is at, and then those that follow.

  Main statements: `fits_nextToken`, what the place of the next token has to do with the text;
  `advance_advance_of_stuck` and `advance_of_torn`, a tokenizer that is stuck, or inside a character,
  stays where it is.
-/
import GuardedGrammar.Lexer.Basic

namespace GuardedGrammar

/-! ## The next token -/

/-- What comes next in a text. -/
inductive NextToken (τ : Type) where
  /-- The text is at its end. -/
  | ended (place : Location)
  /-- The text cannot be cut any further. -/
  | stuck (error : UnknownToken)
  /-- The text cannot be taken up here, inside a character. -/
  | torn (place : Location)
  /-- A token, and the place behind it. -/
  | token (value : τ) (place : Location)

namespace NextToken

variable {τ : Type}

/-- The place up to which the text has been cut. -/
def place : NextToken τ → Location
  | .ended place => place
  | .stuck error => error.location
  | .torn place => place
  | .token _ place => place

/-- What is answered to whoever asks for the next token, if it comes to an answer. -/
def result (endToken : τ) : NextToken τ → Option (Except UnknownToken τ)
  | .ended _ => some (.ok endToken)
  | .stuck error => some (.error error)
  | .torn _ => none
  | .token value _ => some (.ok value)

/-- The token that a reader is at afterwards. -/
def current (endToken before : τ) : NextToken τ → τ
  | .ended _ => endToken
  | .stuck _ => before
  | .torn _ => before
  | .token value _ => value

/-- What the place has to do with the text: where the end is told, nothing is left; where it cannot be
cut, something is left that no rule reads; where it is torn, it cannot be taken up. -/
def Fits (rules : List (TokenRule τ)) (text : List Char) : NextToken τ → Prop
  | .ended place => Text.sliceFrom? place.offset text = some []
  | .stuck error => ∃ rest, Text.sliceFrom? error.location.offset text = some rest ∧ rest ≠ [] ∧
      longest? rules rest = none ∧ error = .before error.location rest
  | .torn place => Text.sliceFrom? place.offset text = none
  | .token _ _ => True

end NextToken

/-- Behind a match, less of the text is left. -/
theorem sub_offset_advanceOver_lt {place : Location} {text rest read : List Char}
    (hrest : Text.sliceFrom? place.offset text = some rest) (hne : rest ≠ []) (hread : read ≠ []) :
    Text.byteSize text - (place.advanceOver read).offset < Text.byteSize text - place.offset := by
  obtain ⟨before, rfl, hsize⟩ := Text.sliceFrom?_eq_some_iff.1 hrest
  have := (Text.byteSize_pos_iff rest).2 hne
  have := (Text.byteSize_pos_iff read).2 hread
  rw [Location.offset_advanceOver, Text.byteSize_append]
  omega

/-- What comes next from a place of a text on, and the matches up to there; `dropped` are those that have
been dropped so far, latest first. -/
def nextToken {τ : Type} (rules : List (TokenRule τ)) (text : List Char) (dropped : List Matched)
    (place : Location) : List Matched × NextToken τ :=
  match _hrest : Text.sliceFrom? place.offset text with
  | none => (dropped.reverse, .torn place)
  | some rest =>
    if _hend : rest = [] then (dropped.reverse, .ended place)
    else
      match _hbest : longest? rules rest with
      | none => (dropped.reverse, .stuck (.before place rest))
      | some c =>
        let seen := ⟨c.rule, place, c.text⟩ :: dropped
        let behind := place.advanceOver c.text
        match c.token with
        | some t => (seen.reverse, .token t behind)
        | none => nextToken rules text seen behind
termination_by Text.byteSize text - place.offset
decreasing_by exact sub_offset_advanceOver_lt _hrest _hend (text_ne_nil_of_longest? _hbest)

/-- The match that wins comes next, or what comes behind it if it is dropped. -/
theorem nextToken_of_longest? {τ : Type} {rules : List (TokenRule τ)} {text rest : List Char}
    {place : Location} {c : Candidate τ} (hrest : Text.sliceFrom? place.offset text = some rest)
    (hne : rest ≠ []) (hbest : longest? rules rest = some c) (dropped : List Matched) :
    nextToken rules text dropped place = match c.token with
      | some t => ((⟨c.rule, place, c.text⟩ :: dropped).reverse, .token t (place.advanceOver c.text))
      | none => nextToken rules text (⟨c.rule, place, c.text⟩ :: dropped)
          (place.advanceOver c.text) := by
  rw [nextToken]
  split
  · next hnone => cases hrest.symm.trans hnone
  · next hsome =>
    obtain rfl := Option.some.inj (hrest.symm.trans hsome)
    rw [dif_neg hne]
    split
    · next hnone => cases hbest.symm.trans hnone
    · next hwins =>
      obtain rfl := Option.some.inj (hbest.symm.trans hwins)
      rfl

/-- What comes next fits the text at the place where it is found. -/
theorem fits_nextToken {τ : Type} (rules : List (TokenRule τ)) (text : List Char)
    (dropped : List Matched) (place : Location) :
    (nextToken rules text dropped place).2.Fits rules text := by
  fun_induction nextToken rules text dropped place with
  | case1 _ _ hrest => exact hrest
  | case2 _ _ hrest => exact hrest
  | case3 _ _ rest hrest hend hbest => exact ⟨rest, hrest, hend, hbest, rfl⟩
  | case4 => trivial
  | case5 _ _ _ _ _ _ _ _ _ _ ih => exact ih

/-! ## Tokenizers -/

/-- A reader of tokens: the text that it reads, how far it is, and the token that it is at. -/
structure Tokenizer (τ : Type) where
  rules : List (TokenRule τ)
  endToken : τ
  text : List Char
  current : τ
  place : Location := {}

/-- A step of a reader: the matches it made, what it answers, and the reader afterwards.  There is no
answer where the text cannot be taken up. -/
structure Advance (τ : Type) where
  seen : List Matched
  result : Option (Except UnknownToken τ)
  tokenizer : Tokenizer τ

namespace Tokenizer

variable {τ : Type}

/-- The text that has not been read yet; there is none inside a character. -/
def rest? (t : Tokenizer τ) : Option (List Char) := Text.sliceFrom? t.place.offset t.text

/-- What comes next for a reader, and the matches up to there. -/
def next (t : Tokenizer τ) : List Matched × NextToken τ := nextToken t.rules t.text [] t.place

/-- Moves to the next token. -/
def advance (t : Tokenizer τ) : Advance τ where
  seen := t.next.1
  result := t.next.2.result t.endToken
  tokenizer := { t with current := t.next.2.current t.endToken t.current, place := t.next.2.place }

/-- Reads the first token of a text. -/
def start (rules : List (TokenRule τ)) (endToken : τ) (text : List Char) : Advance τ :=
  advance { rules, endToken, text, current := endToken }

/-- Where the text cannot be taken up, a reader stays, and it comes to no answer. -/
theorem advance_of_torn {t : Tokenizer τ} (h : t.rest? = none) :
    t.advance = ⟨[], none, t⟩ := by
  have hnext : t.next = ([], .torn t.place) := by
    unfold next nextToken
    split
    · rfl
    · next hrest => exact nomatch h.symm.trans hrest
  rw [advance, hnext]
  rfl

/-- A reader comes to no answer only where the text cannot be taken up. -/
theorem rest?_advance_of_none {t : Tokenizer τ} (h : t.advance.result = none) :
    t.advance.tokenizer.rest? = none := by
  have hfits : t.next.2.Fits t.rules t.text := fits_nextToken t.rules t.text [] t.place
  unfold advance at h ⊢
  unfold rest?
  cases hnext : t.next.2 with
  | ended => exact nomatch hnext ▸ h
  | stuck => exact nomatch hnext ▸ h
  | torn place =>
    rw [hnext] at hfits
    exact hfits
  | token => exact nomatch hnext ▸ h

/-- Where a reader fails, it keeps its token, and there is text left that no rule reads anything of. -/
theorem advance_of_error {t : Tokenizer τ} {e : UnknownToken}
    (h : t.advance.result = some (.error e)) :
    t.advance.tokenizer = { t with place := e.location } ∧
      ∃ rest, t.advance.tokenizer.rest? = some rest ∧ rest ≠ [] ∧ longest? t.rules rest = none ∧
        e = .before e.location rest := by
  have hfits : t.next.2.Fits t.rules t.text := fits_nextToken t.rules t.text [] t.place
  unfold advance at h ⊢
  cases hnext : t.next.2 with
  | ended => exact nomatch hnext ▸ h
  | stuck error =>
    rw [hnext] at h hfits
    cases h
    exact ⟨rfl, hfits⟩
  | torn => exact nomatch hnext ▸ h
  | token => exact nomatch hnext ▸ h

/-- A reader that is stuck stays where it is. -/
theorem advance_advance_of_stuck (t : Tokenizer τ) (e : UnknownToken)
    (h : t.advance.result = some (.error e)) :
    t.advance.tokenizer.advance.result = some (.error e) ∧
      t.advance.tokenizer.current = t.current ∧
      t.advance.tokenizer.advance.tokenizer = t.advance.tokenizer := by
  obtain ⟨hreader, rest, hrest, hne, hbest, herror⟩ := advance_of_error h
  rw [hreader] at hrest ⊢
  have hstuck : next { t with place := e.location } = ([], .stuck e) := by
    unfold next nextToken
    split
    · next hnone => exact nomatch hnone.symm.trans hrest
    · next hsome =>
      obtain rfl := Option.some.inj (hsome.symm.trans hrest)
      rw [dif_neg hne]
      split
      · rw [← herror]
        rfl
      · next hwins => exact nomatch hbest.symm.trans hwins
  unfold advance
  rw [hstuck]
  exact ⟨rfl, rfl, rfl⟩

end Tokenizer

/-! ## Endless sequences -/

/-- A reader as an endless sequence of tokens; the token that it is at comes first. -/
structure TokenStream (τ : Type) where
  tokenizer : Tokenizer τ
  started : Bool := false

namespace TokenStream

variable {τ : Type}

/-- The next token of a sequence. -/
def next (s : TokenStream τ) : Advance τ :=
  if s.started then s.tokenizer.advance else ⟨[], some (.ok s.tokenizer.current), s.tokenizer⟩

/-- The sequence behind its next token. -/
def after (s : TokenStream τ) : TokenStream τ := ⟨s.next.tokenizer, true⟩

end TokenStream

end GuardedGrammar
