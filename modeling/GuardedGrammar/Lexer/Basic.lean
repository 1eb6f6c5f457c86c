/-
  Cutting a text into tokens.

  A lexer is an ordered list of token rules, each a way to find a match in the text ahead and a
  producer.  At every place of the text the rule with the LONGEST match wins, the first listed among
  equally long ones, and a match that reads nothing does not count.  The producer of the winning rule
  makes a token of the match or drops it.  Where no rule has a match that reads something, the text
  cannot be cut further.

  `lex` is the whole cutting of a text, every match with what became of it, by rules that match at the
  beginning of the text ahead only (`TokenRule.IsTied`); then the text goes on behind the match.  It ends
  because each match reads something (`size_pos_of_longest?`).  Where rules also match further on, what
  has been read is no beginning of the text, and a reader that counts it can come to stand inside a
  character; that is up to `Tokenizer`.

  Main statement: `Lexing.texts_append_rest`, the texts of the matches and the text left over make up
  the text.
-/
import GuardedGrammar.Pattern.Basic
import GuardedGrammar.Text.Bytes
import GuardedGrammar.Text.Location

namespace GuardedGrammar

/-- A kind of token: how it is found in the text ahead, and what is made of a match, if anything. -/
structure TokenRule (τ : Type) where
  find? : List Char → Option Match
  produce : Match → Option τ

namespace TokenRule

variable {τ : Type}

/-- The rule for the texts of a pattern, found where the text ahead begins. -/
def ofPattern (p : Pattern) (produce : Match → Option τ) : TokenRule τ := ⟨p.firstMatch?, produce⟩

/-- Whether all matches stand at the beginning of the text ahead. -/
def IsTied (rule : TokenRule τ) : Prop :=
  ∀ text m, rule.find? text = some m → m.text <+: text

/-- What a pattern finds begins where the text begins. -/
theorem isTied_ofPattern (p : Pattern) (produce : Match → Option τ) :
    (ofPattern p produce).IsTied :=
  fun _ _ h => Pattern.isPrefix_of_firstMatch? h

end TokenRule

/-- A match of the lexer: the place of its rule in the list, where it begins, and its text. -/
structure Matched where
  rule : Nat
  location : Location
  text : List Char
deriving DecidableEq, Repr

/-- The failure to cut a text: where it happens and how the text goes on there. -/
structure UnknownToken where
  location : Location
  preview : String
deriving DecidableEq, Repr

namespace UnknownToken

/-- How many characters of the text are shown. -/
def previewLength : Nat := 50

/-- The failure at a place, with the text from there on. -/
def before (location : Location) (text : List Char) : UnknownToken :=
  ⟨location, String.ofList (text.take previewLength)⟩

def message (e : UnknownToken) : String :=
  "unknown token at " ++ e.location.describe ++ "\n" ++ e.preview

end UnknownToken

/-! ## The longest match -/

/-- A rule that matches: its place in the list, the text it has found, and what it makes of it. -/
structure Candidate (τ : Type) where
  rule : Nat
  text : List Char
  token : Option τ
deriving DecidableEq

namespace Candidate

variable {τ : Type}

/-- The bytes that a candidate reads. -/
def size (c : Candidate τ) : Nat := Text.byteSize c.text

/-- The better of the best candidate so far and the next one. -/
def better (best : Option (Candidate τ)) (c : Candidate τ) : Option (Candidate τ) :=
  if (best.map size).getD 0 < c.size then some c else best

end Candidate

/-- The rules that match in a text, in the order of the list. -/
def candidates {τ : Type} (rules : List (TokenRule τ)) (text : List Char) : List (Candidate τ) :=
  rules.zipIdx.filterMap fun (rule, i) =>
    (rule.find? text).map fun m => ⟨i, m.text, rule.produce m⟩

/-- The rule whose match is longest, the first listed of those. -/
def longest? {τ : Type} (rules : List (TokenRule τ)) (text : List Char) : Option (Candidate τ) :=
  (candidates rules text).foldl Candidate.better none

/-- What holds of all candidates that read something holds of the best one. -/
theorem of_foldl_better {τ : Type} {P : Candidate τ → Prop} (cs : List (Candidate τ))
    (best : Option (Candidate τ)) (hbest : ∀ b, best = some b → P b)
    (hcs : ∀ d ∈ cs, 0 < d.size → P d) (c : Candidate τ)
    (h : cs.foldl Candidate.better best = some c) : P c := by
  induction cs generalizing best with
  | nil => exact hbest c h
  | cons d cs ih =>
    refine ih (Candidate.better best d) ?_ (fun e he => hcs e (List.mem_cons_of_mem d he)) h
    intro b hb
    unfold Candidate.better at hb
    split at hb
    · cases hb
      exact hcs d (List.mem_cons_self ..) (by omega)
    · exact hbest b hb

/-- The winning match reads something. -/
theorem size_pos_of_longest? {τ : Type} {rules : List (TokenRule τ)} {text : List Char}
    {c : Candidate τ} (h : longest? rules text = some c) : 0 < c.size :=
  of_foldl_better _ none (fun _ hb => nomatch hb) (fun _ _ hd => hd) c h

theorem text_ne_nil_of_longest? {τ : Type} {rules : List (TokenRule τ)} {text : List Char}
    {c : Candidate τ} (h : longest? rules text = some c) : c.text ≠ [] :=
  (Text.byteSize_pos_iff c.text).1 (size_pos_of_longest? h)

/-- If the rules match at the beginning of the text ahead only, then the winning match stands there. -/
theorem isPrefix_of_longest? {τ : Type} {rules : List (TokenRule τ)}
    (htied : ∀ rule ∈ rules, rule.IsTied) {text : List Char} {c : Candidate τ}
    (h : longest? rules text = some c) : c.text <+: text := by
  refine of_foldl_better (P := fun c => c.text <+: text) _ none (fun _ hb => nomatch hb)
    (fun d hd _ => ?_) c h
  obtain ⟨⟨rule, i⟩, hmem, hd⟩ := List.mem_filterMap.1 hd
  obtain ⟨m, hm, rfl⟩ := Option.map_eq_some_iff.1 hd
  exact htied rule (List.fst_mem_of_mem_zipIdx hmem) text m hm

/-! ## The whole cutting -/

/-- The cutting of a text from some place on. -/
inductive Lexing (τ : Type) where
  /-- The text is at its end. -/
  | finished (place : Location)
  /-- No rule matches here; `rest` is the text that is left. -/
  | stuck (error : UnknownToken) (rest : List Char)
  /-- A match, the token that was made of it, if any, and how the cutting goes on. -/
  | step (matched : Matched) (token : Option τ) (next : Lexing τ)

/-- Cuts a text that begins at a given place, by rules that match where the text ahead begins. -/
def lexFrom {τ : Type} (rules : List (TokenRule τ)) (place : Location) (text : List Char) :
    Lexing τ :=
  if _htext : text = [] then .finished place
  else
    match _hbest : longest? rules text with
    | none => .stuck (.before place text) text
    | some c =>
      .step ⟨c.rule, place, c.text⟩ c.token
        (lexFrom rules (place.advanceOver c.text) (text.drop c.text.length))
termination_by text.length
decreasing_by
  have hreads := List.length_pos_iff.2 (text_ne_nil_of_longest? _hbest)
  have htext := List.length_pos_iff.2 _htext
  rw [List.length_drop]
  omega

/-- Cuts a text. -/
def lex {τ : Type} (rules : List (TokenRule τ)) (text : List Char) : Lexing τ :=
  lexFrom rules {} text

namespace Lexing

variable {τ : Type}

/-- The texts of all matches, one after the other. -/
def texts : Lexing τ → List Char
  | .finished _ => []
  | .stuck _ _ => []
  | .step m _ next => m.text ++ next.texts

/-- The text that could not be cut. -/
def rest : Lexing τ → List Char
  | .finished _ => []
  | .stuck _ rest => rest
  | .step _ _ next => next.rest

/-- Nothing of the text is lost: the matches and what is left over make it up. -/
theorem texts_append_rest (rules : List (TokenRule τ)) (htied : ∀ rule ∈ rules, rule.IsTied)
    (place : Location) (text : List Char) :
    (lexFrom rules place text).texts ++ (lexFrom rules place text).rest = text := by
  fun_induction lexFrom rules place text with
  | case1 => simp [texts, rest]
  | case2 => simp [texts, rest]
  | case3 place text _htext c hbest ih =>
    obtain ⟨behind, rfl⟩ := isPrefix_of_longest? htied hbest
    rw [List.drop_left] at ih
    rw [List.drop_left, texts, rest, List.append_assoc, ih]

end Lexing

end GuardedGrammar
