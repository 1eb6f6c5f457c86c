/-
  Names and their numbers.

  A symbol table gives each name it has seen a number, counting from zero in the order in which the
  names were first seen.  Numbers are never given back, so a name keeps its number for good.  That no
  name is listed twice is part of the type.

  Main statement: `id?_eq_some_iff`, the two directions of looking up agree.
-/

namespace GuardedGrammar

/-- The names seen so far, in the order of their numbers. -/
structure SymbolTable where
  names : List String
  nodup : names.Nodup
deriving DecidableEq, Repr

namespace SymbolTable

/-- No names. -/
def empty : SymbolTable := ⟨[], List.nodup_nil⟩

instance : EmptyCollection SymbolTable := ⟨empty⟩

instance : Inhabited SymbolTable := ⟨empty⟩

/-- Whether a name has been seen. -/
def contains (t : SymbolTable) (name : String) : Bool := t.names.contains name

/-- The number of a name. -/
def id? (t : SymbolTable) (name : String) : Option Nat := t.names.idxOf? name

/-- The name that has a number. -/
def name? (t : SymbolTable) (id : Nat) : Option String := t.names[id]?

/-- How many names there are. -/
def size (t : SymbolTable) : Nat := t.names.length

/-- No name has been entered. -/
def isEmpty (t : SymbolTable) : Bool := t.names.isEmpty

theorem nodup_concat {l : List String} {name : String} (h : l.Nodup) (hn : name ∉ l) :
    (l ++ [name]).Nodup := by
  refine List.nodup_append.2 ⟨h, by simp, ?_⟩
  intro a ha b hb
  simp only [List.mem_singleton] at hb
  subst hb
  exact fun e => hn (e ▸ ha)

/-- Enters a name, if it is new. -/
def add (t : SymbolTable) (name : String) : SymbolTable :=
  if h : name ∈ t.names then t else ⟨t.names ++ [name], nodup_concat t.nodup h⟩

/-- Enters names one after the other. -/
def addAll (t : SymbolTable) (names : List String) : SymbolTable := names.foldl add t

/-- The number that a name has, or would get if it were entered now. -/
def idOf (t : SymbolTable) (name : String) : Nat := t.names.idxOf name

/-- Enters a name and answers with its number: the one that it has already, or else the next one. -/
def enter (t : SymbolTable) (name : String) : Nat × SymbolTable :=
  match t.id? name with
  | some id => (id, t)
  | none => (t.size, t.add name)

/-- A new name is put at the end. -/
theorem names_add (t : SymbolTable) (name : String) :
    (t.add name).names = if name ∈ t.names then t.names else t.names ++ [name] := by
  unfold add
  split <;> rfl

theorem mem_names_add (t : SymbolTable) (name n : String) :
    n ∈ (t.add name).names ↔ n ∈ t.names ∨ n = name := by
  rw [names_add]
  split
  · rename_i h
    constructor
    · exact Or.inl
    · rintro (hn | rfl)
      · exact hn
      · exact h
  · simp

/-- Names and numbers belong together: looking one up gives the other. -/
theorem id?_eq_some_iff (t : SymbolTable) (name : String) (id : Nat) :
    t.id? name = some id ↔ t.name? id = some name := by
  obtain ⟨l, hl⟩ := t
  simp only [id?, name?]
  induction l generalizing id with
  | nil => simp
  | cons a l ih =>
    rw [List.nodup_cons] at hl
    by_cases h : a = name
    · subst h
      cases id with
      | zero => simp [List.idxOf?_cons]
      | succ id =>
        simp only [List.idxOf?_cons, beq_self_eq_true, if_true, List.getElem?_cons_succ]
        constructor
        · intro e; simp at e
        · intro e; exact absurd (List.mem_of_getElem? e) hl.1
    · have hb : (a == name) = false := by simp [h]
      cases id with
      | zero => simp [List.idxOf?_cons, hb, h]
      | succ id => simp [List.idxOf?_cons, hb, ih id hl.2]

end SymbolTable

end GuardedGrammar
