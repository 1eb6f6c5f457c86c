/-
  The attributes of an occurrence of a symbol.

  Attributes are named texts.  They are kept in the order in which they were first given: giving a
  new value to an attribute leaves it at its place, and a new attribute comes last.  That no name
  occurs twice is part of the type.

  Main statements: `get?_insert`, what a reader finds after an assignment, and `names_insert`, what
  an assignment does to the names.
-/

namespace GuardedGrammar

/-- Attributes with their values, in the order in which they were first given. -/
structure Attributes where
  entries : List (String × String)
  nodup : (entries.map (·.1)).Nodup
deriving DecidableEq, Repr

namespace Attributes

/-- No attributes. -/
def empty : Attributes := ⟨[], by simp⟩

instance : EmptyCollection Attributes := ⟨empty⟩

instance : Inhabited Attributes := ⟨empty⟩

/-- The names of the attributes, in order. -/
def names (a : Attributes) : List String := a.entries.map (·.1)

/-- The value of an attribute. -/
def get? (a : Attributes) (name : String) : Option String := a.entries.lookup name

/-- Replaces the value of a name that occurs, or adds the name with its value at the end. -/
def insertEntry (name value : String) : List (String × String) → List (String × String)
  | [] => [(name, value)]
  | (n, v) :: rest => if n = name then (name, value) :: rest else (n, v) :: insertEntry name value rest

/-- A new name comes behind those that are there; a known one keeps its place. -/
theorem map_fst_insertEntry (name value : String) (l : List (String × String)) :
    (insertEntry name value l).map (·.1) =
      if name ∈ l.map (·.1) then l.map (·.1) else l.map (·.1) ++ [name] := by
  induction l with
  | nil => simp [insertEntry]
  | cons e l ih =>
    obtain ⟨n, v⟩ := e
    by_cases h : n = name
    · subst h; simp [insertEntry]
    · have h' : ¬name = n := fun e => h e.symm
      simp only [insertEntry, h, if_false, List.map_cons, List.mem_cons, h', false_or, ih]
      split <;> rfl

/-- No name comes twice. -/
theorem nodup_insertEntry (name value : String) (l : List (String × String))
    (h : (l.map (·.1)).Nodup) : ((insertEntry name value l).map (·.1)).Nodup := by
  rw [map_fst_insertEntry]
  split
  · exact h
  · rename_i hn
    refine List.nodup_append.2 ⟨h, by simp, ?_⟩
    intro a ha b hb
    simp only [List.mem_singleton] at hb
    subst hb
    intro e
    exact hn (e ▸ ha)

/-- Gives an attribute a value. -/
def insert (a : Attributes) (name value : String) : Attributes :=
  ⟨insertEntry name value a.entries, nodup_insertEntry name value a.entries a.nodup⟩

/-- Gives values one after the other. -/
def ofList (l : List (String × String)) : Attributes :=
  l.foldl (fun a e => a.insert e.1 e.2) empty

@[simp] theorem get?_empty (name : String) : empty.get? name = none := rfl

/-- An assignment changes what is read under its name and nothing else. -/
theorem get?_insert (a : Attributes) (name value n : String) :
    (a.insert name value).get? n = if n = name then some value else a.get? n := by
  obtain ⟨l, hl⟩ := a
  simp only [insert, get?]
  clear hl
  induction l with
  | nil =>
    by_cases h : n = name
    · subst h; simp [insertEntry]
    · have hb : (n == name) = false := by simp [h]
      simp [insertEntry, List.lookup_cons, h, hb]
  | cons e l ih =>
    obtain ⟨m, v⟩ := e
    by_cases hm : m = name
    · subst hm
      by_cases h : n = m
      · subst h; simp [insertEntry]
      · have hb : (n == m) = false := by simp [h]
        simp [insertEntry, List.lookup_cons, h, hb]
    · simp only [insertEntry, hm, if_false, List.lookup_cons]
      by_cases h : n = m
      · subst h; simp [hm]
      · have hb : (n == m) = false := by simp [h]
        simp only [hb, ih]

/-- An assignment keeps the names in order, and adds its own at the end if it is new. -/
theorem names_insert (a : Attributes) (name value : String) :
    (a.insert name value).names = if name ∈ a.names then a.names else a.names ++ [name] :=
  map_fst_insertEntry name value a.entries

end Attributes

/-- A terminal as it is given to a parse: its name and its attributes. -/
structure Terminal where
  name : String
  attributes : Attributes := ∅
deriving DecidableEq, Repr

end GuardedGrammar
