/-!
# Named fields

Tables with text keys that keep the order in which their names first appeared.
-/

namespace ApiLint

/-- Named values in order; no name stands twice in a table that `insert` built. -/
abbrev Fields (α : Type) := List (String × α)

namespace Fields

variable {α : Type}

/-- The value of a name. -/
def find? (fs : Fields α) (name : String) : Option α :=
  match fs with
  | [] => none
  | f :: rest => if f.1 = name then some f.2 else find? rest name

/-- Gives a name a value: at the place of the name if it has one, otherwise at the end. -/
def insert (fs : Fields α) (name : String) (value : α) : Fields α :=
  match fs with
  | [] => [(name, value)]
  | f :: rest => if f.1 = name then (name, value) :: rest else f :: insert rest name value

/-- The table of fields given in order; of equal names the first gives the place and the last the
value. -/
def ofList (fs : List (String × α)) : Fields α := fs.foldl (fun acc f => insert acc f.1 f.2) []

/-- Adds the fields of a second table to a first. -/
def merge (fs gs : Fields α) : Fields α := gs.foldl (fun acc g => insert acc g.1 g.2) fs

def names (fs : Fields α) : List String := fs.map (·.1)

/-- Whether a name has a value. -/
def has (fs : Fields α) (name : String) : Bool := (fs.find? name).isSome

theorem find?_insert (fs : Fields α) (name : String) (value : α) (other : String) :
    (fs.insert name value).find? other = if name = other then some value else fs.find? other := by
  induction fs with
  | nil => simp [insert, find?]
  | cons f rest ih =>
    by_cases h : f.1 = name
    · subst h
      by_cases h' : f.1 = other <;> simp [insert, find?, h']
    · by_cases h' : f.1 = other
      · have hne : name ≠ other := fun e => h (h'.trans e.symm)
        simp only [insert, if_neg h, find?, if_pos h', if_neg hne]
      · simp [insert, find?, h, h', ih]

theorem names_insert (fs : Fields α) (name : String) (value : α) :
    (fs.insert name value).names
      = if name ∈ fs.names then fs.names else fs.names ++ [name] := by
  induction fs with
  | nil => simp [insert, names]
  | cons f rest ih =>
    by_cases h : f.1 = name
    · subst h; simp [insert, names]
    · have h' : name ≠ f.1 := fun e => h e.symm
      simp only [names] at ih
      simp only [insert, h, if_false, names, List.map_cons, ih, List.mem_cons, h', false_or]
      split <;> simp [*]

end Fields

end ApiLint
