/-! Finite tables of names.

A `Dictionary` gives values to names, a `NameSet` holds names. Both keep the order in which names came
in, and both are seen through one question only: what a name stands for (`Dictionary.get?`) and whether
it is there (`NameSet.contains`). -/
namespace Offside

structure Dictionary (α : Type) where
  entries : List (String × α)
  deriving Repr, Inhabited

namespace Dictionary

variable {α : Type}

def empty : Dictionary α := ⟨[]⟩

def find (name : String) : List (String × α) → Option α
  | [] => none
  | (n, v) :: rest => if n = name then some v else find name rest

/-- What a name stands for. -/
def get? (d : Dictionary α) (name : String) : Option α := find name d.entries

def contains (d : Dictionary α) (name : String) : Bool := (d.get? name).isSome

def put (name : String) (value : α) : List (String × α) → List (String × α)
  | [] => [(name, value)]
  | (n, v) :: rest => if n = name then (name, value) :: rest else (n, v) :: put name value rest

/-- Gives a name a value, whatever it stood for. -/
def insert (d : Dictionary α) (name : String) (value : α) : Dictionary α :=
  ⟨put name value d.entries⟩

/-- Gives a name a value unless it has one. -/
def insertNew (d : Dictionary α) (name : String) (value : α) : Dictionary α :=
  if d.contains name then d else d.insert name value

def erase (d : Dictionary α) (name : String) : Dictionary α :=
  ⟨d.entries.filter fun e => e.1 != name⟩

/-- Adds the names of another dictionary that are missing here. -/
def absorb (d e : Dictionary α) : Dictionary α :=
  e.entries.foldl (fun d entry => d.insertNew entry.1 entry.2) d

def size (d : Dictionary α) : Nat := d.entries.length

/-- The entries in the order of their names. -/
def sorted (d : Dictionary α) : List (String × α) :=
  d.entries.mergeSort fun a b => decide (a.1 ≤ b.1)

@[simp] theorem get?_empty (name : String) : (empty : Dictionary α).get? name = none := rfl

theorem find_put (name other : String) (value : α) (entries : List (String × α)) :
    find other (put name value entries) = if name = other then some value else find other entries := by
  induction entries with
  | nil => rfl
  | cons entry rest ih =>
    obtain ⟨n, v⟩ := entry
    unfold put
    by_cases h : n = name
    · subst h
      by_cases hn : n = other <;> simp [find, hn]
    · by_cases hn : n = other
      · subst hn
        simp [find, h, Ne.symm h]
      · simp [find, h, hn, ih]

theorem get?_insert (d : Dictionary α) (name other : String) (value : α) :
    (d.insert name value).get? other = if name = other then some value else d.get? other :=
  find_put name other value d.entries

theorem get?_insertNew (d : Dictionary α) (name other : String) (value : α) :
    (d.insertNew name value).get? other =
      (d.get? other).or (if name = other then some value else none) := by
  unfold insertNew contains
  by_cases h : name = other
  · subst h
    cases hn : d.get? name <;> simp [hn, get?_insert]
  · cases d.get? name <;> simp [get?_insert, h]

theorem find_filter (name other : String) (entries : List (String × α)) :
    find other (entries.filter fun e => e.1 != name) =
      if name = other then none else find other entries := by
  induction entries with
  | nil => simp [find]
  | cons entry rest ih =>
    obtain ⟨n, v⟩ := entry
    by_cases h : n = name
    · subst h
      by_cases hn : n = other <;> simp_all [find]
    · by_cases hn : n = other
      · subst hn
        simp [find, h, Ne.symm h]
      · simp [find, h, hn, ih]

theorem get?_erase (d : Dictionary α) (name other : String) :
    (d.erase name).get? other = if name = other then none else d.get? other :=
  find_filter name other d.entries

/-- A name keeps what it stands for; a missing one takes it from the other dictionary. -/
theorem get?_absorb (d e : Dictionary α) (name : String) :
    (d.absorb e).get? name = (d.get? name).or (e.get? name) := by
  obtain ⟨entries⟩ := e
  unfold absorb
  induction entries generalizing d with
  | nil => simp [get?, find]
  | cons entry rest ih =>
    obtain ⟨n, v⟩ := entry
    simp only [List.foldl_cons, ih, get?_insertNew]
    by_cases h : n = name
    · subst h
      cases hn : d.get? n <;> simp [get?, find]
    · cases hn : d.get? name <;> simp [get?, find, h]

end Dictionary

structure NameSet where
  names : List String
  deriving DecidableEq, Repr, Inhabited

namespace NameSet

def empty : NameSet := ⟨[]⟩

def contains (s : NameSet) (name : String) : Bool := s.names.contains name

def insert (s : NameSet) (name : String) : NameSet :=
  if s.contains name then s else ⟨s.names ++ [name]⟩

/-- Adds all names of another set. -/
def absorb (s t : NameSet) : NameSet :=
  t.names.foldl insert s

/-- The names in order. -/
def sorted (s : NameSet) : List String :=
  s.names.mergeSort fun a b => decide (a ≤ b)

theorem contains_insert (s : NameSet) (name other : String) :
    (s.insert name).contains other = (s.contains other || name == other) := by
  unfold insert contains
  by_cases h : name = other
  · subst h
    by_cases hn : name ∈ s.names <;> simp [hn]
  · by_cases hn : name ∈ s.names <;> simp [hn, h, Ne.symm h]

theorem contains_absorb (s t : NameSet) (name : String) :
    (s.absorb t).contains name = (s.contains name || t.contains name) := by
  obtain ⟨names⟩ := t
  unfold absorb
  induction names generalizing s with
  | nil => simp [contains]
  | cons n rest ih =>
    have hc : (⟨n :: rest⟩ : NameSet).contains name =
        (n == name || (⟨rest⟩ : NameSet).contains name) := by
      by_cases h : n = name
      · simp [contains, h]
      · simp [contains, h, Ne.symm h]
    simp only [List.foldl_cons, ih, contains_insert, hc, Bool.or_assoc]

end NameSet

end Offside
