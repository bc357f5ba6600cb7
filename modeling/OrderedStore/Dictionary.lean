/-!
# Dictionaries

Finite maps in which only equality of keys matters: names to objects. The order of the entries
carries no meaning.

Main statements: `Dictionary.find?_insert` and `Dictionary.find?_erase` say what a look-up finds
after an update.
-/

namespace OrderedStore

/-- A finite map given by its entries; an earlier entry hides a later one with the same key. -/
structure Dictionary (κ ν : Type) where
  /-- The entries, newest first. -/
  entries : List (κ × ν)

namespace Dictionary

variable {κ ν : Type} [DecidableEq κ]

def empty : Dictionary κ ν :=
  ⟨[]⟩

instance : Inhabited (Dictionary κ ν) :=
  ⟨empty⟩

def find? (d : Dictionary κ ν) (key : κ) : Option ν :=
  (d.entries.find? (·.1 = key)).map (·.2)

def contains (d : Dictionary κ ν) (key : κ) : Bool :=
  (d.find? key).isSome

def erase (d : Dictionary κ ν) (key : κ) : Dictionary κ ν :=
  ⟨d.entries.filter (·.1 ≠ key)⟩

/-- Gives a key a value in place of the one it had. -/
def insert (d : Dictionary κ ν) (key : κ) (value : ν) : Dictionary κ ν :=
  ⟨(key, value) :: (d.erase key).entries⟩

@[simp]
theorem find?_empty (key : κ) : (empty : Dictionary κ ν).find? key = none :=
  rfl

theorem find?_erase (d : Dictionary κ ν) (key other : κ) :
    (d.erase key).find? other = if other = key then none else d.find? other := by
  unfold find? erase
  rw [List.find?_filter]
  split
  · rename_i h
    subst h
    simp
  · rename_i h
    congr 2
    funext entry
    by_cases hk : entry.1 = other
    · simp [hk, h]
    · simp [hk]

theorem find?_insert (d : Dictionary κ ν) (key other : κ) (value : ν) :
    (d.insert key value).find? other = if other = key then some value else d.find? other := by
  by_cases h : other = key
  · subst h
    simp [insert, find?]
  · have h' : ¬ key = other := fun e => h e.symm
    have := find?_erase d key other
    simp only [h, if_false] at this ⊢
    rw [← this]
    simp [insert, find?, h']

end Dictionary

end OrderedStore
