import OrderedStore.Bytes

/-!
# Ordered maps

Finite maps from byte strings, kept as a list of entries in strictly ascending key order. The
order is part of the type, so walking a map from any key needs no search for the next key.

Main statements: `KeyMap.find?_insert`, `KeyMap.find?_insertIfNew` and `KeyMap.find?_erase` say
what a look-up finds after an update, and `KeyMap.mem_toList_iff` ties the entries to look-ups.
-/

namespace OrderedStore

/-- A finite map from byte strings. -/
structure KeyMap (V : Type) where
  toList : List (Bytes × V)
  /-- No key comes twice and none comes before a smaller one. -/
  ascending : toList.Pairwise (·.1 < ·.1) := by simp

namespace KeyMap

variable {V : Type}

def lookup (key : Bytes) : List (Bytes × V) → Option V
  | [] => none
  | (k, v) :: rest => if key = k then some v else lookup key rest

/-- Places an entry among ascending ones; `replace` gives the value for a key that is there. -/
def place (key : Bytes) (value : V) (replace : V → V) : List (Bytes × V) → List (Bytes × V)
  | [] => [(key, value)]
  | (k, v) :: rest =>
    if key < k then (key, value) :: (k, v) :: rest
    else if key = k then (k, replace v) :: rest
    else (k, v) :: place key value replace rest

theorem lookup_eq_none_of_forall_lt {key : Bytes} {entries : List (Bytes × V)}
    (h : ∀ entry ∈ entries, key < entry.1) : lookup key entries = none := by
  induction entries with
  | nil => rfl
  | cons entry rest ih =>
    obtain ⟨k, v⟩ := entry
    have hk : key ≠ k := fun e => List.lt_irrefl k (e ▸ h (k, v) (by simp))
    simp only [lookup, hk, if_false]
    exact ih fun e he => h e (by simp [he])

theorem lookup_place {key other : Bytes} {value : V} {replace : V → V}
    {entries : List (Bytes × V)} (h : entries.Pairwise (·.1 < ·.1)) :
    lookup other (place key value replace entries) =
      if other = key then some ((lookup key entries).elim value replace)
      else lookup other entries := by
  induction entries with
  | nil => simp [place, lookup]
  | cons entry rest ih =>
    obtain ⟨k, v⟩ := entry
    obtain ⟨hk, hrest⟩ := List.pairwise_cons.1 h
    by_cases hlt : key < k
    · have hnone : lookup key ((k, v) :: rest) = none := by
        refine lookup_eq_none_of_forall_lt fun e he => ?_
        rcases List.mem_cons.1 he with rfl | he
        · exact hlt
        · exact List.lt_trans hlt (hk e he)
      rw [hnone]
      simp only [place, hlt, if_true]
      simp [lookup]
    · by_cases heq : key = k
      · subst heq
        simp only [place, hlt, if_false, if_true, lookup]
        by_cases ho : other = key <;> simp [ho]
      · simp only [place, hlt, heq, if_false, lookup, ih hrest]
        by_cases ho : other = k
        · have hok : ¬ other = key := fun e => heq (e ▸ ho)
          simp [ho, Ne.symm heq]
        · simp [ho]

theorem mem_place {key : Bytes} {value : V} {replace : V → V} {entries : List (Bytes × V)}
    {entry : Bytes × V} (h : entry ∈ place key value replace entries) :
    entry.1 = key ∨ entry ∈ entries := by
  induction entries with
  | nil =>
    simp only [place, List.mem_singleton] at h
    exact Or.inl (h ▸ rfl)
  | cons first rest ih =>
    obtain ⟨k, v⟩ := first
    by_cases hlt : key < k
    · simp only [place, hlt, if_true] at h
      rcases List.mem_cons.1 h with rfl | h
      · exact Or.inl rfl
      · exact Or.inr h
    · by_cases heq : key = k
      · simp only [place, heq, if_true] at h
        subst heq
        simp only [List.lt_irrefl, if_false] at h
        rcases List.mem_cons.1 h with rfl | h
        · exact Or.inl rfl
        · exact Or.inr (List.mem_cons_of_mem _ h)
      · simp only [place, hlt, heq, if_false] at h
        rcases List.mem_cons.1 h with rfl | h
        · exact Or.inr (List.mem_cons_self)
        · exact (ih h).imp id (List.mem_cons_of_mem _)

theorem ascending_place {key : Bytes} {value : V} {replace : V → V}
    {entries : List (Bytes × V)} (h : entries.Pairwise (·.1 < ·.1)) :
    (place key value replace entries).Pairwise (·.1 < ·.1) := by
  induction entries with
  | nil => simp [place]
  | cons first rest ih =>
    obtain ⟨k, v⟩ := first
    obtain ⟨hk, hrest⟩ := List.pairwise_cons.1 h
    by_cases hlt : key < k
    · simp only [place, hlt, if_true]
      refine List.pairwise_cons.2 ⟨fun e he => ?_, h⟩
      rcases List.mem_cons.1 he with rfl | he
      · exact hlt
      · exact List.lt_trans hlt (hk e he)
    · by_cases heq : key = k
      · simp only [place, heq, if_true]
        subst heq
        simp only [List.lt_irrefl, if_false]
        exact List.pairwise_cons.2 ⟨hk, hrest⟩
      · simp only [place, hlt, heq, if_false]
        refine List.pairwise_cons.2 ⟨fun e he => ?_, ih hrest⟩
        rcases mem_place he with hkey | he
        · rcases Std.lt_trichotomy k key with hlt' | heq' | hgt
          · exact hkey ▸ hlt'
          · exact absurd heq'.symm heq
          · exact absurd hgt hlt
        · exact hk e he

def empty : KeyMap V :=
  ⟨[], List.Pairwise.nil⟩

instance : Inhabited (KeyMap V) :=
  ⟨empty⟩

def find? (m : KeyMap V) (key : Bytes) : Option V :=
  lookup key m.toList

/-- Gives a key a value in place of the one it had. -/
def insert (m : KeyMap V) (key : Bytes) (value : V) : KeyMap V :=
  ⟨place key value (fun _ => value) m.toList, ascending_place m.ascending⟩

/-- Gives a key a value unless it has one. -/
def insertIfNew (m : KeyMap V) (key : Bytes) (value : V) : KeyMap V :=
  ⟨place key value id m.toList, ascending_place m.ascending⟩

def erase (m : KeyMap V) (key : Bytes) : KeyMap V :=
  ⟨m.toList.filter (·.1 ≠ key), m.ascending.filter _⟩

def size (m : KeyMap V) : Nat :=
  m.toList.length

def isEmpty (m : KeyMap V) : Bool :=
  m.toList.isEmpty

def minKey? (m : KeyMap V) : Option Bytes :=
  m.toList.head?.map (·.1)

def maxKey? (m : KeyMap V) : Option Bytes :=
  m.toList.getLast?.map (·.1)

/-- The entries whose key is at least `start`, in ascending order. -/
def entriesFrom (m : KeyMap V) (start : Bytes) : List (Bytes × V) :=
  m.toList.dropWhile (·.1 < start)

/-- Inserts entries one after the other. -/
def insertAll (m : KeyMap V) (entries : List (Bytes × V)) : KeyMap V :=
  entries.foldl (fun m entry => m.insert entry.1 entry.2) m

@[simp]
theorem find?_empty (key : Bytes) : (empty : KeyMap V).find? key = none :=
  rfl

@[simp]
theorem toList_empty : (empty : KeyMap V).toList = [] :=
  rfl

theorem find?_insert (m : KeyMap V) (key other : Bytes) (value : V) :
    (m.insert key value).find? other = if other = key then some value else m.find? other := by
  unfold find? insert
  rw [lookup_place m.ascending]
  cases lookup key m.toList <;> rfl

theorem find?_insertIfNew (m : KeyMap V) (key other : Bytes) (value : V) :
    (m.insertIfNew key value).find? other =
      if other = key then some ((m.find? key).getD value) else m.find? other := by
  unfold find? insertIfNew
  rw [lookup_place m.ascending]
  cases lookup key m.toList <;> rfl

theorem lookup_filter_ne (key other : Bytes) (entries : List (Bytes × V)) :
    lookup other (entries.filter (·.1 ≠ key)) =
      if other = key then none else lookup other entries := by
  induction entries with
  | nil => simp [lookup]
  | cons first rest ih =>
    obtain ⟨k, v⟩ := first
    by_cases hk : k = key
    · subst hk
      rw [List.filter_cons_of_neg (by simp), ih]
      by_cases ho : other = k <;> simp [lookup, ho]
    · rw [List.filter_cons_of_pos (by simpa using hk)]
      simp only [lookup, ih]
      by_cases ho : other = k
      · simp [ho, hk]
      · simp [ho]

theorem find?_erase (m : KeyMap V) (key other : Bytes) :
    (m.erase key).find? other = if other = key then none else m.find? other :=
  lookup_filter_ne key other m.toList

theorem mem_of_lookup_eq_some {key : Bytes} {value : V} {entries : List (Bytes × V)}
    (h : lookup key entries = some value) : (key, value) ∈ entries := by
  induction entries with
  | nil => simp [lookup] at h
  | cons first rest ih =>
    obtain ⟨k, v⟩ := first
    by_cases hk : key = k
    · simp only [lookup, hk, if_true, Option.some.injEq] at h
      simp [hk, h]
    · simp only [lookup, hk, if_false] at h
      exact List.mem_cons_of_mem _ (ih h)

theorem lookup_eq_some_of_mem {key : Bytes} {value : V} {entries : List (Bytes × V)}
    (sorted : entries.Pairwise (·.1 < ·.1)) (h : (key, value) ∈ entries) :
    lookup key entries = some value := by
  induction entries with
  | nil => simp at h
  | cons first rest ih =>
    obtain ⟨k, v⟩ := first
    obtain ⟨hk, hrest⟩ := List.pairwise_cons.1 sorted
    rcases List.mem_cons.1 h with heq | hmem
    · cases heq
      simp [lookup]
    · have hlt : k < key := hk _ hmem
      have hne : key ≠ k := fun e => List.lt_irrefl k (e ▸ hlt)
      simpa [lookup, hne] using ih hrest hmem

/-- An entry is in a map exactly when a look-up finds it. -/
theorem mem_toList_iff (m : KeyMap V) (key : Bytes) (value : V) :
    (key, value) ∈ m.toList ↔ m.find? key = some value :=
  ⟨lookup_eq_some_of_mem m.ascending, mem_of_lookup_eq_some⟩

theorem eq_of_ascending_of_mem_iff {left right : List (Bytes × V)}
    (hl : left.Pairwise (·.1 < ·.1)) (hr : right.Pairwise (·.1 < ·.1))
    (h : ∀ entry, entry ∈ left ↔ entry ∈ right) : left = right := by
  induction left generalizing right with
  | nil =>
    cases right with
    | nil => rfl
    | cons r rest => exact absurd ((h r).2 (by simp)) (by simp)
  | cons l left ih =>
    cases right with
    | nil => exact absurd ((h l).1 (by simp)) (by simp)
    | cons r right =>
      obtain ⟨hl1, hl2⟩ := List.pairwise_cons.1 hl
      obtain ⟨hr1, hr2⟩ := List.pairwise_cons.1 hr
      have heq : l = r := by
        rcases List.mem_cons.1 ((h l).1 (by simp)) with e | hlr
        · exact e
        · rcases List.mem_cons.1 ((h r).2 (by simp)) with e | hrl
          · exact e.symm
          · exact absurd (List.lt_trans (hl1 r hrl) (hr1 l hlr)) (List.lt_irrefl _)
      subst heq
      congr 1
      refine ih hl2 hr2 fun entry => ?_
      constructor
      · intro he
        rcases List.mem_cons.1 ((h entry).1 (by simp [he])) with e | he'
        · exact absurd (e ▸ hl1 entry he) (List.lt_irrefl _)
        · exact he'
      · intro he
        rcases List.mem_cons.1 ((h entry).2 (by simp [he])) with e | he'
        · exact absurd (e ▸ hr1 entry he) (List.lt_irrefl _)
        · exact he'

/-- The entries from a key on are those whose key is not below it. -/
theorem entriesFrom_eq_filter (m : KeyMap V) (start : Bytes) :
    m.entriesFrom start = m.toList.filter (fun entry => start ≤ entry.1) := by
  obtain ⟨entries, sorted⟩ := m
  unfold entriesFrom
  simp only
  induction entries with
  | nil => rfl
  | cons first rest ih =>
    obtain ⟨hk, hrest⟩ := List.pairwise_cons.1 sorted
    by_cases hlt : first.1 < start
    · rw [List.dropWhile_cons_of_pos (by simpa using hlt),
        List.filter_cons_of_neg (by simpa using hlt)]
      exact ih hrest
    · have hle : start ≤ first.1 := List.not_lt.1 hlt
      rw [List.dropWhile_cons_of_neg (by simpa using hlt), eq_comm, List.filter_eq_self]
      intro entry he
      rcases List.mem_cons.1 he with rfl | he
      · simpa using hle
      · simpa using Std.le_of_lt (Std.lt_of_le_of_lt hle (hk entry he))

end KeyMap

end OrderedStore
