import OrderedStore.KeyMap

/-!
# More on ordered maps

Look-ups in lists of entries, and maps that are built from lists.
-/

namespace OrderedStore.KeyMap

variable {V : Type}

/-! ## Bounds -/

theorem le_of_getLast? {entries : List (Bytes × V)} {entry last : Bytes × V}
    (sorted : entries.Pairwise (·.1 < ·.1)) (hmem : entry ∈ entries)
    (hlast : entries.getLast? = some last) : entry.1 ≤ last.1 := by
  obtain ⟨front, rfl⟩ := List.getLast?_eq_some_iff.1 hlast
  rcases List.mem_append.1 hmem with hfront | hend
  · exact Std.le_of_lt ((List.pairwise_append.1 sorted).2.2 entry hfront last (by simp))
  · rw [List.mem_singleton.1 hend]
    exact Std.le_refl _

theorem le_of_head? {entries : List (Bytes × V)} {entry first : Bytes × V}
    (sorted : entries.Pairwise (·.1 < ·.1)) (hmem : entry ∈ entries)
    (hfirst : entries.head? = some first) : first.1 ≤ entry.1 := by
  obtain ⟨rest, rfl⟩ := List.head?_eq_some_iff.1 hfirst
  rcases List.mem_cons.1 hmem with rfl | hrest
  · exact Std.le_refl _
  · exact Std.le_of_lt ((List.pairwise_cons.1 sorted).1 entry hrest)

/-! ## Look-ups -/

theorem lookup_append (key : Bytes) (front rest : List (Bytes × V)) :
    lookup key (front ++ rest) = (lookup key front).or (lookup key rest) := by
  induction front with
  | nil => rfl
  | cons entry front ih =>
    obtain ⟨k, v⟩ := entry
    simp only [List.cons_append, lookup]
    split
    · rfl
    · exact ih

theorem lookup_eq_none_iff {key : Bytes} {entries : List (Bytes × V)} :
    lookup key entries = none ↔ key ∉ entries.map (·.1) := by
  induction entries with
  | nil => simp [lookup]
  | cons entry rest ih =>
    obtain ⟨k, v⟩ := entry
    by_cases hk : key = k <;> simp [lookup, hk, ih]

theorem lookup_filter {key : Bytes} (keep : Bytes → Bool) (entries : List (Bytes × V)) :
    lookup key (entries.filter fun entry => keep entry.1) =
      if keep key then lookup key entries else none := by
  induction entries with
  | nil => simp [lookup]
  | cons entry rest ih =>
    obtain ⟨k, v⟩ := entry
    by_cases hkeep : keep k = true
    · rw [List.filter_cons_of_pos (by simpa using hkeep)]
      simp only [lookup, ih]
      by_cases hk : key = k
      · simp [hk, hkeep]
      · simp [hk]
    · rw [List.filter_cons_of_neg (by simpa using hkeep), ih]
      by_cases hk : key = k
      · simp [hk, hkeep]
      · simp [hk, lookup]

/-! ## Building maps -/

theorem place_last {key : Bytes} {value : V} {replace : V → V} {entries : List (Bytes × V)}
    (h : ∀ entry ∈ entries, entry.1 < key) :
    place key value replace entries = entries ++ [(key, value)] := by
  induction entries with
  | nil => rfl
  | cons entry rest ih =>
    obtain ⟨k, v⟩ := entry
    have hk : k < key := h (k, v) (by simp)
    have hnot : ¬ key < k := fun hlt => List.lt_irrefl k (List.lt_trans hk hlt)
    have hne : key ≠ k := fun heq => List.lt_irrefl k (heq ▸ hk)
    simp only [place, hnot, hne, if_false, List.cons_append]
    rw [ih fun other hmem => h other (List.mem_cons_of_mem _ hmem)]

/-- Entries that come in order are kept as they come. -/
theorem toList_insertAll {m : KeyMap V} {entries : List (Bytes × V)}
    (h : (m.toList ++ entries).Pairwise (·.1 < ·.1)) :
    (m.insertAll entries).toList = m.toList ++ entries := by
  induction entries generalizing m with
  | nil => simp [insertAll]
  | cons entry rest ih =>
    have hlast : (m.insert entry.1 entry.2).toList = m.toList ++ [entry] := by
      refine place_last fun other hmem => ?_
      exact (List.pairwise_append.1 h).2.2 other hmem entry (by simp)
    have hinsert : m.insertAll (entry :: rest) = (m.insert entry.1 entry.2).insertAll rest := rfl
    rw [hinsert, ih (by rw [hlast]; simpa using h), hlast]
    simp

theorem toList_insertAll_empty {entries : List (Bytes × V)}
    (h : entries.Pairwise (·.1 < ·.1)) : (empty.insertAll entries).toList = entries :=
  toList_insertAll (m := empty) h

end OrderedStore.KeyMap
