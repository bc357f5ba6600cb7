import Mathlib.Data.List.Induction
import OrderedStore.Log.Frame
import OrderedStore.Memtable
import OrderedStore.Proofs.KeyMap
import OrderedStore.Proofs.Table.Image

/-!
# What a history of operations says

Operations that take effect one after the other decide together about every key. A later part of a
history may be laid over an earlier one, also where the two overlap: replaying what is known already
does no harm.

Main statements: `told_append` and `told_overlap`.
-/

namespace OrderedStore

/-! ## The plain map -/

/-- A map from keys to values. -/
abbrev Plain := Bytes → Option Bytes

namespace Plain

/-- The map without keys. -/
def empty : Plain :=
  fun _ => none

/-- The map after a mutation. -/
def change (plain : Plain) (mutation : Mutation) : Plain :=
  fun key => if key = mutation.key then mutation.value? else plain key

/-- The map after an operation; the mutations of a batch take effect in order. -/
def apply (plain : Plain) (operation : Log.Operation) : Plain :=
  operation.mutations.foldl change plain

/-- The map after operations in order. -/
def after (operations : List Log.Operation) : Plain :=
  operations.foldl apply empty

theorem foldl_apply (operations : List Log.Operation) (plain : Plain) :
    operations.foldl apply plain = (operations.flatMap (·.mutations)).foldl change plain := by
  induction operations generalizing plain with
  | nil => rfl
  | cons operation rest ih =>
    rw [List.foldl_cons, ih, List.flatMap_cons, List.foldl_append]
    rfl

end Plain

namespace Memtable

/-- What mutations say about a key, whatever was there before. -/
theorem find?_applyAll (table : Memtable) (mutations : List Mutation) (key : Bytes) :
    (table.applyAll mutations).find? key =
      ((Memtable.empty.applyAll mutations).find? key).or (table.find? key) := by
  induction mutations using List.reverseRecOn with
  | nil => rfl
  | append_singleton front mutation ih =>
    rw [applyAll_append, applyAll_append]
    simp only [applyAll, List.foldl_cons, List.foldl_nil]
    rw [find?_apply, find?_apply]
    split
    · rfl
    · exact ih

theorem mem_toList_iff (table : Memtable) (key : Bytes) (value? : Option Bytes) :
    (key, value?) ∈ table.toList ↔ table.find? key = some value? :=
  KeyMap.mem_toList_iff ..

theorem find?_of_isEmpty {table : Memtable} (h : table.isEmpty = true) (key : Bytes) :
    table.find? key = none := by
  have hnil : table.toList = [] := List.isEmpty_iff.1 h
  cases hfind : table.find? key with
  | none => rfl
  | some value? =>
    have hmem := (mem_toList_iff table key value?).2 hfind
    rw [hnil] at hmem
    cases hmem

theorem exists_find?_of_isEmpty {table : Memtable} (h : table.isEmpty = false) :
    ∃ key, table.find? key ≠ none := by
  have hne : table.toList ≠ [] := List.isEmpty_eq_false_iff.1 h
  obtain ⟨⟨key, value?⟩, hmem⟩ := List.exists_mem_of_ne_nil _ hne
  refine ⟨key, ?_⟩
  rw [(mem_toList_iff table key value?).1 hmem]
  exact Option.some_ne_none _

end Memtable

namespace Log

/-- What operations in order say about a key: nothing, a value, or that it was deleted. -/
def told (operations : List Operation) (key : Bytes) : Option (Option Bytes) :=
  (Memtable.empty.applyAll (operations.flatMap (·.mutations))).find? key

variable {operations front back : List Operation} {key : Bytes} {value? : Option Bytes}

@[simp]
theorem told_nil (key : Bytes) : told [] key = none :=
  rfl

/-- The later part of a history decides first. -/
theorem told_append (front back : List Operation) (key : Bytes) :
    told (front ++ back) key = (told back key).or (told front key) := by
  rw [told, List.flatMap_append, Memtable.applyAll_append, Memtable.find?_applyAll]
  rfl

theorem told_eq_none_of_prefix (h : told operations key = none) (hinitial : front <+: operations) :
    told front key = none := by
  obtain ⟨back, rfl⟩ := hinitial
  rw [told_append] at h
  exact (Option.or_eq_none_iff.1 h).2

/-- A later part of a history may be replayed over an earlier part that reaches into it. -/
theorem told_overlap (operations : List Operation) {later earlier : Nat} (h : later ≤ earlier)
    (key : Bytes) :
    (told (operations.drop later) key).or (told (operations.take earlier) key) =
      told operations key := by
  have hwhole : told operations key =
      (told (operations.drop later) key).or (told (operations.take later) key) := by
    rw [← told_append, List.take_append_drop]
  rw [hwhole]
  cases hlater : told (operations.drop later) key with
  | some value? => rfl
  | none =>
    -- Between the two places nothing is said about the key.
    have hsplit : operations.take earlier =
        operations.take later ++ (operations.drop later).take (earlier - later) := by
      rw [← List.take_add, Nat.add_sub_cancel' h]
    have hbetween := told_eq_none_of_prefix hlater (List.take_prefix (earlier - later) _)
    rw [hsplit, told_append, hbetween]
    rfl

/-- What the operations leave in a plain map. -/
theorem after_eq_told (operations : List Operation) (key : Bytes) :
    Plain.after operations key = (told operations key).join := by
  have hmutations : ∀ (mutations : List Mutation) (plain : Plain),
      mutations.foldl Plain.change plain key =
        ((Memtable.empty.applyAll mutations).find? key).getD (plain key) := by
    intro mutations plain
    induction mutations using List.reverseRecOn with
    | nil => rfl
    | append_singleton front mutation ih =>
      rw [List.foldl_append, Memtable.applyAll_append]
      simp only [Memtable.applyAll, List.foldl_cons, List.foldl_nil, Memtable.find?_apply,
        Plain.change]
      split
      · rfl
      · exact ih
  rw [Plain.after, Plain.foldl_apply, hmutations, told]
  cases Memtable.find? _ key with
  | none => rfl
  | some value? => rfl

/-- What is said about a key was said by a mutation. -/
theorem exists_of_told (h : told operations key = some value?) :
    ∃ operation ∈ operations, ∃ mutation ∈ operation.mutations,
      mutation.key = key ∧ mutation.value? = value? := by
  have hmutations : ∀ mutations : List Mutation,
      (Memtable.empty.applyAll mutations).find? key = some value? →
      ∃ mutation ∈ mutations, mutation.key = key ∧ mutation.value? = value? := by
    intro mutations hfind
    induction mutations using List.reverseRecOn with
    | nil => cases hfind
    | append_singleton front mutation ih =>
      rw [Memtable.applyAll_append] at hfind
      simp only [Memtable.applyAll, List.foldl_cons, List.foldl_nil, Memtable.find?_apply]
        at hfind
      split at hfind
      · rename_i hkey
        exact ⟨mutation, by simp, hkey.symm, Option.some.inj hfind⟩
      · obtain ⟨other, hmem, hother⟩ := ih hfind
        exact ⟨other, List.mem_append_left _ hmem, hother⟩
  obtain ⟨mutation, hmem, hmutation⟩ := hmutations _ h
  obtain ⟨operation, hoperation, hin⟩ := List.mem_flatMap.1 hmem
  exact ⟨operation, hoperation, mutation, hin, hmutation⟩

/-- What a mutation is about is not unknown afterwards. -/
theorem told_ne_none {operation : Operation} {mutation : Mutation}
    (hoperation : operation ∈ operations) (hmutation : mutation ∈ operation.mutations) :
    told operations mutation.key ≠ none := by
  have hmem : mutation ∈ operations.flatMap (·.mutations) :=
    List.mem_flatMap.2 ⟨operation, hoperation, hmutation⟩
  unfold told
  generalize operations.flatMap (·.mutations) = mutations at hmem ⊢
  induction mutations using List.reverseRecOn with
  | nil => cases hmem
  | append_singleton front last ih =>
    rw [Memtable.applyAll_append]
    simp only [Memtable.applyAll, List.foldl_cons, List.foldl_nil, Memtable.find?_apply]
    split
    · simp
    · rename_i hne
      rcases List.mem_append.1 hmem with hfront | hlast
      · exact ih hfront
      · exact absurd (congrArg Mutation.key (List.mem_singleton.1 hlast)) hne

/-! ## Tables of a history -/

/-- Operations that are logged: they change something, and they fit a frame. -/
structure Loggable (operation : Operation) : Prop where
  length : Payload.length operation ≤ Frame.payloadLimit
  nonempty : operation.mutations ≠ []

/-- Every operation can be logged. -/
def Fit (operations : List Operation) : Prop :=
  ∀ operation ∈ operations, Loggable operation

/-- Operations that say nothing are none. -/
theorem Fit.eq_nil (fit : Fit operations) (h : ∀ key, told operations key = none) :
    operations = [] := by
  cases operations with
  | nil => rfl
  | cons operation rest =>
    obtain ⟨mutation, hmem⟩ :=
      List.exists_mem_of_ne_nil _ (fit operation (by simp)).nonempty
    exact absurd (h mutation.key) (told_ne_none (by simp) hmem)

theorem Fit.append {operation : Operation} (fit : Fit operations) (h : Loggable operation) :
    Fit (operations ++ [operation]) := by
  intro other hmem
  rcases List.mem_append.1 hmem with hold | hnew
  · exact fit other hold
  · rw [List.mem_singleton.1 hnew]
    exact h

theorem Fit.drop (fit : Fit operations) (count : Nat) : Fit (operations.drop count) :=
  fun operation hmem => fit operation (List.mem_of_mem_drop hmem)

/-- An entry that a frame of the log can bring. Beside its key and its value there are 28 bytes left
in the payload, which is what the deletion of the key takes. -/
def Carried (entry : TableEntry) : Prop :=
  28 + entry.1.length + (entry.2.map List.length).getD 0 ≤ Frame.payloadLimit

instance (entry : TableEntry) : Decidable (Carried entry) :=
  inferInstanceAs (Decidable (_ ≤ _))

theorem carried_of_mem {mutation : Mutation} {operation : Operation}
    (h : mutation ∈ operation.mutations)
    (short : Payload.length operation ≤ Frame.payloadLimit) :
    Carried (mutation.key, mutation.value?) := by
  have hsum : ∀ mutations, mutation ∈ mutations →
      Payload.mutationLength mutation ≤ Payload.mutationsLength mutations := by
    intro mutations hmem
    induction mutations with
    | nil => cases hmem
    | cons first rest ih =>
      simp only [Payload.mutationsLength]
      rcases List.mem_cons.1 hmem with rfl | hrest
      · exact Nat.le_add_right _ _
      · exact Nat.le_trans (ih hrest) (Nat.le_add_left _ _)
  have hlength : Payload.mutationLength mutation + 16 ≤ Payload.length operation := by
    cases operation with
    | one other =>
      rw [List.mem_singleton.1 h, Nat.add_comm]
      exact Nat.le_refl _
    | batch mutations =>
      have := hsum mutations h
      simp only [Payload.length, Payload.operationLength]
      omega
  cases mutation with
  | put key value | delete key =>
    simp only [Payload.mutationLength] at hlength
    simp only [Carried, Mutation.key, Mutation.value?, Option.map_some, Option.map_none,
      Option.getD_some, Option.getD_none]
    omega

end Log

namespace Memtable

/-- All entries came through the log. -/
def Carried (table : Memtable) : Prop :=
  ∀ entry ∈ table.toList, Log.Carried entry

theorem carried_empty : empty.Carried :=
  fun _ hmem => absurd hmem List.not_mem_nil

/-- Mutations of an operation that fits a frame bring entries that came through the log. -/
theorem Carried.applyAll {table : Memtable} {mutations : List Mutation} (h : table.Carried)
    (short : ∀ mutation ∈ mutations, Log.Carried (mutation.key, mutation.value?)) :
    (table.applyAll mutations).Carried := by
  induction mutations generalizing table with
  | nil => exact h
  | cons mutation rest ih =>
    obtain ⟨hmutation, hrest⟩ := List.forall_mem_cons.1 short
    refine ih ?_ hrest
    rintro ⟨key, value?⟩ hmem
    rw [mem_toList_iff, find?_apply] at hmem
    split at hmem
    · rename_i hkey
      cases hmem
      rw [hkey]
      exact hmutation
    · exact h _ ((mem_toList_iff table key value?).2 hmem)

/-- Entries that came through the log make up a table. -/
theorem Carried.wellFormed {table : Memtable} (h : table.Carried) :
    Table.WellFormed table.toList := by
  have hlimit : Log.Frame.payloadLimit < Table.tombstoneMark := by decide
  have hfield : Table.tombstoneMark < Bytes.fieldSize 4 := by decide
  refine ⟨table.entries.ascending, ?_, ?_⟩
  · intro entry hmem
    have hle := h entry hmem
    unfold Log.Carried at hle
    omega
  · intro entry hmem value hvalue
    have hle := h entry hmem
    simp only [Log.Carried, hvalue, Option.map_some, Option.getD_some] at hle
    omega

end Memtable

namespace Log

variable {operations : List Operation}

/-- What operations that fit a frame leave in a memtable came through the log. -/
theorem carried_of_length_le {table : Memtable}
    (short : ∀ operation ∈ operations, Payload.length operation ≤ Frame.payloadLimit)
    (h : ∀ key value?, table.find? key = some value? → told operations key = some value?) :
    table.Carried := by
  rintro ⟨key, value?⟩ hmem
  obtain ⟨operation, hoperation, mutation, hmutation, rfl, rfl⟩ :=
    exists_of_told (h key value? ((table.mem_toList_iff key value?).1 hmem))
  exact carried_of_mem hmutation (short operation hoperation)

/-- It can be written as a table. -/
theorem wellFormed_of_length_le {table : Memtable}
    (short : ∀ operation ∈ operations, Payload.length operation ≤ Frame.payloadLimit)
    (h : ∀ key value?, table.find? key = some value? → told operations key = some value?) :
    Table.WellFormed table.toList :=
  (carried_of_length_le short h).wellFormed

theorem wellFormed_of_fit {table : Memtable} (fit : Fit operations)
    (h : ∀ key value?, table.find? key = some value? → told operations key = some value?) :
    Table.WellFormed table.toList :=
  wellFormed_of_length_le (fun operation hmem => (fit operation hmem).length) h

end Log

end OrderedStore
