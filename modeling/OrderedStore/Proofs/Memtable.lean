import Mathlib.Logic.Function.Basic
import OrderedStore.Memtable

/-!
# Memtables under any calls

A memtable is a map that knows its size, and never adds up its entries for it: each mutation adds
what comes in and takes off what it replaces. The count is kept in a machine word, where a sum may
wrap around and a difference stops at zero. As long as the bytes can be counted there at all,
neither happens, and the count is exact.

Main definitions:

- `Memtable.Call`, `Memtable.run`: calls that change a memtable, and what they leave.
- `Memtable.told`: the map that calls describe.
- `Memtable.weight`: what entries add up to.
- `Memtable.Metered`: a memtable that counts in a machine word.

Main statement: `Memtable.run_exact`.
-/

namespace OrderedStore.Memtable

/-! ## Calls -/

/-- A call that changes a memtable. -/
inductive Call where
  | put (key value : Bytes)
  | delete (key : Bytes)
  | apply (mutations : List Mutation)
  | clear

/-- The mutations that a call makes, in order. -/
def Call.mutations : Call → List Mutation
  | .put key value => [.put key value]
  | .delete key => [.delete key]
  | .apply mutations => mutations
  | .clear => []

/-- The call that makes one mutation. -/
def Call.single : Mutation → Call
  | .put key value => .put key value
  | .delete key => .delete key

/-- A memtable after a call. -/
def call (table : Memtable) : Call → Memtable
  | .put key value => table.apply (.put key value)
  | .delete key => table.apply (.delete key)
  | .apply mutations => table.applyAll mutations
  | .clear => empty

/-- What calls leave of a new memtable. -/
def run (calls : List Call) : Memtable :=
  calls.foldl call empty

/-- What is known of each key: nothing, its value, or that it was deleted. -/
abbrev Told :=
  Bytes → Option (Option Bytes)

/-- What is known after a mutation. -/
def Told.change (told : Told) (mutation : Mutation) : Told :=
  Function.update told mutation.key (some mutation.value?)

/-- What is known after a call. -/
def Told.call (told : Told) : Call → Told
  | .put key value => Function.update told key (some (some value))
  | .delete key => Function.update told key (some none)
  | .apply mutations => mutations.foldl change told
  | .clear => fun _ => none

/-- The map that calls describe. -/
def told (calls : List Call) : Told :=
  calls.foldl Told.call fun _ => none

/-- A call other than clearing is its mutations, one after the other. -/
theorem call_eq_applyAll (table : Memtable) {request : Call} (h : request ≠ .clear) :
    table.call request = table.applyAll request.mutations := by
  cases request with
  | put | delete | apply => rfl
  | clear => exact absurd rfl h

theorem find?_apply_eq_change (table : Memtable) (mutation : Mutation) :
    (table.apply mutation).find? = Told.change table.find? mutation := by
  funext key
  rw [find?_apply, Told.change, Function.update_apply]

theorem find?_applyAll_eq_change (table : Memtable) (mutations : List Mutation) :
    (table.applyAll mutations).find? = mutations.foldl Told.change table.find? := by
  induction mutations generalizing table with
  | nil => rfl
  | cons mutation rest ih =>
    rw [List.foldl_cons, ← find?_apply_eq_change]
    exact ih (table.apply mutation)

theorem find?_call (table : Memtable) (request : Call) :
    (table.call request).find? = Told.call table.find? request := by
  cases request with
  | put key value => exact find?_apply_eq_change table (.put key value)
  | delete key => exact find?_apply_eq_change table (.delete key)
  | apply mutations => exact find?_applyAll_eq_change table mutations
  | clear => rfl

/-- A memtable holds the map that its calls describe. -/
theorem find?_run (calls : List Call) : (run calls).find? = told calls := by
  have hfold : ∀ table : Memtable,
      (calls.foldl call table).find? = calls.foldl Told.call table.find? := by
    induction calls with
    | nil => exact fun _ => rfl
    | cons request rest ih =>
      intro table
      rw [List.foldl_cons, ih, find?_call, List.foldl_cons]
  exact hfold empty

/-! ## What the entries add up to -/

/-- The bytes of keys and values, and 32 more for every entry. -/
def weight : List TableEntry → Nat
  | [] => 0
  | (key, some value) :: rest => key.length + value.length + 32 + weight rest
  | (key, none) :: rest => key.length + 32 + weight rest

theorem weight_cons (key : Bytes) (value? : Option Bytes) (rest : List TableEntry) :
    weight ((key, value?) :: rest) = charge key value? + weight rest := by
  cases value? <;> rfl

theorem charge_le_weight {key : Bytes} {value? : Option Bytes} {entries : List TableEntry}
    (h : KeyMap.lookup key entries = some value?) : charge key value? ≤ weight entries := by
  induction entries with
  | nil => cases h
  | cons entry rest ih =>
    obtain ⟨k, v?⟩ := entry
    rw [weight_cons]
    simp only [KeyMap.lookup] at h
    split at h
    · rename_i hkey
      cases h
      rw [hkey]
      exact Nat.le_add_right ..
    · exact Nat.le_add_left_of_le (ih h)

/-- What one entry more, or another one in place of an entry, makes of the weight. -/
theorem weight_place {entries : List TableEntry} (sorted : entries.Pairwise (·.1 < ·.1))
    (key : Bytes) (value? : Option Bytes) :
    weight (KeyMap.place key value? (fun _ => value?) entries) +
        ((KeyMap.lookup key entries).map (charge key)).getD 0 =
      weight entries + charge key value? := by
  induction entries with
  | nil =>
    rw [KeyMap.place, weight_cons]
    simp [KeyMap.lookup, weight]
  | cons entry rest ih =>
    obtain ⟨k, v?⟩ := entry
    obtain ⟨hk, hrest⟩ := List.pairwise_cons.1 sorted
    -- The key comes before all others, is the first one, or has its place behind it.
    by_cases hlt : key < k
    · have hnone : KeyMap.lookup key ((k, v?) :: rest) = none := by
        refine KeyMap.lookup_eq_none_of_forall_lt fun other hmem => ?_
        rcases List.mem_cons.1 hmem with rfl | hmem
        · exact hlt
        · exact List.lt_trans hlt (hk other hmem)
      rw [hnone, KeyMap.place, if_pos hlt, weight_cons]
      simp only [Option.map_none, Option.getD_none]
      omega
    · by_cases heq : key = k
      · subst heq
        rw [KeyMap.place, if_neg hlt, if_pos rfl, weight_cons, weight_cons, KeyMap.lookup,
          if_pos rfl]
        simp only [Option.map_some, Option.getD_some]
        omega
      · have := ih hrest
        rw [KeyMap.place, if_neg hlt, if_neg heq, weight_cons, weight_cons, KeyMap.lookup,
          if_neg heq]
        omega

/-- A memtable whose count is what its entries add up to. -/
def Balanced (table : Memtable) : Prop :=
  table.size = weight table.toList

/-- The charge for what a mutation replaces. -/
def replaced (table : Memtable) (key : Bytes) : Nat :=
  ((table.find? key).map (charge key)).getD 0

theorem size_apply (table : Memtable) (mutation : Mutation) :
    (table.apply mutation).size =
      table.size + charge mutation.key mutation.value? - table.replaced mutation.key :=
  rfl

/-- What is taken off was counted. -/
theorem Balanced.charge_le_size {table : Memtable} (balanced : table.Balanced) {key : Bytes}
    {value? : Option Bytes} (h : table.find? key = some value?) :
    charge key value? ≤ table.size := by
  rw [balanced]
  exact charge_le_weight h

theorem Balanced.replaced_le {table : Memtable} (balanced : table.Balanced) (key : Bytes) :
    table.replaced key ≤ table.size := by
  unfold replaced
  cases hfind : table.find? key with
  | none => exact Nat.zero_le _
  | some value? => exact balanced.charge_le_size hfind

theorem Balanced.apply {table : Memtable} (balanced : table.Balanced) (mutation : Mutation) :
    (table.apply mutation).Balanced := by
  have hplace := weight_place table.entries.ascending mutation.key mutation.value?
  have hreplaced : table.replaced mutation.key =
      ((KeyMap.lookup mutation.key table.toList).map (charge mutation.key)).getD 0 := rfl
  unfold Balanced at balanced ⊢
  rw [size_apply, balanced, hreplaced]
  exact Nat.sub_eq_of_eq_add hplace.symm

theorem Balanced.applyAll {table : Memtable} (balanced : table.Balanced)
    (mutations : List Mutation) : (table.applyAll mutations).Balanced := by
  induction mutations generalizing table with
  | nil => exact balanced
  | cons mutation rest ih => exact ih (balanced.apply mutation)

theorem Balanced.call {table : Memtable} (balanced : table.Balanced) (request : Call) :
    (table.call request).Balanced := by
  by_cases hclear : request = .clear
  · subst hclear
    rfl
  · rw [call_eq_applyAll table hclear]
    exact balanced.applyAll _

theorem balanced_run (calls : List Call) : (run calls).Balanced := by
  have hfold : ∀ table : Memtable, table.Balanced → (calls.foldl Memtable.call table).Balanced := by
    induction calls with
    | nil => exact fun _ h => h
    | cons request rest ih => exact fun table h => ih _ (h.call request)
  exact hfold empty rfl

/-! ## Counting in a machine word -/

/-- A memtable whose size is a machine word. -/
structure Metered where
  entries : KeyMap (Option Bytes) := .empty
  size : UInt64 := 0

namespace Metered

/-- The difference of two words, or zero where there is none. -/
def difference (a b : UInt64) : UInt64 :=
  if b ≤ a then a - b else 0

/-- The charge for an entry as a word. -/
def charge (key : Bytes) (value? : Option Bytes) : UInt64 :=
  .ofNat key.length + .ofNat ((value?.map List.length).getD 0) + .ofNat entryOverhead

/-- Gives a key a value or a tombstone; the new size comes first. -/
def insert (meter : Metered) (key : Bytes) (value? : Option Bytes) : UInt64 × Metered :=
  let added := charge key value?
  let removed := ((meter.entries.find? key).map (charge key)).getD 0
  let size := difference (meter.size + added) removed
  (size, { entries := meter.entries.insert key value?, size })

/-- Takes in mutations in order. First comes the size after the last one, or the given size if there
is none. -/
def insertAll : UInt64 → List Mutation → Metered → UInt64 × Metered
  | size, [], meter => (size, meter)
  | _, mutation :: rest, meter =>
    let (size, meter) := meter.insert mutation.key mutation.value?
    insertAll size rest meter

/-- Makes a call. It is answered with the new size, except for clearing. -/
def call (meter : Metered) : Call → Option UInt64 × Metered
  | .put key value => (meter.insert key (some value)).map some id
  | .delete key => (meter.insert key none).map some id
  | .apply mutations => (insertAll meter.size mutations meter).map some id
  | .clear => (none, {})

/-- Makes calls in order. -/
def answers : List Call → Metered → List (Option UInt64) × Metered
  | [], meter => ([], meter)
  | request :: rest, meter =>
    let (answer, meter) := meter.call request
    let (others, meter) := answers rest meter
    (answer :: others, meter)

theorem call_single (meter : Metered) (mutation : Mutation) :
    meter.call (.single mutation) = (meter.insert mutation.key mutation.value?).map some id := by
  cases mutation <;> rfl

/-- Every call but clearing is answered with the size that it leaves. -/
theorem call_answer (meter : Metered) {request : Call} (h : request ≠ .clear) :
    (meter.call request).1 = some (meter.call request).2.size := by
  have hall : ∀ (mutations : List Mutation) (meter : Metered),
      (insertAll meter.size mutations meter).1 = (insertAll meter.size mutations meter).2.size := by
    intro mutations
    induction mutations with
    | nil => exact fun _ => rfl
    | cons mutation rest ih =>
      exact fun meter => ih (meter.insert mutation.key mutation.value?).2
  cases request with
  | put | delete => rfl
  | apply mutations => exact congrArg some (hall mutations meter)
  | clear => exact absurd rfl h

/-- Mutations taken in together are answered like the last of them, and leave what they leave one
after the other. -/
theorem call_apply (meter : Metered) (mutations : List Mutation) :
    meter.call (.apply mutations) =
      ((answers (mutations.map .single) meter).1.getLast?.getD (some meter.size),
        (answers (mutations.map .single) meter).2) := by
  have hall : ∀ size, (insertAll size mutations meter).map some id =
      ((answers (mutations.map .single) meter).1.getLast?.getD (some size),
        (answers (mutations.map .single) meter).2) := by
    induction mutations generalizing meter with
    | nil => exact fun _ => rfl
    | cons mutation rest ih =>
      intro size
      simp only [insertAll, List.map_cons, answers, call_single, Prod.map_fst, Prod.map_snd, id,
        List.getLast?_cons, Option.getD_some]
      exact ih _ _
  exact hall meter.size

end Metered

/-- The bytes of a memtable and of mutations that it takes in can be counted in a machine word, what
comes in beside all that is there. -/
def TakesIn (table : Memtable) : List Mutation → Prop
  | [] => True
  | mutation :: rest =>
    table.size + charge mutation.key mutation.value? < UInt64.size ∧
      TakesIn (table.apply mutation) rest

/-- At no time in a row of calls are there bytes that cannot be counted in a machine word. -/
def Fits (table : Memtable) : List Call → Prop
  | [] => True
  | request :: rest => table.TakesIn request.mutations ∧ Fits (table.call request) rest

/-- A memtable and its copy that counts in a machine word. -/
structure Metered.Reads (meter : Metered) (table : Memtable) : Prop where
  entries : meter.entries = table.entries
  size : meter.size.toNat = table.size

namespace Metered

theorem toNat_add {a b : UInt64} (h : a.toNat + b.toNat < UInt64.size) :
    (a + b).toNat = a.toNat + b.toNat := by
  rw [UInt64.toNat_add]
  exact Nat.mod_eq_of_lt h

theorem toNat_difference {a b : UInt64} (h : b.toNat ≤ a.toNat) :
    (difference a b).toNat = a.toNat - b.toNat := by
  have hle : b ≤ a := UInt64.le_iff_toNat_le.2 h
  rw [difference, if_pos hle, UInt64.toNat_sub_of_le a b hle]

theorem toNat_charge {key : Bytes} {value? : Option Bytes}
    (h : Memtable.charge key value? < UInt64.size) :
    (charge key value?).toNat = Memtable.charge key value? := by
  unfold charge
  unfold Memtable.charge at h ⊢
  have hkey : (UInt64.ofNat key.length).toNat = key.length :=
    UInt64.toNat_ofNat_of_lt' (by omega)
  have hvalue : (UInt64.ofNat ((value?.map List.length).getD 0)).toNat =
      (value?.map List.length).getD 0 :=
    UInt64.toNat_ofNat_of_lt' (by omega)
  have hfixed : (UInt64.ofNat entryOverhead).toNat = entryOverhead := rfl
  rw [toNat_add, toNat_add, hkey, hvalue, hfixed]
  · rw [hkey, hvalue]
    omega
  · rw [toNat_add, hkey, hvalue, hfixed]
    · exact h
    · rw [hkey, hvalue]
      omega

variable {meter : Metered} {table : Memtable}

theorem Reads.find? (reads : meter.Reads table) (key : Bytes) :
    meter.entries.find? key = table.find? key := by
  rw [reads.entries]
  rfl

/-- What is taken off is counted in a word too, since it was counted before. -/
theorem Reads.toNat_replaced (reads : meter.Reads table) (balanced : table.Balanced)
    (key : Bytes) :
    (((meter.entries.find? key).map (charge key)).getD 0).toNat = table.replaced key := by
  unfold replaced
  rw [reads.find?]
  cases hfind : table.find? key with
  | none => rfl
  | some value? =>
    have hle := balanced.charge_le_size hfind
    have hsize := reads.size ▸ meter.size.toNat_lt_size
    exact toNat_charge (Nat.lt_of_le_of_lt hle hsize)

/-- One mutation is counted as it should be: the sum does not wrap around, and the difference does
not stop at zero. -/
theorem Reads.insert (reads : meter.Reads table) (balanced : table.Balanced) (mutation : Mutation)
    (fits : table.size + Memtable.charge mutation.key mutation.value? < UInt64.size) :
    (meter.insert mutation.key mutation.value?).2.Reads (table.apply mutation) := by
  have hcharge : (charge mutation.key mutation.value?).toNat =
      Memtable.charge mutation.key mutation.value? := toNat_charge (by omega)
  have hsum : (meter.size + charge mutation.key mutation.value?).toNat =
      table.size + Memtable.charge mutation.key mutation.value? := by
    rw [toNat_add, reads.size, hcharge]
    rw [reads.size, hcharge]
    exact fits
  have hreplaced := reads.toNat_replaced balanced mutation.key
  refine ⟨?_, ?_⟩
  · simp only [Metered.insert, reads.entries]
    rfl
  · have hcovered := balanced.replaced_le mutation.key
    simp only [Metered.insert]
    rw [toNat_difference, hsum, hreplaced, size_apply]
    rw [hsum, hreplaced]
    omega

theorem Reads.insertAll (reads : meter.Reads table) (balanced : table.Balanced)
    {mutations : List Mutation} (fits : table.TakesIn mutations) (size : UInt64) :
    (Metered.insertAll size mutations meter).2.Reads (table.applyAll mutations) := by
  induction mutations generalizing meter table size with
  | nil => exact reads
  | cons mutation rest ih =>
    exact ih (reads.insert balanced mutation fits.1) (balanced.apply mutation) fits.2 _

theorem Reads.call (reads : meter.Reads table) (balanced : table.Balanced) {request : Call}
    (fits : table.TakesIn request.mutations) :
    (meter.call request).2.Reads (table.call request) := by
  cases request with
  | put key value => exact reads.insert balanced (.put key value) fits.1
  | delete key => exact reads.insert balanced (.delete key) fits.1
  | apply mutations => exact reads.insertAll balanced fits _
  | clear => exact ⟨rfl, rfl⟩

theorem Reads.answers (reads : meter.Reads table) (balanced : table.Balanced) {calls : List Call}
    (fits : table.Fits calls) :
    (Metered.answers calls meter).2.Reads (calls.foldl Memtable.call table) := by
  induction calls generalizing meter table with
  | nil => exact reads
  | cons request rest ih => exact ih (reads.call balanced fits.1) (balanced.call request) fits.2

end Metered

/-! ## All calls together -/

/-- What mutations add to a memtable at most. -/
def load (mutations : List Mutation) : Nat :=
  weight (mutations.map fun mutation => (mutation.key, mutation.value?))

theorem load_cons (mutation : Mutation) (rest : List Mutation) :
    load (mutation :: rest) = charge mutation.key mutation.value? + load rest :=
  weight_cons ..

theorem load_append (front back : List Mutation) :
    load (front ++ back) = load front + load back := by
  induction front with
  | nil => exact (Nat.zero_add _).symm
  | cons mutation rest ih => rw [List.cons_append, load_cons, load_cons, ih, Nat.add_assoc]

theorem size_apply_le (table : Memtable) (mutation : Mutation) :
    (table.apply mutation).size ≤ table.size + charge mutation.key mutation.value? :=
  Nat.sub_le ..

theorem size_applyAll_le (table : Memtable) (mutations : List Mutation) :
    (table.applyAll mutations).size ≤ table.size + load mutations := by
  induction mutations generalizing table with
  | nil => exact Nat.le_add_right ..
  | cons mutation rest ih =>
    have hfirst := size_apply_le table mutation
    have hrest : (table.applyAll (mutation :: rest)).size ≤ _ := ih (table.apply mutation)
    rw [load_cons]
    omega

theorem size_call_le (table : Memtable) (request : Call) :
    (table.call request).size ≤ table.size + load request.mutations := by
  by_cases hclear : request = .clear
  · subst hclear
    exact Nat.zero_le _
  · rw [call_eq_applyAll table hclear]
    exact size_applyAll_le table _

theorem takesIn_of_load {table : Memtable} {mutations : List Mutation}
    (h : table.size + load mutations < UInt64.size) : table.TakesIn mutations := by
  induction mutations generalizing table with
  | nil => trivial
  | cons mutation rest ih =>
    have hfirst := size_apply_le table mutation
    rw [load_cons] at h
    exact ⟨by omega, ih (by omega)⟩

/-- Bytes can be counted all along if all that is ever written could be counted together. -/
theorem fits_of_load {calls : List Call} (h : load (calls.flatMap Call.mutations) < UInt64.size) :
    Fits empty calls := by
  have hfold : ∀ table : Memtable,
      table.size + load (calls.flatMap Call.mutations) < UInt64.size → table.Fits calls := by
    clear h
    induction calls with
    | nil => exact fun _ _ => trivial
    | cons request rest ih =>
      intro table h
      have hfirst := size_call_le table request
      rw [List.flatMap_cons, load_append] at h
      exact ⟨takesIn_of_load (by omega), ih _ (by omega)⟩
  exact hfold empty (by rwa [show empty.size = 0 from rfl, Nat.zero_add])

/-- What calls leave is an ordered map with the exact size of its entries. -/
structure Exact (calls : List Call) (table : Memtable) (meter : Metered) : Prop where
  /-- The map that the calls describe. -/
  find : table.find? = told calls
  ascending : table.toList.Pairwise (·.1 < ·.1)
  mem_iff : ∀ key value?, (key, value?) ∈ table.toList ↔ told calls key = some value?
  range : ∀ start limit,
    table.range start limit = (table.toList.filter fun entry => start ≤ entry.1).take limit
  size : table.size = weight table.toList
  /-- The machine word holds that size. -/
  metered : meter.Reads table
  /-- Nothing can be taken off that was not counted, whatever key comes next. -/
  covered : ∀ key value?, meter.entries.find? key = some value? →
    Metered.charge key value? ≤ meter.size
  answered : ∀ request ≠ Call.clear, (meter.call request).1 = some (meter.call request).2.size
  /-- Mutations taken in together do what they do one after the other. -/
  together : ∀ mutations, meter.call (.apply mutations) =
    ((Metered.answers (mutations.map .single) meter).1.getLast?.getD (some meter.size),
      (Metered.answers (mutations.map .single) meter).2)

/-- A memtable is the map that its calls describe, in ascending order of the keys, and the size that
it counts in a machine word is what its entries add up to. -/
theorem run_exact {calls : List Call} (fits : Fits empty calls) :
    Exact calls (run calls) (Metered.answers calls {}).2 := by
  have hbalanced := balanced_run calls
  have hempty : Metered.Reads {} empty := ⟨rfl, rfl⟩
  have hreads : (Metered.answers calls {}).2.Reads (run calls) :=
    hempty.answers (balanced_run []) fits
  refine {
    find := find?_run calls
    ascending := (run calls).entries.ascending
    mem_iff := ?_
    range := ?_
    size := hbalanced
    metered := hreads
    covered := ?_
    answered := fun request h => Metered.call_answer _ h
    together := Metered.call_apply _ }
  · intro key value?
    rw [← find?_run]
    exact KeyMap.mem_toList_iff ..
  · intro start limit
    exact congrArg (List.take limit) (KeyMap.entriesFrom_eq_filter ..)
  · intro key value? hfind
    have hreplaced := hreads.toNat_replaced hbalanced key
    rw [hfind] at hreplaced
    rw [UInt64.le_iff_toNat_le, hreads.size]
    exact hreplaced ▸ hbalanced.replaced_le key

/-- A value that is deleted, written again, and replaced twice in one call, before and after the
table is cleared. -/
def trialCalls : List Call :=
  [.put [1] [1, 2], .delete [1],
    .apply [.put [2] [5], .put [2] [6, 7, 8], .delete [3], .put [1] []],
    .clear, .put [9] [1], .apply [.delete [9], .put [8] [2], .put [8] []]]

theorem run_exact_cleared :
    Fits empty trialCalls ∧
      (Metered.answers trialCalls {}).1 =
        [some 35, some 33, some 102, none, some 34, some 66] ∧
      Exact trialCalls (run trialCalls) (Metered.answers trialCalls {}).2 := by
  have hfits : Fits empty trialCalls := fits_of_load (by decide)
  exact ⟨hfits, by decide, run_exact hfits⟩

end OrderedStore.Memtable
