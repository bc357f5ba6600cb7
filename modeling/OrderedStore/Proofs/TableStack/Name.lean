import Mathlib.Data.List.TakeWhile
import OrderedStore.Proofs.Disk.View
import OrderedStore.TableStack.Name

/-!
# The names of table files

A number below 2 ^ 64 is read back from the name of its table. So tables have different names, and
no draft has the name of a table.
-/

namespace OrderedStore

namespace Decimal

theorem digit?_of_isDigit {c : Char} (h : c.isDigit = true) :
    digit? c = some (c.toNat - '0'.toNat) := by
  have hrange : '0' ≤ c ∧ c ≤ '9' := by
    simpa [Char.isDigit, Char.le_def] using h
  rw [digit?, if_pos hrange]

theorem continue?_of_isDigit {text : List Char} (h : ∀ c ∈ text, c.isDigit = true) (value : Nat) :
    continue? value text = some (Nat.ofDigitChars 10 text value) := by
  induction text generalizing value with
  | nil => rfl
  | cons c rest ih =>
    rw [continue?, digit?_of_isDigit (h c (by simp)), Option.bind_some,
      ih (fun other hmem => h other (List.mem_cons_of_mem _ hmem)), Nat.mul_comm,
      Nat.ofDigitChars_cons]

theorem isDigit_of_mem_padded {width n : Nat} {c : Char} (h : c ∈ padded width n) :
    c.isDigit = true := by
  rcases List.mem_append.1 h with hzero | hdigit
  · rw [List.eq_of_mem_replicate hzero]
    rfl
  · exact Nat.isDigit_of_mem_toDigits (by decide) (by decide) hdigit

theorem padded_ne_nil (width n : Nat) : padded width n ≠ [] := by
  intro hnil
  exact Nat.toDigits_ne_nil (List.append_eq_nil_iff.1 hnil).2

/-- A padded number is read back. -/
theorem read?_padded (width : Nat) {n : Nat} (h : n < UInt64.size) :
    read? (padded width n) = some n := by
  have hall : ∀ c ∈ padded width n, c.isDigit = true := fun c => isDigit_of_mem_padded
  have hvalue : Nat.ofDigitChars 10 (padded width n) 0 = n := by
    rw [padded, Nat.ofDigitChars_append, Nat.ofDigitChars_replicate_zero, Nat.mul_zero,
      Nat.ofDigitChars_ten_toDigits]
  have hcontinue := continue?_of_isDigit hall 0
  rw [hvalue] at hcontinue
  have hne := padded_ne_nil width n
  generalize padded width n = text at *
  cases text with
  | nil => exact absurd rfl hne
  | cons c rest =>
    have hplus : c ≠ '+' := by
      rintro rfl
      exact absurd (hall '+' (by simp)) (by decide)
    have hdigits : digits? (c :: rest) = some n := hcontinue
    unfold read?
    split
    · rename_i other heq
      exact absurd (List.cons.inj heq).1 hplus
    · simp only [hdigits]
      rw [Option.filter_some_pos (by simpa using h)]

end Decimal

namespace TableStack

/-- A name is split at its last point. -/
theorem stemAndExtension?_append {stem extension : List Char} (hstem : stem ≠ [])
    (h : '.' ∉ extension) :
    stemAndExtension? (stem ++ '.' :: extension) = some (stem, extension) := by
  have hreverse : (stem ++ '.' :: extension).reverse =
      extension.reverse ++ '.' :: stem.reverse := by
    simp
  have htake : (extension.reverse ++ '.' :: stem.reverse).takeWhile (· ≠ '.') =
      extension.reverse := by
    rw [List.takeWhile_append_of_pos, List.takeWhile_cons_of_neg (by simp), List.append_nil]
    intro c hc
    have hmem : c ∈ extension := List.mem_reverse.1 hc
    have hne : c ≠ '.' := fun heq => h (heq ▸ hmem)
    simpa using hne
  have hdrop : (extension.reverse ++ '.' :: stem.reverse).drop (extension.reverse.length + 1) =
      stem.reverse := by
    rw [← List.drop_drop, List.drop_left, List.drop_one, List.tail_cons]
  simp only [stemAndExtension?, hreverse, htake, hdrop, List.reverse_reverse]
  rw [if_neg (by simpa using hstem)]

theorem toList_fileName (id : Nat) :
    (fileName id).toList = (stemStart ++ Decimal.padded 6 id) ++ '.' :: "sst".toList := by
  rw [fileName, String.toList_ofList]
  rfl

theorem stem_ne_nil (id : Nat) : stemStart ++ Decimal.padded 6 id ≠ [] := by
  intro hnil
  exact absurd (List.append_eq_nil_iff.1 hnil).1 (by decide)

theorem stemId?_stem {id : Nat} (h : id < UInt64.size) :
    stemId? (stemStart ++ Decimal.padded 6 id) = some id := by
  have hinitial : stemStart.isPrefixOf (stemStart ++ Decimal.padded 6 id) = true :=
    List.isPrefixOf_iff_prefix.2 (List.prefix_append _ _)
  rw [stemId?, if_pos hinitial, List.drop_left, Decimal.read?_padded 6 h]

/-- The name of a table says its number. -/
theorem nameKind_fileName {id : Nat} (h : id < UInt64.size) :
    nameKind (fileName id) = .table id := by
  unfold nameKind
  rw [toList_fileName, stemAndExtension?_append (stem_ne_nil id) (by decide)]
  simp only [stemId?_stem h]
  rfl

theorem nameKind_draftName (id : Nat) : nameKind (draftName id) = .draft := by
  have htoList : (draftName id).toList = (fileName id).toList ++ '.' :: "tmp".toList := by
    rw [draftName, String.toList_append]
    rfl
  have hne : (fileName id).toList ≠ [] := by
    rw [toList_fileName]
    exact List.append_ne_nil_of_left_ne_nil (stem_ne_nil id) _
  unfold nameKind
  rw [htoList, stemAndExtension?_append hne (by decide)]
  rfl

theorem fileName_inj {id id' : Nat} (h : id < UInt64.size) (h' : id' < UInt64.size)
    (heq : fileName id = fileName id') : id = id' := by
  have hkind := nameKind_fileName h
  rw [heq, nameKind_fileName h'] at hkind
  exact (NameKind.table.inj hkind).symm

theorem fileName_ne_draftName {id : Nat} (h : id < UInt64.size) (id' : Nat) :
    fileName id ≠ draftName id' := by
  intro heq
  have hkind := nameKind_fileName h
  rw [heq, nameKind_draftName] at hkind
  cases hkind

theorem nul_not_mem_fileName (id : Nat) : '\x00' ∉ (fileName id).toList := by
  rw [toList_fileName]
  intro hmem
  rcases List.mem_append.1 hmem with hstem | hrest
  · rcases List.mem_append.1 hstem with hstart | hdigits
    · exact absurd hstart (by decide)
    · exact absurd (Decimal.isDigit_of_mem_padded hdigits) (by decide)
  · exact absurd hrest (by decide)

theorem fileName_ne_empty (id : Nat) : fileName id ≠ "" := by
  intro hempty
  have hnil := congrArg String.toList hempty
  rw [toList_fileName] at hnil
  exact stem_ne_nil id (List.append_eq_nil_iff.1 hnil).1

theorem plainName_fileName (id : Nat) : PlainName (fileName id) :=
  ⟨fileName_ne_empty id, by simpa using nul_not_mem_fileName id⟩

theorem plainName_draftName (id : Nat) : PlainName (draftName id) := by
  refine ⟨?_, ?_⟩
  · intro hempty
    have hnil := congrArg String.toList hempty
    rw [draftName, String.toList_append] at hnil
    exact absurd (List.append_eq_nil_iff.1 hnil).2 (by decide)
  · have hnul := nul_not_mem_fileName id
    simp [draftName, hnul]

end TableStack

end OrderedStore
