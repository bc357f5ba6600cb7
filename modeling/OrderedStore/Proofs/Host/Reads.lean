import OrderedStore.Proofs.Host.Calls

/-!
# Reading whatever is open

What stands under a path may be a file of any bytes, and only files can be read. A read of so many
bytes succeeds just if they are there.

Main definitions:

- `Bytes.slice?`: bytes of a file from an offset on, if it has them.

Main statements: `Action.ensures_openFile_read`, `Action.ensures_readExactly_any`.
-/

namespace OrderedStore

variable {conduct : Conduct} {stop : Host → Prop} {host : Host} {handle : Handle} {path : Path}
  {target : Location} {err : Error → Host → Prop}

/-- Exactly `count` bytes of a file from `offset` on, if it has them. -/
def Bytes.slice? (bytes : Bytes) (offset count : Nat) : Option Bytes :=
  let found := (bytes.drop offset).take count
  if Disk.sizeLimit < offset ∨ found.length < count then none else some found

theorem Bytes.slice?_of_inside {bytes : Bytes} {offset count : Nat}
    (h : offset + count ≤ bytes.length) (size : bytes.length ≤ Disk.sizeLimit) :
    bytes.slice? offset count = some ((bytes.drop offset).take count) := by
  have hlength : ((bytes.drop offset).take count).length = count := by
    rw [List.length_take, List.length_drop]
    omega
  unfold slice?
  simp only [hlength]
  rw [if_neg (by omega)]

theorem Bytes.eq_of_slice? {bytes found : Bytes} {offset count : Nat}
    (h : bytes.slice? offset count = some found) : found = (bytes.drop offset).take count := by
  unfold slice? at h
  simp only at h
  split at h
  · cases h
  · exact (Option.some.inj h).symm

namespace Action

/-- What stands under the path of an entry is opened. Of what is opened only a file can be read. -/
theorem ensures_openFile_read {ok : Handle → Host → Prop} (names : host.view.Names path target)
    (same : stop host) (failed : ∀ e, err e host)
    (done : ∀ handle : Handle, (∀ content, host.disk.contentOf handle = .ok content →
      host.view.file? target = some (handle.id, content.toList)) → ok handle host) :
    (openFile path .read).Ensures conduct stop ok err host := by
  -- Opening for reading changes nothing, whether it fails or not.
  have hanswer : (∃ fault, host.answer (.openFile path .read) = (.error fault, host)) ∨
      ∃ handle : Handle, host.answer (.openFile path .read) = (.ok handle, host) ∧
        ok handle host := by
    rcases Disk.find_of_names names with ⟨_, hfind⟩ | ⟨_, hfind⟩
    · exact Or.inl ⟨.nameTooLong,
        by simp [Host.answer, Disk.openFile, hfind, Except.map, Host.settleOpened]⟩
    cases hnode : host.disk.node? target with
    | none =>
      rw [hnode] at hfind
      exact Or.inl ⟨.notFound,
        by simp [Host.answer, Disk.openFile, hfind, Except.map, Host.settleOpened]⟩
    | some pair =>
      obtain ⟨id, node⟩ := pair
      rw [hnode] at hfind
      refine Or.inr ⟨⟨id⟩, by simp [Host.answer, Disk.openFile, hfind, Except.map,
        Host.settleOpened], done ⟨id⟩ fun content hcontent => ?_⟩
      have hid := (Disk.node?_eq_some_iff.1 hnode).2
      cases node with
      | directory => simp [Disk.contentOf, hid] at hcontent
      | file content' =>
        obtain rfl : content' = content := by simpa [Disk.contentOf, hid] using hcontent
        exact Disk.file?_eq_some_iff.2 ⟨content', hnode, rfl⟩
  refine ensures_attempt ⟨?_, ?_⟩
  · refine torn_cases same ?_ fun after torn => by simpa [Host.Torn] using torn
    rcases hanswer with ⟨_, h⟩ | ⟨_, h, _⟩ <;> rw [h] <;> exact same
  · intro reply after outcome
    rcases outcome.settle with ⟨_, isSome, rfl⟩ | ⟨answer, _⟩
    · cases reply with
      | ok handle => simp [Call.fault?, faultOf] at isSome
      | error fault => exact failed _
    · rcases hanswer with ⟨_, h⟩ | ⟨_, h, hok⟩ <;> rw [h] at answer <;> cases answer
      · exact failed _
      · exact hok

theorem ensures_sizeOf {ok : Nat → Host → Prop} (same : stop host)
    (done : ok (host.disk.sizeOf handle) host) :
    (size handle).Ensures conduct stop ok err host :=
  ensures_ofScript (Script.ensures_call_of_sure (fun h => h) same ⟨same, done⟩)

/-- Bytes are read from what is open, if it is a file and has them. -/
theorem ensures_readExactly_any {ok : Bytes → Host → Prop} {offset count : Nat} (same : stop host)
    (failed : (∀ content, host.disk.contentOf handle = .ok content →
      content.toList.slice? offset count = none) → ∀ e, err e host)
    (done : ∀ content found, host.disk.contentOf handle = .ok content →
      content.toList.slice? offset count = some found → ok found host) :
    (readExactly handle offset count).Ensures conduct stop ok err host := by
  unfold readExactly
  refine Ensures.bind (ensures_attempt (Script.ensures_call_of_sure (fun h => h) same ⟨same, ?_⟩))
  have hanswer : (host.answer (.read handle offset count)).1 =
      host.disk.read handle offset count := rfl
  rw [hanswer]
  -- A handle may be on a directory, which has no bytes to read.
  cases hcontent : host.disk.contentOf handle with
  | error fault =>
    have hnone : ∀ content, host.disk.contentOf handle = .ok content →
        content.toList.slice? offset count = none := by
      intro content h
      rw [hcontent] at h
      cases h
    by_cases hlimit : Disk.sizeLimit < offset <;>
      simp only [Disk.read, hlimit, if_true, if_false, hcontent, bind, Except.bind] <;>
      exact failed hnone _
  | ok content =>
    have hnone : content.toList.slice? offset count = none → ∀ e, err e host := by
      intro h
      refine failed fun other hother => ?_
      rw [hcontent] at hother
      cases hother
      exact h
    by_cases hlimit : Disk.sizeLimit < offset
    · simp only [Disk.read, hlimit, if_true]
      exact hnone (by simp [Bytes.slice?, hlimit]) _
    · simp only [Disk.read, hlimit, if_false, hcontent, bind, Except.bind, pure, Except.pure,
        Content.slice_eq]
      split
      · rename_i hshort
        exact hnone (by simp only [Bytes.slice?, hshort, or_true, if_true]) _
      · rename_i hlong
        refine done content _ hcontent ?_
        simp only [Bytes.slice?, hlimit, hlong, or_self, if_false]

end Action

end OrderedStore
