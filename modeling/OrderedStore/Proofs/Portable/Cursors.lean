import OrderedStore.Proofs.Portable.Carrying
import OrderedStore.Proofs.Portable.Uses
import OrderedStore.Proofs.Store.Requests

/-!
# Cursors on a store that is hindered

Whatever calls are refused, a cursor has no keys but those that a scan of its store has shown, and
all that it does to the store is to delete one of them.

Main definition: `Cursor.Has`, the keys of a cursor.

Main statements: `Cursor.hasNext_endured`, `Cursor.nextEntry_endured`,
`Cursor.removeCurrent_endured`.
-/

namespace OrderedStore

namespace Store

variable {may : Host → Call → Prop} {host after : Host} {owner owner' : Store Script Portable}
  {generation? : Option Nat}

/-- A question is refused, or the live handle answers it. -/
theorem ask_endured {α : Type} {question : Portable → Script (Except Error α)}
    {result : Except Error α}
    (run : (owner.ask generation? question).Endures may host result after) :
    (∃ e, result = .error e) ∧ after = host ∨
      ∃ live ∈ owner.live, (question live.handle).Endures may host result after := by
  unfold ask at run
  split at run
  · cases run
    exact Or.inl ⟨⟨_, rfl⟩, rfl⟩
  · rename_i live hcurrent
    exact Or.inr ⟨live, live_of_current hcurrent, run⟩

/-- A change is refused, or the live handle makes it. -/
theorem change_endured {action : Portable → Script (Except Error Unit × Portable)}
    {result : Except Error Unit}
    (run : (owner.change generation? action).Endures may host (result, owner') after) :
    (∃ e, result = .error e) ∧ owner' = owner ∧ after = host ∨
      ∃ live ∈ owner.live, ∃ store, (action live.handle).Endures may host (result, store) after ∧
        owner' = { owner with live := some { live with handle := store } } := by
  unfold change at run
  split at run
  · cases run
    exact Or.inl ⟨⟨_, rfl⟩, rfl, rfl⟩
  · rename_i live hcurrent
    obtain ⟨⟨outcome, store⟩, between, haction, hdone⟩ := run.of_bind
    cases hdone
    exact Or.inr ⟨live, live_of_current hcurrent, store, haction, rfl⟩

end Store

namespace Cursor

variable {may : Host → Call → Prop} {host after : Host} {cursor cursor' : Cursor}
  {owner owner' : Store Script Portable}

/-- The keys that a cursor was shown and still has. -/
def Has (cursor : Cursor) (key : Bytes) : Prop :=
  cursor.currentKey = some key ∨ ∃ value, (key, value) ∈ cursor.buffer

/-- A new cursor has no keys yet. -/
theorem not_has_of_search {start : Bytes} (h : owner.search start = .ok cursor) (key : Bytes) :
    ¬ cursor.Has key := by
  unfold Store.search at h
  cases hgeneration : owner.liveGeneration with
  | error e =>
    rw [hgeneration] at h
    cases h
  | ok generation =>
    rw [hgeneration] at h
    cases h
    rintro (hcurrent | ⟨value, hmem⟩)
    · cases hcurrent
    · cases hmem

/-- A key that a scan of a store gives, which may be hindered. -/
def Shown (may : Host → Call → Prop) (host : Host) (owner : Store Script Portable) (key : Bytes) :
    Prop :=
  ∃ live ∈ owner.live, ∃ start limit page value,
    (live.handle.scan start limit).run.Endures may host (.ok page) host ∧ (key, value) ∈ page

/-- A cursor that fetches a page gets the keys of this page. -/
theorem refill_endured {result : Except Error Unit}
    (run : (cursor.refill owner).Endures may host (result, cursor') after) :
    after = host ∧ ∀ key, cursor'.Has key → cursor.Has key ∨ Shown may host owner key := by
  unfold refill at run
  split at run
  swap
  · cases run
    exact ⟨rfl, fun key => Or.inl⟩
  obtain ⟨asked, between, hask, hrest⟩ := run.of_bind
  rcases Store.ask_endured hask with ⟨⟨e, rfl⟩, rfl⟩ | ⟨live, hlive, hscan⟩
  · cases hrest
    exact ⟨rfl, fun key => Or.inl⟩
  obtain rfl := hscan.eq_of_kept (Portable.only_scan_kept live.handle _ _)
  cases asked with
  | error e =>
    cases hrest
    exact ⟨rfl, fun key => Or.inl⟩
  | ok page =>
    cases hrest
    refine ⟨rfl, fun key hkey => ?_⟩
    rcases hkey with hcurrent | ⟨value, hmem⟩
    · exact Or.inl (Or.inl hcurrent)
    · exact Or.inr ⟨live, hlive, _, _, page, value, hscan, hmem⟩

theorem hasNext_endured {result : Except Error Bool}
    (run : (cursor.hasNext owner).Endures may host (result, cursor') after) :
    after = host ∧ ∀ key, cursor'.Has key → cursor.Has key ∨ Shown may host owner key := by
  unfold hasNext at run
  split at run
  · cases run
    exact ⟨rfl, fun key => Or.inl⟩
  · obtain ⟨⟨refilled, next⟩, between, hrefill, hdone⟩ := run.of_bind
    cases hdone
    exact refill_endured hrefill

/-- The key that a cursor goes on to was in its page. -/
theorem nextEntry_endured {result : Except Error (Bytes × Bytes)}
    (run : (cursor.nextEntry owner).Endures may host (result, cursor') after) :
    after = host ∧ ∀ key, cursor'.Has key → cursor.Has key ∨ Shown may host owner key := by
  unfold nextEntry at run
  obtain ⟨⟨looked, next⟩, between, hlook, hrest⟩ := run.of_bind
  obtain ⟨rfl, hkeys⟩ := hasNext_endured hlook
  simp only at hrest
  split at hrest
  · cases hrest
    exact ⟨rfl, hkeys⟩
  · cases hrest
    exact ⟨rfl, hkeys⟩
  · rename_i entry rest hbuffer
    cases hrest
    refine ⟨rfl, fun key hkey => hkeys key ?_⟩
    rw [Has, hbuffer]
    rcases hkey with hcurrent | ⟨value, hmem⟩
    · cases hcurrent
      exact Or.inr ⟨entry.2, List.mem_cons_self⟩
    · exact Or.inr ⟨value, List.mem_cons_of_mem _ hmem⟩

/-- A cursor that removes its entry deletes its key, or does nothing. -/
theorem removeCurrent_endured {result : Except Error Unit}
    (run : (cursor.removeCurrent owner).Endures may host (result, cursor', owner') after) :
    (∀ key, cursor'.Has key → cursor.Has key) ∧
      (owner' = owner ∧ after = host ∨ ∃ live ∈ owner.live, ∃ key store,
        (live.handle.delete key).Endures may host (result, store) after ∧
          owner' = { owner with live := some { live with handle := store } }) := by
  unfold removeCurrent at run
  split at run
  · cases run
    exact ⟨fun _ => id, Or.inl ⟨rfl, rfl⟩⟩
  split at run
  · cases run
    exact ⟨fun _ => id, Or.inl ⟨rfl, rfl⟩⟩
  rename_i key hcurrent
  obtain ⟨⟨changed, store⟩, between, hchange, hrest⟩ := run.of_bind
  have hkeys : result = changed ∧ owner' = store ∧ between = after ∧
      ∀ key, cursor'.Has key → cursor.Has key := by
    cases changed with
    | error e =>
      cases hrest
      exact ⟨rfl, rfl, rfl, fun _ => id⟩
    | ok done =>
      cases hrest
      exact ⟨rfl, rfl, rfl, fun key hkey => hkey.imp_left fun h => by cases h⟩
  obtain ⟨rfl, rfl, rfl, hkeys⟩ := hkeys
  refine ⟨hkeys, ?_⟩
  rcases Store.change_endured hchange with ⟨_, hsame⟩ | ⟨live, hlive, store, hdelete, howner⟩
  · exact Or.inl hsame
  · exact Or.inr ⟨live, hlive, key, store, hdelete, howner⟩

end Cursor

end OrderedStore
