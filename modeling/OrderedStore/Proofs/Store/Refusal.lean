import OrderedStore.Proofs.Store.Contract
import OrderedStore.Store.Batch
import OrderedStore.Store.Cursor

/-!
# Calls under a handle that is gone

Every call on a batch or a cursor first compares its generation with the one of the store. If they
differ, or the store has no handle, the call is refused before any handle is asked.

Main definitions:

- `Store.Advances`: how far a call takes the history of a store.
- `Cursor.Refused`, `Batch.Refused`: what is answered once the handle is gone.
- `Cursor.Admitted`, `Batch.Admitted`: what is not answered before.
-/

namespace OrderedStore

variable {σ H : Type}

/-! ## What a call leaves of a store -/

namespace Store

variable {store store' : Store (StateM σ) H}

/-- How far the history of a store goes on while `opened` handles are opened. -/
structure Advances (store store' : Store (StateM σ) H) (opened : Nat) : Prop where
  given_up : store.generation ≤ store'.generation
  balance : store'.generation + store'.live.isSome.toNat =
    store.generation + store.live.isSome.toNat + opened

theorem Advances.refl (store : Store (StateM σ) H) : store.Advances store 0 :=
  ⟨Nat.le_refl _, rfl⟩

theorem advances_change (store : Store (StateM σ) H) (caller? : Option Nat)
    (action : H → StateM σ (Except Error Unit × H)) (s : σ) :
    store.Advances (store.change caller? action s).1.2 0 := by
  unfold change
  cases hcurrent : store.current caller? with
  | error e => exact .refl store
  | ok used =>
    have hlive : store.live.isSome = true := by
      cases hlive : store.live with
      | none => cases caller? <;> simp [current, hlive] at hcurrent
      | some live => rfl
    refine ⟨Nat.le_refl _, ?_⟩
    rw [hlive]
    rfl

variable [Backend (StateM σ) H]

theorem advances_close (store : Store (StateM σ) H) (s : σ) :
    store.Advances (store.close s).1.2 0 := by
  obtain ⟨config, selector, live?, generation, closed⟩ := store
  cases live? with
  | none => exact ⟨Nat.le_refl _, rfl⟩
  | some live => exact ⟨Nat.le_succ _, rfl⟩

theorem advances_commit (batch : Batch) (store : Store (StateM σ) H) (s : σ) :
    store.Advances (batch.commit store s).1.2 0 :=
  store.advances_change (some batch.generation) (Backend.write · batch.pending) s

theorem advances_commitAll (store : Store (StateM σ) H) (mutations : List Mutation) (s : σ) :
    store.Advances (store.commitAll mutations s).1.2 0 := by
  unfold commitAll
  cases store.batch with
  | error e => exact .refl store
  | ok batch => exact advances_commit _ store s

/-- A flush opens one handle if it succeeds, and none if it fails. -/
theorem advances_flush (store : Store (StateM σ) H) (s : σ) :
    ∃ result store' after, store.flush s = ((result, store'), after) ∧
      store.Advances store' result.isOk.toNat := by
  obtain ⟨config, selector, live?, generation, closed⟩ := store
  unfold flush
  cases closed with
  | true => exact ⟨_, _, _, rfl, .refl _⟩
  | false =>
    cases live? with
    | none =>
      rcases hconnect : selector.connect config s with ⟨_ | live, after⟩
      · exact ⟨_, _, _, (state_bind rfl).trans (state_bind hconnect), .refl _⟩
      · exact ⟨_, _, _, (state_bind rfl).trans (state_bind hconnect), Nat.le_refl _, rfl⟩
    | some live =>
      -- The old handle is given up before another one is opened, so its number is gone in any case.
      rcases hclose : (Backend.close live.handle : StateM σ _) s with ⟨_, middle⟩
      let given : Store (StateM σ) H :=
        { config, selector, live := none, generation := generation + 1 }
      have hgiven : (pure given : StateM σ (Store (StateM σ) H)) middle = (given, middle) := rfl
      rcases hconnect : selector.connect config middle with ⟨e | live', after⟩
      · exact ⟨.error e, given, after,
          (state_bind hclose).trans ((state_bind hgiven).trans (state_bind hconnect)),
          Nat.le_succ _, rfl⟩
      · exact ⟨.ok (), { given with live := some live' }, after,
          (state_bind hclose).trans ((state_bind hgiven).trans (state_bind hconnect)),
          Nat.le_succ _, rfl⟩

end Store

/-! ## What a call leaves of a cursor -/

namespace Cursor

variable [Backend (StateM σ) H] (cursor : Cursor) (store : Store (StateM σ) H) (s : σ)

theorem refill_generation :
    ∃ result cursor' after, cursor.refill store s = ((result, cursor'), after) ∧
      cursor'.generation = cursor.generation := by
  obtain ⟨generation, pageSize, buffer, resumeAt, currentKey, fused⟩ := cursor
  cases buffer with
  | cons entry rest => exact ⟨_, _, _, rfl, rfl⟩
  | nil =>
    cases resumeAt with
    | none => exact ⟨_, _, _, rfl, rfl⟩
    | some next =>
      rcases hask : store.ask (some generation) (Backend.scan · next pageSize) s with
        ⟨e | page, after⟩
      · exact ⟨_, _, _, state_bind hask, rfl⟩
      · exact ⟨_, _, _, state_bind hask, rfl⟩

theorem hasNext_generation :
    ∃ result cursor' after, cursor.hasNext store s = ((result, cursor'), after) ∧
      cursor'.generation = cursor.generation := by
  unfold hasNext
  split
  · exact ⟨_, _, _, rfl, rfl⟩
  · obtain ⟨result, cursor', after, hrun, hgeneration⟩ := refill_generation cursor store s
    exact ⟨_, _, _, state_bind hrun, hgeneration⟩

theorem nextEntry_generation :
    ∃ result cursor' after, cursor.nextEntry store s = ((result, cursor'), after) ∧
      cursor'.generation = cursor.generation := by
  obtain ⟨result, cursor', after, hrun, hgeneration⟩ := hasNext_generation cursor store s
  unfold nextEntry
  rw [state_bind hrun]
  cases result with
  | error e => exact ⟨_, _, _, rfl, hgeneration⟩
  | ok more =>
    cases hbuffer : cursor'.buffer with
    | nil => exact ⟨_, cursor', after, by simp only [hbuffer]; rfl, hgeneration⟩
    | cons entry rest =>
      exact ⟨_, { cursor' with buffer := rest, currentKey := some entry.1 }, after,
        by simp only [hbuffer]; rfl, hgeneration⟩

theorem item_generation :
    ∃ item? cursor' after, cursor.item store s = ((item?, cursor'), after) ∧
      cursor'.generation = cursor.generation := by
  unfold item
  split
  · exact ⟨_, _, _, rfl, rfl⟩
  · obtain ⟨more, middle, between, hmore, hmiddle⟩ := hasNext_generation cursor store s
    rw [state_bind hmore]
    cases more with
    | error e => exact ⟨_, _, _, rfl, hmiddle⟩
    | ok more =>
      cases more with
      | false => exact ⟨_, _, _, rfl, hmiddle⟩
      | true =>
        obtain ⟨result, last, after, hnext, hlast⟩ := nextEntry_generation middle store between
        cases result with
        | error e => exact ⟨_, _, _, state_bind hnext, hlast.trans hmiddle⟩
        | ok entry => exact ⟨_, _, _, state_bind hnext, hlast.trans hmiddle⟩

theorem removeCurrent_generation :
    ∃ result cursor' store' after,
      cursor.removeCurrent store s = ((result, cursor', store'), after) ∧
      cursor'.generation = cursor.generation ∧ store.Advances store' 0 := by
  unfold removeCurrent
  split
  · exact ⟨_, _, _, _, rfl, rfl, .refl store⟩
  · cases cursor.currentKey with
    | none => exact ⟨_, _, _, _, rfl, rfl, .refl store⟩
    | some key =>
      have hadvances := store.advances_change (some cursor.generation) (Backend.delete · key) s
      rcases hrun : store.change (some cursor.generation) (Backend.delete · key) s with
        ⟨⟨e | _, store'⟩, after⟩
      all_goals rw [hrun] at hadvances
      · exact ⟨_, _, _, _, state_bind hrun, rfl, hadvances⟩
      · exact ⟨_, _, _, _, state_bind hrun, rfl, hadvances⟩

end Cursor

/-! ## Calls on what was handed out -/

/-- A handle whose answers never are that it is stale. -/
structure Steady [Backend (StateM σ) H] (handle : H) : Prop where
  scan : ∀ start limit (s : σ),
    ((Backend.scan handle start limit : StateM σ _) s).1 ≠ .error .staleHandle
  delete : ∀ key (s : σ), ((Backend.delete handle key : StateM σ _) s).1.1 ≠ .error .staleHandle
  write : ∀ batch (s : σ), ((Backend.write handle batch : StateM σ _) s).1.1 ≠ .error .staleHandle

namespace Store

variable {store : Store (StateM σ) H} {generation : Nat}

theorem current_of_isCurrent (h : store.isCurrent generation = true) :
    ∃ live, store.live = some live ∧ store.current (some generation) = .ok live := by
  unfold isCurrent at h
  cases hlive : store.live with
  | none => simp [hlive] at h
  | some live =>
    have hgeneration : store.generation = generation := by simpa [hlive] using h
    exact ⟨live, rfl, by simp [current, hlive, hgeneration]⟩

theorem current_of_not_isCurrent (h : store.isCurrent generation = false) :
    store.current (some generation) = .error .staleHandle := by
  unfold isCurrent at h
  cases hlive : store.live with
  | none => simp [current, hlive]
  | some live =>
    have hgeneration : ¬ store.generation = generation := by simpa [hlive] using h
    simp [current, hlive, Ne.symm hgeneration]

end Store

namespace Cursor

variable [Backend (StateM σ) H] {cursor : Cursor} {store : Store (StateM σ) H}

/-- Every call is refused and does nothing; as a sequence the walk says so once and then ends. -/
structure Refused (cursor : Cursor) (store : Store (StateM σ) H) : Prop where
  hasNext : cursor.hasNext store = pure (.error .staleHandle, cursor)
  nextEntry : cursor.nextEntry store = pure (.error .staleHandle, cursor)
  removeCurrent : cursor.removeCurrent store = pure (.error .staleHandle, cursor, store)
  item : cursor.fused = false →
    cursor.item store = pure (some (.error .staleHandle), { cursor with fused := true })
  ended : cursor.fused = true → cursor.item store = pure (none, cursor)

/-- No call is refused because of the handle. -/
structure Admitted (cursor : Cursor) (store : Store (StateM σ) H) : Prop where
  hasNext : ∀ s, (cursor.hasNext store s).1.1 ≠ .error .staleHandle
  nextEntry : ∀ s, (cursor.nextEntry store s).1.1 ≠ .error .staleHandle
  removeCurrent : ∀ s, (cursor.removeCurrent store s).1.1 ≠ .error .staleHandle
  item : ∀ s, (cursor.item store s).1.1 ≠ some (.error .staleHandle)

theorem refused_of_stale (stale : store.isCurrent cursor.generation = false) :
    cursor.Refused store := by
  have hstale : cursor.isStale store = true := by simp [isStale, stale]
  have hnext : cursor.hasNext store = pure (.error .staleHandle, cursor) := by
    unfold hasNext
    rw [if_pos hstale]
  refine ⟨hnext, ?_, ?_, ?_, ?_⟩
  · unfold nextEntry
    rw [hnext]
    rfl
  · unfold removeCurrent
    rw [if_pos hstale]
  · intro hfused
    unfold item
    rw [if_neg (by simp [hfused]), hnext]
    rfl
  · intro hfused
    unfold item
    rw [if_pos hfused]

section

variable (current : store.isCurrent cursor.generation = true)
  (steady : ∀ live, store.live = some live → Steady (σ := σ) live.handle)

include current steady

theorem refill_ne_stale (s : σ) : (cursor.refill store s).1.1 ≠ .error .staleHandle := by
  obtain ⟨live, hlive, hcurrent⟩ := Store.current_of_isCurrent current
  unfold refill
  cases cursor.buffer with
  | cons entry rest => exact nofun
  | nil =>
    cases cursor.resumeAt with
    | none => exact nofun
    | some next =>
      have hscan := (steady live hlive).scan next cursor.pageSize s
      have hask : store.ask (some cursor.generation) (Backend.scan · next cursor.pageSize) =
          Backend.scan live.handle next cursor.pageSize := by
        simp only [Store.ask, hcurrent]
      rcases hpage : (Backend.scan live.handle next cursor.pageSize : StateM σ _) s with
        ⟨e | page, after⟩
      all_goals
        simp only [hask]
        rw [state_bind hpage]
      · rw [hpage] at hscan
        exact fun heq => hscan (by cases heq; rfl)
      · exact nofun

theorem hasNext_ne_stale (s : σ) : (cursor.hasNext store s).1.1 ≠ .error .staleHandle := by
  have hrefill := refill_ne_stale current steady s
  unfold hasNext
  rw [if_neg (by simp [isStale, current])]
  rcases hrun : cursor.refill store s with ⟨⟨e | _, cursor'⟩, after⟩
  all_goals rw [state_bind hrun]
  · rw [hrun] at hrefill
    exact fun heq => hrefill (by cases heq; rfl)
  · exact nofun

theorem nextEntry_ne_stale (s : σ) : (cursor.nextEntry store s).1.1 ≠ .error .staleHandle := by
  have hnext := hasNext_ne_stale current steady s
  rcases hrun : cursor.hasNext store s with ⟨⟨e | more, cursor'⟩, after⟩
  all_goals
    unfold nextEntry
    rw [state_bind hrun]
  · rw [hrun] at hnext
    exact fun heq => hnext (by cases heq; rfl)
  · cases hbuffer : cursor'.buffer with
    | nil => simp only [hbuffer]; exact nofun
    | cons entry rest => simp only [hbuffer]; exact nofun

theorem item_ne_stale (s : σ) : (cursor.item store s).1.1 ≠ some (.error .staleHandle) := by
  unfold item
  split
  · exact nofun
  · have hmore := hasNext_ne_stale current steady s
    obtain ⟨more, middle, between, hrun, hgeneration⟩ := hasNext_generation cursor store s
    rw [state_bind hrun]
    cases more with
    | error e =>
      rw [hrun] at hmore
      exact fun heq => hmore (by cases heq; rfl)
    | ok more =>
      cases more with
      | false => exact nofun
      | true =>
        rw [← hgeneration] at current
        have hnext := nextEntry_ne_stale current steady between
        obtain ⟨result, last, after, hrun', _⟩ := nextEntry_generation middle store between
        simp only
        rw [state_bind hrun']
        rw [hrun'] at hnext
        cases result with
        | error e => exact fun heq => hnext (by cases heq; rfl)
        | ok entry => exact nofun

theorem removeCurrent_ne_stale (s : σ) :
    (cursor.removeCurrent store s).1.1 ≠ .error .staleHandle := by
  obtain ⟨live, hlive, hcurrent⟩ := Store.current_of_isCurrent current
  unfold removeCurrent
  rw [if_neg (by simp [isStale, current])]
  cases cursor.currentKey with
  | none => exact nofun
  | some key =>
    have hdelete := (steady live hlive).delete key s
    rcases hrun : (Backend.delete live.handle key : StateM σ _) s with ⟨⟨result, handle⟩, after⟩
    rw [hrun] at hdelete
    have hchange : store.change (some cursor.generation) (Backend.delete · key) s =
        ((result, { store with live := some { live with handle } }), after) := by
      simp only [Store.change, hcurrent]
      exact state_bind hrun
    simp only
    rw [state_bind hchange]
    cases result with
    | error e => exact fun heq => hdelete (by cases heq; rfl)
    | ok _ => exact nofun

end

theorem admitted_of_current (current : store.isCurrent cursor.generation = true)
    (steady : ∀ live, store.live = some live → Steady (σ := σ) live.handle) :
    cursor.Admitted store where
  hasNext := hasNext_ne_stale current steady
  nextEntry := nextEntry_ne_stale current steady
  removeCurrent := removeCurrent_ne_stale current steady
  item := item_ne_stale current steady

end Cursor

namespace Batch

variable [Backend (StateM σ) H] {batch : Batch} {store : Store (StateM σ) H}

/-- Committing is refused and does nothing. -/
def Refused (batch : Batch) (store : Store (StateM σ) H) : Prop :=
  batch.commit store = pure (.error .staleHandle, store)

/-- Committing is not refused because of the handle. -/
def Admitted (batch : Batch) (store : Store (StateM σ) H) : Prop :=
  ∀ s, (batch.commit store s).1.1 ≠ .error .staleHandle

theorem refused_of_stale (stale : store.isCurrent batch.generation = false) :
    batch.Refused store := by
  unfold Refused commit Store.change
  rw [Store.current_of_not_isCurrent stale]
  rfl

theorem admitted_of_current (current : store.isCurrent batch.generation = true)
    (steady : ∀ live, store.live = some live → Steady (σ := σ) live.handle) :
    batch.Admitted store := by
  intro s
  obtain ⟨live, hlive, hcurrent⟩ := Store.current_of_isCurrent current
  have hwrite := (steady live hlive).write batch.pending s
  rcases hrun : (Backend.write live.handle batch.pending : StateM σ _) s with
    ⟨⟨result, handle⟩, after⟩
  rw [hrun] at hwrite
  have hchange : store.change (some batch.generation) (Backend.write · batch.pending) s =
      ((result, { store with live := some { live with handle } }), after) := by
    simp only [Store.change, hcurrent]
    exact state_bind hrun
  unfold commit
  rw [state_bind hchange]
  cases result with
  | ok _ => exact nofun
  | error e =>
    intro heq
    cases e <;> first | exact hwrite rfl | cases heq

end Batch

end OrderedStore
