import OrderedStore.Proofs.Store.Refusal
import OrderedStore.Proofs.Store.Requests

/-!
# An account of handles

Engines can be watched: each time they open a handle, refuse to or close one, this is entered in a
book, for the store on whose behalf it was done. Nothing is assumed about the engines; every call
may fail in any way.

Main definitions:

- `Deed`, `Event`: what is entered in the book.
- `Watched`, `Selector.watched`: handles and engines that enter what they do.
- `Attempt`, `Account`: what may be in the book of a store.
- `Store.Accounted`: the book of a store in accordance with its handle.

Main statements: `Account.balanced` counts what an account opens and closes;
`Store.Accounted.moves_flush` and `Store.Accounted.moves_close` say what the two calls enter that
give handles up.
-/

namespace OrderedStore

/-! ## Deeds -/

/-- The place of an engine in a selector. -/
inductive Role where
  | preferred
  | fallback
deriving DecidableEq

/-- What an engine does to handles. Those of a store are numbered in the order in which they were
opened. -/
inductive Deed where
  | opened (role : Role) (number : Nat)
  | refused (role : Role) (error : Error)
  | closed (number : Nat)

/-- A deed on behalf of the store with a number. -/
structure Event where
  owner : Nat
  deed : Deed

/-- The handle that a deed opens. -/
def Deed.opening? : Deed → Option Nat
  | .opened _ number => some number
  | _ => none

/-- The handle that a deed closes. -/
def Deed.closing? : Deed → Option Nat
  | .closed number => some number
  | _ => none

/-- The handles opened by deeds. -/
def openings (deeds : List Deed) : List Nat :=
  deeds.filterMap Deed.opening?

/-- The handles closed by deeds. -/
def closings (deeds : List Deed) : List Nat :=
  deeds.filterMap Deed.closing?

@[simp]
theorem openings_append (deeds more : List Deed) :
    openings (deeds ++ more) = openings deeds ++ openings more :=
  List.filterMap_append

@[simp]
theorem closings_append (deeds more : List Deed) :
    closings (deeds ++ more) = closings deeds ++ closings more :=
  List.filterMap_append

/-- The deeds on behalf of one store. -/
def dealings (owner : Nat) (book : List Event) : List Deed :=
  (book.filter (·.owner = owner)).map Event.deed

@[simp]
theorem dealings_append_self (owner : Nat) (book : List Event) (deeds : List Deed) :
    dealings owner (book ++ deeds.map (Event.mk owner)) = dealings owner book ++ deeds := by
  simp [dealings, List.filter_map, Function.comp_def]

theorem dealings_append_other {owner other : Nat} (hne : other ≠ owner) (book : List Event)
    (deeds : List Deed) :
    dealings other (book ++ deeds.map (Event.mk owner)) = dealings other book := by
  simp [dealings, List.filter_map, Function.comp_def, hne.symm]

/-! ## Accounts -/

/-- The deeds of one attempt to open the handle with the next number: the preferred engine is asked
once, and the other one once if the first refused for a reason of input or output. -/
inductive Attempt (next : Nat) : List Deed → Option Nat → Prop where
  | preferred : Attempt next [.opened .preferred next] (some next)
  | fallback {first : Error} : first.isIoClass = true →
      Attempt next [.refused .preferred first, .opened .fallback next] (some next)
  | neither {first second : Error} : first.isIoClass = true →
      Attempt next [.refused .preferred first, .refused .fallback second] none
  | refused {first : Error} : first.isIoClass = false →
      Attempt next [.refused .preferred first] none

/-- The deeds on behalf of one store: attempts while no handle is open, and a closing of the one
that is. -/
inductive Account : List Deed → Option Nat → Prop where
  | empty : Account [] none
  | attempt {deeds more : List Deed} {live? : Option Nat} : Account deeds none →
      Attempt (openings deeds).length more live? → Account (deeds ++ more) live?
  | close {deeds : List Deed} {number : Nat} : Account deeds (some number) →
      Account (deeds ++ [.closed number]) none

section

variable {deeds part : List Deed} {live? : Option Nat} {next : Nat}

theorem Attempt.opens (h : Attempt next deeds live?) :
    openings deeds = live?.toList ∧ ∀ number ∈ live?, number = next := by
  cases h <;> exact ⟨rfl, by simp⟩

theorem Attempt.closes_none (h : Attempt next deeds live?) : closings deeds = [] := by
  cases h <;> rfl

theorem Attempt.prefix_opens (h : Attempt next deeds live?) (hpart : part <+: deeds) :
    ∃ open? : Option Nat, openings part = open?.toList ∧ closings part = [] := by
  have hopenings : (openings part).Sublist (openings deeds) := hpart.sublist.filterMap _
  have hclosings : (closings part).Sublist (closings deeds) := hpart.sublist.filterMap _
  rw [h.closes_none, List.sublist_nil] at hclosings
  refine ⟨(openings part).head?, ?_, hclosings⟩
  have hlength : (openings part).length ≤ 1 := by
    refine Nat.le_trans hopenings.length_le ?_
    rw [h.opens.1]
    cases live? <;> simp
  match openings part, hlength with
  | [], _ => rfl
  | [_], _ => rfl

/-- The handles opened are those closed and the one that is open. -/
theorem Account.balanced (h : Account deeds live?) :
    openings deeds = closings deeds ++ live?.toList := by
  induction h with
  | empty => rfl
  | attempt _ hattempt ih =>
    rw [openings_append, closings_append, hattempt.closes_none, ih, hattempt.opens.1]
    simp
  | close _ ih =>
    rw [openings_append, closings_append, ih]
    simp [openings, closings, Deed.opening?, Deed.closing?]

/-- No handle is opened twice. -/
theorem Account.numbered (h : Account deeds live?) :
    openings deeds = List.range (openings deeds).length := by
  induction h with
  | empty => rfl
  | @attempt deeds more live? _ hattempt ih =>
    obtain ⟨hopens, hnext⟩ := hattempt.opens
    rw [openings_append, hopens]
    cases live? with
    | none => simpa using ih
    | some number =>
      obtain rfl := hnext number rfl
      rw [Option.toList_some, List.length_append, List.length_singleton, List.range_succ, ← ih]
  | @close deeds number _ ih =>
    have hnone : openings [.closed number] = [] := rfl
    rw [openings_append, hnone, List.append_nil]
    exact ih

/-- At no time is there more than one handle that was opened and not closed. -/
theorem Account.prefix_balanced (h : Account deeds live?) (hpart : part <+: deeds) :
    ∃ open? : Option Nat, openings part = closings part ++ open?.toList := by
  induction h generalizing part with
  | empty => exact ⟨none, by rw [List.prefix_nil.1 hpart]; rfl⟩
  | attempt account hattempt ih =>
    rcases List.prefix_or_prefix_of_prefix hpart (List.prefix_append ..) with hbefore | hlater
    · exact ih hbefore
    · obtain ⟨later, rfl⟩ := hlater
      obtain ⟨open?, hopens, hcloses⟩ :=
        hattempt.prefix_opens ((List.prefix_append_right_inj _).1 hpart)
      exact ⟨open?, by
        rw [openings_append, closings_append, account.balanced, hopens, hcloses]
        simp⟩
  | close account ih =>
    rcases List.prefix_concat_iff.1 hpart with rfl | hbefore
    · exact ⟨none, account.close.balanced⟩
    · exact ih hbefore

end

/-! ## Watched engines -/

/-- A handle, the store that it was opened for and its number there. -/
structure Watched (H : Type) where
  handle : H
  owner : Nat
  number : Nat

section

variable {σ H α : Type}

/-- Does something that is not entered in the book. -/
def unwatched (action : StateM σ α) : StateM (σ × List Event) α := fun s =>
  let (value, after) := action s.1
  (value, after, s.2)

theorem unwatched_run {action : StateM σ α} {s : σ × List Event} {value : α} {after : σ}
    (h : action s.1 = (value, after)) : unwatched action s = (value, after, s.2) := by
  unfold unwatched
  rw [h]

/-- Enters a deed in the book. -/
def enter (owner : Nat) (deed : Deed) : StateM (σ × List Event) Unit := fun s =>
  ((), s.1, s.2 ++ [⟨owner, deed⟩])

/-- Uses a watched handle. -/
def Watched.use (watched : Watched H) (action : H → StateM σ (α × H)) :
    StateM (σ × List Event) (α × Watched H) := do
  let (value, handle) ← unwatched (action watched.handle)
  return (value, { watched with handle })

/-- Watched handles do what the handles do, and enter that they were closed. -/
instance [Backend (StateM σ) H] : Backend (StateM (σ × List Event)) (Watched H) where
  kind watched := Backend.kind (StateM σ) watched.handle
  get watched key := unwatched (Backend.get watched.handle key)
  put watched key value := watched.use (Backend.put · key value)
  delete watched key := watched.use (Backend.delete · key)
  write watched batch := watched.use (Backend.write · batch)
  scan watched start limit := unwatched (Backend.scan watched.handle start limit)
  close watched := do
    let result ← unwatched (Backend.close watched.handle)
    enter watched.owner (.closed watched.number)
    return result
  abandon watched := unwatched (Backend.abandon watched.handle)

/-- An engine that opens watched handles for a store and enters what it does. -/
def Engine.watched (engine : Engine (StateM σ) H) (owner : Nat) (role : Role) :
    Engine (StateM (σ × List Event)) (Watched H) where
  kind := engine.kind
  connect config := do
    match ← unwatched (engine.connect config) with
    | .ok handle => do
      let number := (openings (dealings owner (← get).2)).length
      enter owner (.opened role number)
      return .ok ⟨handle, owner, number⟩
    | .error e => do
      enter owner (.refused role e)
      return .error e

/-- Both engines watched. -/
def Selector.watched (selector : Selector (StateM σ) H) (owner : Nat) :
    Selector (StateM (σ × List Event)) (Watched H) where
  preferred := selector.preferred.watched owner .preferred
  fallback := selector.fallback.watched owner .fallback

theorem Engine.connect_watched (engine : Engine (StateM σ) H) (owner : Nat) (role : Role)
    (config : Config) (s : σ × List Event) :
    (∃ handle after, (engine.watched owner role).connect config s =
      (.ok ⟨handle, owner, (openings (dealings owner s.2)).length⟩, after,
        s.2 ++ [⟨owner, .opened role (openings (dealings owner s.2)).length⟩])) ∨
    ∃ e after, (engine.watched owner role).connect config s =
      (.error e, after, s.2 ++ [⟨owner, .refused role e⟩]) := by
  rcases hconnect : engine.connect config s.1 with ⟨result, after⟩
  cases result with
  | error e => exact .inr ⟨e, after, state_bind (unwatched_run hconnect)⟩
  | ok handle => exact .inl ⟨handle, after, state_bind (unwatched_run hconnect)⟩

/-- The number of a handle that there may be. -/
def numberOf (live? : Option (Live (Watched H))) : Option Nat :=
  live?.map (·.handle.number)

/-- Asking two watched engines for a handle is one attempt. -/
theorem Selector.connect_watched (selector : Selector (StateM σ) H) (owner : Nat)
    (config : Config) (s : σ × List Event) :
    ∃ result after deeds, (selector.watched owner).connect config s =
        (result, after, s.2 ++ deeds.map (Event.mk owner)) ∧
      Attempt (openings (dealings owner s.2)).length deeds (numberOf result.toOption) ∧
      ∀ live, result = .ok live → live.handle.owner = owner := by
  unfold Selector.connect
  rcases selector.preferred.connect_watched owner .preferred config s with
    ⟨handle, after, hfirst⟩ | ⟨first, after, hfirst⟩
  · exact ⟨.ok ⟨⟨handle, owner, _⟩, selector.preferred.kind⟩, after, [.opened .preferred _],
      state_bind hfirst, .preferred, fun live heq => by cases heq; rfl⟩
  cases hclass : first.isIoClass with
  | false =>
    refine ⟨.error first, after, [.refused .preferred first], (state_bind hfirst).trans ?_,
      .refused hclass, fun _ heq => by cases heq⟩
    simp only [hclass]
    rfl
  | true =>
    let middle : σ × List Event := (after, s.2 ++ [⟨owner, .refused .preferred first⟩])
    have hnext : openings (dealings owner middle.2) = openings (dealings owner s.2) := by
      have hdealings : dealings owner middle.2 = _ :=
        dealings_append_self owner s.2 [.refused .preferred first]
      rw [hdealings, openings_append]
      exact List.append_nil _
    -- The refusal of the first engine stands in the book when the second one is asked.
    have hbook (deed : Deed) : middle.2 ++ [⟨owner, deed⟩] =
        s.2 ++ [.refused .preferred first, deed].map (Event.mk owner) := by
      simp [middle]
    rcases selector.fallback.connect_watched owner .fallback config middle with
      ⟨handle, last, hsecond⟩ | ⟨second, last, hsecond⟩
    · rw [hnext, hbook] at hsecond
      refine ⟨.ok ⟨⟨handle, owner, _⟩, selector.fallback.kind⟩, last, _,
        (state_bind hfirst).trans ?_, .fallback hclass, fun live heq => by cases heq; rfl⟩
      simp only [hclass, if_true]
      exact state_bind hsecond
    · rw [hbook] at hsecond
      refine ⟨.error (.storeOpen first second), last,
        [.refused .preferred first, .refused .fallback second], (state_bind hfirst).trans ?_,
        .neither hclass, fun _ heq => by cases heq⟩
      simp only [hclass, if_true]
      exact state_bind hsecond

end

/-! ## What calls on a store enter -/

namespace Store

variable {σ H : Type}

/-- A store over watched engines. -/
abbrev Watching (σ H : Type) :=
  Store (StateM (σ × List Event)) (Watched H)

/-- The book tells of the store with a number what its handle shows. -/
structure Accounted (id : Nat) (store : Watching σ H)
    (book : List Event) : Prop where
  selector : ∃ selector : Selector (StateM σ) H, store.selector = selector.watched id
  owned : ∀ live, store.live = some live → live.handle.owner = id
  shut : store.closed = true → store.live = none
  account : Account (dealings id book) (numberOf store.live)

/-- What a call on the store with a number leaves: the account goes on, those of other stores are as
they were, and nothing is entered for a store that was closed, which stays closed. -/
structure Moves (id : Nat) (store store' : Watching σ H)
    (book book' : List Event) : Prop where
  accounted : store'.Accounted id book'
  others : ∀ other, other ≠ id → dealings other book' = dealings other book
  closed : store.closed = true → store'.closed = true ∧ dealings id book' = dealings id book

/-- What a call leaves that neither opens nor closes a handle. -/
structure Quiet (store store' : Watching σ H) : Prop where
  selector : store'.selector = store.selector
  closed : store'.closed = store.closed
  live : store'.live.map (fun live => (live.handle.owner, live.handle.number)) =
    store.live.map fun live => (live.handle.owner, live.handle.number)

variable {id : Nat} {store store' : Watching σ H}
  {book : List Event} {s : σ × List Event}

theorem Quiet.refl (store : Watching σ H) : store.Quiet store :=
  ⟨rfl, rfl, rfl⟩

theorem Accounted.moves_quiet (accounted : store.Accounted id book) (quiet : store.Quiet store') :
    store.Moves id store' book book := by
  refine ⟨?_, fun _ _ => rfl, fun hclosed => ⟨quiet.closed.trans hclosed, rfl⟩⟩
  have hlive := quiet.live
  refine ⟨?_, ?_, ?_, ?_⟩
  · rw [quiet.selector]
    exact accounted.selector
  · intro live' hlive'
    rw [hlive'] at hlive
    obtain ⟨live, hold, hsame⟩ := Option.map_eq_some_iff.1 hlive.symm
    rw [← accounted.owned live hold]
    exact (congrArg Prod.fst hsame).symm
  · intro hclosed
    rw [accounted.shut (quiet.closed ▸ hclosed)] at hlive
    exact Option.map_eq_none_iff.1 hlive
  · have hnumber : numberOf store'.live = numberOf store.live := by
      simpa [numberOf, Function.comp_def] using congrArg (Option.map Prod.snd) hlive
    rw [hnumber]
    exact accounted.account

theorem Accounted.moves_change (accounted : store.Accounted id s.2) (caller? : Option Nat)
    (action : H → StateM σ (Except Error Unit × H)) :
    store.Moves id (store.change caller? (Watched.use · action) s).1.2 s.2
      (store.change caller? (Watched.use · action) s).2.2 := by
  unfold change
  cases hcurrent : store.current caller? with
  | error e => exact accounted.moves_quiet (.refl store)
  | ok live =>
    refine accounted.moves_quiet ⟨rfl, rfl, ?_⟩
    rw [live_of_current hcurrent]
    rfl

/-- A call on a store that is not closed may enter what its account allows. -/
theorem Accounted.moves_entered (accounted : store.Accounted id book)
    (store' : Watching σ H) (hopen : store.closed = false)
    (hselector : store'.selector = store.selector)
    (owned : ∀ live, store'.live = some live → live.handle.owner = id)
    (shut : store'.closed = true → store'.live = none) {deeds : List Deed}
    (account : Account (dealings id book ++ deeds) (numberOf store'.live)) :
    store.Moves id store' book (book ++ deeds.map (Event.mk id)) where
  accounted := by
    refine ⟨hselector ▸ accounted.selector, owned, shut, ?_⟩
    rw [dealings_append_self]
    exact account
  others other hne := dealings_append_other hne book deeds
  closed hclosed := by simp [hopen] at hclosed

/-- What giving up the handle of a store enters. -/
def parting (store : Watching σ H) : List Deed :=
  (numberOf store.live).toList.map .closed

theorem openings_parting (store : Watching σ H) :
    openings store.parting = [] := by
  unfold parting
  cases numberOf store.live <;> rfl

theorem Accounted.account_parting (accounted : store.Accounted id book) :
    Account (dealings id book ++ store.parting) none := by
  have haccount := accounted.account
  unfold parting
  cases hlive : store.live with
  | none =>
    rw [hlive] at haccount
    rw [show ((numberOf none).toList.map Deed.closed) = [] from rfl, List.append_nil]
    exact haccount
  | some live =>
    rw [hlive] at haccount
    exact haccount.close

/-- An attempt to open the next handle of a store, whose last one was given up. -/
theorem Accounted.moves_reopened (accounted : store.Accounted id s.2)
    (hopen : store.closed = false) (given : Watching σ H)
    (hselector : given.selector = store.selector) (hclosed : given.closed = false)
    (hlive : given.live = none) {middle : σ × List Event}
    (hmiddle : middle.2 = s.2 ++ store.parting.map (Event.mk id)) :
    ∃ outcome after more, store.selector.connect store.config middle = (outcome, after) ∧
      store.Moves id (given.reopened outcome).2 s.2 after.2 ∧
      dealings id after.2 = dealings id s.2 ++ store.parting ++ more ∧
      Attempt (openings (dealings id s.2)).length more (numberOf outcome.toOption) := by
  obtain ⟨selector, hwatched⟩ := accounted.selector
  obtain ⟨outcome, after, more, hconnect, hattempt, howned⟩ :=
    selector.connect_watched id store.config middle
  rw [hmiddle, dealings_append_self] at hattempt
  have haccount := accounted.account_parting.attempt hattempt
  rw [openings_append, store.openings_parting, List.append_nil] at hattempt
  rw [List.append_assoc] at haccount
  rw [← hwatched, hmiddle, List.append_assoc, ← List.map_append] at hconnect
  refine ⟨outcome, _, more, hconnect, ?_, ?_, hattempt⟩
  · cases outcome with
    | error e =>
      refine accounted.moves_entered given hopen hselector ?_ (fun _ => hlive) ?_
      · simp [hlive]
      · rw [hlive]
        exact haccount
    | ok live =>
      refine accounted.moves_entered { given with live := some live } hopen hselector ?_ ?_
        haccount
      · rintro _ ⟨⟩
        exact howned live rfl
      · intro hshut
        cases hclosed.symm.trans hshut
  · rw [List.append_assoc]
    exact dealings_append_self id s.2 (store.parting ++ more)

/-- Opening a store is one attempt, unless its configuration is refused. -/
theorem connect_watched (config : Config) (selector : Selector (StateM σ) H) (id : Nat)
    (account : Account (dealings id s.2) none) :
    ∃ result after, connect config (selector.watched id) s = (result, after) ∧
      (∀ store, result = .ok store → store.Accounted id after.2) ∧
      (∀ e, result = .error e → Account (dealings id after.2) none) ∧
      (∀ other, other ≠ id → dealings other after.2 = dealings other s.2) ∧
      (config.validate = .ok () → ∃ more live?,
        dealings id after.2 = dealings id s.2 ++ more ∧
        Attempt (openings (dealings id s.2)).length more live? ∧ result.isOk = live?.isSome) := by
  unfold connect
  cases hvalid : config.validate with
  | error fault =>
    exact ⟨_, s, rfl, (fun _ heq => by cases heq), fun _ _ => account, fun _ _ => rfl, nofun⟩
  | ok _ =>
    obtain ⟨outcome, after, deeds, hconnect, hattempt, howned⟩ :=
      selector.connect_watched id config s
    have haccount := account.attempt hattempt
    have hself := dealings_append_self id s.2 deeds
    rw [← hself] at haccount
    simp only
    rw [state_bind hconnect]
    have hothers (other : Nat) (hne : other ≠ id) := dealings_append_other hne s.2 deeds
    cases outcome with
    | error e =>
      exact ⟨.error e, (after, _), rfl, (fun _ heq => by cases heq), fun _ _ => haccount,
        hothers, fun _ => ⟨deeds, none, hself, hattempt, rfl⟩⟩
    | ok live =>
      refine ⟨.ok { config, selector := selector.watched id, live := some live }, (after, _), rfl,
        fun store heq => ?_, nofun, hothers,
        fun _ => ⟨deeds, some live.handle.number, hself, hattempt, rfl⟩⟩
      cases heq
      refine ⟨⟨selector, rfl⟩, fun _ heq => ?_, nofun, haccount⟩
      cases heq
      exact howned live rfl

variable [Backend (StateM σ) H]

/-- Committing uses the handle at most once. -/
theorem Accounted.moves_commit (accounted : store.Accounted id s.2) (batch : Batch) :
    store.Moves id (batch.commit store s).1.2 s.2 (batch.commit store s).2.2 :=
  accounted.moves_change (some batch.generation) (Backend.write · batch.pending)

theorem Accounted.moves_commitAll (accounted : store.Accounted id s.2)
    (mutations : List Mutation) :
    store.Moves id (store.commitAll mutations s).1.2 s.2 (store.commitAll mutations s).2.2 := by
  unfold commitAll
  cases store.batch with
  | error e => exact accounted.moves_quiet (.refl store)
  | ok batch => exact accounted.moves_commit _

theorem Accounted.moves_removeCurrent (accounted : store.Accounted id s.2) (cursor : Cursor) :
    store.Moves id (cursor.removeCurrent store s).1.2.2 s.2
      (cursor.removeCurrent store s).2.2 := by
  unfold Cursor.removeCurrent
  split
  · exact accounted.moves_quiet (.refl store)
  · cases cursor.currentKey with
    | none => exact accounted.moves_quiet (.refl store)
    | some key =>
      have hmoves : store.Moves id
          (store.change (some cursor.generation) (Backend.delete · key) s).1.2 s.2
          (store.change (some cursor.generation) (Backend.delete · key) s).2.2 :=
        accounted.moves_change (some cursor.generation) (Backend.delete · key)
      rcases hrun : store.change (some cursor.generation) (Backend.delete · key) s with
        ⟨⟨e | _, store'⟩, after⟩
      all_goals
        rw [hrun] at hmoves
        simp only
        rw [state_bind hrun]
        exact hmoves

theorem Accounted.close_live (accounted : store.Accounted id s.2) {live : Live (Watched H)}
    (hlive : store.live = some live) :
    ∃ result after, (Backend.close live.handle : StateM (σ × List Event) (Except Error Unit)) s =
      (result, after, s.2 ++ store.parting.map (Event.mk id)) := by
  rcases hclose : (Backend.close live.handle.handle : StateM σ _) s.1 with ⟨result, after⟩
  have hparting : store.parting = [.closed live.handle.number] := by
    unfold parting
    rw [hlive]
    rfl
  refine ⟨result, after, ?_⟩
  rw [hparting, ← accounted.owned live hlive]
  exact state_bind (unwatched_run hclose)

theorem Accounted.moves_close (accounted : store.Accounted id s.2) :
    store.Moves id (store.close s).1.2 s.2 (store.close s).2.2 := by
  have haccount := accounted.account
  obtain ⟨config, selector, live?, generation, closed⟩ := store
  cases live? with
  | none =>
    exact ⟨⟨accounted.selector, nofun, fun _ => rfl, haccount⟩, fun _ _ => rfl,
      fun _ => ⟨rfl, rfl⟩⟩
  | some live =>
    have hopen : closed = false := by
      by_contra hclosed
      have := accounted.shut (by simpa using hclosed)
      cases this
    obtain ⟨result, after, hclose⟩ := accounted.close_live rfl
    unfold close
    simp only
    rw [state_bind hclose]
    exact accounted.moves_entered
      { config, selector, live := none, generation := generation + 1, closed := true } hopen rfl
      nofun (fun _ => rfl) accounted.account_parting

/-- A flush enters the closing of the handle, if there is one, and one attempt to open another. -/
theorem Accounted.flush_enters (accounted : store.Accounted id s.2)
    (hopen : store.closed = false) :
    ∃ result store' after more live?, store.flush s = ((result, store'), after) ∧
      store.Moves id store' s.2 after.2 ∧
      dealings id after.2 = dealings id s.2 ++ store.parting ++ more ∧
      Attempt (openings (dealings id s.2)).length more live? ∧ result.isOk = live?.isSome := by
  cases hlive : store.live with
  | none =>
    have hnothing : s.2 = s.2 ++ store.parting.map (Event.mk id) := by
      simp [parting, hlive, numberOf]
    obtain ⟨outcome, after, more, hconnect, moves, hdealings, hattempt⟩ :=
      accounted.moves_reopened hopen store rfl hopen hlive hnothing
    exact ⟨_, _, after, more, _, flush_of_none hopen hlive hconnect, moves, hdealings, hattempt,
      by cases outcome <;> rfl⟩
  | some live =>
    obtain ⟨result, middle, hclose⟩ := accounted.close_live hlive
    have hmiddle : (middle, s.2 ++ store.parting.map (Event.mk id)).2 =
        s.2 ++ store.parting.map (Event.mk id) := rfl
    obtain ⟨outcome, after, more, hconnect, moves, hdealings, hattempt⟩ :=
      accounted.moves_reopened hopen store.givenUp rfl hopen rfl hmiddle
    exact ⟨_, _, after, more, _, flush_of_live hopen hlive hclose hconnect, moves, hdealings,
      hattempt, by cases outcome <;> rfl⟩

theorem Accounted.moves_flush (accounted : store.Accounted id s.2) :
    store.Moves id (store.flush s).1.2 s.2 (store.flush s).2.2 := by
  cases hopen : store.closed with
  | true =>
    unfold flush
    rw [if_pos hopen]
    exact accounted.moves_quiet (.refl store)
  | false =>
    obtain ⟨_, _, _, _, _, hflush, moves, _⟩ := accounted.flush_enters hopen
    rw [hflush]
    exact moves

/-- Letting go of a store enters the closing of its handle, if there is one. -/
theorem Accounted.dispose_enters (accounted : store.Accounted id s.2) :
    (store.dispose s).2.2 = s.2 ++ store.parting.map (Event.mk id) := by
  unfold Store.dispose
  cases hlive : store.live with
  | none =>
    have hnothing : store.parting = [] := by simp [parting, hlive, numberOf]
    rw [hnothing]
    exact (List.append_nil s.2).symm
  | some live =>
    obtain ⟨result, after, hclose⟩ := accounted.close_live hlive
    simp only
    rw [state_bind hclose]
    rfl

end Store

/-! ## What calls on a cursor enter -/

namespace Cursor

variable {σ H : Type} [Backend (StateM σ) H] (cursor : Cursor)
  (store : Store.Watching σ H) (s : σ × List OrderedStore.Event)

theorem refill_book : (cursor.refill store s).2.2 = s.2 := by
  obtain ⟨generation, pageSize, buffer, resumeAt, currentKey, fused⟩ := cursor
  unfold refill Store.ask
  cases buffer with
  | cons entry rest => rfl
  | nil =>
    cases resumeAt with
    | none => rfl
    | some start =>
      cases store.current (some generation) with
      | error e => rfl
      | ok live =>
        rcases hscan : (Backend.scan live.handle.handle start pageSize : StateM σ _) s.1 with
          ⟨e | page, after⟩
        all_goals
          have hrun : (Backend.scan live.handle start pageSize :
              StateM (σ × List OrderedStore.Event) _) s = _ := unwatched_run hscan
          simp only
          rw [state_bind hrun]
          rfl

theorem hasNext_book : (cursor.hasNext store s).2.2 = s.2 := by
  unfold hasNext
  split
  · rfl
  · have hrefill := refill_book cursor store s
    rcases hrun : cursor.refill store s with ⟨⟨result, cursor'⟩, after⟩
    rw [hrun] at hrefill
    rw [state_bind hrun]
    exact hrefill

theorem nextEntry_book : (cursor.nextEntry store s).2.2 = s.2 := by
  have hnext := hasNext_book cursor store s
  unfold nextEntry
  rcases hrun : cursor.hasNext store s with ⟨⟨e | more, cursor'⟩, after⟩
  all_goals
    rw [hrun] at hnext
    rw [state_bind hrun]
  · exact hnext
  · cases hbuffer : cursor'.buffer with
    | nil => simp only [hbuffer]; exact hnext
    | cons entry rest => simp only [hbuffer]; exact hnext

theorem item_book : (cursor.item store s).2.2 = s.2 := by
  unfold item
  split
  · rfl
  · have hmore := hasNext_book cursor store s
    rcases hrun : cursor.hasNext store s with ⟨⟨e | _ | _, middle⟩, between⟩
    all_goals
      rw [hrun] at hmore
      rw [state_bind hrun]
    · exact hmore
    · exact hmore
    · have hnext := nextEntry_book middle store between
      rcases hrun' : middle.nextEntry store between with ⟨⟨e | entry, last⟩, after⟩
      all_goals
        rw [hrun'] at hnext
        simp only
        rw [state_bind hrun']
        exact hnext.trans hmore

end Cursor

end OrderedStore
