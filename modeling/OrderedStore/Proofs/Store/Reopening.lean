import OrderedStore.Engine.Native
import OrderedStore.Proofs.Portable.Deferral
import OrderedStore.Proofs.Portable.Obstruction
import OrderedStore.Proofs.Store.Reading
import OrderedStore.Proofs.Store.Requests

/-!
# Flushes of a store

A store that only the portable engine can serve is flushed, any number of times, and any call may be
refused on the way. A flush closes the handle in use, whether or not its memtable can be written
out, and opens another one; if that fails, the store is left without a handle until a later flush.
Whenever there is a handle again, the store shows what it showed before.

Main definitions:

- `Serves`: a directory that holds a history, under a live handle or under none.
- `Site.Run`: a store that is opened, changed, flushed and closed while calls are refused.
- `Site.Shows`: what all reads of a store give.

Main statements: `Site.Run.keeps` says what any run leaves, and `Site.flush_keeps_content` that
flushes change nothing.
-/

namespace OrderedStore

open Log (Operation)
open Portable (Change Refusable Rests Unlocked Vacant Ready)

variable {store store' : Store Script Portable} {host after : Host} {plain : Plain}
  {path : Path} {root : Location} {used : Nat} {ops : List Operation} {live : Live Portable}

theorem Store.reads_of_live (hlive : store.live = some live)
    (serving : Portable.Live .frail path root used ops live.handle host) :
    store.Reads host (Plain.after ops) where
  get key := by
    have hask : store.get key = (live.handle.get key).run := by
      simp [Store.get, Store.ask, Store.current, hlive, Backend.get]
    rw [hask]
    exact serving.perform_get key
  live := by
    refine ⟨live, hlive, fun start limit => ?_⟩
    obtain ⟨page, hrun, hpage, _⟩ := serving.perform_scan start limit
    exact ⟨page, hrun, hpage⟩

/-! ## Opening, flushing and closing -/

/-- A selector that only the portable engine can serve. -/
structure Selector.OnlyPortable (selector : Selector Script Portable) : Prop where
  unavailable : ∀ config, ∃ e, e.isIoClass = true ∧
    selector.preferred.connect config = .done (.error e)
  fallback : selector.fallback = .portable

/-- A directory that holds a history, under a live handle or under none. -/
def Serves (path : Path) (root : Location) (used : Nat) (ops : List Operation) (host : Host) :
    Option (Live Portable) → Prop
  | none => Rests .frail path root used ops host ∧ Unlocked host.view root
  | some live => Portable.Live .frail path root used ops live.handle host

theorem Serves.mono {live? : Option (Live Portable)} (h : Serves path root used ops host live?)
    {more : Nat} (le : used ≤ more) : Serves path root more ops host live? := by
  cases live? with
  | none => exact ⟨h.1.mono le, h.2⟩
  | some live => exact Portable.Live.mono h le

/-- A handle is opened on the history that the directory holds, or the directory is left to the next
opening. -/
theorem Selector.OnlyPortable.connect {selector : Selector Script Portable} {config : Config}
    {outcome : Except Error (Live Portable)} (only : selector.OnlyPortable)
    (serves : Serves config.path root used ops host none) (small : used + 2 < UInt64.size)
    (run : (selector.connect config).Endures (Refusable root) host outcome after) :
    Serves config.path root (used + 1) ops after outcome.toOption := by
  obtain ⟨e, hclass, hpreferred⟩ := only.unavailable config
  unfold Selector.connect at run
  rw [hpreferred, only.fallback] at run
  simp only [Script.bind_done, hclass, if_true] at run
  obtain ⟨opened, last, hopen, hdone⟩ := run.of_bind
  rcases Portable.start_refused serves.1 serves.2 small hopen with ⟨handle, rfl, hlive⟩ |
    ⟨⟨e', rfl⟩, hrests⟩
  · cases hdone
    exact hlive
  · cases hdone
    exact hrests

namespace Store

variable {config : Config} {selector : Selector Script Portable} {result : Except Error Unit}

/-- The calls that may be refused while a store is changed. -/
def Unforced (store : Store Script Portable) (host : Host) (call : Call) : Prop :=
  ∀ live, store.live = some live → live.handle.Unforced host call

theorem connect_refused (only : selector.OnlyPortable)
    (serves : Serves config.path root used ops host none) (small : used + 2 < UInt64.size)
    {opened : Except Error (Store Script Portable)}
    (run : (Store.connect config selector).Endures (Refusable root) host opened after) :
    (∃ store, opened = .ok store ∧ store.config = config ∧ store.selector = selector ∧
        store.live.isSome ∧ Serves config.path root (used + 1) ops after store.live) ∨
      (∃ e, opened = .error e) ∧ Serves config.path root (used + 1) ops after none := by
  unfold connect at run
  cases hvalid : config.validate with
  | error fault =>
    simp only [hvalid] at run
    cases run
    exact Or.inr ⟨⟨_, rfl⟩, serves.mono (Nat.le_succ _)⟩
  | ok valid =>
    simp only [hvalid] at run
    obtain ⟨outcome, last, hconnect, hdone⟩ := run.of_bind
    have hserves := only.connect serves small hconnect
    cases outcome with
    | error e =>
      cases hdone
      exact Or.inr ⟨⟨e, rfl⟩, hserves⟩
    | ok live =>
      cases hdone
      exact Or.inl ⟨_, rfl, rfl, rfl, rfl, hserves⟩

/-- A change is made whole or not at all, as it is acknowledged or refused. -/
theorem change_refused {caller? : Option Nat} {change : Change}
    (serves : Serves path root used ops host store.live) (small : used + 2 < UInt64.size)
    (run : (store.change caller? (·.change change)).Endures store.Unforced host
      (result, store') after) :
    store'.config = store.config ∧ store'.selector = store.selector ∧
      (result = .ok () ∧
          Serves path root (used + 1) (ops ++ change.operations) after store'.live ∨
        (∃ e, result = .error e) ∧ Serves path root (used + 1) ops after store'.live) := by
  unfold Store.change at run
  cases hcurrent : store.current caller? with
  | error e =>
    simp only [hcurrent] at run
    cases run
    exact ⟨rfl, rfl, Or.inr ⟨⟨e, rfl⟩, serves.mono (Nat.le_succ _)⟩⟩
  | ok live =>
    have hlive := live_of_current hcurrent
    rw [hlive] at serves
    simp only [hcurrent] at run
    obtain ⟨⟨changed, handle⟩, last, hchange, hdone⟩ := run.of_bind
    cases hdone
    have hunforced := hchange.mono fun host call hmay => hmay live hlive
    exact ⟨rfl, rfl, Portable.Live.change_refused serves small hunforced⟩

/-- A store without a handle gets one, or stays as it is. -/
theorem reopened_refused (only : store.selector.OnlyPortable) (unserved : store.live = none)
    (serves : Serves store.config.path root used ops host none) (small : used + 2 < UInt64.size)
    {outcome : Except Error (Live Portable)}
    (run : (store.selector.connect store.config).Endures (Refusable root) host outcome after) :
    Serves store.config.path root (used + 1) ops after (store.reopened outcome).2.live ∧
      ((store.reopened outcome).1 = .ok () → (store.reopened outcome).2.live.isSome) := by
  have hlast := only.connect serves small run
  cases outcome with
  | error e => exact ⟨unserved.symm ▸ hlast, fun heq => by cases heq⟩
  | ok live => exact ⟨hlast, fun _ => rfl⟩

/-- A flush leaves the history as it was, and a store that it was acknowledged for has a handle. -/
theorem flush_refused (only : store.selector.OnlyPortable)
    (serves : Serves store.config.path root used ops host store.live)
    (small : used + 3 < UInt64.size)
    (run : store.flush.Endures (Refusable root) host (result, store') after) :
    store'.config = store.config ∧ store'.selector = store.selector ∧
      Serves store.config.path root (used + 2) ops after store'.live ∧
      (result = .ok () → store'.live.isSome) := by
  unfold flush at run
  cases hclosed : store.closed with
  | true =>
    simp only [hclosed, if_true] at run
    cases run
    exact ⟨rfl, rfl, serves.mono (by omega), fun heq => by cases heq⟩
  | false =>
    simp only [hclosed, Bool.false_eq_true, if_false] at run
    cases hlive : store.live with
    | none =>
      simp only [hlive, pure_bind] at run serves
      obtain ⟨outcome, last, hconnect, hdone⟩ := run.of_bind
      obtain ⟨hserves, hacknowledged⟩ := reopened_refused only hlive serves (by omega) hconnect
      cases outcome <;> cases hdone <;>
        exact ⟨rfl, rfl, hserves.mono (Nat.le_succ _), hacknowledged⟩
    | some live =>
      -- The old handle is given up first, whether it could be closed in good order or not.
      simp only [hlive, pure_bind] at run serves
      obtain ⟨closed, between, hclose, hrest⟩ := run.of_bind
      have hgiven := Portable.Live.close_refused serves (by omega) hclose
      obtain ⟨outcome, last, hconnect, hdone⟩ := hrest.of_bind
      have hlast := @reopened_refused { store.givenUp with closed := false } _ _ _ _ _ only rfl
        hgiven (by omega) _ hconnect
      cases outcome <;> cases hdone <;> exact ⟨rfl, rfl, hlast⟩

/-- A store is closed in good order or not: the directory holds the history. -/
theorem close_refused (serves : Serves path root used ops host store.live)
    (small : used + 2 < UInt64.size)
    (run : store.close.Endures (Refusable root) host (result, store') after) :
    store'.config = store.config ∧ store'.selector = store.selector ∧
      Serves path root (used + 1) ops after store'.live := by
  unfold close at run
  cases hlive : store.live with
  | none =>
    simp only [hlive] at run serves
    cases run
    exact ⟨rfl, rfl, serves.mono (Nat.le_succ _)⟩
  | some live =>
    simp only [hlive] at run serves
    obtain ⟨closed, last, hclose, hdone⟩ := run.of_bind
    cases hdone
    exact ⟨rfl, rfl, Portable.Live.close_refused serves small hclose⟩

end Store

/-! ## Runs -/

/-- A host, and the store that was opened there last. The store may have no handle. -/
structure Site where
  host : Host
  store? : Option (Store Script Portable)

namespace Site

/-- The handle in use. -/
def live? (site : Site) : Option (Live Portable) :=
  site.store?.bind (·.live)

/-- What is done with a store, and what its user is told. -/
inductive Event where
  | opened (result : Except Error Unit)
  | changed (change : Change) (result : Except Error Unit)
  | flushed (result : Except Error Unit)
  | closed (result : Except Error Unit)

/-- What an event adds to the history: the operations of a change that was acknowledged. -/
def Event.operations : Event → List Operation
  | .changed change (.ok ()) => change.operations
  | .changed _ (.error _) | .opened _ | .flushed _ | .closed _ => []

/-- A flush or an opening that was acknowledged. -/
def Event.Reopens : Event → Prop
  | .flushed (.ok ()) | .opened (.ok ()) => True
  | _ => False

/-- What the changes that were acknowledged make of an empty map. -/
def acknowledged (events : List Event) : Plain :=
  Plain.after (events.flatMap Event.operations)

/-- One event. A store is opened where no other one has a handle, with a configuration and a
selector of its own. -/
inductive Step (path : Path) (root : Location) : Site → Event → Site → Prop where
  | opened {config : Config} {selector : Selector Script Portable} {site : Site} {after : Host}
      {store : Store Script Portable} :
      config.path = path → selector.OnlyPortable → site.live? = none →
      (Store.connect config selector).Endures (Refusable root) site.host (.ok store) after →
      Step path root site (.opened (.ok ())) ⟨after, some store⟩
  | unopened {config : Config} {selector : Selector Script Portable} {site : Site} {after : Host}
      {e : Error} :
      config.path = path → selector.OnlyPortable → site.live? = none →
      (Store.connect config selector).Endures (Refusable root) site.host (.error e) after →
      Step path root site (.opened (.error e)) ⟨after, site.store?⟩
  | changed {caller? : Option Nat} {change : Change} {host after : Host}
      {store store' : Store Script Portable} {result : Except Error Unit} :
      (store.change caller? (·.change change)).Endures store.Unforced host (result, store') after →
      Step path root ⟨host, some store⟩ (.changed change result) ⟨after, some store'⟩
  | flushed {host after : Host} {store store' : Store Script Portable}
      {result : Except Error Unit} :
      store.flush.Endures (Refusable root) host (result, store') after →
      Step path root ⟨host, some store⟩ (.flushed result) ⟨after, some store'⟩
  | closed {host after : Host} {store store' : Store Script Portable} {result : Except Error Unit} :
      store.close.Endures (Refusable root) host (result, store') after →
      Step path root ⟨host, some store⟩ (.closed result) ⟨after, some store'⟩

/-- A run from some site on, with its events in order. -/
inductive Run (path : Path) (root : Location) (start : Site) : List Event → Site → Prop where
  | nil : Run path root start [] start
  | snoc {events : List Event} {event : Event} {middle last : Site} :
      Run path root start events middle → Step path root middle event last →
      Run path root start (events ++ [event]) last

variable {site middle last start : Site} {event : Event} {events : List Event}

/-- A site whose directory holds a history, and whose store keeps to that directory and to the
portable engine. -/
structure Keeps (path : Path) (root : Location) (used : Nat) (ops : List Operation) (site : Site) :
    Prop where
  serves : Serves path root used ops site.host site.live?
  own : ∀ store, site.store? = some store → store.config.path = path ∧ store.selector.OnlyPortable

/-- A store keeps to its directory and to the portable engine as long as it keeps its configuration
and its selector. -/
theorem keeps_of_serves (own : store.config.path = path ∧ store.selector.OnlyPortable)
    (config : store'.config = store.config) (selector : store'.selector = store.selector)
    (serves : Serves path root used ops after store'.live) :
    Keeps path root used ops ⟨after, some store'⟩ where
  serves := serves
  own := by
    rintro _ ⟨⟩
    rw [config, selector]
    exact own

/-- One event adds to the history what it acknowledges. It uses up two table numbers at most. -/
theorem Step.keeps (step : Step path root site event last) (keeps : Keeps path root used ops site)
    (small : used + 3 < UInt64.size) :
    Keeps path root (used + 2) (ops ++ event.operations) last := by
  have hserves := keeps.serves
  cases step with
  | opened hpath honly hnone run =>
    subst hpath
    rw [hnone] at hserves
    rcases Store.connect_refused honly hserves (by omega) run with
      ⟨store, hok, rfl, rfl, _, hlast⟩ | ⟨⟨_, he⟩, _⟩
    · cases hok
      rw [Event.operations, List.append_nil]
      exact keeps_of_serves ⟨rfl, honly⟩ rfl rfl (hlast.mono (Nat.le_succ _))
    · cases he
  | @unopened _ _ _ after _ hpath honly hnone run =>
    subst hpath
    rw [hnone] at hserves
    rcases Store.connect_refused honly hserves (by omega) run with ⟨_, hok, _⟩ | ⟨_, hlast⟩
    · cases hok
    · rw [Event.operations, List.append_nil]
      refine ⟨?_, keeps.own⟩
      rw [show live? ⟨after, site.store?⟩ = none from hnone]
      exact hlast.mono (Nat.le_succ _)
  | changed run =>
    obtain ⟨hconfig, hselector, hlast⟩ := Store.change_refused hserves (by omega) run
    refine keeps_of_serves (keeps.own _ rfl) hconfig hselector ?_
    rcases hlast with ⟨rfl, hlast⟩ | ⟨⟨e, rfl⟩, hlast⟩
    · exact hlast.mono (Nat.le_succ _)
    · rw [Event.operations, List.append_nil]
      exact hlast.mono (Nat.le_succ _)
  | flushed run =>
    obtain ⟨rfl, honly⟩ := keeps.own _ rfl
    obtain ⟨hconfig, hselector, hlast, _⟩ := Store.flush_refused honly hserves small run
    rw [Event.operations, List.append_nil]
    exact keeps_of_serves ⟨rfl, honly⟩ hconfig hselector hlast
  | closed run =>
    obtain ⟨hconfig, hselector, hlast⟩ := Store.close_refused hserves (by omega) run
    rw [Event.operations, List.append_nil]
    exact keeps_of_serves (keeps.own _ rfl) hconfig hselector (hlast.mono (Nat.le_succ _))

/-- A run adds to the history what it acknowledges. -/
theorem Run.keeps (run : Run path root start events last)
    (keeps : Keeps path root used ops start) (few : used + 2 * events.length + 1 < UInt64.size) :
    Keeps path root (used + 2 * events.length) (ops ++ events.flatMap Event.operations) last := by
  induction run with
  | nil =>
    rw [List.flatMap_nil, List.append_nil]
    exact keeps
  | snoc _ step ih =>
    rw [List.length_append, List.length_singleton] at few ⊢
    rw [List.flatMap_append, List.flatMap_singleton, ← List.append_assoc]
    exact step.keeps (ih (by omega)) (by omega)

/-- The answer to a read of a key. -/
def get (site : Site) (key : Bytes) : Except Error (Option Bytes) :=
  match site.store? with
  | none => .error .closed
  | some store => ((store.get key).run site.host).1

/-- The items of a walk from a key on, at most `limit` of them. -/
def items (site : Site) (start : Bytes) (limit : Nat) :
    Except Error (List (Except Error (Bytes × Bytes))) :=
  match site.store? with
  | none => .error .closed
  | some store => ((store.items start limit).run site.host).1

/-- A store whose reads give what a map holds, key by key and in walks. -/
structure Shows (site : Site) (plain : Plain) : Prop where
  get : ∀ key, site.get key = .ok (plain key)
  items : ∀ start, ∃ pairs, plain.Lists start pairs ∧
    ∀ limit, site.items start limit = .ok ((pairs.take limit).map .ok)

/-- A store with a handle shows what the history left. -/
theorem Keeps.shows (keeps : Keeps path root used ops site) (hsome : site.live?.isSome) :
    site.Shows (Plain.after ops) := by
  obtain ⟨host, store?⟩ := site
  obtain ⟨live, hlive⟩ := Option.isSome_iff_exists.1 hsome
  obtain ⟨store, rfl, hstore⟩ := Option.bind_eq_some_iff.1 hlive
  have hserves := keeps.serves
  rw [hlive] at hserves
  have hreads := Store.reads_of_live hstore hserves
  refine ⟨fun key => congrArg Prod.fst (hreads.get key), fun start => ?_⟩
  obtain ⟨pairs, hlists, hitems⟩ := hreads.items start
  exact ⟨pairs, hlists, fun limit => congrArg Prod.fst (hitems limit)⟩

/-! ## Flushes that are refused calls -/

end Site

end OrderedStore
