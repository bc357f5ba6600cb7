import OrderedStore.Proofs.Disk.Sound
import OrderedStore.Proofs.Store.Account

/-!
# The accounts of a session

A session opens stores through watched engines, each under the number that the store gets, and does
with them whatever it is asked for. Each step leaves an account for each store, none with an open
handle for a number that no store has, and something that refers to each store.

Main definitions:

- `Session.Squared`, `Session.Wanted`: a session in accordance with its book, and with its names.
- `Session.Proceeds`: what a step leaves of a session and its book.

Main statements: `Session.Orderly.serve` and `Session.Orderly.connect`.
-/

namespace OrderedStore.Session

variable {σ H : Type}

/-- A session over watched engines. -/
abbrev Watching (σ H : Type) :=
  Session (StateM (σ × List Event)) (Watched H)

/-! ## Accounts of a session -/

/-- The book has an account for each store of a session, and no handle is open for a number that no
store has. -/
structure Squared (session : Watching σ H) (book : List Event) : Prop where
  keyed : session.shared.Keyed
  batches : session.batches.Keyed
  cursors : session.cursors.Keyed
  bounded : ∀ {id store}, session.shared.find? id = some store → id < session.fresh
  accounted : ∀ {id store}, session.shared.find? id = some store → store.Accounted id book
  gone : ∀ {id}, session.shared.find? id = none → Account (dealings id book) none

/-- A store that was there and cannot open another handle: it was closed or is gone. -/
def Shut (session : Watching σ H) (id : Nat) : Prop :=
  id < session.fresh ∧ ∀ store, session.shared.find? id = some store → store.closed = true

/-- Something refers to each store. -/
def Wanted (session : Watching σ H) : Prop :=
  ∀ id store, session.shared.find? id = some store → session.refersTo id = true

/-- What a step leaves of a session and its book. -/
structure Goes (session : Watching σ H) (book : List Event) (session' : Watching σ H)
    (book' : List Event) : Prop where
  squared : session'.Squared book'
  shut : ∀ id, session.Shut id → session'.Shut id ∧ dealings id book' = dealings id book

variable {session session' session'' : Watching σ H} {book book' book'' : List Event}

theorem Squared.goes_refl (squared : session.Squared book) : session.Goes book session book :=
  ⟨squared, fun _ shut => ⟨shut, rfl⟩⟩

theorem Goes.trans (first : session.Goes book session' book')
    (second : session'.Goes book' session'' book'') : session.Goes book session'' book'' := by
  refine ⟨second.squared, fun id shut => ?_⟩
  obtain ⟨hmiddle, hfirst⟩ := first.shut id shut
  obtain ⟨hlast, hsecond⟩ := second.shut id hmiddle
  exact ⟨hlast, hsecond.trans hfirst⟩

theorem squared_empty : Squared ({} : Watching σ H) [] where
  keyed := List.nodup_nil
  batches := List.nodup_nil
  cursors := List.nodup_nil
  bounded h := by cases h
  accounted h := by cases h
  gone _ := .empty

/-- What stores a session refers to is a matter of its names. -/
theorem refersTo_congr (hstores : session'.stores = session.stores)
    (hbatches : session'.batches = session.batches)
    (hcursors : session'.cursors = session.cursors) (id : Nat) :
    session'.refersTo id = session.refersTo id := by
  unfold refersTo
  rw [hstores, hbatches, hcursors]

/-- A call on one store. -/
theorem Squared.setStore (squared : session.Squared book) {id : Nat}
    {store store' : Store.Watching σ H}
    (hstore : session.shared.find? id = some store) (moves : store.Moves id store' book book') :
    session.Goes book (session.setStore id store') book' := by
  have hfind (other : Nat) : (session.setStore id store').shared.find? other =
      if other = id then some store' else session.shared.find? other :=
    Dictionary.find?_insert ..
  refine ⟨⟨Dictionary.keyed_insert squared.keyed _ _, squared.batches, squared.cursors, ?_, ?_, ?_⟩,
    ?_⟩
  · intro other found hfound
    rw [hfind] at hfound
    split at hfound
    · subst other
      exact squared.bounded hstore
    · exact squared.bounded hfound
  · intro other found hfound
    rw [hfind] at hfound
    split at hfound
    · cases hfound
      subst other
      exact moves.accounted
    · rename_i hne
      have accounted := squared.accounted hfound
      exact ⟨accounted.selector, accounted.owned, accounted.shut,
        (moves.others other hne).symm ▸ accounted.account⟩
  · intro other hnone
    rw [hfind] at hnone
    split at hnone
    · cases hnone
    · rename_i hne
      rw [moves.others other hne]
      exact squared.gone hnone
  · rintro other ⟨hlt, hclosed⟩
    by_cases heq : other = id
    · subst other
      obtain ⟨hstays, hdealings⟩ := moves.closed (hclosed store hstore)
      refine ⟨⟨hlt, fun found hfound => ?_⟩, hdealings⟩
      rw [hfind, if_pos rfl] at hfound
      cases hfound
      exact hstays
    · refine ⟨⟨hlt, fun found hfound => ?_⟩, moves.others other heq⟩
      rw [hfind, if_neg heq] at hfound
      exact hclosed found hfound

/-- A name that is given or taken away. -/
theorem Squared.rename (squared : session.Squared book) (hshared : session'.shared = session.shared)
    (hfresh : session'.fresh = session.fresh) (hbatches : session'.batches.Keyed)
    (hcursors : session'.cursors.Keyed) : session.Goes book session' book := by
  refine ⟨⟨hshared ▸ squared.keyed, hbatches, hcursors, ?_, ?_, ?_⟩, fun id shut => ⟨?_, rfl⟩⟩
  · rw [hshared, hfresh]
    exact squared.bounded
  · rw [hshared]
    exact squared.accounted
  · rw [hshared]
    exact squared.gone
  · unfold Shut
    rw [hshared, hfresh]
    exact shut

/-! ## Stores that nothing refers to -/

/-- What is left of a session, some of whose stores were closed unless something refers to them. -/
structure Disposed (session : Watching σ H) (book : List Event) (numbers : List Nat)
    (session' : Watching σ H) (book' : List Event) : Prop
    extends session.Goes book session' book' where
  stores : session'.stores = session.stores
  batches : session'.batches = session.batches
  cursors : session'.cursors = session.cursors
  fresh : session'.fresh = session.fresh
  others : ∀ id, id ∉ numbers → dealings id book' = dealings id book
  left : ∀ id store, session'.shared.find? id = some store →
    session.shared.find? id = some store ∧ (id ∈ numbers → session.refersTo id = true)

theorem Squared.disposed_refl (squared : session.Squared book) :
    session.Disposed book [] session book :=
  ⟨squared.goes_refl, rfl, rfl, rfl, rfl, fun _ _ => rfl, fun _ _ h => ⟨h, nofun⟩⟩

/-- A store that something refers to is passed over. -/
theorem Disposed.passOver {numbers : List Nat} {id : Nat}
    (h : session.Disposed book numbers session' book') (refers : session.refersTo id = true) :
    session.Disposed book (id :: numbers) session' book' := by
  refine { h with others := ?_, left := ?_ }
  · exact fun other hnot => h.others other fun hmem => hnot (List.mem_cons_of_mem _ hmem)
  · intro other found hfound
    obtain ⟨hwas, hwanted⟩ := h.left other found hfound
    refine ⟨hwas, fun hmem => ?_⟩
    rcases List.mem_cons.1 hmem with rfl | hmem
    · exact refers
    · exact hwanted hmem

/-- Another store is closed first. -/
theorem Disposed.after {numbers : List Nat} {id : Nat} {between : List Event}
    (h : Disposed { session with shared := session.shared.erase id } between numbers session' book')
    (goes : session.Goes book { session with shared := session.shared.erase id } between)
    (others : ∀ other, other ≠ id → dealings other between = dealings other book) :
    session.Disposed book (id :: numbers) session' book' := by
  refine { h with toGoes := goes.trans h.toGoes, others := ?_, left := ?_ }
  · intro other hnot
    rw [h.others other fun hmem => hnot (List.mem_cons_of_mem _ hmem)]
    exact others other fun heq => hnot (heq ▸ List.mem_cons_self)
  · intro other found hfound
    obtain ⟨hwas, hwanted⟩ := h.left other found hfound
    rw [Dictionary.find?_erase] at hwas
    split at hwas
    · cases hwas
    · rename_i hne
      exact ⟨hwas, fun hmem => hwanted ((List.mem_cons.1 hmem).resolve_left hne)⟩

section

variable [Backend (StateM σ) H]

/-- A store that nothing refers to is closed. -/
theorem Squared.dispose (squared : session.Squared book) {id : Nat}
    {store : Store.Watching σ H} {s : σ × List Event} (hbook : s.2 = book)
    (hstore : session.shared.find? id = some store) :
    session.Goes book { session with shared := session.shared.erase id } (store.dispose s).2.2 := by
  subst hbook
  have accounted := squared.accounted hstore
  rw [accounted.dispose_enters]
  have hself := dealings_append_self id s.2 store.parting
  have hfind (other : Nat) := Dictionary.find?_erase session.shared id other
  refine ⟨⟨Dictionary.keyed_erase squared.keyed _, squared.batches, squared.cursors, ?_, ?_, ?_⟩,
    ?_⟩
  · intro other found hfound
    rw [hfind] at hfound
    split at hfound
    · cases hfound
    · exact squared.bounded hfound
  · intro other found hfound
    rw [hfind] at hfound
    split at hfound
    · cases hfound
    · rename_i hne
      have accounted := squared.accounted hfound
      exact ⟨accounted.selector, accounted.owned, accounted.shut,
        (dealings_append_other hne s.2 store.parting).symm ▸ accounted.account⟩
  · intro other hnone
    rw [hfind] at hnone
    by_cases heq : other = id
    · rw [heq, hself]
      exact accounted.account_parting
    · rw [if_neg heq] at hnone
      rw [dealings_append_other heq]
      exact squared.gone hnone
  · rintro other ⟨hlt, hclosed⟩
    refine ⟨⟨hlt, fun found hfound => ?_⟩, ?_⟩
    · rw [hfind] at hfound
      split at hfound
      · cases hfound
      · exact hclosed found hfound
    · by_cases heq : other = id
      · subst other
        rw [hself, Store.parting, accounted.shut (hclosed store hstore)]
        exact List.append_nil _
      · exact dealings_append_other heq s.2 store.parting

/-- The induction is on the stores still to be looked at, each of which is there until it is
looked at. -/
theorem Squared.disposeOf (entries : List (Nat × Store.Watching σ H)) :
    ∀ {session : Watching σ H} {s : σ × List Event}, session.Squared s.2 →
      (∀ id store, (id, store) ∈ entries → session.shared.find? id = some store) →
      (entries.map Prod.fst).Nodup → ∃ session' s', session.disposeOf entries s = (session', s') ∧
        session.Disposed s.2 (entries.map Prod.fst) session' s'.2 := by
  induction entries with
  | nil =>
    intro session s squared _ _
    exact ⟨session, s, rfl, squared.disposed_refl⟩
  | cons entry rest ih =>
    intro session s squared hthere hnodup
    obtain ⟨id, store⟩ := entry
    obtain ⟨hfirst, hrest⟩ := List.nodup_cons.1 hnodup
    have hstore := hthere id store List.mem_cons_self
    unfold Session.disposeOf
    cases hrefers : session.refersTo id with
    | true =>
      obtain ⟨session', s', hrun, hdisposed⟩ :=
        ih squared (fun other found hmem => hthere other found (List.mem_cons_of_mem _ hmem)) hrest
      exact ⟨session', s', hrun, hdisposed.passOver hrefers⟩
    | false =>
      rcases hdispose : store.dispose s with ⟨_, middle⟩
      have hgoes := squared.dispose rfl hstore
      have henters := (squared.accounted hstore).dispose_enters
      rw [hdispose] at hgoes henters
      have hkept (other : Nat) (found) (hmem : (other, found) ∈ rest) :
          (session.shared.erase id).find? other = some found := by
        rw [Dictionary.find?_erase, if_neg]
        · exact hthere other found (List.mem_cons_of_mem _ hmem)
        · rintro rfl
          exact hfirst (List.mem_map.2 ⟨_, hmem, rfl⟩)
      obtain ⟨session', s', hrun, hdisposed⟩ := ih hgoes.squared hkept hrest
      refine ⟨session', s', (state_bind hdispose).trans hrun, hdisposed.after hgoes ?_⟩
      -- The closing is entered under the number of this store only.
      intro other hne
      rw [show middle.2 = _ from henters]
      exact dealings_append_other hne s.2 store.parting

/-- Closing what nothing refers to leaves nothing but what something refers to. -/
theorem Squared.tidy (squared : session.Squared book) {s : σ × List Event} (hbook : s.2 = book) :
    ∃ session' s', session.tidy s = (session', s') ∧ session.Goes book session' s'.2 ∧
      session'.Wanted ∧ session'.fresh = session.fresh ∧ session'.stores = session.stores ∧
      dealings session.fresh s'.2 = dealings session.fresh book := by
  subst hbook
  obtain ⟨session', s', hrun, hdisposed⟩ := Squared.disposeOf session.shared.entries squared
    (fun id store hmem => Dictionary.find?_of_mem squared.keyed hmem) squared.keyed
  refine ⟨session', s', hrun, hdisposed.toGoes, fun id store hfound => ?_, hdisposed.fresh,
    hdisposed.stores, hdisposed.others session.fresh fun hmem => ?_⟩
  · obtain ⟨hwas, hwanted⟩ := hdisposed.left id store hfound
    -- Closing takes no names away, so what was wanted before is wanted still.
    rw [refersTo_congr hdisposed.stores hdisposed.batches hdisposed.cursors]
    exact hwanted (List.mem_map.2 ⟨_, Dictionary.mem_of_find? hwas, rfl⟩)
  · obtain ⟨⟨id, store⟩, hentry, heq⟩ := List.mem_map.1 hmem
    have hlt := squared.bounded (Dictionary.find?_of_mem squared.keyed hentry)
    exact Nat.ne_of_lt hlt heq

end

/-! ## Steps of a session -/

theorem store?_eq_some {name : String} {id : Nat} {store : Store.Watching σ H}
    (h : session.store? name = some (id, store)) : session.shared.find? id = some store := by
  unfold store? at h
  split at h
  · cases h
  · obtain ⟨found, hfound, heq⟩ := Option.map_eq_some_iff.1 h
    cases heq
    exact hfound

theorem batch?_eq_some {name : String} {id : Nat} {batch : Batch} {store : Store.Watching σ H}
    (h : session.batch? name = some (id, batch, store)) :
    session.shared.find? id = some store := by
  unfold batch? at h
  split at h
  · cases h
  · obtain ⟨found, hfound, heq⟩ := Option.map_eq_some_iff.1 h
    cases heq
    exact hfound

theorem cursor?_eq_some {name : String} {id : Nat} {cursor : Cursor} {store : Store.Watching σ H}
    (h : session.cursor? name = some (id, cursor, store)) :
    session.cursors.find? name = some (id, cursor) ∧ session.shared.find? id = some store := by
  unfold cursor? at h
  split at h
  · cases h
  · rename_i hname
    obtain ⟨found, hfound, heq⟩ := Option.map_eq_some_iff.1 h
    cases heq
    exact ⟨hname, hfound⟩

/-- What takes the place of an object of a store still refers to that store. -/
theorem any_insert {ν : Type} {objects : Dictionary String (Nat × ν)} (keyed : objects.Keyed)
    {name : String} {id : Nat} {object : ν} (hfind : objects.find? name = some (id, object))
    (object' : ν) {other : Nat}
    (hany : (objects.entries.any fun entry => entry.2.1 = other) = true) :
    ((objects.insert name (id, object')).entries.any fun entry => entry.2.1 = other) = true := by
  obtain ⟨⟨name', id', found⟩, hmem, hid⟩ := List.any_eq_true.1 hany
  refine List.any_eq_true.2 ?_
  by_cases hname : name' = name
  · subst hname
    have hsame := (Dictionary.find?_of_mem keyed hmem).symm.trans hfind
    cases hsame
    exact ⟨(name', id, object'), List.mem_cons_self, hid⟩
  · refine ⟨(name', id', found), List.mem_cons_of_mem _ ?_, hid⟩
    exact List.mem_filter.2 ⟨hmem, by simpa using hname⟩

/-- A session that is in accordance with its book, all of whose stores something refers to. -/
structure Orderly (session : Watching σ H) (book : List Event) : Prop where
  squared : session.Squared book
  wanted : session.Wanted

/-- What a step leaves of an orderly session. -/
structure Proceeds (session : Watching σ H) (book : List Event) (session' : Watching σ H)
    (book' : List Event) : Prop extends session.Goes book session' book' where
  wanted : session'.Wanted

theorem Orderly.proceeds_refl (orderly : session.Orderly book) :
    session.Proceeds book session book :=
  ⟨orderly.squared.goes_refl, orderly.wanted⟩

theorem Wanted.setStore (wanted : session.Wanted) {id : Nat}
    {store store' : Store.Watching σ H}
    (hstore : session.shared.find? id = some store) : (session.setStore id store').Wanted := by
  intro other found hfound
  change (session.shared.insert id store').find? other = some found at hfound
  rw [Dictionary.find?_insert] at hfound
  split at hfound
  · subst other
    exact wanted id store hstore
  · exact wanted other found hfound

section

variable {s s' : σ × List Event} {α : Type} {value? : Option α}

theorem Orderly.onStore (orderly : session.Orderly s.2) {name : String}
    {action : Store.Watching σ H →
      StateM (σ × List Event) (α × Store.Watching σ H)}
    (hmoves : ∀ id (store : Store.Watching σ H), store.Accounted id s.2 →
      store.Moves id (action store s).1.2 s.2 (action store s).2.2)
    (hrun : session.onStore name action s = ((value?, session'), s')) :
    session.Proceeds s.2 session' s'.2 := by
  unfold Session.onStore at hrun
  cases hname : session.store? name with
  | none =>
    rw [hname] at hrun
    cases hrun
    exact orderly.proceeds_refl
  | some named =>
    obtain ⟨id, store⟩ := named
    rw [hname] at hrun
    have hstore := store?_eq_some hname
    have moves := hmoves id store (orderly.squared.accounted hstore)
    rcases haction : action store s with ⟨⟨value, store'⟩, after⟩
    rw [haction] at moves
    cases (state_bind haction).symm.trans hrun
    exact ⟨orderly.squared.setStore hstore moves, orderly.wanted.setStore hstore⟩

theorem Orderly.onCursor (orderly : session.Orderly s.2) {name : String}
    {action : Cursor → Store.Watching σ H →
      StateM (σ × List Event) (α × Cursor × Store.Watching σ H)}
    (hmoves : ∀ id cursor (store : Store.Watching σ H), store.Accounted id s.2 →
      store.Moves id (action cursor store s).1.2.2 s.2 (action cursor store s).2.2)
    (hrun : session.onCursor name action s = ((value?, session'), s')) :
    session.Proceeds s.2 session' s'.2 := by
  unfold Session.onCursor at hrun
  cases hname : session.cursor? name with
  | none =>
    rw [hname] at hrun
    cases hrun
    exact orderly.proceeds_refl
  | some named =>
    obtain ⟨id, cursor, store⟩ := named
    rw [hname] at hrun
    obtain ⟨hknown, hstore⟩ := cursor?_eq_some hname
    have moves := hmoves id cursor store (orderly.squared.accounted hstore)
    rcases haction : action cursor store s with ⟨⟨value, cursor', store'⟩, after⟩
    rw [haction] at moves
    cases (state_bind haction).symm.trans hrun
    have goes := orderly.squared.setStore hstore moves
    refine ⟨goes.trans (goes.squared.rename rfl rfl goes.squared.batches
      (Dictionary.keyed_insert goes.squared.cursors _ _)), ?_⟩
    intro other found hfound
    have hwanted := orderly.wanted.setStore hstore other found hfound
    unfold refersTo at hwanted ⊢
    rcases Bool.or_eq_true_iff.1 hwanted with hothers | hcursors
    · exact Bool.or_eq_true_iff.2 (.inl hothers)
    · exact Bool.or_eq_true_iff.2
        (.inr (any_insert orderly.squared.cursors hknown cursor' hcursors))

theorem Orderly.moveCursor (orderly : session.Orderly s.2) {name : String}
    {move : Cursor → Store.Watching σ H → StateM (σ × List Event) (α × Cursor)}
    (hbook : ∀ cursor store, (move cursor store s).2.2 = s.2)
    (hrun : session.moveCursor name move s = ((value?, session'), s')) :
    session.Proceeds s.2 session' s'.2 := by
  refine orderly.onCursor (fun id cursor store accounted => ?_) hrun
  have hmove := hbook cursor store
  change store.Moves id store s.2 (move cursor store s).2.2
  rw [hmove]
  exact accounted.moves_quiet (.refl store)

/-- Changing a batch leaves it a batch of its store. -/
theorem Orderly.updateBatch (orderly : session.Orderly book) (name : String)
    (update : Batch → Batch) :
    session.Proceeds book (session.updateBatch name update).2 book := by
  unfold Session.updateBatch
  split
  · exact orderly.proceeds_refl
  · rename_i id batch hbatch
    refine ⟨orderly.squared.rename rfl rfl
      (Dictionary.keyed_insert orderly.squared.batches _ _) orderly.squared.cursors, ?_⟩
    intro other found hfound
    have hwanted := orderly.wanted other found hfound
    unfold refersTo at hwanted ⊢
    simp only [Bool.or_eq_true] at hwanted ⊢
    rcases hwanted with (hstores | hbatches) | hcursors
    · exact .inl (.inl hstores)
    · exact .inl (.inr (any_insert orderly.squared.batches hbatch (update batch) hbatches))
    · exact .inr hcursors

theorem answering_eq {answer : α → Answer}
    {call : StateM (σ × List Event) (Option α × Watching σ H)} {told : Answer}
    (hrun : answering answer call s = ((told, session'), s')) :
    ∃ value?, call s = ((value?, session'), s') := by
  unfold answering at hrun
  rcases hcall : call s with ⟨⟨value?, after⟩, s₁⟩
  cases (state_bind hcall).symm.trans hrun
  exact ⟨value?, rfl⟩

variable [Backend (StateM σ) H]

/-- What is left after names were given or taken away and what nothing refers to was closed. -/
theorem proceeds_of_tidy {value value' : α}
    (hrun : (do return (value, ← session'.tidy) : StateM (σ × List Event) (α × Watching σ H)) s =
      ((value', session''), s')) (goes : session.Goes book session' s.2) :
    session.Proceeds book session'' s'.2 := by
  obtain ⟨after, s₁, htidy, hgoes, hwanted, _⟩ := goes.squared.tidy rfl
  cases (state_bind htidy).symm.trans hrun
  exact ⟨goes.trans hgoes, hwanted⟩

theorem Orderly.share (orderly : session.Orderly s.2) {name other : String}
    {value? : Option Unit}
    (hrun : session.share name other s = ((value?, session'), s')) :
    session.Proceeds s.2 session' s'.2 := by
  unfold Session.share at hrun
  cases hname : session.stores.find? name with
  | none =>
    rw [hname] at hrun
    cases hrun
    exact orderly.proceeds_refl
  | some id =>
    rw [hname] at hrun
    exact proceeds_of_tidy hrun
      (orderly.squared.rename rfl rfl orderly.squared.batches orderly.squared.cursors)

theorem Orderly.release (orderly : session.Orderly s.2) {name : String} {value? : Option Unit}
    (hrun : session.release name s = ((value?, session'), s')) :
    session.Proceeds s.2 session' s'.2 := by
  unfold Session.release at hrun
  cases hname : session.stores.find? name with
  | none =>
    rw [hname] at hrun
    cases hrun
    exact orderly.proceeds_refl
  | some id =>
    rw [hname] at hrun
    exact proceeds_of_tidy hrun
      (orderly.squared.rename rfl rfl orderly.squared.batches orderly.squared.cursors)

theorem Orderly.dropBatch (orderly : session.Orderly s.2) {name : String} {value? : Option Unit}
    (hrun : session.dropBatch name s = ((value?, session'), s')) :
    session.Proceeds s.2 session' s'.2 := by
  unfold Session.dropBatch at hrun
  cases hname : session.batches.find? name with
  | none =>
    rw [hname] at hrun
    cases hrun
    exact orderly.proceeds_refl
  | some named =>
    rw [hname] at hrun
    exact proceeds_of_tidy hrun (orderly.squared.rename rfl rfl
      (Dictionary.keyed_erase orderly.squared.batches name) orderly.squared.cursors)

theorem Orderly.dropCursor (orderly : session.Orderly s.2) {name : String} {value? : Option Unit}
    (hrun : session.dropCursor name s = ((value?, session'), s')) :
    session.Proceeds s.2 session' s'.2 := by
  unfold Session.dropCursor at hrun
  cases hname : session.cursors.find? name with
  | none =>
    rw [hname] at hrun
    cases hrun
    exact orderly.proceeds_refl
  | some named =>
    rw [hname] at hrun
    exact proceeds_of_tidy hrun (orderly.squared.rename rfl rfl orderly.squared.batches
      (Dictionary.keyed_erase orderly.squared.cursors name))

theorem Orderly.beginBatch (orderly : session.Orderly s.2) {name batch : String}
    {value? : Option (Except Error Unit)}
    (hrun : session.beginBatch name batch s = ((value?, session'), s')) :
    session.Proceeds s.2 session' s'.2 := by
  unfold Session.beginBatch at hrun
  cases hname : session.store? name with
  | none =>
    rw [hname] at hrun
    cases hrun
    exact orderly.proceeds_refl
  | some named =>
    obtain ⟨id, store⟩ := named
    rw [hname] at hrun
    cases hbatch : store.batch with
    | error e =>
      simp only [hbatch] at hrun
      cases hrun
      exact orderly.proceeds_refl
    | ok begun =>
      simp only [hbatch] at hrun
      exact proceeds_of_tidy hrun (orderly.squared.rename rfl rfl
        (Dictionary.keyed_insert orderly.squared.batches batch (id, begun))
        orderly.squared.cursors)

theorem Orderly.search (orderly : session.Orderly s.2) {name cursor : String} {start : Bytes}
    {value? : Option (Except Error Unit)}
    (hrun : session.search name cursor start s = ((value?, session'), s')) :
    session.Proceeds s.2 session' s'.2 := by
  unfold Session.search at hrun
  cases hname : session.store? name with
  | none =>
    rw [hname] at hrun
    cases hrun
    exact orderly.proceeds_refl
  | some named =>
    obtain ⟨id, store⟩ := named
    rw [hname] at hrun
    cases hsearch : store.search start with
    | error e =>
      simp only [hsearch] at hrun
      cases hrun
      exact orderly.proceeds_refl
    | ok begun =>
      simp only [hsearch] at hrun
      exact proceeds_of_tidy hrun (orderly.squared.rename rfl rfl orderly.squared.batches
        (Dictionary.keyed_insert orderly.squared.cursors cursor (id, begun)))

theorem Orderly.commitBatch (orderly : session.Orderly s.2) {name : String}
    {value? : Option (Except Error Unit)}
    (hrun : session.commitBatch name s = ((value?, session'), s')) :
    session.Proceeds s.2 session' s'.2 := by
  unfold Session.commitBatch at hrun
  cases hname : session.batch? name with
  | none =>
    rw [hname] at hrun
    cases hrun
    exact orderly.proceeds_refl
  | some named =>
    obtain ⟨id, batch, store⟩ := named
    rw [hname] at hrun
    have hstore := batch?_eq_some hname
    have moves := (orderly.squared.accounted hstore).moves_commit batch
    rcases hcommit : batch.commit store s with ⟨⟨result, store'⟩, middle⟩
    rw [hcommit] at moves
    have goes := orderly.squared.setStore hstore moves
    exact proceeds_of_tidy ((state_bind hcommit).symm.trans hrun) (goes.trans
      (goes.squared.rename rfl rfl (Dictionary.keyed_erase goes.squared.batches name)
        goes.squared.cursors))

theorem Orderly.ask_get (orderly : session.Orderly s.2) {name : String} {key : Bytes}
    {value? : Option (Except Error (Option Bytes))}
    (hrun : session.ask name (Store.get · key) s = (value?, s')) :
    session.Proceeds s.2 session s'.2 := by
  -- A read is not entered in the book.
  suffices hbook : s'.2 = s.2 by
    rw [hbook]
    exact orderly.proceeds_refl
  unfold Session.ask at hrun
  cases hname : session.store? name with
  | none =>
    rw [hname] at hrun
    cases hrun
    rfl
  | some named =>
    obtain ⟨id, store⟩ := named
    rw [hname] at hrun
    cases hcurrent : store.current none with
    | error e =>
      simp only [Store.get, Store.ask, hcurrent] at hrun
      cases hrun
      rfl
    | ok live =>
      simp only [Store.get, Store.ask, hcurrent] at hrun
      rcases hget : (Backend.get live.handle.handle key : StateM σ _) s.1 with ⟨result, after⟩
      cases (state_bind (unwatched_run hget)).symm.trans hrun
      rfl

/-- Whatever is asked for, the session stays in accordance with its book. -/
theorem Orderly.serve (orderly : session.Orderly s.2) {request : Request} {answer : Answer}
    (hrun : session.serve request s = ((answer, session'), s')) :
    session.Proceeds s.2 session' s'.2 := by
  cases request
  case get name key =>
    rcases hask : session.ask name (Store.get · key) s with ⟨value?, after⟩
    cases (state_bind hask).symm.trans hrun
    exact orderly.ask_get hask
  case queue name mutation =>
    obtain ⟨value?, hcall⟩ := answering_eq hrun
    obtain ⟨hupdate, rfl⟩ := Prod.mk.inj hcall
    have hsession : (session.updateBatch name (queueing mutation)).2 = session' :=
      congrArg Prod.snd hupdate
    exact hsession ▸ orderly.updateBatch name (queueing mutation)
  all_goals
    unfold Session.serve at hrun
    obtain ⟨value?, hcall⟩ := answering_eq hrun
  case share name other => exact orderly.share hcall
  case release name => exact orderly.release hcall
  case put name key value =>
    exact orderly.onStore (fun _ _ accounted => accounted.moves_change none _) hcall
  case remove name key =>
    exact orderly.onStore (fun _ _ accounted => accounted.moves_change none _) hcall
  case putAll name entries =>
    exact orderly.onStore (fun _ _ accounted => accounted.moves_commitAll _) hcall
  case removeAll name keys =>
    exact orderly.onStore (fun _ _ accounted => accounted.moves_commitAll _) hcall
  case flush name => exact orderly.onStore (fun _ _ accounted => accounted.moves_flush) hcall
  case close name => exact orderly.onStore (fun _ _ accounted => accounted.moves_close) hcall
  case beginBatch name batch => exact orderly.beginBatch hcall
  case commitBatch batch => exact orderly.commitBatch hcall
  case dropBatch batch => exact orderly.dropBatch hcall
  case search name cursor start => exact orderly.search hcall
  case hasNext cursor => exact orderly.moveCursor (Cursor.hasNext_book · · s) hcall
  case nextEntry cursor => exact orderly.moveCursor (Cursor.nextEntry_book · · s) hcall
  case item cursor => exact orderly.moveCursor (Cursor.item_book · · s) hcall
  case removeCurrent cursor =>
    exact orderly.onCursor (fun _ cursor _ accounted => accounted.moves_removeCurrent cursor) hcall
  case dropCursor cursor => exact orderly.dropCursor hcall

end

/-! ## Opening a store in a session -/

/-- Deeds for a number that no store has yet. -/
theorem Squared.entered (squared : session.Squared book)
    (account : Account (dealings session.fresh book') none)
    (hothers : ∀ other, other ≠ session.fresh → dealings other book' = dealings other book) :
    session.Goes book session book' := by
  refine ⟨{ squared with accounted := ?_, gone := ?_ }, fun id shut => ⟨shut, ?_⟩⟩
  · intro id store hstore
    have accounted := squared.accounted hstore
    exact ⟨accounted.selector, accounted.owned, accounted.shut,
      (hothers id (Nat.ne_of_lt (squared.bounded hstore))).symm ▸ accounted.account⟩
  · intro id hnone
    by_cases heq : id = session.fresh
    · exact heq ▸ account
    · rw [hothers id heq]
      exact squared.gone hnone
  · exact hothers id (Nat.ne_of_lt shut.1)

theorem Squared.opened (squared : session.Squared book) {store : Store.Watching σ H}
    (accounted : store.Accounted session.fresh book')
    (hothers : ∀ other, other ≠ session.fresh → dealings other book' = dealings other book)
    (name : String) :
    session.Goes book
      { session.setStore session.fresh store with
        fresh := session.fresh + 1
        stores := session.stores.insert name session.fresh } book' := by
  have hfind (other : Nat) := Dictionary.find?_insert session.shared session.fresh other store
  refine ⟨⟨Dictionary.keyed_insert squared.keyed _ _, squared.batches, squared.cursors, ?_, ?_, ?_⟩,
    ?_⟩
  · intro id found hfound
    rw [Session.setStore, hfind] at hfound
    split at hfound
    · subst id
      exact Nat.lt_succ_self _
    · exact Nat.lt_succ_of_lt (squared.bounded hfound)
  · intro id found hfound
    rw [Session.setStore, hfind] at hfound
    split at hfound
    · cases hfound
      subst id
      exact accounted
    · rename_i hne
      have accounted := squared.accounted hfound
      exact ⟨accounted.selector, accounted.owned, accounted.shut,
        (hothers id hne).symm ▸ accounted.account⟩
  · intro id hnone
    rw [Session.setStore, hfind] at hnone
    split at hnone
    · cases hnone
    · rename_i hne
      rw [hothers id hne]
      exact squared.gone hnone
  · rintro id ⟨hlt, hclosed⟩
    have hne := Nat.ne_of_lt hlt
    refine ⟨⟨Nat.lt_succ_of_lt hlt, fun found hfound => ?_⟩, hothers id hne⟩
    rw [Session.setStore, hfind, if_neg hne] at hfound
    exact hclosed found hfound

theorem Wanted.opened (wanted : session.Wanted) {name : String} {others : Dictionary String Nat}
    (hstores : session.stores = others.erase name) (id : Nat) (store : Store.Watching σ H) :
    Wanted { session.setStore id store with
      fresh := id + 1
      stores := session.stores.insert name id } := by
  intro other found hfound
  change (session.shared.insert id store).find? other = some found at hfound
  rw [Dictionary.find?_insert] at hfound
  unfold refersTo
  simp only [Bool.or_eq_true]
  split at hfound
  · subst other
    exact .inl (.inl (List.any_eq_true.2 ⟨(name, id), List.mem_cons_self, by simp⟩))
  · have hwanted := wanted other found hfound
    unfold refersTo at hwanted
    simp only [Bool.or_eq_true] at hwanted
    rcases hwanted with (hnamed | hbatches) | hcursors
    · refine .inl (.inl ?_)
      obtain ⟨entry, hmem, heq⟩ := List.any_eq_true.1 hnamed
      refine List.any_eq_true.2 ⟨entry, List.mem_cons_of_mem _ ?_, heq⟩
      rw [hstores] at hmem ⊢
      exact List.mem_filter.2 ⟨hmem, (List.mem_filter.1 hmem).2⟩
    · exact .inl (.inr hbatches)
    · exact .inr hcursors

/-- Opening a store under a name is one attempt on its behalf, unless its configuration is
refused. -/
theorem Orderly.connect [Backend (StateM σ) H] (orderly : session.Orderly book)
    {s s' : σ × List Event} (hbook : s.2 = book) {name : String} {config : Config}
    {selector : Selector (StateM σ) H} {outcome : Except Error (Store.Watching σ H)}
    (hrun : session.connect name config (selector.watched session.fresh) s =
      ((outcome, session'), s')) :
    session.Proceeds book session' s'.2 ∧ (config.validate = .ok () → ∃ more live?,
      dealings session.fresh s'.2 = dealings session.fresh book ++ more ∧
      Attempt (openings (dealings session.fresh book)).length more live? ∧
      outcome.isOk = live?.isSome) := by
  subst hbook
  have hnamed : session.Goes s.2 { session with stores := session.stores.erase name } s.2 :=
    orderly.squared.rename rfl rfl orderly.squared.batches orderly.squared.cursors
  obtain ⟨middle, s₁, htidy, htidied, hwanted, hfresh, hstores, hbefore⟩ :=
    hnamed.squared.tidy rfl
  change middle.fresh = session.fresh at hfresh
  have hgone : middle.shared.find? middle.fresh = none := by
    by_contra hsome
    obtain ⟨store, hstore⟩ := Option.ne_none_iff_exists'.1 hsome
    exact Nat.lt_irrefl _ (htidied.squared.bounded hstore)
  obtain ⟨result, s₂, hconnect, hopened, hrefused, hothers, hattempt⟩ :=
    Store.connect_watched config selector middle.fresh (htidied.squared.gone hgone)
  have hlast := (state_bind htidy).symm.trans hrun
  have hfirst := hnamed.trans htidied
  rw [← hbefore]
  change dealings session.fresh s₁.2 = _ at hbefore
  rw [← hfresh] at hlast ⊢
  cases result with
  | error e =>
    cases (state_bind hconnect).symm.trans hlast
    exact ⟨⟨hfirst.trans (htidied.squared.entered (hrefused e rfl) hothers), hwanted⟩, hattempt⟩
  | ok store =>
    cases (state_bind hconnect).symm.trans hlast
    exact ⟨⟨hfirst.trans (htidied.squared.opened (hopened store rfl) hothers name),
      hwanted.opened hstores middle.fresh store⟩, hattempt⟩

end OrderedStore.Session
