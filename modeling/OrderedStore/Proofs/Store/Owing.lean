import OrderedStore.Proofs.Store.Isolation
import OrderedStore.Proofs.Store.Reading
import OrderedStore.Proofs.Store.Walk

/-!
# What a cursor owes

Up to the key to go on from, a cursor is bound to what it has fetched; from there on it follows the
store. Both together are a map, and all that a call can return is the first entry of that map.

Main definitions:

- `Terms.Walkable`: handles that keep a map and show it in pages.
- `Cursor.owed`: what a cursor would still return if nothing was written any more.

Main statements: `Cursor.exists_asked` and `Cursor.exists_wrote` say what the calls make of it.
-/

namespace OrderedStore

/-! ## Changes and first entries of a map -/

namespace Plain

variable {plain other : Plain} {key : Bytes} {mutations : List Mutation}
  {result result' : Except Error Unit}

/-- Changes act on each key for itself. -/
theorem foldl_change_congr (h : plain key = other key) :
    mutations.foldl change plain key = mutations.foldl change other key := by
  induction mutations generalizing plain other with
  | nil => exact h
  | cons mutation rest ih =>
    refine ih ?_
    unfold change
    rw [h]

theorem foldl_change_of_forall_ne (h : ∀ mutation ∈ mutations, mutation.key ≠ key) :
    mutations.foldl change plain key = plain key := by
  induction mutations generalizing plain with
  | nil => rfl
  | cons mutation rest ih =>
    rw [List.foldl_cons, ih fun later hmem => h later (List.mem_cons_of_mem _ hmem)]
    exact if_neg (Ne.symm (h mutation List.mem_cons_self))

theorem settled_congr (h : plain key = other key) (hresult : result.isOk = result'.isOk) :
    plain.settled mutations result key = other.settled mutations result' key := by
  cases result with
  | error e =>
    cases result' with
    | error e' => exact h
    | ok _ => cases hresult
  | ok _ =>
    cases result' with
    | error e' => cases hresult
    | ok _ => exact foldl_change_congr h

theorem settled_of_forall_ne (h : ∀ mutation ∈ mutations, mutation.key ≠ key) :
    plain.settled mutations result key = plain key := by
  cases result with
  | error e => rfl
  | ok _ => exact foldl_change_of_forall_ne h

/-- The first entry of a map, if it has any. -/
def First (plain : Plain) : Option (Bytes × Bytes) → Prop
  | none => ∀ key, plain key = none
  | some entry => plain entry.1 = some entry.2 ∧ ∀ key, plain key ≠ none → entry.1 ≤ key

theorem First.unique {first? second? : Option (Bytes × Bytes)} (h : plain.First first?)
    (h' : plain.First second?) : first? = second? := by
  cases first? with
  | none =>
    cases second? with
    | none => rfl
    | some second => cases (h second.1).symm.trans h'.1
  | some first =>
    cases second? with
    | none => cases (h' first.1).symm.trans h.1
    | some second =>
      have hkey : first.1 = second.1 := by
        refine Std.le_antisymm (h.2 _ ?_) (h'.2 _ ?_)
        · rw [h'.1]
          exact Option.some_ne_none _
        · rw [h.1]
          exact Option.some_ne_none _
      have hvalue : some first.2 = some second.2 := by rw [← h.1, ← h'.1, hkey]
      exact congrArg some (Prod.ext hkey (Option.some.inj hvalue))

/-- The map without an entry, if there is one to be left out. -/
def without (plain : Plain) : Option (Bytes × Bytes) → Plain
  | none => plain
  | some entry => plain.change (.delete entry.1)

/-- The part of a map from a key on decides about its list. -/
theorem Lists.congr {start : Bytes} {pairs : List (Bytes × Bytes)} (h : plain.Lists start pairs)
    (heq : ∀ key, start ≤ key → plain key = other key) : other.Lists start pairs where
  ascending := h.ascending
  mem_iff key value := by
    rw [h.mem_iff]
    exact and_congr_right fun hle => by rw [heq key hle]

end Plain

/-! ## Handles that keep a map and show it in pages -/

namespace Terms

variable {σ H : Type} [Backend (StateM σ) H]

/-- The handles keep a map, of which scans give pages. A change may fail, and has no effect then. -/
structure Walkable (terms : Terms σ H) : Prop where
  scan : ∀ handle start limit s, terms.ready handle s → 1 ≤ limit → ∃ page after,
    (Backend.scan handle start limit : StateM σ _) s = (.ok page, after) ∧
      (terms.content handle s).Page start page ∧ terms.ready handle after ∧
      terms.content handle after = terms.content handle s
  put : ∀ key value, terms.Changes [.put key value] (Backend.put · key value)
  delete : ∀ key, terms.Changes [.delete key] (Backend.delete · key)
  write : ∀ batch : WriteBatch, terms.Changes batch.toList (Backend.write · batch)

/-- The pages are as full as they may be. -/
def Full (terms : Terms σ H) : Prop :=
  ∀ handle start limit s pairs, terms.ready handle s → (terms.content handle s).Lists start pairs →
    ∃ after, (Backend.scan handle start limit : StateM σ _) s = (.ok (pairs.take limit), after)

variable {terms : Terms σ H}

theorem Walkable.scannable (walkable : terms.Walkable) :
    Scannable terms.content terms.ready where
  scan handle start limit s hready hlimit := by
    obtain ⟨page, after, hscan, hpage, hready', -⟩ :=
      walkable.scan handle start limit s hready hlimit
    exact ⟨page, after, hscan, hpage, hready'⟩
  put handle key value s hready := by
    obtain ⟨result, handle', after, hrun, hready', -⟩ := walkable.put key value handle s hready
    exact ⟨result, handle', after, hrun, hready'⟩
  delete handle key s hready := by
    obtain ⟨result, handle', after, hrun, hready', -⟩ := walkable.delete key handle s hready
    exact ⟨result, handle', after, hrun, hready'⟩
  write handle batch s hready := by
    obtain ⟨result, handle', after, hrun, hready', -⟩ := walkable.write batch handle s hready
    exact ⟨result, handle', after, hrun, hready'⟩

/-- Scans change nothing that a handle holds. -/
theorem Walkable.paged (walkable : terms.Walkable) (plain : Plain) :
    Paged terms.content fun handle s => terms.ready handle s ∧ terms.content handle s = plain := by
  rintro handle start limit s ⟨hready, rfl⟩ hlimit
  obtain ⟨page, after, hscan, hpage, hready', hsame⟩ :=
    walkable.scan handle start limit s hready hlimit
  exact ⟨page, after, hscan, hpage, hready', hsame⟩

end Terms

/-! ## Changes through a store -/

namespace Store

variable {σ H : Type} {terms : Terms σ H} {store : Store (StateM σ) H} {generation : Nat} {s : σ}

/-- A call that changes something, or fails without any effect. -/
theorem Attended.settle (attended : store.Attended terms.ready generation s) (caller? : Option Nat)
    {mutations : List Mutation} {action : H → StateM σ (Except Error Unit × H)}
    (changes : terms.Changes mutations action) :
    ∃ result store' after, store.change caller? action s = ((result, store'), after) ∧
      store'.Attended terms.ready generation after ∧
      store'.shows terms.content after =
        (store.shows terms.content s).settled mutations result := by
  have hattended := attended
  obtain ⟨live, hlive, hready, hgeneration⟩ := attended
  unfold Store.change
  cases hcurrent : store.current caller? with
  | error e => exact ⟨.error e, store, s, rfl, hattended, rfl⟩
  | ok _ =>
    cases (live_of_current hcurrent).symm.trans hlive
    obtain ⟨result, handle, after, hrun, hready', hcontent⟩ := changes live.handle s hready
    refine ⟨result, _, after, state_bind hrun, ⟨_, rfl, hready', hgeneration⟩, ?_⟩
    unfold shows
    simp only [hlive]
    exact hcontent

end Store

namespace Cursor

variable {σ H : Type} {terms : Terms σ H} {plain : Plain} {start key : Bytes}
  {events : List Event} {given : List (Bytes × Bytes)} {cursor refilled cursor' : Cursor}
  {store store' : Store (StateM σ) H} {s s' : σ} {act : Act} {answer : Answer}

/-! ## What is still to be returned -/

/-- Whether a cursor is past a key, so that it fetches it no more. -/
def passed (cursor : Cursor) (key : Bytes) : Bool :=
  cursor.resumeAt.all fun next => key < next

/-- What a cursor would still return if nothing was written any more: what it has fetched, and
behind that what is in the store. -/
def owed (cursor : Cursor) (plain : Plain) : Plain := fun key =>
  if cursor.passed key then KeyMap.lookup key cursor.buffer else plain key

theorem passed_iff :
    cursor.passed key = true ↔ ∀ next, cursor.resumeAt = some next → key < next := by
  cases hresume : cursor.resumeAt <;> simp [passed, hresume]

theorem not_passed_iff :
    cursor.passed key = false ↔ ∃ next, cursor.resumeAt = some next ∧ next ≤ key := by
  cases hresume : cursor.resumeAt <;> simp [passed, hresume]

theorem passed_congr (h : cursor'.resumeAt = cursor.resumeAt) :
    cursor'.passed key = cursor.passed key := by
  unfold passed
  rw [h]

/-- A page is the part of the map up to its last key. -/
theorem lookup_page {page : List (Bytes × Bytes)} {next : Bytes} (hpage : plain.Page next page)
    (hle : next ≤ key) (hlast : ∀ last, page.getLast? = some last → key ≤ last.1) :
    KeyMap.lookup key page = plain key := by
  cases hvalue : plain key with
  | none =>
    cases hfound : KeyMap.lookup key page with
    | none => rfl
    | some value =>
      have hmem := (hpage.of_mem (KeyMap.mem_of_lookup_eq_some hfound)).2
      cases hmem.symm.trans hvalue
  | some value =>
    cases hend : page.getLast? with
    | none =>
      rw [List.getLast?_eq_none_iff.1 hend] at hpage
      cases (hpage.eq_none_of_nil hle).symm.trans hvalue
    | some last =>
      have hmem := hpage.mem hend hle (hlast last hend) hvalue
      exact KeyMap.lookup_eq_some_of_mem hpage.ascending hmem

theorem Refilled.passed_of_passed (h : Refilled plain cursor refilled)
    (hpassed : cursor.passed key = true) : refilled.passed key = true := by
  cases h with
  | full | dry => exact hpassed
  | @fetched next page _ hresume hpage =>
    refine passed_iff.2 fun later hlater => ?_
    obtain ⟨last, hlast, rfl⟩ := Option.map_eq_some_iff.1 hlater
    have hnext := (hpage.of_mem (List.mem_of_getLast? hlast)).1
    exact Std.lt_trans (Std.lt_of_lt_of_le (passed_iff.1 hpassed next hresume) hnext)
      (Bytes.lt_successor last.1)

theorem Refilled.currentKey (h : Refilled plain cursor refilled) :
    refilled.currentKey = cursor.currentKey := by
  cases h <;> rfl

/-- Fetching a page binds the cursor to a part of what it owes anyhow. -/
theorem Refilled.owed (h : Refilled plain cursor refilled) :
    refilled.owed plain = cursor.owed plain := by
  have hmono : ∀ key, cursor.passed key = true → refilled.passed key = true :=
    fun key => h.passed_of_passed
  cases h with
  | full | dry => rfl
  | @fetched next page hbuffer hresume hpage =>
    funext key
    unfold Cursor.owed
    cases hpassed : cursor.passed key with
    | true =>
      -- The page begins behind the key, so that nothing is owed for it, as before.
      have hbefore : ∀ entry ∈ page, key < entry.1 := fun entry hmem =>
        Std.lt_of_lt_of_le (passed_iff.1 hpassed next hresume) (hpage.of_mem hmem).1
      rw [hmono key hpassed, hbuffer, if_pos rfl, if_pos rfl]
      exact KeyMap.lookup_eq_none_of_forall_lt hbefore
    | false =>
      obtain ⟨first, hfirst, hle⟩ := not_passed_iff.1 hpassed
      cases hresume.symm.trans hfirst
      rw [if_neg Bool.false_ne_true]
      split
      case isFalse => rfl
      case isTrue hafter =>
        -- The key lies within the page, which says of it what the map says.
        refine lookup_page hpage hle fun last hlast => ?_
        have hlt := passed_iff.1 hafter last.1.successor (by rw [hlast]; rfl)
        exact List.not_lt.1 fun hbehind =>
          absurd hlt (List.not_lt.2 (Bytes.successor_le_iff.2 hbehind))

/-- A cursor that has the page it needed holds the first entry that it owes. -/
theorem Keeps.first (kept : Keeps terms.content terms.ready start events given cursor store s)
    (settled : cursor.buffer ≠ [] ∨ cursor.resumeAt = none) :
    (cursor.owed plain).First cursor.buffer.head? := by
  have hascending := (List.pairwise_append.1 kept.ascending).2.1
  cases hbuffer : cursor.buffer with
  | nil =>
    have hresume := settled.resolve_left (not_not_intro hbuffer)
    intro key
    unfold owed
    rw [if_pos (passed_iff.2 (by simp [hresume])), hbuffer]
    rfl
  | cons entry rest =>
    have hmem : entry ∈ cursor.buffer := by rw [hbuffer]; exact List.mem_cons_self
    have hbelow : ∀ next, cursor.resumeAt = some next → entry.1 < next := fun next hresume =>
      (kept.below next hresume).2 entry (List.mem_append_right _ hmem)
    refine ⟨?_, fun key hkey => ?_⟩
    · unfold owed
      rw [if_pos (passed_iff.2 hbelow)]
      exact KeyMap.lookup_eq_some_of_mem hascending hmem
    · unfold owed at hkey
      split at hkey
      -- A key that is owed is in the buffer behind its first entry, or not fetched yet.
      case isTrue =>
        obtain ⟨value, hvalue⟩ := Option.ne_none_iff_exists'.1 hkey
        exact KeyMap.le_of_head? hascending (KeyMap.mem_of_lookup_eq_some hvalue)
          (by rw [hbuffer]; rfl)
      case isFalse hpassed =>
        obtain ⟨next, hresume, hle⟩ := not_passed_iff.1 (Bool.eq_false_iff.2 hpassed)
        exact Std.le_of_lt (Std.lt_of_lt_of_le (hbelow next hresume) hle)

/-! ## Calls that ask for more -/

/-- Whether a call returns the next entry. -/
def Act.gives : Act → Bool
  | .nextEntry | .item => true
  | _ => false

theorem Replied.pair?_eq (h : Replied refilled act answer cursor') :
    answer.pair? = if act.gives then refilled.buffer.head? else none := by
  cases h with
  | told => rfl
  | exhausted hbuffer | entry hbuffer | drained hbuffer | item hbuffer =>
    simp [hbuffer, Act.gives, Answer.pair?]

theorem Replied.buffer_eq (h : Replied refilled act answer cursor') :
    cursor'.buffer = if act.gives then refilled.buffer.tail else refilled.buffer := by
  cases h with
  | told => rfl
  | exhausted hbuffer | entry hbuffer | drained hbuffer | item hbuffer => simp [hbuffer, Act.gives]

theorem Replied.resumeAt_eq (h : Replied refilled act answer cursor') :
    cursor'.resumeAt = refilled.resumeAt := by
  cases h <;> rfl

theorem Replied.pageSize_eq (h : Replied refilled act answer cursor') :
    cursor'.pageSize = refilled.pageSize := by
  cases h <;> rfl

theorem Replied.currentKey_eq (h : Replied refilled act answer cursor') :
    cursor'.currentKey = (answer.pair?.map (·.1)).or refilled.currentKey := by
  cases h <;> rfl

/-- An entry that is returned is owed no more. -/
theorem Replied.owed (kept : Keeps terms.content terms.ready start events given refilled store s)
    (h : Replied refilled act answer cursor') :
    cursor'.owed plain = (refilled.owed plain).without answer.pair? := by
  have hpassed : cursor'.passed = refilled.passed := funext fun key => passed_congr h.resumeAt_eq
  have hascending := (List.pairwise_append.1 kept.ascending).2.1
  rw [h.pair?_eq]
  funext key
  unfold Cursor.owed
  rw [hpassed, h.buffer_eq]
  cases act.gives with
  | false => rfl
  | true =>
    cases hbuffer : refilled.buffer with
    | nil => rfl
    | cons entry rest =>
      rw [hbuffer] at hascending
      obtain ⟨hbehind, -⟩ := List.pairwise_cons.1 hascending
      by_cases hkey : key = entry.1
      · subst hkey
        have hpast : refilled.passed entry.1 = true := passed_iff.2 fun next hresume =>
          (kept.below next hresume).2 entry (by simp [hbuffer])
        have hnone : KeyMap.lookup entry.1 rest = none :=
          KeyMap.lookup_eq_none_of_forall_lt hbehind
        simp [Plain.without, Plain.change, Mutation.key, Mutation.value?, hpast, hnone]
      · simp [Plain.without, Plain.change, Mutation.key, KeyMap.lookup, hkey]

section

variable [Backend (StateM σ) H] (walkable : terms.Walkable)
  (kept : Keeps terms.content terms.ready start events given cursor store s)

include walkable kept

/-- A call that asks for more is answered from what the cursor has after it fetched a page, if it
needed one, and changes nothing in the store. -/
theorem exists_replied (advances : act.advances = true) :
    ∃ refilled answer cursor' after, cursor.refill store s = ((.ok (), refilled), after) ∧
      cursor.perform store act s = ((answer, cursor', store), after) ∧
      Refilled (store.shows terms.content s) cursor refilled ∧
      Replied refilled act answer cursor' ∧
      store.shows terms.content after = store.shows terms.content s := by
  obtain ⟨live, hlive, hready, hgeneration⟩ := kept.attended
  have hshows : ∀ s, store.shows terms.content s = terms.content live.handle s := fun s => by
    simp only [Store.shows, hlive]
  -- That the handle holds what it held is taken into what scans leave as it is.
  obtain ⟨refilled, after, hrefill, hrefilled, used, hused, ⟨-, hcontent⟩, -⟩ :=
    exists_refill (walkable.paged (store.shows terms.content s))
      ⟨live, hlive, ⟨hready, (hshows s).symm⟩, hgeneration⟩ kept.pageSize
  cases hlive.symm.trans hused
  obtain ⟨answer, cursor', hperform, hreplied⟩ :=
    perform_of_refill kept.attended.isCurrent hrefill hrefilled kept.unfused advances
  exact ⟨refilled, answer, cursor', after, hrefill, hperform, hrefilled, hreplied,
    (hshows after).trans hcontent⟩

/-- All that a call returns is the first entry that the cursor owes. -/
theorem exists_asked (advances : act.advances = true) :
    ∃ answer cursor' after first?, cursor.perform store act s = ((answer, cursor', store), after) ∧
      store.shows terms.content after = store.shows terms.content s ∧
      (cursor.owed (store.shows terms.content s)).First first? ∧
      answer.pair? = (if act.gives then first? else none) ∧
      cursor'.owed (store.shows terms.content s) =
        (cursor.owed (store.shows terms.content s)).without answer.pair? := by
  obtain ⟨refilled, answer, cursor', after, -, hperform, hrefilled, hreplied, hshows⟩ :=
    exists_replied walkable kept advances
  have hfetches : (cursor.record (store.shows terms.content s) act answer).fetches =
      (cursor.buffer.isEmpty && cursor.resumeAt.isSome) := by
    simp [record, fetchesFor, advances]
  have hkept := kept.refill hrefilled hfetches kept.attended
  refine ⟨answer, cursor', after, refilled.buffer.head?, hperform, hshows, ?_,
    hreplied.pair?_eq, ?_⟩
  · rw [← hrefilled.owed]
    exact hkept.first hrefilled.settled
  · rw [← hrefilled.owed]
    exact hreplied.owed hkept

end

/-- The page that is fetched where pages are as full as they may be. -/
theorem refill_of_full [Backend (StateM σ) H] (full : terms.Full)
    (attended : store.Attended terms.ready cursor.generation s) (hbuffer : cursor.buffer = [])
    {next : Bytes} (hresume : cursor.resumeAt = some next) {pairs : List (Bytes × Bytes)}
    (lists : (store.shows terms.content s).Lists next pairs)
    (hrefill : cursor.refill store s = ((.ok (), refilled), s')) :
    refilled = { cursor with
      buffer := pairs.take cursor.pageSize
      resumeAt := (pairs.take cursor.pageSize).getLast?.map fun entry => entry.1.successor } := by
  obtain ⟨live, hlive, hready, hgeneration⟩ := attended
  obtain ⟨after, hscan⟩ := full live.handle next cursor.pageSize s pairs hready
    (by simpa only [Store.shows, hlive] using lists)
  have hask : store.ask (some cursor.generation) (Backend.scan · next cursor.pageSize) s =
      (.ok (pairs.take cursor.pageSize), after) := by
    rw [Store.ask_of_live hlive hgeneration]
    exact hscan
  unfold refill at hrefill
  simp only [hbuffer, hresume] at hrefill
  cases (state_bind hask).symm.trans hrefill
  rfl

/-! ## Calls that write -/

/-- The mutations that a call makes on its own account. -/
def Act.mutations : Act → List Mutation
  | .put key value => [.put key value]
  | .remove key => [.delete key]
  | .commit batch => batch.pending.toList
  | _ => []

/-- Whether a call was a removal by the cursor that succeeded. -/
def Act.removes (act : Act) (answer : Answer) : Bool :=
  match act, answer with
  | .removeCurrent, .done (.ok _) => true
  | _, _ => false

theorem Act.removes_of_advances (advances : act.advances = true) : act.removes answer = false := by
  cases act with
  | hasNext | nextEntry | item => rfl
  | removeCurrent | put | remove | commit => cases advances

variable [Backend (StateM σ) H] {result : Except Error Unit}

theorem removeCurrent_of_none (attended : store.Attended terms.ready cursor.generation s)
    (hcurrent : cursor.currentKey = none) :
    cursor.removeCurrent store s = ((.error .noCurrentEntry, cursor, store), s) := by
  unfold removeCurrent
  rw [if_neg (by simp [isStale, attended.isCurrent]), hcurrent]
  rfl

/-- Removal by the cursor is removal of its key, which the cursor then has no more. -/
theorem removeCurrent_of_remove (attended : store.Attended terms.ready cursor.generation s)
    (hcurrent : cursor.currentKey = some key) (hrun : store.remove key s = ((result, store'), s')) :
    cursor.removeCurrent store s =
      ((result, { cursor with currentKey := if result.isOk then none else some key }, store'),
        s') := by
  obtain ⟨live, hlive, -, hgeneration⟩ := id attended
  have hsame : store.change (some cursor.generation) (Backend.delete · key) = store.remove key := by
    simp [Store.remove, Store.change, Store.current, hlive, hgeneration]
  unfold removeCurrent
  rw [if_neg (by simp [isStale, attended.isCurrent]), hcurrent]
  simp only [hsame]
  refine (state_bind hrun).trans ?_
  cases result with
  | error e => simp only [← hcurrent]; rfl
  | ok _ => rfl

/-- A call that does not ask for more changes what is before the cursor as it says, and leaves the
cursor where it is. A removal by the cursor changes nothing there: its key lies behind. -/
theorem exists_wrote (walkable : terms.Walkable)
    (attended : store.Attended terms.ready cursor.generation s)
    (hbehind : ∀ key, cursor.currentKey = some key → cursor.passed key = true)
    (writes : act.advances = false) :
    ∃ result store' after,
      cursor.perform store act s = ((.done result,
        { cursor with
          currentKey := if act.removes (.done result) then none else cursor.currentKey },
        store'), after) ∧
      ∀ key, cursor.passed key = false → store'.shows terms.content after key =
        (store.shows terms.content s).settled act.mutations result key := by
  cases act with
  | hasNext | nextEntry | item => cases writes
  | removeCurrent =>
    cases hcurrent : cursor.currentKey with
    | none =>
      refine ⟨.error .noCurrentEntry, store, s, ?_, fun _ _ => rfl⟩
      refine (state_bind (removeCurrent_of_none attended hcurrent)).trans ?_
      simp only [Act.removes, Bool.false_eq_true, if_false, ← hcurrent]
      rfl
    | some current =>
      obtain ⟨result, store', after, hrun, -, hshows⟩ :=
        attended.settle none (walkable.delete current)
      refine ⟨result, store', after, ?_, fun key hkey => ?_⟩
      · refine (state_bind (removeCurrent_of_remove attended hcurrent hrun)).trans ?_
        cases result <;> rfl
      · have hne : ∀ mutation ∈ [Mutation.delete current], mutation.key ≠ key := by
          simp only [List.mem_singleton, forall_eq]
          rintro rfl
          exact Bool.false_ne_true (hkey.symm.trans (hbehind _ hcurrent))
        rw [hshows, Plain.settled_of_forall_ne hne]
        exact (Plain.settled_of_forall_ne (by simp [Act.mutations])).symm
  | put key value =>
    obtain ⟨result, store', after, hrun, -, hshows⟩ := attended.settle none (walkable.put key value)
    exact ⟨result, store', after, state_bind hrun, fun _ _ => by rw [hshows]; rfl⟩
  | remove key =>
    obtain ⟨result, store', after, hrun, -, hshows⟩ := attended.settle none (walkable.delete key)
    exact ⟨result, store', after, state_bind hrun, fun _ _ => by rw [hshows]; rfl⟩
  | commit batch =>
    obtain ⟨result, store', after, hrun, -, hshows⟩ :=
      attended.settle (some batch.generation) (walkable.write batch.pending)
    have hcommit : batch.commit store s =
        ((result.mapError Batch.commitError, store'), after) := state_bind hrun
    refine ⟨_, store', after, state_bind hcommit, fun key _ => ?_⟩
    rw [hshows]
    exact Plain.settled_congr rfl (by cases result <;> rfl)

end Cursor

/-! ## The engine in memory -/

namespace World

theorem walkable_memory (name : String) : (memoryTerms name).Walkable where
  scan := by
    rintro _ start limit world ⟨⟨kind, rfl⟩, engine, hfind⟩ hlimit
    obtain ⟨after, hrun, hafter⟩ := onMemory_of_find? hfind (Except.error Error.closed)
      fun engine => (.ok (engine.scan start limit), engine)
    have hcontent := memoryContent_eq hfind kind
    refine ⟨engine.scan start limit, after, hrun, ?_, ⟨⟨kind, rfl⟩, engine, hafter⟩,
      (memoryContent_eq hafter kind).trans hcontent.symm⟩
    rw [show (memoryTerms name).content = memoryContent from rfl, hcontent]
    exact Plain.page_take engine.content start hlimit
  put := (kept_memory name).put
  delete := (kept_memory name).delete
  write := (kept_memory name).write

theorem full_memory (name : String) : (memoryTerms name).Full := by
  rintro _ start limit world pairs ⟨⟨kind, rfl⟩, engine, hfind⟩ lists
  obtain ⟨after, hrun, -⟩ := onMemory_of_find? hfind (Except.error Error.closed)
    fun engine => (.ok (engine.scan start limit), engine)
  rw [show (memoryTerms name).content = memoryContent from rfl, memoryContent_eq hfind kind]
    at lists
  refine ⟨after, ?_⟩
  rw [lists.unique (Plain.lists_entriesFrom engine.content start)]
  exact hrun

end World

end OrderedStore
