import OrderedStore.Proofs.Store.Owing

/-!
# Removal by a cursor

A cursor removes the entry that it returned last, once. Whether it does can only be noticed by what
is written later between the places up to which a walk with the removal and one without it have
fetched: a removal may change how much of the store goes on the next page.

Main definitions:

- `Cursor.Targets`: the key that a removal is about, by the history of a walk.
- `Cursor.Stage`: a cursor and its store, with the calls that can be made on them.
- `Cursor.Stage.Together`: two runs of the same calls.
- `Cursor.Removal`: what a removal does.

Main statement: `Cursor.removal_exact`.
-/

namespace OrderedStore

namespace Cursor

variable {σ H : Type} {terms : Terms σ H} {start key : Bytes} {events : List Event} {event : Event}
  {cursor : Cursor} {initial store : Store (StateM σ) H} {s₀ s : σ}

/-! ## The key that a removal is about -/

/-- A key was returned, and since then nothing else was returned and it was not removed. -/
def Targets (events : List Event) (key : Bytes) : Prop :=
  ∃ before event after value, events = before ++ event :: after ∧
    event.answer.pair? = some (key, value) ∧
    ∀ later ∈ after, later.answer.pair? = none ∧ later.act.removes later.answer = false

theorem Targets.exists_mem_returned (targets : Targets events key) :
    ∃ value, (key, value) ∈ returned events := by
  obtain ⟨before, event, after, value, rfl, hpair, -⟩ := targets
  exact ⟨value, List.mem_filterMap.2 ⟨event, by simp, hpair⟩⟩

theorem not_targets_nil : ¬ Targets [] key := by
  rintro ⟨before, event, after, value, hsplit, -⟩
  simp at hsplit

theorem targets_snoc_iff :
    Targets (events ++ [event]) key ↔ (∃ value, event.answer.pair? = some (key, value)) ∨
      event.answer.pair? = none ∧ event.act.removes event.answer = false ∧ Targets events key := by
  constructor
  · rintro ⟨before, found, after, value, hsplit, hpair, hafter⟩
    rcases List.eq_nil_or_concat after with rfl | ⟨between, last, rfl⟩
    · obtain ⟨-, hlast⟩ := List.append_inj' hsplit rfl
      cases hlast
      exact .inl ⟨value, hpair⟩
    · rw [List.concat_eq_append, ← List.cons_append, ← List.append_assoc] at hsplit
      obtain ⟨rfl, hlast⟩ := List.append_inj' hsplit rfl
      cases hlast
      obtain ⟨hnone, hremoves⟩ := hafter event (by simp)
      exact .inr ⟨hnone, hremoves, before, found, between, value, rfl, hpair,
        fun later hmem => hafter later (by simp [hmem])⟩
  · rintro (⟨value, hpair⟩ | ⟨hnone, hremoves, before, found, after, value, rfl, hpair, hafter⟩)
    · exact ⟨events, event, [], value, rfl, hpair, by simp⟩
    · refine ⟨before, found, after ++ [event], value, by simp, hpair, fun later hmem => ?_⟩
      rcases List.mem_append.1 hmem with hmem | hmem
      · exact hafter later hmem
      · rw [List.mem_singleton.1 hmem]
        exact ⟨hnone, hremoves⟩

/-- What was returned lies behind the cursor. -/
theorem Keeps.behind
    (kept : Keeps terms.content terms.ready start events (returned events) cursor store s)
    (targets : Targets events key) : cursor.passed key = true := by
  obtain ⟨value, hmem⟩ := targets.exists_mem_returned
  exact passed_iff.2 fun next hresume =>
    (kept.below next hresume).2 (key, value) (List.mem_append_left _ hmem)

section

variable [Backend (StateM σ) H] (walkable : terms.Walkable)
  (hready : ∀ live, initial.live = some live → terms.ready live.handle s₀)
  (hsize : 1 ≤ initial.config.cursorBatchSize)

include walkable hready hsize

/-- A cursor holds the key that a removal is about. -/
theorem Walk.currentKey_eq_some_iff
    (walk : Walk terms.content start initial s₀ events cursor store s) :
    cursor.currentKey = some key ↔ Targets events key := by
  induction walk generalizing key with
  | @begin cursor hsearch =>
    have hnone : cursor.currentKey = none := by
      unfold Store.search at hsearch
      cases hgeneration : initial.liveGeneration with
      | error e =>
        rw [hgeneration] at hsearch
        cases hsearch
      | ok generation =>
        rw [hgeneration] at hsearch
        cases hsearch
        rfl
    rw [hnone]
    exact ⟨nofun, fun targets => absurd targets not_targets_nil⟩
  | @call events cursor cursor' store store' s s' act answer walk hrun ih =>
    have kept := walk.keeps walkable.scannable hready hsize
    -- Only a returned entry or a removal that succeeds changes either side.
    rw [targets_snoc_iff, ← ih]
    change _ ↔ (∃ value, answer.pair? = some (key, value)) ∨
      answer.pair? = none ∧ act.removes answer = false ∧ cursor.currentKey = some key
    cases hact : act.advances with
    | true =>
      obtain ⟨refilled, _, _, _, -, hreplied, hrefilled, hcursor, -⟩ :=
        exists_replied walkable kept hact
      cases hrun.symm.trans hreplied
      rw [hcursor.currentKey_eq, hrefilled.currentKey, Act.removes_of_advances hact]
      cases hpair : answer.pair? with
      | none => simp
      | some pair => simp [Prod.ext_iff]
    | false =>
      obtain ⟨result, _, _, hwrote, -⟩ :=
        exists_wrote walkable kept.attended (fun key hkey => kept.behind (ih.1 hkey)) hact
      cases hrun.symm.trans hwrote
      cases hremoves : act.removes (.done result) <;> simp [Answer.pair?]

end

/-! ## Runs -/

/-- A cursor and its store. -/
structure Stage (σ H : Type) where
  cursor : Cursor
  store : Store (StateM σ) H
  state : σ

/-- Whether a call changed what it was to change. -/
def Answer.succeeds : Answer → Bool
  | .done result => result.isOk
  | _ => false

namespace Stage

variable [Backend (StateM σ) H]

/-- Makes a call. -/
def perform (stage : Stage σ H) (act : Act) : Answer × Stage σ H :=
  let ((answer, cursor, store), state) := stage.cursor.perform stage.store act stage.state
  (answer, { cursor, store, state })

/-- The answers to calls that are made one after the other. -/
def answers (stage : Stage σ H) : List Act → List Answer
  | [] => []
  | act :: acts => (stage.perform act).1 :: (stage.perform act).2.answers acts

/-- The entries that calls return. -/
def entries (stage : Stage σ H) (acts : List Act) : List (Bytes × Bytes) :=
  (stage.answers acts).filterMap Answer.pair?

/-- A cursor and its store after calls. -/
def after (stage : Stage σ H) (acts : List Act) : Stage σ H :=
  acts.foldl (fun stage act => (stage.perform act).2) stage

/-- What the store shows. -/
def shows (terms : Terms σ H) (stage : Stage σ H) : Plain :=
  stage.store.shows terms.content stage.state

/-- What the cursor owes. -/
def owed (terms : Terms σ H) (stage : Stage σ H) : Plain :=
  stage.cursor.owed (stage.shows terms)

/-- A walk came here. -/
def Reached (terms : Terms σ H) (start : Bytes) (initial : Store (StateM σ) H) (s₀ : σ)
    (stage : Stage σ H) : Prop :=
  ∃ events, Walk terms.content start initial s₀ events stage.cursor stage.store stage.state

variable {stage : Stage σ H} {act : Act}

theorem Reached.perform (reached : stage.Reached terms start initial s₀) (act : Act) :
    (stage.perform act).2.Reached terms start initial s₀ := by
  obtain ⟨events, walk⟩ := reached
  exact ⟨_, walk.on act⟩

theorem perform_eq {answer : Answer}
    (hrun : stage.cursor.perform stage.store act stage.state = ((answer, cursor, store), s)) :
    stage.perform act = (answer, { cursor, store, state := s }) := by
  unfold perform
  rw [hrun]

theorem entries_cons (act : Act) (acts : List Act) :
    stage.entries (act :: acts) =
      (stage.perform act).1.pair?.toList ++ (stage.perform act).2.entries acts := by
  unfold entries
  rw [answers]
  cases hpair : (stage.perform act).1.pair? <;> simp [hpair]

section

variable (walkable : terms.Walkable)
  (hready : ∀ live, initial.live = some live → terms.ready live.handle s₀)
  (hsize : 1 ≤ initial.config.cursorBatchSize)

include walkable hready hsize

theorem Reached.asked (reached : stage.Reached terms start initial s₀)
    (advances : act.advances = true) :
    ∃ first?, (stage.owed terms).First first? ∧
      (stage.perform act).1.pair? = (if act.gives then first? else none) ∧
      (stage.perform act).2.owed terms =
        (stage.owed terms).without (stage.perform act).1.pair? := by
  obtain ⟨events, walk⟩ := reached
  obtain ⟨answer, cursor', after, first?, hrun, hshows, hfirst, hpair, howed⟩ :=
    exists_asked walkable (walk.keeps walkable.scannable hready hsize) advances
  rw [perform_eq hrun]
  refine ⟨first?, hfirst, hpair, ?_⟩
  unfold owed shows
  rw [hshows]
  exact howed

theorem Reached.wrote (reached : stage.Reached terms start initial s₀)
    (writes : act.advances = false) :
    ∃ result, (stage.perform act).1 = .done result ∧
      (stage.perform act).2.cursor.buffer = stage.cursor.buffer ∧
      (stage.perform act).2.cursor.resumeAt = stage.cursor.resumeAt ∧
      (stage.perform act).2.cursor.pageSize = stage.cursor.pageSize ∧
      ∀ key, stage.cursor.passed key = false →
        (stage.perform act).2.shows terms key =
          (stage.shows terms).settled act.mutations result key := by
  obtain ⟨events, walk⟩ := reached
  have kept := walk.keeps walkable.scannable hready hsize
  have hbehind : ∀ key, stage.cursor.currentKey = some key → stage.cursor.passed key = true :=
    fun key hkey => kept.behind ((walk.currentKey_eq_some_iff walkable hready hsize).1 hkey)
  obtain ⟨result, store', after, hrun, hshows⟩ :=
    exists_wrote walkable kept.attended hbehind writes
  rw [perform_eq hrun]
  exact ⟨result, rfl, rfl, rfl, rfl, hshows⟩

/-- A write changes what is owed before the cursor, and nothing behind it. -/
theorem Reached.owed_of_wrote (reached : stage.Reached terms start initial s₀)
    (writes : act.advances = false) :
    ∃ result, (stage.perform act).1 = .done result ∧ ∀ key,
      (stage.perform act).2.owed terms key = if stage.cursor.passed key then stage.owed terms key
        else (stage.owed terms).settled act.mutations result key := by
  obtain ⟨result, hanswer, hbuffer, hresume, -, hshows⟩ :=
    reached.wrote walkable hready hsize writes
  refine ⟨result, hanswer, fun key => ?_⟩
  unfold owed Cursor.owed
  rw [passed_congr hresume, hbuffer]
  cases hpassed : stage.cursor.passed key with
  | true => rfl
  | false =>
    simp only [Bool.false_eq_true, if_false]
    rw [hshows key hpassed]
    exact Plain.settled_congr (by rw [hpassed]; rfl) rfl

end

/-! ## Two runs of the same calls -/

/-- What a call writes is behind both cursors, or before both. -/
def Abreast (x y : Stage σ H) (act : Act) : Prop :=
  ∀ mutation ∈ act.mutations, x.cursor.passed mutation.key = y.cursor.passed mutation.key

/-- A call that writes before the cursor comes about in both runs, or in none. -/
def Alike (x y : Stage σ H) (act : Act) : Prop :=
  ∀ mutation ∈ act.mutations, x.cursor.passed mutation.key = false →
    (x.perform act).1.succeeds = (y.perform act).1.succeeds

/-- Something holds before each of the calls that are made in two runs. -/
def Together (holds : Stage σ H → Stage σ H → Act → Prop) :
    Stage σ H → Stage σ H → List Act → Prop
  | _, _, [] => True
  | x, y, act :: acts => holds x y act ∧ Together holds (x.perform act).2 (y.perform act).2 acts

variable {x y : Stage σ H} {acts : List Act}

instance : Decidable (Abreast x y act) :=
  List.decidableBAll _ _

instance : Decidable (Alike x y act) :=
  List.decidableBAll _ _

instance decidableTogether (holds : Stage σ H → Stage σ H → Act → Prop)
    [∀ x y act, Decidable (holds x y act)] :
    ∀ (x y : Stage σ H) (acts : List Act), Decidable (Together holds x y acts)
  | _, _, [] => .isTrue trivial
  | x, y, act :: acts =>
    have := decidableTogether holds (x.perform act).2 (y.perform act).2 acts
    inferInstanceAs
      (Decidable (holds x y act ∧ Together holds (x.perform act).2 (y.perform act).2 acts))

/-- What is the same for a key before the cursor still is after a write that is alike. -/
theorem Alike.settled (alike : Alike x y act) {result result' : Except Error Unit}
    (hanswer : (x.perform act).1 = .done result) (hanswer' : (y.perform act).1 = .done result')
    (hkey : x.cursor.passed key = false) {plain other : Plain} (hsame : plain key = other key) :
    plain.settled act.mutations result key = other.settled act.mutations result' key := by
  by_cases hwritten : ∃ mutation ∈ act.mutations, mutation.key = key
  · obtain ⟨mutation, hmem, rfl⟩ := hwritten
    have hoks := alike mutation hmem hkey
    rw [hanswer, hanswer'] at hoks
    exact Plain.settled_congr hsame hoks
  · have hne : ∀ mutation ∈ act.mutations, mutation.key ≠ key := fun mutation hmem hkey =>
      hwritten ⟨mutation, hmem, hkey⟩
    rw [Plain.settled_of_forall_ne hne, Plain.settled_of_forall_ne hne, hsame]

section

variable (walkable : terms.Walkable)
  (hready : ∀ live, initial.live = some live → terms.ready live.handle s₀)
  (hsize : 1 ≤ initial.config.cursorBatchSize)
  (reached_x : x.Reached terms start initial s₀) (reached_y : y.Reached terms start initial s₀)

include walkable hready hsize reached_x reached_y

/-- Cursors that owe the same return the same entry, and owe the same afterwards. -/
theorem perform_congr (howed : x.owed terms = y.owed terms) (abreast : Abreast x y act)
    (alike : Alike x y act) :
    (x.perform act).1.pair? = (y.perform act).1.pair? ∧
      (x.perform act).2.owed terms = (y.perform act).2.owed terms := by
  cases hact : act.advances with
  | true =>
    -- Both return the first entry that they owe, and this is the same one.
    obtain ⟨first?, hfirst, hpair, hrest⟩ := reached_x.asked walkable hready hsize hact
    obtain ⟨other?, hother, hpair', hrest'⟩ := reached_y.asked walkable hready hsize hact
    rw [← howed] at hother
    have hsame : (x.perform act).1.pair? = (y.perform act).1.pair? := by
      rw [hpair, hpair', hfirst.unique hother]
    exact ⟨hsame, by rw [hrest, hrest', howed, hsame]⟩
  | false =>
    obtain ⟨result, hanswer, howes⟩ := reached_x.owed_of_wrote walkable hready hsize hact
    obtain ⟨result', hanswer', howes'⟩ := reached_y.owed_of_wrote walkable hready hsize hact
    refine ⟨by rw [hanswer, hanswer']; rfl, funext fun key => ?_⟩
    rw [howes, howes', ← howed]
    by_cases hsides : x.cursor.passed key = y.cursor.passed key
    · rw [← hsides]
      cases hpassed : x.cursor.passed key with
      | true => rfl
      | false => exact alike.settled hanswer hanswer' hpassed rfl
    · -- A key on different sides of the cursors is not written, and owed as before.
      have hne : ∀ mutation ∈ act.mutations, mutation.key ≠ key := by
        rintro mutation hmem rfl
        exact hsides (abreast mutation hmem)
      rw [Plain.settled_of_forall_ne hne, Plain.settled_of_forall_ne hne, ite_self, ite_self]

/-- The induction is on the calls: after each the two cursors owe the same. -/
theorem entries_congr (howed : x.owed terms = y.owed terms)
    (together : Together (fun x y act => Abreast x y act ∧ Alike x y act) x y acts) :
    x.entries acts = y.entries acts := by
  induction acts generalizing x y with
  | nil => rfl
  | cons act acts ih =>
    obtain ⟨⟨abreast, alike⟩, together⟩ := together
    obtain ⟨hpair, hafter⟩ :=
      perform_congr walkable hready hsize reached_x reached_y howed abreast alike
    rw [entries_cons, entries_cons, hpair,
      ih (reached_x.perform act) (reached_y.perform act) hafter together]

end

/-! ## Full pages -/

/-- Two cursors that have fetched the same, of stores that show the same before them. -/
structure Even (terms : Terms σ H) (x y : Stage σ H) : Prop where
  buffer : y.cursor.buffer = x.cursor.buffer
  resumeAt : y.cursor.resumeAt = x.cursor.resumeAt
  pageSize : y.cursor.pageSize = x.cursor.pageSize
  shows : ∀ key, x.cursor.passed key = false → y.shows terms key = x.shows terms key

omit [Backend (StateM σ) H] in
/-- Cursors that have fetched the same owe the same. -/
theorem Even.owed (even : Even terms x y) : x.owed terms = y.owed terms := by
  funext key
  unfold Stage.owed Cursor.owed
  rw [passed_congr even.resumeAt, even.buffer]
  cases hpassed : x.cursor.passed key with
  | true => rfl
  | false => exact (even.shows key hpassed).symm

section

variable (walkable : terms.Walkable) (full : terms.Full)
  (hready : ∀ live, initial.live = some live → terms.ready live.handle s₀)
  (hsize : 1 ≤ initial.config.cursorBatchSize)
  (reached_x : x.Reached terms start initial s₀) (reached_y : y.Reached terms start initial s₀)

include walkable hready hsize in
theorem Reached.attended (reached : stage.Reached terms start initial s₀) :
    stage.store.Attended terms.ready stage.cursor.generation stage.state := by
  obtain ⟨events, walk⟩ := reached
  exact (walk.keeps walkable.scannable hready hsize).attended

include walkable hready hsize in
/-- A removal leaves a cursor with what it has fetched, and what is before it. -/
theorem Reached.even_removeCurrent (reached : stage.Reached terms start initial s₀) :
    Even terms stage (stage.perform .removeCurrent).2 := by
  obtain ⟨result, -, hbuffer, hresume, hpages, hshows⟩ :=
    reached.wrote walkable hready hsize (rfl : Act.advances .removeCurrent = false)
  refine ⟨hbuffer, hresume, hpages, fun key hkey => ?_⟩
  rw [hshows key hkey]
  exact Plain.settled_of_forall_ne (by simp [Act.mutations])

include walkable hready hsize in
theorem Reached.replied (reached : stage.Reached terms start initial s₀)
    (advances : act.advances = true) :
    ∃ refilled after, stage.cursor.refill stage.store stage.state = ((.ok (), refilled), after) ∧
      Refilled (stage.shows terms) stage.cursor refilled ∧
      Replied refilled act (stage.perform act).1 (stage.perform act).2.cursor ∧
      (stage.perform act).2.shows terms = stage.shows terms := by
  obtain ⟨events, walk⟩ := reached
  obtain ⟨refilled, answer, cursor', after, hrefill, hrun, hrefilled, hreplied, hshows⟩ :=
    exists_replied walkable (walk.keeps walkable.scannable hready hsize) advances
  rw [perform_eq hrun]
  exact ⟨refilled, after, hrefill, hrefilled, hreplied, hshows⟩

include walkable full hready hsize reached_x reached_y

/-- From the same key on the same page is fetched. -/
theorem Even.refilled (even : Even terms x y) {fetched fetched' : Cursor} {after after' : σ}
    (hrefill : x.cursor.refill x.store x.state = ((.ok (), fetched), after))
    (hrefill' : y.cursor.refill y.store y.state = ((.ok (), fetched'), after'))
    (hrefilled : Refilled (x.shows terms) x.cursor fetched) :
    fetched'.buffer = fetched.buffer ∧ fetched'.resumeAt = fetched.resumeAt := by
  have of_settled (settled : x.cursor.buffer ≠ [] ∨ x.cursor.resumeAt = none) :
      fetched' = y.cursor := by
    rw [← even.buffer, ← even.resumeAt] at settled
    cases (refill_of_settled settled).symm.trans hrefill'
    rfl
  cases hrefilled with
  | full hne => rw [of_settled (.inl hne)]; exact ⟨even.buffer, even.resumeAt⟩
  | dry _ hresume => rw [of_settled (.inr hresume)]; exact ⟨even.buffer, even.resumeAt⟩
  | @fetched next page hbuffer hresume hpage =>
    -- Both stores list the same from the key on, and both pages are as much of it as fits.
    obtain ⟨rest, lists, -⟩ := hpage
    have lists' : (y.shows terms).Lists next (page ++ rest) := lists.congr fun key hle =>
      (even.shows key (not_passed_iff.2 ⟨next, hresume, hle⟩)).symm
    have hx := refill_of_full full (reached_x.attended walkable hready hsize) hbuffer hresume lists
      hrefill
    have hy := refill_of_full full (reached_y.attended walkable hready hsize)
      (even.buffer.trans hbuffer) (even.resumeAt.trans hresume) lists' hrefill'
    rw [even.pageSize] at hy
    rw [hx, hy]
    exact ⟨rfl, rfl⟩

theorem Even.perform_of_advances (even : Even terms x y) (advances : act.advances = true) :
    Even terms (x.perform act).2 (y.perform act).2 := by
  obtain ⟨fetched, after, hrefill, hrefilled, hreplied, hshows⟩ :=
    reached_x.replied walkable hready hsize advances
  obtain ⟨fetched', after', hrefill', hrefilled', hreplied', hshows'⟩ :=
    reached_y.replied walkable hready hsize advances
  obtain ⟨hbuffer, hresume⟩ := even.refilled walkable full hready hsize reached_x reached_y
    hrefill hrefill' hrefilled
  refine ⟨?_, ?_, ?_, fun key hkey => ?_⟩
  · rw [hreplied.buffer_eq, hreplied'.buffer_eq, hbuffer]
  · rw [hreplied.resumeAt_eq, hreplied'.resumeAt_eq, hresume]
  · rw [hreplied.pageSize_eq, hreplied'.pageSize_eq, hrefilled.pageSize, hrefilled'.pageSize,
      even.pageSize]
  · rw [hshows, hshows']
    -- What is before the cursor now was before it already.
    refine even.shows key (Bool.eq_false_iff.2 fun hpassed => ?_)
    rw [passed_congr hreplied.resumeAt_eq, hrefilled.passed_of_passed hpassed] at hkey
    cases hkey

omit full in
theorem Even.perform_of_writes (even : Even terms x y) (alike : Alike x y act)
    (writes : act.advances = false) : Even terms (x.perform act).2 (y.perform act).2 := by
  obtain ⟨result, hanswer, hbuffer, hresume, hpages, hshows⟩ :=
    reached_x.wrote walkable hready hsize writes
  obtain ⟨result', hanswer', hbuffer', hresume', hpages', hshows'⟩ :=
    reached_y.wrote walkable hready hsize writes
  refine ⟨?_, ?_, ?_, fun key hkey => ?_⟩
  · rw [hbuffer, hbuffer', even.buffer]
  · rw [hresume, hresume', even.resumeAt]
  · rw [hpages, hpages', even.pageSize]
  · rw [passed_congr hresume] at hkey
    have hkey' : y.cursor.passed key = false := by rwa [passed_congr even.resumeAt]
    rw [hshows key hkey, hshows' key hkey']
    exact (alike.settled hanswer hanswer' hkey (even.shows key hkey).symm).symm

/-- Cursors that have fetched the same still have after the same call. -/
theorem Even.perform (even : Even terms x y) (alike : Alike x y act) :
    Even terms (x.perform act).2 (y.perform act).2 := by
  cases hact : act.advances with
  | true => exact even.perform_of_advances walkable full hready hsize reached_x reached_y hact
  | false => exact even.perform_of_writes walkable hready hsize reached_x reached_y alike hact

/-- Where pages are full, both cursors are always past the same keys. -/
theorem Even.together (even : Even terms x y) (together : Together Alike x y acts) :
    Together (fun x y act => Abreast x y act ∧ Alike x y act) x y acts := by
  induction acts generalizing x y with
  | nil => trivial
  | cons act acts ih =>
    obtain ⟨alike, together⟩ := together
    refine ⟨⟨fun mutation _ => (passed_congr even.resumeAt).symm, alike⟩, ?_⟩
    exact ih (reached_x.perform act) (reached_y.perform act)
      (even.perform walkable full hready hsize reached_x reached_y alike) together

end

end Stage

/-! ## What a removal does -/

/-- What the removal of a key by a cursor comes to. It is the removal by the store itself; if it
fails, the key stays the one that a removal is about, and if not, there is none. -/
structure Removed [Backend (StateM σ) H] (terms : Terms σ H) (events : List Event)
    (stage : Stage σ H) (key : Bytes) (result : Except Error Unit) (after : Stage σ H) : Prop where
  performed : stage.perform .removeCurrent = (.done result, after)
  remove : stage.store.remove key stage.state = ((result, after.store), after.state)
  absent : result.isOk = true → after.shows terms key = none
  others : result.isOk = true → ∀ other, other ≠ key →
    after.shows terms other = stage.shows terms other
  unchanged : result.isOk = false → after.shows terms = stage.shows terms
  next : ∀ next, Targets (events ++ [stage.cursor.record (stage.shows terms) .removeCurrent
    (.done result)]) next ↔ result.isOk = false ∧ next = key

/-- What a removal does to a cursor and its store, by the history of the calls. -/
structure Removal [Backend (StateM σ) H] (terms : Terms σ H) (events : List Event)
    (stage : Stage σ H) : Prop where
  untargeted : (∀ key, ¬ Targets events key) →
    stage.perform .removeCurrent = (.done (.error .noCurrentEntry), stage)
  targeted : ∀ key, Targets events key → ∃ result after,
    Removed terms events stage key result after
  /-- Calls return the same entries as without the removal, unless what is written lies between the
  two cursors or only comes about once. -/
  unnoticed : ∀ acts, Stage.Together (fun x y act => Stage.Abreast x y act ∧ Stage.Alike x y act)
    stage (stage.perform .removeCurrent).2 acts →
    (stage.perform .removeCurrent).2.entries acts = stage.entries acts
  /-- Where pages are as full as they may be nothing lies between the two cursors. -/
  unnoticed_of_full : terms.Full → ∀ acts,
    Stage.Together Stage.Alike stage (stage.perform .removeCurrent).2 acts →
    (stage.perform .removeCurrent).2.entries acts = stage.entries acts

section

variable [Backend (StateM σ) H] (walkable : terms.Walkable)
  (hready : ∀ live, initial.live = some live → terms.ready live.handle s₀)
  (hsize : 1 ≤ initial.config.cursorBatchSize)

include walkable hready hsize

/-- The key that was returned last is removed, and no other. -/
theorem Walk.exists_removed (walk : Walk terms.content start initial s₀ events cursor store s)
    (targets : Targets events key) :
    ∃ result after, Removed terms events { cursor, store, state := s } key result after := by
  have attended := (walk.keeps walkable.scannable hready hsize).attended
  have hcurrent := (walk.currentKey_eq_some_iff walkable hready hsize).2 targets
  obtain ⟨result, store', after, hrun, -, hshows⟩ := attended.settle none (walkable.delete key)
  let cursor' := { cursor with currentKey := if result.isOk then none else some key }
  have hperform : cursor.perform store .removeCurrent s =
      ((.done result, cursor', store'), after) :=
    state_bind (removeCurrent_of_remove attended hcurrent hrun)
  have hnext : ∀ next, cursor'.currentKey = some next ↔ Targets (events ++
      [cursor.record (store.shows terms.content s) .removeCurrent (.done result)]) next :=
    fun next => (walk.call hperform).currentKey_eq_some_iff walkable hready hsize
  refine ⟨result, { cursor := cursor', store := store', state := after }, ?_⟩
  cases result with
  | error e =>
    exact {
      performed := Stage.perform_eq hperform
      remove := hrun
      absent := nofun
      others := nofun
      unchanged := fun _ => hshows
      next := fun next => (hnext next).symm.trans
        (by simp [cursor', Except.isOk, Except.toBool, eq_comm]) }
  | ok _ =>
    have hchange : store'.shows terms.content after =
        (store.shows terms.content s).change (.delete key) := hshows
    exact {
      performed := Stage.perform_eq hperform
      remove := hrun
      absent := fun _ => (congrFun hchange key).trans (if_pos rfl)
      others := fun _ other hne => (congrFun hchange other).trans (if_neg hne)
      unchanged := nofun
      next := fun next => (hnext next).symm.trans
        (by simp [cursor', Except.isOk, Except.toBool]) }

/-- A cursor removes the entry that it returned last, once, and goes on as if it had not. -/
theorem removal_exact (walk : Walk terms.content start initial s₀ events cursor store s) :
    Removal terms events { cursor, store, state := s } := by
  have reached : ({ cursor, store, state := s } : Stage σ H).Reached terms start initial s₀ :=
    ⟨events, walk⟩
  have reached' := reached.perform .removeCurrent
  have even := reached.even_removeCurrent walkable hready hsize
  refine {
    untargeted := fun hnone => ?_
    targeted := fun key targets => walk.exists_removed walkable hready hsize targets
    unnoticed := fun acts together => ?_
    unnoticed_of_full := fun full acts together => ?_ }
  · have hcurrent : cursor.currentKey = none := by
      cases hkey : cursor.currentKey with
      | none => rfl
      | some key =>
        exact absurd ((walk.currentKey_eq_some_iff walkable hready hsize).1 hkey) (hnone key)
    exact Stage.perform_eq (state_bind (removeCurrent_of_none
      (walk.keeps walkable.scannable hready hsize).attended hcurrent))
  · exact (Stage.entries_congr walkable hready hsize reached reached' even.owed together).symm
  · have together := even.together walkable full hready hsize reached reached' together
    exact (Stage.entries_congr walkable hready hsize reached reached' even.owed together).symm

end

/-- A cursor that fetches one entry at a time, after it returned and removed its first entry and
returned the next one. -/
def trialStage : Stage World WorldHandle :=
  Stage.after
    { cursor := { generation := 0, pageSize := 1, resumeAt := some [1] }, store := trialStore
      state := trialWorld }
    [.nextEntry, .removeCurrent, .hasNext, .nextEntry]

/-- Calls among which are writes before that cursor and behind it, and another removal. -/
def trialActs : List Act :=
  [.put [4] [40], .remove [1], .hasNext, .removeCurrent, .nextEntry, .put [3] [31], .item,
    .nextEntry]

/-- A removal between two pages, after an earlier one. -/
theorem removal_exact_between_pages :
    ∃ events, Walk (World.memoryTerms "m").content [1] trialStore trialWorld events
        trialStage.cursor trialStage.store trialStage.state ∧
      Targets events [3] ∧ (trialStage.perform .removeCurrent).1.succeeds = true ∧
      Stage.Together (fun x y act => Stage.Abreast x y act ∧ Stage.Alike x y act) trialStage
        (trialStage.perform .removeCurrent).2 trialActs ∧
      trialStage.entries trialActs = [([4], [40]), ([5], [50])] ∧
      (World.memoryTerms "m").Full ∧ Removal (World.memoryTerms "m") events trialStage := by
  have walk : Walk (World.memoryTerms "m").content [1] trialStore trialWorld [] _ _ _ := .begin rfl
  have walk := (((walk.on .nextEntry).on .removeCurrent).on .hasNext).on .nextEntry
  refine ⟨_, walk, targets_snoc_iff.2 (.inl ⟨[30], rfl⟩), by decide, by decide, by decide,
    World.full_memory "m", removal_exact (World.walkable_memory "m") ?_ (by decide) walk⟩
  rintro _ ⟨⟩
  exact ⟨⟨.portable, rfl⟩, _, rfl⟩

/-! ## A page that a removal makes longer -/

/-- A cursor of a new store of the portable engine, if all goes well. -/
def newStage? (config : Config) : Option (Stage World WorldHandle) :=
  match Store.connect config World.defaultSelector ({} : World) with
  | (.ok store, world) => (store.search []).toOption.map fun cursor =>
    { cursor, store, state := world }
  | (.error _, _) => none

theorem connect_of_newStage? {config : Config} {stage : Stage World WorldHandle}
    (h : newStage? config = some stage) :
    Store.connect config World.defaultSelector ({} : World) = (.ok stage.store, stage.state) ∧
      stage.store.search [] = .ok stage.cursor := by
  unfold newStage? at h
  split at h
  case h_1 store world hconnect =>
    obtain ⟨cursor, hsearch, rfl⟩ := Option.map_eq_some_iff.1 h
    refine ⟨hconnect, ?_⟩
    cases hfound : store.search [] with
    | error e => rw [hfound] at hsearch; cases hsearch
    | ok found => rw [hfound] at hsearch; cases hsearch; rfl
  case h_2 => cases h

/-- Memtables of two entries are written out, and pages hold two entries at most. -/
def narrowConfig : Config where
  path := .ofText "/"
  writeBufferSize := 66
  cursorBatchSize := 2

/-- The calls after which the key that was returned is removed. -/
def narrowActs : List Act :=
  [.put [97] [], .nextEntry, .put [100] []]

/-- The calls after that. -/
def laterActs : List Act :=
  [.put [98] [], .remove [99], .nextEntry, .put [99] [], .nextEntry]

/-- Which calls of the trial come about, and what they return: those before the removal, and those
after it without it and with it. -/
def narrowReport? : Option (List (List Bool) × List (List (Bytes × Bytes))) :=
  (newStage? narrowConfig).map fun first =>
    let stage := first.after narrowActs
    let removed := stage.perform .removeCurrent
    ([[removed.1.succeeds], (stage.answers laterActs).map Answer.succeeds,
        (removed.2.answers laterActs).map Answer.succeeds],
      [first.entries narrowActs, stage.entries laterActs, removed.2.entries laterActs])

/-- Without the removal an entry and a tombstone fill a table, and the next page ends with them.
With it the tombstone comes too late for that table, and the page has room for another entry. -/
theorem narrowReport?_eq : narrowReport? = some
    ([[true], [true, true, false, true, false], [true, true, false, true, false]],
      [[([97], [])], [([98], []), ([99], [])], [([98], []), ([100], [])]]) := by
  decide +kernel

/-- Without full pages a removal can be noticed, even if all that is written comes about. -/
theorem exists_noticed :
    ∃ (store : Store (StateM World) WorldHandle) (world : World) (stage : Stage World WorldHandle)
      (acts : List Act),
      Store.connect narrowConfig World.defaultSelector ({} : World) = (.ok store, world) ∧
      (∀ content, ∃ events,
        Walk content [] store world events stage.cursor stage.store stage.state ∧
        Targets events [97]) ∧
      (stage.perform .removeCurrent).1.succeeds = true ∧
      (stage.answers acts).map Answer.succeeds = [true, true, false, true, false] ∧
      ((stage.perform .removeCurrent).2.answers acts).map Answer.succeeds =
        [true, true, false, true, false] ∧
      stage.entries acts = [([98], []), ([99], [])] ∧
      (stage.perform .removeCurrent).2.entries acts = [([98], []), ([100], [])] := by
  obtain ⟨first, hfirst, hreport⟩ := Option.map_eq_some_iff.1 narrowReport?_eq
  obtain ⟨hconnect, hsearch⟩ := connect_of_newStage? hfirst
  simp only [Prod.mk.injEq, List.cons.injEq, and_true] at hreport
  obtain ⟨⟨hremoved, hplain, hother⟩, hbefore, hentries, hentries'⟩ := hreport
  refine ⟨first.store, first.state, first.after narrowActs, laterActs, hconnect, fun content => ?_,
    hremoved, hplain, hother, hentries, hentries'⟩
  have walk : Walk content [] first.store first.state [] first.cursor first.store first.state :=
    .begin hsearch
  refine ⟨_, ((walk.on (.put [97] [])).on .nextEntry).on (.put [100] []), ?_⟩
  -- A write returns nothing, so what was returned was returned by the call in between.
  have hpair : ((first.perform (.put [97] [])).2.perform .nextEntry).1.pair? = some ([97], []) := by
    unfold narrowActs at hbefore
    rw [Stage.entries_cons, Stage.entries_cons, Stage.entries_cons] at hbefore
    change none.toList ++ (_ ++ (none.toList ++ [])) = _ at hbefore
    simpa [Option.toList_eq_singleton_iff] using hbefore
  exact targets_snoc_iff.2 (.inr ⟨rfl, rfl, targets_snoc_iff.2 (.inl ⟨[], hpair⟩)⟩)

end Cursor

end OrderedStore
