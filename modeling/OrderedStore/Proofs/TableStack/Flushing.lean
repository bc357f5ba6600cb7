import OrderedStore.Proofs.Table.Writing
import OrderedStore.Proofs.TableStack.Opening

/-!
# Writing out a memtable

A memtable is written as a draft, which gets the name of the next table when it is complete.
Wherever this ends, the directory holds the tables from before, or those and the new one.

Main statement: `TableStack.ensures_flush`.
-/

namespace OrderedStore.TableStack

variable {conduct : Conduct} {host : Host} {v : View} {path : Path} {dir : Location}
  {volumes served : List Volume} {volume : Volume} {capacity number : Nat}

/-- A table is missing or complete. -/
def KeptOr (v : View) (dir : Location) (volumes : List Volume) (volume : Volume) (host : Host) :
    Prop :=
  Kept v dir volumes host ∨ Kept v dir (volume :: volumes) host

/-- What a draft leaves. -/
theorem Kept.touched (kept : Kept v dir volumes host) {after : Host}
    (touched : after.Touched host.view (dir ++ [draftName number])) :
    Kept v dir volumes after :=
  ⟨touched.sound, kept.same.trans (.of_sameBut touched.same), kept.shelves.draft touched.same⟩

/-- A host whose directory holds some tables, which are open. -/
structure Stacked (v : View) (dir : Location) (volumes served : List Volume)
    (tables : List Table) (host : Host) : Prop extends Kept v dir volumes host where
  serves : Serves tables host.view dir served

variable {tables : List Table} {memtable : Memtable}

/-- Drafts do not concern the open tables. -/
theorem Stacked.touched (stacked : Stacked v dir volumes served tables host) {after : Host}
    (touched : after.Touched host.view (dir ++ [draftName number])) :
    Stacked v dir volumes served tables after :=
  ⟨stacked.toKept.touched touched, stacked.serves.draft touched.same⟩

/-- The number of a table that is not there yet. -/
structure Fresh (volumes served : List Volume) (volume : Volume) : Prop where
  small : volume.id < UInt64.size
  kept : ∀ older ∈ volumes, older.id < volume.id
  served : ∀ older ∈ served, older.id < volume.id
  wellFormed : Table.WellFormed volume.entries

/-- A complete draft gets the name of its table. -/
theorem Stacked.rename (stacked : Stacked v dir volumes served tables host)
    (fresh : Fresh volumes served volume) {id : Nat} {after : Host} (sound : after.Sound)
    (hview : after.view = (host.view.put (dir ++ [draftName volume.id]) none).put
      (dir ++ [fileName volume.id]) (some (id, Table.image volume.entries))) :
    Stacked v dir (volume :: volumes) served tables after := by
  have hdraft : host.view.SameOutside (host.view.put (dir ++ [draftName volume.id]) none) dir :=
    .of_sameBut (.put _ _ _)
  have hfile : (host.view.put (dir ++ [draftName volume.id]) none).SameOutside after.view dir :=
    .of_sameBut (.of_eq_put hview)
  exact ⟨⟨sound, stacked.same.trans (hdraft.trans hfile),
      stacked.shelves.rename fresh.kept fresh.small fresh.wellFormed hview⟩,
    stacked.serves.rename fresh.served fresh.small hview⟩

/-- A table is missing or complete, and the open tables are the ones from before. -/
def StackedOr (v : View) (dir : Location) (volumes : List Volume) (volume : Volume)
    (served : List Volume) (tables : List Table) (host : Host) : Prop :=
  Stacked v dir volumes served tables host ∨ Stacked v dir (volume :: volumes) served tables host

theorem StackedOr.toKeptOr (h : StackedOr v dir volumes volume served tables host) :
    KeptOr v dir volumes volume host :=
  h.imp Stacked.toKept Stacked.toKept

theorem ensures_writeTable (stacked : Stacked v dir volumes served tables host)
    (reaches : host.view.Reaches path dir) (fresh : Fresh volumes served volume)
    (entries : memtable.toList = volume.entries) :
    (writeTable path capacity volume.id memtable).Ensures conduct
      (StackedOr v dir volumes volume served tables)
      (fun written after =>
        Stacked v dir (volume :: volumes) (volume :: served) (written.2 :: tables) after)
      (fun _ after => conduct.Excuse ∧ (Stacked v dir volumes served tables after ∨
        ¬ conduct.Steady ∧ Stacked v dir (volume :: volumes) served tables after)) host := by
  have hnames := reaches.names (plainName_draftName volume.id)
  unfold writeTable
  simp only
  refine Action.Ensures.bind_of ((Table.Draft.ensures_start stacked.sound hnames
    (stacked.shelves.flat _)).mono ?_ (fun _ _ h => h) fun _ _ h => h) ?_ ?_
  · intro after touched
    exact Or.inl (stacked.touched touched)
  swap
  · rintro e after ⟨excuse, touched⟩
    exact ⟨excuse, Or.inl (stacked.touched touched)⟩
  intro draft begun hdraft
  have hwhole : Table.WellFormed ([] ++ volume.entries) := fresh.wellFormed
  rw [entries]
  refine Action.Ensures.bind_of (Action.ensures_orElseCleanup
    ((Table.Draft.ensures_addAll hdraft).mono ?_ (fun _ _ h => h) ?_)) ?_ fun _ _ h => h
  · intro after writing
    exact Or.inl (stacked.touched writing.toTouched)
  · rintro e after ⟨cause, writing⟩
    have excuse := (cause.resolve_right fun hill => hill hwhole).2
    refine (Table.Draft.ensures_abandon writing).mono ?_ ?_
    · intro last touched
      exact Or.inl (stacked.touched touched)
    · intro _ last touched
      exact ⟨excuse, Or.inl (stacked.touched touched)⟩
  rintro full written ⟨hfull, _⟩
  rw [List.nil_append] at hfull
  refine Action.Ensures.bind_of ((Table.Draft.ensures_finish hfull).mono ?_ (fun _ _ h => h)
    fun _ _ h => h) ?_ ?_
  · intro after touched
    exact Or.inl (stacked.touched touched)
  swap
  · rintro e after ⟨excuse, touched⟩
    exact ⟨excuse, Or.inl (stacked.touched touched)⟩
  rintro summary finished ⟨touched, _, id, hfile⟩
  have hfinished := stacked.touched touched
  have hreaches := touched.same.reaches reaches
  refine Action.Ensures.bind (Action.ensures_rename touched.sound
    (touched.same.names hnames) (hreaches.names (plainName_fileName volume.id))
    (place_fileName_ne fresh.small).symm hfile (hfinished.shelves.flat _)
    (Or.inl hfinished) (fun excuse _ => ⟨excuse, Or.inl hfinished⟩) ?_)
  intro renamed hshort hsound hview
  have hrenamed := hfinished.rename fresh hsound hview
  have hnew := View.file?_of_eq_put hview
  have hnames' : renamed.view.Names (path.child (fileName volume.id))
      (dir ++ [fileName volume.id]) := by
    refine View.Names.mono (hreaches.names (plainName_fileName volume.id)) ?_ ?_
    · rw [hview]
      rfl
    · intro place hplace
      rwa [hview]
  refine ⟨Or.inr hrenamed, ?_⟩
  refine Action.Ensures.bind_of (Table.ensures_start hsound hnames' hnew fresh.wellFormed
    (Or.inr hrenamed)) ?_ ?_
  · rintro table _ ⟨opened, _, hhandle, rfl⟩
    refine Action.ensures_pure ⟨hrenamed.toKept, .cons ?_ hrenamed.serves⟩
    refine ⟨fresh.small, fresh.wellFormed, opened.layout, ?_⟩
    rw [hhandle]
    exact hnew
  · -- A path that was short enough for renaming is short enough for opening.
    rintro e _ ⟨excuse, hlong | unsteady, rfl⟩
    · exact absurd hlong hshort
    · exact ⟨excuse, Or.inr ⟨unsteady, hrenamed⟩⟩

/-- A memtable is written out as the next table. If that fails, the directory holds the table all
the same where it could be renamed but not opened; it is not among the open ones then. -/
theorem ensures_flush {stack : TableStack}
    (stacked : Stacked v dir volumes served stack.tables host)
    (reaches : host.view.Reaches stack.directory dir) (fresh : Fresh volumes served volume)
    (number : stack.nextId.toNat = volume.id) (entries : memtable.toList = volume.entries)
    (nonempty : memtable.isEmpty = false) :
    (stack.flush memtable).Ensures conduct (KeptOr v dir volumes volume)
      (fun result after => result.2.directory = stack.directory ∧
        result.2.nextId = stack.nextId + 1 ∧
        ((∃ summary, result.1 = .ok summary ∧
          Stacked v dir (volume :: volumes) (volume :: served) result.2.tables after) ∨
        conduct.Excuse ∧ (∃ e, result.1 = .error e) ∧
          (Stacked v dir volumes served result.2.tables after ∨
            ¬ conduct.Steady ∧
              Stacked v dir (volume :: volumes) served result.2.tables after))) host := by
  unfold flush
  simp only [nonempty, number]
  refine Action.Ensures.script_bind ((ensures_writeTable stacked reaches fresh entries).mono
    (fun _ => StackedOr.toKeptOr) ?_ ?_)
  · rintro ⟨summary, table⟩ after h
    exact ⟨rfl, rfl, Or.inl ⟨summary, rfl, h⟩⟩
  · rintro e after ⟨excuse, h⟩
    exact ⟨rfl, rfl, Or.inr ⟨excuse, ⟨e, rfl⟩, h⟩⟩

end OrderedStore.TableStack
