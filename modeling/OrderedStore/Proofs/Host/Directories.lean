import OrderedStore.Proofs.Host.Calls

/-!
# Rules for directories

Listing a directory, and making one with those above it. Wherever the making of directories ends,
the files are as before and the new directories stand where the given paths end (`View.Grown`).
-/

namespace OrderedStore

/-! ## Where steps end -/

/-- Where a step leads if it leads anywhere. -/
def PathStep.lead (place : Location) : PathStep → Location
  | .here => place
  | .up => place.dropLast
  | .entry name => place ++ [name]

namespace View

/-- Where a path ends if it leads anywhere. -/
def ending (v : View) (path : Path) : Location :=
  path.steps.foldl PathStep.lead (v.startOf path)

variable {v w : View} {place target : Location} {path : Path} {steps : List PathStep}

theorem lead_eq_of_stepFrom {step : PathStep} (h : Disk.stepFrom place step = .ok target) :
    PathStep.lead place step = target := by
  cases step with
  | here =>
    cases h
    rfl
  | up =>
    cases h
    rfl
  | entry name =>
    simp only [Disk.stepFrom] at h
    split at h
    · cases h
    · cases h
      rfl

theorem Leads.eq_foldl (h : v.Leads place steps target) :
    target = steps.foldl PathStep.lead place := by
  induction h with
  | stay => rfl
  | step _ hstep _ ih =>
    rw [List.foldl_cons, lead_eq_of_stepFrom hstep]
    exact ih

theorem Reaches.eq_ending (h : v.Reaches path place) : place = v.ending path :=
  h.leads.eq_foldl

/-- The path of an entry ends at the entry. -/
theorem Reaches.ending_child {dir : Path} {name : String} (h : v.Reaches dir place) :
    v.ending (dir.child name) = place ++ [name] := by
  have hstart : v.startOf (dir.child name) = v.startOf dir := rfl
  simp only [ending, Path.steps_child, List.foldl_append]
  rw [hstart, ← h.leads.eq_foldl]
  rfl

theorem Leads.of_append {front back : List PathStep} (h : v.Leads place (front ++ back) target) :
    ∃ middle, v.Leads place front middle ∧ v.Leads middle back target := by
  induction front generalizing place with
  | nil =>
    have hplace : v.directory place = true := by
      cases h with
      | stay hplace => exact hplace
      | step hplace _ _ => exact hplace
    exact ⟨place, .stay hplace, h⟩
  | cons step front ih =>
    cases h with
    | step hplace hstep hrest =>
      obtain ⟨middle, hfront, hback⟩ := ih hrest
      exact ⟨middle, .step hplace hstep hfront, hback⟩

theorem leads_concat_iff {front : List PathStep} {step : PathStep} :
    v.Leads place (front ++ [step]) target ↔
      ∃ middle, v.Leads place front middle ∧ Disk.stepFrom middle step = .ok target ∧
        v.directory target = true := by
  constructor
  · intro h
    obtain ⟨middle, hfront, hback⟩ := h.of_append
    cases hback with
    | step _ hstep hrest =>
      cases hrest with
      | stay htarget => exact ⟨middle, hfront, hstep, htarget⟩
  · rintro ⟨middle, hfront, hstep, htarget⟩
    exact hfront.append (.step hfront.directory hstep (.stay htarget))

/-- The last step of a path, if there is one, follows all others. -/
theorem leads_iff_last :
    v.Leads place steps target ↔
      ∃ middle, v.Leads place steps.dropLast middle ∧
        Disk.stepFrom middle (steps.getLast?.getD .here) = .ok target ∧
        v.directory target = true := by
  cases hsteps : steps.getLast? with
  | none =>
    rw [List.getLast?_eq_none_iff.1 hsteps]
    constructor
    · intro h
      exact ⟨target, h, rfl, h.directory⟩
    · rintro ⟨middle, h, hstep, _⟩
      cases hstep
      exact h
  | some step =>
    -- `dropLast` occurs on the right as well, and is not to be rewritten there.
    conv => lhs; rw [← List.dropLast_append_getLast? step hsteps]
    exact leads_concat_iff

/-- Staying in place makes no difference. -/
theorem Leads.moves (h : v.Leads place steps target) :
    v.Leads place (steps.filter (· ≠ .here)) target := by
  induction h with
  | stay hplace => exact .stay hplace
  | @step place next target step rest hplace hstep _ ih =>
    -- A step that stays leads to where it starts, so the rest starts there as well.
    by_cases hhere : step = .here
    · subst hhere
      cases hstep
      rwa [List.filter_cons_of_neg (by simp)]
    · rw [List.filter_cons_of_pos (by simpa using hhere)]
      exact .step hplace hstep ih

theorem Leads.plainSteps (h : v.Leads place path.steps target) :
    v.Leads place path.plainSteps target := by
  unfold Path.plainSteps
  split
  · exact h.moves
  · split
    · rename_i heq
      -- A relative path keeps its first step even if that one stays.
      refine .step ?_ rfl h.moves
      rw [heq] at h
      cases h with
      | step hplace _ _ => exact hplace
    · exact h.moves

theorem plainSteps_child (dir : Path) (name : String) :
    (dir.child name).plainSteps = dir.plainSteps ++ [.entry name] ∨
      dir.steps = [] ∧ (dir.child name).plainSteps = [.entry name] := by
  unfold Path.plainSteps
  simp only [Path.absolute_child, Path.steps_child]
  cases hsteps : dir.steps with
  | nil => exact Or.inr ⟨rfl, by simp⟩
  | cons step rest =>
    left
    by_cases habsolute : dir.absolute = true
    · simp only [habsolute, if_true, List.filter_append]
      simp
    · cases step <;> simp [habsolute]

/-- Steps that do not go up end below where they start. -/
theorem prefix_foldl_lead (hup : .up ∉ steps) : place <+: steps.foldl PathStep.lead place := by
  induction steps generalizing place with
  | nil => exact List.prefix_refl place
  | cons step rest ih =>
    -- Each step but `..` keeps the place or extends it.
    have hrest := @ih (PathStep.lead place step) fun hmem => hup (by simp [hmem])
    refine List.IsPrefix.trans ?_ hrest
    cases step with
    | here => exact List.prefix_refl place
    | up => simp at hup
    | entry name => exact List.prefix_append place [name]

theorem foldl_lead_filter (steps : List PathStep) (place : Location) :
    (steps.filter (· ≠ .here)).foldl PathStep.lead place = steps.foldl PathStep.lead place := by
  induction steps generalizing place with
  | nil => rfl
  | cons step rest ih =>
    by_cases hhere : step = .here
    · rw [List.filter_cons_of_neg (by simpa using hhere), List.foldl_cons, ih, hhere]
      rfl
    · rw [List.filter_cons_of_pos (by simpa using hhere), List.foldl_cons, List.foldl_cons, ih]

theorem foldl_lead_plainSteps (path : Path) (place : Location) :
    path.plainSteps.foldl PathStep.lead place = path.steps.foldl PathStep.lead place := by
  unfold Path.plainSteps
  split
  · exact foldl_lead_filter ..
  · split
    · exact foldl_lead_filter ..
    · exact foldl_lead_filter ..

end View

/-! ## Paths to directories -/

namespace Disk

variable {host : Host} {path : Path}

/-- What is found under a path that leads to a directory. -/
theorem kind?_eq_directory_iff :
    host.disk.kind? path = some .directory ↔
      checkPath path = .ok () ∧
        ∃ place, host.view.Leads (host.view.startOf path) path.steps place := by
  constructor
  · intro h
    unfold kind? at h
    split at h
    · rename_i place id node hfind
      have hkind : node.kind = .directory := by simpa using h
      obtain ⟨middle, step, happroach, hstep, hnode, _⟩ := find_eq_ok_iff.1 hfind
      obtain ⟨hcheck, hleads, rfl⟩ := approach_eq_ok_iff.1 happroach
      have hdir : host.disk.isDirectory place = true :=
        isDirectory_iff.2 (kindAt?_eq_some_iff.2 ⟨id, node, hnode, hkind⟩)
      exact ⟨hcheck, place, View.leads_iff_last.2 ⟨middle, hleads, hstep, hdir⟩⟩
    · cases h
  · rintro ⟨hcheck, place, hleads⟩
    obtain ⟨middle, hmiddle, hstep, hdir⟩ := View.leads_iff_last.1 hleads
    obtain ⟨id, hnode⟩ := isDirectory_iff_node?.1 hdir
    have happroach := approach_eq_ok_iff.2 ⟨hcheck, hmiddle, rfl⟩
    have hfind : host.disk.find path = .ok (place, id, .directory) :=
      find_eq_ok_iff.2 ⟨_, _, happroach, hstep, hnode, by simp [Node.kind]⟩
    simp [kind?, hfind, Node.kind]

theorem reaches_of_kind? (h : host.disk.kind? path = some .directory) :
    host.view.Reaches path (host.view.ending path) := by
  obtain ⟨hcheck, place, hleads⟩ := kind?_eq_directory_iff.1 h
  have hplace : place = host.view.ending path := hleads.eq_foldl
  rw [← hplace]
  exact ⟨clean_of_checkPath hcheck, hleads⟩

end Disk

namespace View

/-- The same files, and more directories at some places. -/
structure Grown (v w : View) (places : Location → Prop) : Prop where
  file? : w.file? = v.file?
  base : w.base = v.base
  locked : w.locked = v.locked
  forced : w.forced = v.forced
  kept : ∀ place, v.directory place = true → w.directory place = true
  new : ∀ place, w.directory place = true → v.directory place = true ∨ places place

variable {u v w : View} {places more : Location → Prop}

theorem Grown.refl (v : View) (places : Location → Prop) : v.Grown v places :=
  ⟨rfl, rfl, rfl, rfl, fun _ => id, fun _ => Or.inl⟩

theorem Grown.trans (h : u.Grown v places) (h' : v.Grown w places) : u.Grown w places where
  file? := h'.file?.trans h.file?
  base := h'.base.trans h.base
  locked := h'.locked.trans h.locked
  forced := h'.forced.trans h.forced
  kept place hplace := h'.kept place (h.kept place hplace)
  new := by
    intro place hplace
    rcases h'.new place hplace with hold | hnew
    · exact h.new place hold
    · exact Or.inr hnew

theorem Grown.mono (h : v.Grown w places) (hsub : ∀ place, places place → more place) :
    v.Grown w more :=
  { h with new := fun place hplace => (h.new place hplace).imp id (hsub place) }

theorem grown_putDirectory (v : View) {place : Location} (h : places place) :
    v.Grown (v.putDirectory place) places where
  file? := rfl
  base := rfl
  locked := rfl
  forced := rfl
  kept := by
    intro other hother
    simp only [putDirectory, Function.update_apply]
    split
    · rfl
    · exact hother
  new := by
    intro other hother
    simp only [putDirectory, Function.update_apply] at hother
    split at hother
    · rename_i heq
      exact Or.inr (heq ▸ h)
    · exact Or.inl hother

theorem putDirectory_eq_self {place : Location} (h : v.directory place = true) :
    v.putDirectory place = v := by
  unfold putDirectory
  rw [← h, Function.update_eq_self]

/-- A view that grew at one place at most. -/
theorem Grown.eq_or (h : v.Grown w places) {target : Location}
    (hplaces : ∀ place, places place → v.directory place = true ∨ place = target) :
    w = v ∨ w = v.putDirectory target := by
  -- All new directories stand at `target`: either there is one now or none was made.
  by_cases htarget : w.directory target = true
  · right
    refine View.ext h.file? ?_ h.base h.locked h.forced
    funext other
    simp only [putDirectory, Function.update_apply]
    split
    · rename_i heq
      exact heq ▸ htarget
    · rename_i hne
      rw [Bool.eq_iff_iff]
      refine ⟨fun hother => ?_, h.kept other⟩
      rcases h.new other hother with hold | hnew
      · exact hold
      · exact (hplaces other hnew).resolve_right hne
  · left
    refine View.ext h.file? ?_ h.base h.locked h.forced
    funext other
    rw [Bool.eq_iff_iff]
    refine ⟨fun hother => ?_, h.kept other⟩
    rcases h.new other hother with hold | hnew
    · exact hold
    · rcases hplaces other hnew with hold | rfl
      · exact hold
      · exact absurd hother htarget

end View

/-! ## Making directories -/

namespace Host

variable {host : Host} {path : Path}

/-- What the making of a directory does: a free name in a directory gets one. -/
theorem makeDirectory_cases {disk : Disk} (h : host.disk.makeDirectory path = .ok disk) :
    ∃ directory name, host.disk.approach path = .ok (directory, .entry name) ∧
      Disk.stepFrom directory (.entry name) = .ok (directory ++ [name]) ∧
      host.disk.node? (directory ++ [name]) = none ∧
      disk = host.disk.create (directory ++ [name]) .directory := by
  obtain ⟨⟨directory, step⟩, happroach, h⟩ := bind_eq_ok_iff.1 h
  cases step with
  | here => cases h
  | up => cases h
  | entry name =>
    obtain ⟨place, hstep, h⟩ := bind_eq_ok_iff.1 h
    have hplace : directory ++ [name] = place := View.lead_eq_of_stepFrom hstep
    subst hplace
    split at h
    · cases h
    · rename_i hfree
      cases h
      exact ⟨directory, name, happroach, hstep, by simpa using hfree, rfl⟩

theorem ending_eq_of_approach {directory : Location} {name : String}
    (h : host.disk.approach path = .ok (directory, .entry name)) :
    host.view.ending path = directory ++ [name] := by
  obtain ⟨_, hleads, hlast⟩ := Disk.approach_eq_ok_iff.1 h
  have hsteps : path.steps = path.steps.dropLast ++ [.entry name] := by
    cases hlast' : path.steps.getLast? with
    | none => simp [hlast'] at hlast
    | some step =>
      have hstep : step = .entry name := by simpa [hlast'] using hlast
      rw [← hstep, List.dropLast_append_getLast? step hlast']
  calc
    host.view.ending path
        = (path.steps.dropLast ++ [PathStep.entry name]).foldl PathStep.lead
            (host.view.startOf path) :=
          congrArg (List.foldl PathStep.lead (host.view.startOf path)) hsteps
    _ = PathStep.lead (path.steps.dropLast.foldl PathStep.lead (host.view.startOf path))
          (.entry name) := List.foldl_concat ..
    _ = directory ++ [name] := by rw [← hleads.eq_foldl, PathStep.lead]

/-- A directory is made where its path ends. -/
theorem Sound.makeDirectory (sound : host.Sound) {disk : Disk}
    (h : host.disk.makeDirectory path = .ok disk) :
    Sound { host with disk } ∧
      view { host with disk } = host.view.putDirectory (host.view.ending path) := by
  obtain ⟨directory, name, happroach, _, hfree, rfl⟩ := makeDirectory_cases h
  have hparent : host.view.directory directory = true :=
    (Disk.approach_eq_ok_iff.1 happroach).2.1.directory
  rw [ending_eq_of_approach happroach]
  exact sound.createDirectory hfree (Disk.isDirectory_iff.1 hparent)

/-- What is made, or found as it should be, stands where the path ends. -/
theorem Sound.settleDirectory (sound : host.Sound) (path : Path) :
    let settled := host.disk.settleDirectory path (host.disk.makeDirectory path)
    Sound { host with disk := settled.2 } ∧
      host.view.Grown (view { host with disk := settled.2 })
        (fun place => place = host.view.ending path) := by
  cases hmake : host.disk.makeDirectory path with
  | error fault =>
    simp only [Disk.settleDirectory]
    split <;> exact ⟨sound, View.Grown.refl ..⟩
  | ok disk =>
    have hmade := sound.makeDirectory hmake
    refine ⟨hmade.1, ?_⟩
    change host.view.Grown (view { host with disk }) _
    rw [hmade.2]
    exact View.grown_putDirectory _ rfl

/-- Wherever the making of directories ends, they stand where the paths end. -/
theorem Sound.makeLineage (sound : host.Sound) (paths : List Path) :
    Sound { host with disk := (host.disk.makeLineage paths).2 } ∧
      host.view.Grown (view { host with disk := (host.disk.makeLineage paths).2 })
        (fun place => ∃ path ∈ paths, place = host.view.ending path) := by
  induction paths with
  | nil => exact ⟨sound, View.Grown.refl ..⟩
  | cons path above ih =>
    have hfirst := sound.settleDirectory path
    have hmore : ∀ place, place = host.view.ending path →
        ∃ other ∈ path :: above, place = host.view.ending other :=
      fun place hplace => ⟨path, by simp, hplace⟩
    have hmore' : ∀ place, (∃ other ∈ above, place = host.view.ending other) →
        ∃ other ∈ path :: above, place = host.view.ending other := by
      rintro place ⟨other, hmem, hplace⟩
      exact ⟨other, by simp [hmem], hplace⟩
    unfold Disk.makeLineage
    split
    · -- The directory above is missing: those of the rest are made first.
      split
      · rename_i disk habove
        rw [habove] at ih
        have hlast := Sound.settleDirectory ih.1 path
        refine ⟨hlast.1, (ih.2.mono hmore').trans (hlast.2.mono ?_)⟩
        intro place hplace
        refine hmore place (hplace.trans ?_)
        simp only [View.ending, View.startOf, ih.2.base]
      · rename_i fault disk habove
        rw [habove] at ih
        exact ⟨ih.1, ih.2.mono hmore'⟩
    · exact ⟨hfirst.1, hfirst.2.mono hmore⟩

end Host

namespace Action

variable {conduct : Conduct} {stop : Host → Prop} {err : Error → Host → Prop} {host : Host}
  {dir path : Path} {place target : Location} {name : String}

/-- Where the directories stand that may be made for a path. -/
def MadeFor (v : View) (path : Path) (place : Location) : Prop :=
  ∃ other ∈ path.lineage, place = v.ending other

theorem torn_makeDirectories (sound : host.Sound) {after : Host}
    (torn : host.Torn (.makeDirectories path) after) :
    after.Sound ∧ host.view.Grown after.view (MadeFor host.view path) := by
  rcases torn with rfl | rfl | ⟨count, rfl⟩
  · exact ⟨sound, View.Grown.refl ..⟩
  · exact sound.makeLineage path.lineage
  · have hmade := sound.makeLineage (path.lineage.drop count)
    refine ⟨hmade.1, hmade.2.mono ?_⟩
    rintro place ⟨other, hmem, hplace⟩
    exact ⟨other, List.mem_of_mem_drop hmem, hplace⟩

/-- Wherever the making of directories ends, nothing else has changed. -/
theorem ensures_makeDirectories {ok : Unit → Host → Prop} (sound : host.Sound)
    (grown : ∀ after : Host, after.Sound → host.view.Grown after.view (MadeFor host.view path) →
      stop after ∧ ok () after ∧ ∀ e, err e after) :
    (makeDirectories path).Ensures conduct stop ok err host := by
  refine ensures_attempt ⟨?_, ?_⟩
  · intro after torn
    have hmade := torn_makeDirectories sound torn
    exact (grown after hmade.1 hmade.2).1
  · intro reply after outcome
    have hgrown : stop after ∧ ok () after ∧ ∀ e, err e after := by
      -- What was answered counts as a torn call that came to its end.
      rcases outcome.settle with ⟨_, _, rfl⟩ | ⟨answer, _⟩
      · exact grown after sound (View.Grown.refl ..)
      · have hmade := torn_makeDirectories sound
          (show host.Torn (.makeDirectories path) after from Or.inr (Or.inl (by rw [answer])))
        exact grown after hmade.1 hmade.2
    cases reply with
    | ok value => exact hgrown.2.1
    | error fault => exact hgrown.2.2 _

/-- A path above another one takes some of its first steps. -/
theorem exists_of_mem_above {path other : Path} (h : other ∈ path.above) :
    ∃ front rest, rest ≠ [] ∧ other = Path.ofSteps path.absolute front ∧
      path.plainSteps = front ++ rest := by
  obtain ⟨count, hcount, hother⟩ := List.mem_filterMap.1 h
  have hlt : count < path.plainSteps.length := by simpa using hcount
  split at hother
  · cases hother
  · cases hother
    refine ⟨path.plainSteps.take count, path.plainSteps.drop count, ?_, rfl, ?_⟩
    · intro hnil
      have := List.drop_eq_nil_iff.1 hnil
      omega
    · rw [List.take_append_drop]

/-- What stands above a directory that is there, is there. -/
theorem directory_of_above {front rest : List PathStep} (reaches : host.view.Reaches dir place)
    (hsteps : dir.plainSteps = front ++ rest) :
    host.view.directory (host.view.ending (Path.ofSteps dir.absolute front)) = true := by
  have hleads := reaches.leads.plainSteps
  rw [hsteps] at hleads
  obtain ⟨middle, hfront, _⟩ := hleads.of_append
  have hmiddle : host.view.ending (Path.ofSteps dir.absolute front) = middle :=
    hfront.eq_foldl.symm
  rw [hmiddle]
  exact hfront.directory

/-- All that stands above the entry of a directory is there. -/
theorem eq_of_madeFor (reaches : host.view.Reaches dir place)
    (h : MadeFor host.view (dir.child name) target) :
    host.view.directory target = true ∨ target = place ++ [name] := by
  obtain ⟨other, hmem, rfl⟩ := h
  unfold Path.lineage at hmem
  split at hmem
  · simp at hmem
  rcases List.mem_cons.1 hmem with rfl | habove
  · exact Or.inr reaches.ending_child
  obtain ⟨front, rest, hne, rfl, hsteps⟩ := exists_of_mem_above habove
  -- The last step of the path is none of those above it.
  have hfront : ∃ back, dir.plainSteps = front ++ back := by
    rcases View.plainSteps_child dir name with hchild | ⟨_, hchild⟩
    · rw [hchild] at hsteps
      have hlength := congrArg List.length hsteps
      have hpos := List.length_pos_iff.2 hne
      simp only [List.length_append, List.length_singleton] at hlength
      refine ⟨dir.plainSteps.drop front.length, ?_⟩
      -- `rest` has a step of its own, so `front` lies within the steps of `dir`.
      have htake := congrArg (List.take front.length) hsteps
      rw [List.take_append_of_le_length (by omega), List.take_left] at htake
      conv => rhs; lhs; rw [← htake]
      rw [List.take_append_drop]
    -- The child is the only step: nothing of the path stands above it.
    · rw [hchild] at hsteps
      have hlength := congrArg List.length hsteps
      have hpos := List.length_pos_iff.2 hne
      simp only [List.length_append, List.length_singleton] at hlength
      have hnil : front = [] := List.length_eq_zero_iff.1 (by omega)
      exact ⟨dir.plainSteps, by rw [hnil, List.nil_append]⟩
  obtain ⟨back, hback⟩ := hfront
  rw [Path.absolute_child]
  exact Or.inl (directory_of_above reaches hback)

/-- All directories of a path that leads to one are there. -/
theorem directory_of_madeFor (reaches : host.view.Reaches dir place)
    (h : MadeFor host.view dir target) : host.view.directory target = true := by
  obtain ⟨other, hmem, rfl⟩ := h
  unfold Path.lineage at hmem
  split at hmem
  · simp at hmem
  rcases List.mem_cons.1 hmem with rfl | habove
  · rw [← reaches.eq_ending]
    exact reaches.directory
  · obtain ⟨front, rest, _, rfl, hsteps⟩ := exists_of_mem_above habove
    exact directory_of_above reaches hsteps

/-- The directories of a path that does not go up stand above its end. -/
theorem prefix_of_madeFor {v : View} (hup : .up ∉ path.steps) (h : MadeFor v path target) :
    target <+: v.ending path := by
  obtain ⟨other, hmem, rfl⟩ := h
  unfold Path.lineage at hmem
  split at hmem
  · simp at hmem
  rcases List.mem_cons.1 hmem with rfl | habove
  · exact List.prefix_refl _
  · obtain ⟨front, rest, _, rfl, hsteps⟩ := exists_of_mem_above habove
    -- Plain steps are steps of the path, but for a leading `.here`.
    have hplain : .up ∉ path.plainSteps := by
      intro hin
      refine hup ?_
      unfold Path.plainSteps at hin
      split at hin
      · exact (List.mem_filter.1 hin).1
      · split at hin
        · rcases List.mem_cons.1 hin with heq | hin
          · cases heq
          · exact (List.mem_filter.1 hin).1
        · exact (List.mem_filter.1 hin).1
    have hrest : .up ∉ rest := fun hin => hplain (by rw [hsteps]; simp [hin])
    have hending : v.ending path =
        rest.foldl PathStep.lead (v.ending (Path.ofSteps path.absolute front)) := by
      rw [View.ending, ← View.foldl_lead_plainSteps, hsteps, List.foldl_append]
      rfl
    rw [hending]
    exact View.prefix_foldl_lead hrest

theorem answer_makeDirectories_child (reaches : host.view.Reaches dir place)
    (plain : PlainName name) (nofile : host.view.file? (place ++ [name]) = none) :
    ((dir.child name).Overlong ∧
      host.answer (.makeDirectories (dir.child name)) = (.error .nameTooLong, host)) ∨
    (¬ (dir.child name).Overlong ∧ ∃ after,
      host.answer (.makeDirectories (dir.child name)) = (.ok (), after) ∧
      after.view.directory (place ++ [name]) = true) := by
  have hlineage : (dir.child name).lineage = dir.child name :: (dir.child name).above := by
    unfold Path.lineage
    rw [if_neg]
    rcases View.plainSteps_child dir name with h | ⟨_, h⟩ <;> simp [h]
  have hanswer : host.answer (.makeDirectories (dir.child name)) =
      host.settle (host.disk.makeLineage (dir.child name :: (dir.child name).above)) := by
    rw [← hlineage]
    rfl
  rw [hanswer]
  -- The directory above is there, so the first attempt decides and none above it is made.
  rcases Disk.approach_of_names (reaches.names plain) with
    ⟨hlong, happroach | ⟨_, _, happroach, hstep⟩⟩ |
    ⟨hshort, _, directory, name', happroach, hstep, hplace, _⟩
  · refine Or.inl ⟨hlong, ?_⟩
    simp [Disk.makeLineage, Disk.makeDirectory, Disk.settleDirectory, happroach, bind, Except.bind,
      Host.settle]
  · refine Or.inl ⟨hlong, ?_⟩
    simp [Disk.makeLineage, Disk.makeDirectory, Disk.settleDirectory, happroach, hstep, bind,
      Except.bind, Host.settle]
  · refine Or.inr ⟨hshort, ?_⟩
    rcases Disk.node?_cases host.disk (place ++ [name]) with ⟨hnode, _, _⟩ | ⟨id, hnode, _, hdir⟩ |
      ⟨_, _, _, hfile, _⟩
    · have hmake : host.disk.makeDirectory (dir.child name) =
          .ok (host.disk.create (place ++ [name]) .directory) := by
        simp [Disk.makeDirectory, happroach, hstep, hnode, bind, Except.bind, pure, Except.pure]
      refine ⟨{ host with disk := host.disk.create (place ++ [name]) .directory }, ?_, ?_⟩
      · simp [Disk.makeLineage, hmake, Disk.settleDirectory, Host.settle]
      · simp [Host.view, Disk.isDirectory, Disk.kindAt?, Disk.node?, Disk.create,
          Dictionary.find?_insert, Node.kind]
    · have hmake : host.disk.makeDirectory (dir.child name) = .error .alreadyExists := by
        simp [Disk.makeDirectory, happroach, hstep, hnode, bind, Except.bind]
      have hkind : host.disk.kind? (dir.child name) = some .directory := by
        rcases Disk.find_of_names (reaches.names plain) with ⟨hlong, _⟩ | ⟨_, hfind⟩
        · exact absurd hlong hshort
        · simp [Disk.kind?, hfind, hnode, Node.kind]
      refine ⟨host, ?_, hdir⟩
      simp [Disk.makeLineage, hmake, Disk.settleDirectory, hkind, Host.settle]
    · exact absurd (nofile.symm.trans hfile) (by simp)

/-- A directory is made in one that is there, unless it is there as well. -/
theorem ensures_makeDirectories_child {ok : Unit → Host → Prop} (sound : host.Sound)
    (reaches : host.view.Reaches dir place) (plain : PlainName name)
    (nofile : host.view.file? (place ++ [name]) = none)
    (same : ∀ after : Host, after.Sound → after.view = host.view → stop after)
    (failed : conduct.Excuse → ∀ e, err e host)
    (done : ∀ after : Host, after.Sound →
      after.view = host.view.putDirectory (place ++ [name]) →
      stop after ∧ (¬ (dir.child name).Overlong → ok () after)) :
    (makeDirectories (dir.child name)).Ensures conduct stop ok err host := by
  have htorn : ∀ after, host.Torn (.makeDirectories (dir.child name)) after → after.Sound ∧
      (after.view = host.view ∨ after.view = host.view.putDirectory (place ++ [name])) := by
    intro after torn
    have hmade := torn_makeDirectories sound torn
    exact ⟨hmade.1, hmade.2.eq_or fun other hother => eq_of_madeFor reaches hother⟩
  have hstop : ∀ after, host.Torn (.makeDirectories (dir.child name)) after → stop after := by
    intro after torn
    have hafter := htorn after torn
    rcases hafter.2 with heq | heq
    · exact same after hafter.1 heq
    · exact (done after hafter.1 heq).1
  -- Only the child itself can be new: all above it are there already.
  refine ensures_attempt_call (c := .makeDirectories (dir.child name)) (fun reply => reply)
    (fun _ => rfl) hstop failed ?_
  have hanswer := answer_makeDirectories_child reaches plain nofile
  rcases hanswer with ⟨_, h⟩ | ⟨hshort, after, h, hdir⟩
  · rw [h]
    exact Or.inl ⟨_, rfl, Or.inr rfl, rfl⟩
  · have hafter := htorn after (Or.inr (Or.inl (by rw [h])))
    have hview : after.view = host.view.putDirectory (place ++ [name]) := by
      rcases hafter.2 with heq | heq
      · rw [heq] at hdir ⊢
        exact (View.putDirectory_eq_self hdir).symm
      · exact heq
    rw [h]
    exact Or.inr ⟨(), rfl, (done after hafter.1 hview).2 hshort⟩

/-- What a directory lists for a place. -/
def listed? (disk : Disk) (directory place : Location) : Option (String × FileKind) :=
  match place.getLast?, disk.kindAt? place with
  | some name, some kind => if place.dropLast = directory then some (name, kind) else none
  | _, _ => none

theorem listed?_eq_some_iff {disk : Disk} {directory : Location} {kind : FileKind} :
    listed? disk directory place = some (name, kind) ↔
      place = directory ++ [name] ∧ disk.kindAt? place = some kind := by
  unfold listed?
  constructor
  · intro h
    split at h
    · rename_i name' kind' hlast hkind
      split at h
      · rename_i hdrop
        cases h
        exact ⟨by rw [← hdrop, List.dropLast_append_getLast? _ hlast], hkind⟩
      · cases h
    · cases h
  · rintro ⟨rfl, hkind⟩
    simp [hkind]

theorem list_eq_of_names (names : host.view.Names path target)
    (directory : host.view.directory target = true) :
    host.disk.list path = .error .nameTooLong ∨
    host.disk.list path = .ok (host.disk.names.entries.filterMap
      fun entry => listed? host.disk target entry.1) := by
  obtain ⟨id, hnode⟩ := Disk.isDirectory_iff_node?.1 directory
  rcases Disk.find_of_names names with ⟨_, hfind⟩ | ⟨_, hfind⟩
  · exact Or.inl (by simp [Disk.list, hfind, bind, Except.bind])
  · refine Or.inr ?_
    simp only [Disk.list, hfind, hnode, bind, Except.bind]
    rfl

/-- What is listed of a place: every name once, with what stands there. -/
theorem listed_full (sound : host.Sound) (target : Location) :
    ((host.disk.names.entries.filterMap fun entry => listed? host.disk target entry.1).map
        Prod.fst).Nodup ∧
      ∀ name kind, (name, kind) ∈ host.disk.names.entries.filterMap
          (fun entry => listed? host.disk target entry.1) ↔
        host.view.kind? (target ++ [name]) = some kind := by
  constructor
  -- Two entries with one name would stand at one place, where only one name leads.
  · have hkeyed : host.disk.names.entries.Pairwise (fun a b => a.1 ≠ b.1) :=
      List.pairwise_map.1 sound.disk.keyed
    refine List.pairwise_map.2 (List.pairwise_filterMap.2 (hkeyed.imp ?_))
    rintro one other hne ⟨name, kind⟩ hone ⟨name', kind'⟩ hother heq
    have hplace := (listed?_eq_some_iff.1 hone).1
    have hplace' := (listed?_eq_some_iff.1 hother).1
    exact hne (by rw [hplace, hplace', show name = name' from heq])
  · intro name kind
    rw [List.mem_filterMap, ← Host.kindAt?_eq_kind?]
    constructor
    · rintro ⟨entry, _, hlisted⟩
      obtain ⟨hplace, hkind⟩ := listed?_eq_some_iff.1 hlisted
      rwa [← hplace]
    · intro hkind
      have hname := Disk.find?_ne_none_of_kindAt? hkind
      obtain ⟨id, hid⟩ := Option.ne_none_iff_exists'.1 hname
      exact ⟨(target ++ [name], id), Dictionary.mem_of_find? hid,
        listed?_eq_some_iff.2 ⟨rfl, hkind⟩⟩

/-- A directory that is there is listed: every name once, with what stands there. -/
theorem ensures_list {ok : List (String × FileKind) → Host → Prop} (sound : host.Sound)
    (names : host.view.Names path target) (directory : host.view.directory target = true)
    (same : stop host) (failed : conduct.Excuse → ∀ e, err e host)
    (done : ∀ found : List (String × FileKind), (found.map Prod.fst).Nodup →
      (∀ name kind, (name, kind) ∈ found ↔ host.view.kind? (target ++ [name]) = some kind) →
      ok found host) :
    (list path).Ensures conduct stop ok err host := by
  obtain ⟨hnodup, hfull⟩ := listed_full sound target
  refine ensures_attempt_call (c := .list path) (fun reply => reply) (fun _ => rfl) ?_ failed ?_
  · refine torn_cases same same fun after torn => by simpa [Host.Torn] using torn
  · rcases list_eq_of_names names directory with hlist | hlist
    · exact Or.inl ⟨_, hlist, Or.inr rfl, rfl⟩
    · exact Or.inr ⟨_, hlist, done _ hnodup hfull⟩

end Action

end OrderedStore
