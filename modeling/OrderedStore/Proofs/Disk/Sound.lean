import Mathlib.Data.List.Induction
import Mathlib.Data.List.Nodup
import OrderedStore.Host.Disk

/-!
# Sound file trees

A file tree in memory is sound when every name leads to a node of its own, stands in a directory,
and no file is larger than the system allows. The operations on single places are described by
`Disk.node?`, and each keeps a tree sound.
-/

namespace OrderedStore

/-! ## Dictionaries without repeated keys -/

namespace Dictionary

variable {κ ν : Type} [DecidableEq κ]

/-- No key comes twice. -/
def Keyed (d : Dictionary κ ν) : Prop :=
  (d.entries.map Prod.fst).Nodup

theorem mem_of_find? {d : Dictionary κ ν} {key : κ} {value : ν} (h : d.find? key = some value) :
    (key, value) ∈ d.entries := by
  unfold find? at h
  rcases Option.map_eq_some_iff.1 h with ⟨entry, hentry, rfl⟩
  have hkey : entry.1 = key := by
    simpa using List.find?_some hentry
  have hmem : entry ∈ d.entries := List.mem_of_find?_eq_some hentry
  simpa [← hkey] using hmem

theorem find?_of_mem {d : Dictionary κ ν} (keyed : d.Keyed) {key : κ} {value : ν}
    (h : (key, value) ∈ d.entries) : d.find? key = some value := by
  obtain ⟨entries⟩ := d
  induction entries with
  | nil => simp at h
  | cons first rest ih =>
    have hkeys := List.nodup_cons.1 keyed
    by_cases hfirst : first.1 = key
    -- A second entry of the same key would repeat it among the keys.
    · have hvalue : first = (key, value) := by
        rcases List.mem_cons.1 h with heq | hmem
        · exact heq.symm
        · have : key ∈ rest.map Prod.fst := List.mem_map.2 ⟨(key, value), hmem, rfl⟩
          exact absurd (hfirst ▸ this) hkeys.1
      simp [find?, hvalue]
    · have hmem : (key, value) ∈ rest := by
        rcases List.mem_cons.1 h with heq | hmem
        · exact absurd (by rw [← heq]) hfirst
        · exact hmem
      have := ih hkeys.2 hmem
      simpa [find?, hfirst] using this

theorem find?_eq_some_iff {d : Dictionary κ ν} (keyed : d.Keyed) {key : κ} {value : ν} :
    d.find? key = some value ↔ (key, value) ∈ d.entries :=
  ⟨mem_of_find?, find?_of_mem keyed⟩

theorem keyed_erase {d : Dictionary κ ν} (keyed : d.Keyed) (key : κ) : (d.erase key).Keyed :=
  keyed.sublist (List.filter_sublist.map _)

theorem keyed_insert {d : Dictionary κ ν} (keyed : d.Keyed) (key : κ) (value : ν) :
    (d.insert key value).Keyed := by
  refine List.nodup_cons.2 ⟨?_, keyed_erase keyed key⟩
  intro h
  obtain ⟨entry, hmem, hkey⟩ := List.mem_map.1 h
  have := (List.mem_filter.1 hmem).2
  simp [hkey] at this

end Dictionary

namespace Disk

/-! ## Sound trees -/

/-- Every name has a node of its own and stands in a directory. -/
structure Sound (disk : Disk) : Prop where
  keyed : disk.names.Keyed
  bounded : ∀ {place id}, disk.names.find? place = some id → id < disk.fresh
  distinct : ∀ {place other id}, disk.names.find? place = some id →
    disk.names.find? other = some id → place = other
  total : ∀ {place id}, disk.names.find? place = some id → ∃ node, disk.nodes.find? id = some node
  nested : ∀ {place name id}, disk.names.find? (place ++ [name]) = some id →
    disk.kindAt? place = some .directory
  sized : ∀ {id content}, disk.nodes.find? id = some (.file content) → content.size ≤ sizeLimit

theorem find?_names_empty {place : Location} {id : Nat} (h : empty.names.find? place = some id) :
    place = [] ∧ id = 0 := by
  have hmem := Dictionary.mem_of_find? h
  simpa [empty] using hmem

theorem sound_empty : empty.Sound where
  keyed := by simp [Dictionary.Keyed, empty]
  bounded h := by
    rw [(find?_names_empty h).2]
    exact Nat.one_pos
  distinct h h' := (find?_names_empty h).1.trans (find?_names_empty h').1.symm
  total h := by
    rw [(find?_names_empty h).2]
    exact ⟨.directory, rfl⟩
  nested h := by
    have := (find?_names_empty h).1
    simp at this
  sized h := by
    have hmem := Dictionary.mem_of_find? h
    simp [empty] at hmem

variable {disk : Disk}

theorem node?_eq_some_iff {place : Location} {id : Nat} {node : Node} :
    disk.node? place = some (id, node) ↔
      disk.names.find? place = some id ∧ disk.nodes.find? id = some node := by
  unfold node?
  cases h : disk.names.find? place with
  | none => simp
  | some other =>
    constructor
    · intro heq
      obtain ⟨found, hfound, hpair⟩ := Option.map_eq_some_iff.1 heq
      cases hpair
      exact ⟨rfl, hfound⟩
    · rintro ⟨hid, hnode⟩
      cases hid
      simp [hnode]

theorem Sound.node?_eq_none_iff (sound : disk.Sound) {place : Location} :
    disk.node? place = none ↔ disk.names.find? place = none := by
  unfold node?
  cases h : disk.names.find? place with
  | none => simp
  | some id =>
    obtain ⟨node, hnode⟩ := sound.total h
    simp [hnode]

/-- Nothing stands in the root of the empty tree. -/
theorem node?_empty (dir : Location) (name : String) (rest : Location) :
    empty.node? (dir ++ name :: rest) = none := by
  rw [sound_empty.node?_eq_none_iff, Option.eq_none_iff_forall_ne_some]
  intro id hfind
  simpa using (find?_names_empty hfind).1

theorem kindAt?_eq_some_iff {place : Location} {kind : FileKind} :
    disk.kindAt? place = some kind ↔ ∃ id node, disk.node? place = some (id, node) ∧
      node.kind = kind := by
  unfold kindAt?
  simp [Option.map_eq_some_iff]

/-- What stands above a name is a directory. -/
theorem Sound.directory_of_below (sound : disk.Sound) {place : Location} {rest : Location}
    (h : disk.names.find? (place ++ rest) ≠ none) (hrest : rest ≠ []) :
    disk.kindAt? place = some .directory := by
  induction rest using List.reverseRecOn with
  | nil => exact absurd rfl hrest
  | append_singleton rest name ih =>
    obtain ⟨id, hid⟩ := Option.ne_none_iff_exists'.1 h
    rw [← List.append_assoc] at hid
    have hparent := sound.nested hid
    by_cases hnil : rest = []
    · simpa [hnil] using hparent
    · refine ih ?_ hnil
      obtain ⟨id', node, hnode, _⟩ := kindAt?_eq_some_iff.1 hparent
      simp [(node?_eq_some_iff.1 hnode).1]

theorem find?_ne_none_of_kindAt? {place : Location} {kind : FileKind}
    (h : disk.kindAt? place = some kind) : disk.names.find? place ≠ none := by
  obtain ⟨id, node, hnode, _⟩ := kindAt?_eq_some_iff.1 h
  simp [(node?_eq_some_iff.1 hnode).1]

theorem Sound.directory_of_prefix (sound : disk.Sound) {place target : Location}
    (h : place.isPrefixOf target = true) (htarget : disk.kindAt? target = some .directory) :
    disk.kindAt? place = some .directory := by
  rw [List.isPrefixOf_iff_prefix] at h
  obtain ⟨rest, rfl⟩ := h
  by_cases hrest : rest = []
  · simpa [hrest] using htarget
  · exact sound.directory_of_below (find?_ne_none_of_kindAt? htarget) hrest

theorem Sound.none_below_file (sound : disk.Sound) {place rest : Location} {id : Nat}
    {content : Content} (h : disk.node? place = some (id, .file content)) (hrest : rest ≠ []) :
    disk.names.find? (place ++ rest) = none := by
  by_contra hne
  have hdir := sound.directory_of_below hne hrest
  simp [kindAt?, h, Node.kind] at hdir

/-! ## Changing a file -/

theorem Sound.node?_setNode (sound : disk.Sound) {place : Location} {id : Nat} {old : Node}
    (h : disk.node? place = some (id, old)) (node : Node) (other : Location) :
    (disk.setNode id node).node? other =
      if other = place then some (id, node) else disk.node? other := by
  have hname := (node?_eq_some_iff.1 h).1
  unfold node? setNode
  by_cases hplace : other = place
  · subst hplace
    simp [hname, Dictionary.find?_insert]
  · simp only [hplace, if_false]
    cases hother : disk.names.find? other with
    | none => rfl
    | some id' =>
      -- Another name has another node, which the change does not reach.
      have hne : id' ≠ id := fun heq => hplace (sound.distinct (heq ▸ hother) hname)
      simp [Dictionary.find?_insert, hne]

theorem Sound.setNode (sound : disk.Sound) {place : Location} {id : Nat} {old new : Content}
    (h : disk.node? place = some (id, .file old)) (size : new.size ≤ sizeLimit) :
    (disk.setNode id (.file new)).Sound where
  keyed := sound.keyed
  bounded := sound.bounded
  distinct := sound.distinct
  total := by
    intro other id' hname
    obtain ⟨node, hnode⟩ := sound.total hname
    by_cases hid : id' = id
    · exact ⟨.file new, by simp [Disk.setNode, Dictionary.find?_insert, hid]⟩
    · exact ⟨node, by simpa [Disk.setNode, Dictionary.find?_insert, hid] using hnode⟩
  nested := by
    intro other name id' hname
    have hdir := sound.nested hname
    -- Nothing is nested in `place`, which is a file before and after the change.
    have hne : other ≠ place := by
      rintro rfl
      simp [kindAt?, h, Node.kind] at hdir
    rw [kindAt?, sound.node?_setNode h, if_neg hne]
    exact hdir
  sized := by
    intro id' content hnode
    by_cases hid : id' = id
    · simp only [Disk.setNode, Dictionary.find?_insert, hid, if_true, Option.some.injEq,
        Node.file.injEq] at hnode
      exact hnode ▸ size
    · simp only [Disk.setNode, Dictionary.find?_insert, hid, if_false] at hnode
      exact sound.sized hnode

/-! ## Making a name -/

theorem Sound.node?_create (sound : disk.Sound) (place : Location) (node : Node)
    (other : Location) :
    (disk.create place node).node? other =
      if other = place then some (disk.fresh, node) else disk.node? other := by
  unfold node? create
  by_cases hplace : other = place
  · simp [hplace, Dictionary.find?_insert]
  · simp only [Dictionary.find?_insert, hplace, if_false]
    cases hother : disk.names.find? other with
    | none => rfl
    | some id =>
      have hne : id ≠ disk.fresh := Nat.ne_of_lt (sound.bounded hother)
      simp [hne]

theorem Sound.create (sound : disk.Sound) {directory : Location} {name : String} {node : Node}
    (free : disk.node? (directory ++ [name]) = none)
    (parent : disk.kindAt? directory = some .directory)
    (size : ∀ content, node = .file content → content.size ≤ sizeLimit) :
    (disk.create (directory ++ [name]) node).Sound where
  keyed := Dictionary.keyed_insert sound.keyed _ _
  bounded := by
    intro other id hname
    simp only [Disk.create, Dictionary.find?_insert] at hname ⊢
    split at hname
    · cases hname
      exact Nat.lt_succ_self _
    · exact Nat.lt_succ_of_lt (sound.bounded hname)
  distinct := by
    intro one other id hone hother
    simp only [Disk.create, Dictionary.find?_insert] at hone hother
    -- The new name has the node `fresh`, which no older name has.
    by_cases h1 : one = directory ++ [name] <;> by_cases h2 : other = directory ++ [name]
    · rw [h1, h2]
    · simp only [h1, if_true, h2, if_false, Option.some.injEq] at hone hother
      have := sound.bounded hother
      omega
    · simp only [h2, if_true, h1, if_false, Option.some.injEq] at hone hother
      have := sound.bounded hone
      omega
    · simp only [h1, h2, if_false] at hone hother
      exact sound.distinct hone hother
  total := by
    intro other id hname
    simp only [Disk.create, Dictionary.find?_insert] at hname ⊢
    split at hname
    · cases hname
      exact ⟨node, by simp⟩
    · obtain ⟨found, hfound⟩ := sound.total hname
      have hne : id ≠ disk.fresh := Nat.ne_of_lt (sound.bounded hname)
      exact ⟨found, by simpa [hne] using hfound⟩
  nested := by
    intro other name' id hname
    have hdir : disk.kindAt? other = some .directory := by
      by_cases hplace : other ++ [name'] = directory ++ [name]
      · obtain ⟨rfl, _⟩ := List.append_inj' hplace rfl
        exact parent
      · simp only [Disk.create, Dictionary.find?_insert, hplace, if_false] at hname
        exact sound.nested hname
    -- A parent is a directory already, so it is not the name being made.
    have hne : other ≠ directory ++ [name] := by
      rintro rfl
      simp [kindAt?, free] at hdir
    rw [kindAt?, sound.node?_create, if_neg hne]
    exact hdir
  sized := by
    intro id content hnode
    simp only [Disk.create, Dictionary.find?_insert] at hnode
    split at hnode
    · cases hnode
      exact size content rfl
    · exact sound.sized hnode

/-! ## Taking a name away -/

theorem node?_unlink (place other : Location) :
    (disk.unlink place).node? other = if other = place then none else disk.node? other := by
  unfold node? unlink
  rw [Dictionary.find?_erase]
  by_cases hplace : other = place <;> simp [hplace]

theorem Sound.unlink (sound : disk.Sound) {place : Location} {id : Nat} {content : Content}
    (h : disk.node? place = some (id, .file content)) : (disk.unlink place).Sound where
  keyed := Dictionary.keyed_erase sound.keyed _
  bounded := by
    intro other id' hname
    simp only [Disk.unlink, Dictionary.find?_erase] at hname ⊢
    split at hname
    · cases hname
    · exact sound.bounded hname
  distinct := by
    intro one other id' hone hother
    simp only [Disk.unlink, Dictionary.find?_erase] at hone hother
    split at hone
    · cases hone
    · split at hother
      · cases hother
      · exact sound.distinct hone hother
  total := by
    intro other id' hname
    simp only [Disk.unlink, Dictionary.find?_erase] at hname ⊢
    split at hname
    · cases hname
    · exact sound.total hname
  nested := by
    intro other name id' hname
    simp only [Disk.unlink, Dictionary.find?_erase] at hname
    split at hname
    · cases hname
    · have hdir := sound.nested hname
      -- A parent is a directory, so it is not the file that loses its name.
      have hne : other ≠ place := by
        rintro rfl
        simp [kindAt?, h, Node.kind] at hdir
      rw [kindAt?, node?_unlink, if_neg hne]
      exact hdir
  sized := sound.sized

/-! ## Moving a file -/

/-- Among the names of a sound tree only that of the file itself begins with its place. -/
theorem Sound.isPrefixOf_iff (sound : disk.Sound) {source place : Location} {id : Nat}
    {content : Content} (h : disk.node? source = some (id, .file content))
    (hplace : disk.names.find? place ≠ none) : source.isPrefixOf place = true ↔ place = source := by
  rw [List.isPrefixOf_iff_prefix]
  constructor
  · rintro ⟨rest, rfl⟩
    by_cases hrest : rest = []
    · simp [hrest]
    · exact absurd (sound.none_below_file h hrest) hplace
  · rintro rfl
    exact List.prefix_rfl

/-- The entry that a name becomes when a file is moved. -/
def movedEntry (source target : Location) (entry : Location × Nat) : Location × Nat :=
  if entry.1 = source then (target, entry.2) else entry

theorem Sound.entries_move (sound : disk.Sound) {source : Location} {id : Nat}
    {content : Content} (h : disk.node? source = some (id, .file content)) (target : Location) :
    (disk.move source target).names.entries =
      (disk.names.erase target).entries.map (movedEntry source target) := by
  unfold move
  refine List.map_congr_left ?_
  rintro ⟨place, id'⟩ hmem
  have hname : disk.names.find? place = some id' :=
    Dictionary.find?_of_mem sound.keyed (List.mem_filter.1 hmem).1
  -- `move` renames all names below `source`; below a file there are none but its own.
  have hiff := sound.isPrefixOf_iff h (by simp [hname] : disk.names.find? place ≠ none)
  by_cases hplace : place = source
  · subst hplace
    simp [movedEntry]
  · have hpref : source.isPrefixOf place = false := by
      rw [Bool.eq_false_iff]
      exact fun htrue => hplace (hiff.1 htrue)
    simp [movedEntry, hplace, hpref]

theorem Sound.keyed_move (sound : disk.Sound) {source : Location} {id : Nat}
    {content : Content} (h : disk.node? source = some (id, .file content)) (target : Location) :
    (disk.move source target).names.Keyed := by
  unfold Dictionary.Keyed
  rw [sound.entries_move h, List.map_map]
  have hkeyed : ((disk.names.erase target).entries.map Prod.fst).Nodup :=
    Dictionary.keyed_erase sound.keyed target
  refine List.Nodup.map_on ?_ (List.Nodup.of_map _ hkeyed)
  intro one hone other hother heq
  have hone' : one.1 ≠ target := by
    simpa using (List.mem_filter.1 hone).2
  have hother' : other.1 ≠ target := by
    simpa using (List.mem_filter.1 hother).2
  -- `target` was erased first, so only the moved entry can have that key.
  have hfst : one.1 = other.1 := by
    by_cases h1 : one.1 = source <;> by_cases h2 : other.1 = source
    · rw [h1, h2]
    · simp only [Function.comp, movedEntry, h1, if_true, h2, if_false] at heq
      exact absurd heq.symm hother'
    · simp only [Function.comp, movedEntry, h1, if_false, h2, if_true] at heq
      exact absurd heq hone'
    · simpa [Function.comp, movedEntry, h1, h2] using heq
  exact List.inj_on_of_nodup_map hkeyed hone hother hfst

theorem Sound.find?_move (sound : disk.Sound) {source target : Location} {id : Nat}
    {content : Content} (h : disk.node? source = some (id, .file content))
    (hne : source ≠ target) (other : Location) :
    (disk.move source target).names.find? other =
      if other = target then some id
      else if other = source then none else disk.names.find? other := by
  have hsource := (node?_eq_some_iff.1 h).1
  -- A lookup is a membership on both sides, since neither dictionary repeats a key.
  refine Option.ext fun found => ?_
  rw [Dictionary.find?_eq_some_iff (sound.keyed_move h target), sound.entries_move h, List.mem_map]
  constructor
  · rintro ⟨⟨place, id'⟩, hmem, heq⟩
    obtain ⟨hmem, htarget⟩ := List.mem_filter.1 hmem
    have htarget' : place ≠ target := by simpa using htarget
    have hname := Dictionary.find?_of_mem sound.keyed hmem
    by_cases hplace : place = source
    · subst hplace
      rw [hsource] at hname
      cases hname
      simp only [movedEntry, if_true, Prod.mk.injEq] at heq
      obtain ⟨rfl, rfl⟩ := heq
      simp
    · simp only [movedEntry, hplace, if_false, Prod.mk.injEq] at heq
      obtain ⟨rfl, rfl⟩ := heq
      simp [htarget', hplace, hname]
  · intro hfound
    by_cases htarget : other = target
    · simp only [htarget, if_true, Option.some.injEq] at hfound
      subst hfound
      refine ⟨(source, id), List.mem_filter.2 ⟨Dictionary.mem_of_find? hsource, ?_⟩, ?_⟩
      · simp [hne]
      · simp [movedEntry, htarget]
    · by_cases hplace : other = source
      · simp [hplace, hne] at hfound
      · simp only [htarget, hplace, if_false] at hfound
        refine ⟨(other, found), List.mem_filter.2 ⟨Dictionary.mem_of_find? hfound, ?_⟩, ?_⟩
        · simp [htarget]
        · simp [movedEntry, hplace]

theorem Sound.node?_move (sound : disk.Sound) {source target : Location} {id : Nat}
    {content : Content} (h : disk.node? source = some (id, .file content))
    (hne : source ≠ target) (other : Location) :
    (disk.move source target).node? other =
      if other = target then some (id, .file content)
      else if other = source then none else disk.node? other := by
  have hnodes : (disk.move source target).nodes = disk.nodes := rfl
  unfold node?
  rw [sound.find?_move h hne, hnodes]
  by_cases htarget : other = target
  · simp [htarget, (node?_eq_some_iff.1 h).2]
  · by_cases hsource : other = source <;> simp [htarget, hsource, hne]

theorem Sound.move (sound : disk.Sound) {source directory : Location} {name : String} {id : Nat}
    {content : Content} (h : disk.node? source = some (id, .file content))
    (hne : source ≠ directory ++ [name]) (parent : disk.kindAt? directory = some .directory)
    (target : disk.kindAt? (directory ++ [name]) ≠ some .directory) :
    (disk.move source (directory ++ [name])).Sound where
  keyed := sound.keyed_move h _
  bounded := by
    intro other id' hname
    rw [sound.find?_move h hne] at hname
    split at hname
    · cases hname
      exact sound.bounded (node?_eq_some_iff.1 h).1
    · split at hname
      · cases hname
      · exact sound.bounded hname
  distinct := by
    intro one other id' hone hother
    rw [sound.find?_move h hne] at hone hother
    have hsource := (node?_eq_some_iff.1 h).1
    -- `target` takes over the node of `source`, and `source` is no longer a name.
    split at hone <;> split at hother
    · simp_all
    · split at hother
      · cases hother
      · cases hone
        exact absurd (sound.distinct hother hsource) ‹_›
    · split at hone
      · cases hone
      · cases hother
        exact absurd (sound.distinct hone hsource) ‹_›
    · split at hone
      · cases hone
      · split at hother
        · cases hother
        · exact sound.distinct hone hother
  total := by
    intro other id' hname
    rw [sound.find?_move h hne] at hname
    split at hname
    · cases hname
      exact ⟨_, (node?_eq_some_iff.1 h).2⟩
    · split at hname
      · cases hname
      · exact sound.total hname
  nested := by
    intro other name' id' hname
    rw [sound.find?_move h hne] at hname
    -- The parent was a directory before the move, and neither end of the move is one.
    have hdir : disk.kindAt? other = some .directory := by
      split at hname
      · rename_i heq
        obtain ⟨rfl, _⟩ := List.append_inj' heq rfl
        exact parent
      · split at hname
        · cases hname
        · exact sound.nested hname
    have hsource : other ≠ source := by
      rintro rfl
      simp [kindAt?, h, Node.kind] at hdir
    have htarget : other ≠ directory ++ [name] := by
      rintro rfl
      exact target hdir
    rw [kindAt?, sound.node?_move h hne, if_neg htarget, if_neg hsource]
    exact hdir
  sized := sound.sized

end Disk

end OrderedStore
