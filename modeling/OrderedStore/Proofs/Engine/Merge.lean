import OrderedStore.Engine.Merge
import OrderedStore.Proofs.KeyMap

/-!
# Merging sources that were cut off

Every source of a scan is cut off at the same number of entries. Up to the horizon the cut sources
say what the whole ones say, and behind it the scan goes on.

Main definitions:

- `Merge.newest`: what the sources say about a key, the first one winning.
- `Merge.liveFrom`: the list that a scan has to give.
- `Merge.scanOf`: the scan as a function of its sources.

Main statement: `Merge.scanOf_spec`.
-/

namespace OrderedStore.Merge

/-- What the first source that knows a key says about it. -/
def newest (sources : List (List TableEntry)) (key : Bytes) : Option (Option Bytes) :=
  KeyMap.lookup key sources.flatten

/-- The entries of a source from a key on. -/
def fromKey (start : Bytes) (source : List TableEntry) : List TableEntry :=
  source.filter fun entry => start ≤ entry.1

/-- The first entries of a source from a key on. -/
def cut (start : Bytes) (limit : Nat) (source : List TableEntry) : List TableEntry :=
  (fromKey start source).take limit

/-- Every source is in ascending key order. -/
def Ascending (sources : List (List TableEntry)) : Prop :=
  ∀ source ∈ sources, source.Pairwise (·.1 < ·.1)

variable {sources : List (List TableEntry)} {source : List TableEntry} {start key : Bytes}
  {limit : Nat}

/-! ## The horizon -/

theorem least?_eq_none_iff {keys : List Bytes} : least? keys = none ↔ keys = [] := by
  cases keys with
  | nil => simp [least?]
  | cons key rest =>
    simp only [least?]
    split <;> simp

theorem least?_spec {keys : List Bytes} {low : Bytes} (h : least? keys = some low) :
    low ∈ keys ∧ ∀ key ∈ keys, low ≤ key := by
  induction keys generalizing low with
  | nil => simp [least?] at h
  | cons key rest ih =>
    simp only [least?] at h
    split at h
    · rename_i hnone
      cases h
      rw [least?_eq_none_iff] at hnone
      simp [hnone]
    · rename_i other hother
      obtain ⟨hmem, hleast⟩ := ih hother
      cases h
      by_cases hle : key ≤ other
      · rw [if_pos hle]
        refine ⟨by simp, ?_⟩
        intro k hk
        rcases List.mem_cons.1 hk with rfl | hk
        · exact Std.le_refl _
        · exact Std.le_trans hle (hleast k hk)
      · rw [if_neg hle]
        refine ⟨by simp [hmem], ?_⟩
        intro k hk
        rcases List.mem_cons.1 hk with rfl | hk
        · exact Std.le_of_lt (List.not_le.1 hle)
        · exact hleast k hk

/-- The horizon is a key of some source, and no source that may hold more ends before it. -/
theorem horizon?_spec {cuts : List (List TableEntry)} {low : Bytes}
    (h : horizon? limit cuts = some low) :
    (∃ source ∈ cuts, ∃ entry ∈ source, entry.1 = low) ∧
      ∀ source ∈ cuts, source.length = limit → ∀ entry, source.getLast? = some entry →
        low ≤ entry.1 := by
  obtain ⟨hmem, hleast⟩ := least?_spec h
  constructor
  · obtain ⟨source, hsource, hkey⟩ := List.mem_filterMap.1 hmem
    split at hkey
    · obtain ⟨entry, hlast, rfl⟩ := Option.map_eq_some_iff.1 hkey
      exact ⟨source, hsource, entry, List.mem_of_getLast? hlast, rfl⟩
    · cases hkey
  · intro source hsource hlength entry hlast
    refine hleast _ (List.mem_filterMap.2 ⟨source, hsource, ?_⟩)
    rw [if_pos hlength, hlast]
    rfl

/-- Without a horizon no source may hold more. -/
theorem length_ne_of_horizon?_eq_none {cuts : List (List TableEntry)} (pos : 0 < limit)
    (h : horizon? limit cuts = none) : ∀ source ∈ cuts, source.length ≠ limit := by
  intro source hsource hlength
  have hnil := least?_eq_none_iff.1 h
  have hne : source ≠ [] := by
    rintro rfl
    simp at hlength
    omega
  have hlast := List.getLast?_eq_some_getLast hne
  have hmem : (source.getLast hne).1 ∈ cuts.filterMap fun source =>
      if source.length = limit then source.getLast?.map (·.1) else none :=
    List.mem_filterMap.2 ⟨source, hsource, by rw [if_pos hlength, hlast]; rfl⟩
  rw [hnil] at hmem
  simp at hmem

/-! ## Cut sources -/

theorem lookup_fromKey (h : start ≤ key) :
    KeyMap.lookup key (fromKey start source) = KeyMap.lookup key source := by
  have hfilter : KeyMap.lookup key (fromKey start source) =
      if decide (start ≤ key) then KeyMap.lookup key source else none :=
    KeyMap.lookup_filter (fun k => decide (start ≤ k)) source
  rwa [if_pos (by simpa using h)] at hfilter

/-- A source that was cut off says all about the keys up to its last one. -/
theorem lookup_cut (sorted : source.Pairwise (·.1 < ·.1)) (h : start ≤ key)
    (known : (cut start limit source).length ≠ limit ∨
      ∃ entry, (cut start limit source).getLast? = some entry ∧ key ≤ entry.1) :
    KeyMap.lookup key (cut start limit source) = KeyMap.lookup key source := by
  have hfrom : KeyMap.lookup key (fromKey start source) = KeyMap.lookup key source :=
    lookup_fromKey h
  rw [← hfrom]
  have hsplit := List.take_append_drop limit (fromKey start source)
  conv => enter [2]; rw [← hsplit]
  rw [KeyMap.lookup_append]
  -- Behind the cut there is nothing about the key: no entry at all, or only larger keys.
  have hbehind : KeyMap.lookup key ((fromKey start source).drop limit) = none := by
    rcases known with hshort | ⟨entry, hlast, hle⟩
    · have hall : (fromKey start source).length ≤ limit := by
        simp only [cut, List.length_take] at hshort
        omega
      rw [List.drop_of_length_le hall]
      rfl
    · refine KeyMap.lookup_eq_none_of_forall_lt fun other hother => ?_
      have hsorted : (fromKey start source).Pairwise (·.1 < ·.1) := sorted.filter _
      rw [← hsplit] at hsorted
      have hlt := (List.pairwise_append.1 hsorted).2.2 entry (List.mem_of_getLast? hlast) other
        hother
      exact Std.lt_of_le_of_lt hle hlt
  rw [hbehind, Option.or_none]
  rfl

theorem newest_congr {more : List TableEntry → List TableEntry}
    (h : ∀ source ∈ sources, KeyMap.lookup key (more source) = KeyMap.lookup key source) :
    newest (sources.map more) key = newest sources key := by
  unfold newest
  induction sources with
  | nil => rfl
  | cons source rest ih =>
    rw [List.map_cons, List.flatten_cons, List.flatten_cons, KeyMap.lookup_append,
      KeyMap.lookup_append, h source (by simp), ih fun other hmem => h other (by simp [hmem])]

/-- Up to the horizon cut sources say what the whole ones say. -/
theorem newest_cut (ascending : Ascending sources) (pos : 0 < limit) (h : start ≤ key)
    (hwithin : within (horizon? limit (sources.map (cut start limit))) key = true) :
    newest (sources.map (cut start limit)) key = newest sources key := by
  refine newest_congr fun source hsource => ?_
  refine lookup_cut (ascending source hsource) h ?_
  have hmem : cut start limit source ∈ sources.map (cut start limit) :=
    List.mem_map.2 ⟨source, hsource, rfl⟩
  by_cases hlength : (cut start limit source).length = limit
  · right
    cases hhorizon : horizon? limit (sources.map (cut start limit)) with
    | none => exact absurd hlength (length_ne_of_horizon?_eq_none pos hhorizon _ hmem)
    | some low =>
      have hne : cut start limit source ≠ [] := by
        intro hnil
        rw [hnil] at hlength
        simp at hlength
        omega
      have hlast := List.getLast?_eq_some_getLast hne
      have hlow := (horizon?_spec hhorizon).2 _ hmem hlength _ hlast
      rw [hhorizon] at hwithin
      exact ⟨_, hlast, Std.le_trans (by simpa [within] using hwithin) hlow⟩
  · exact Or.inl hlength

/-! ## The merged entries -/

theorem find?_foldl_insertIfNew (entries : List TableEntry) (known : KeyMap (Option Bytes)) :
    (entries.foldl (fun known entry => known.insertIfNew entry.1 entry.2) known).find? key =
      (known.find? key).or (KeyMap.lookup key entries) := by
  induction entries generalizing known with
  | nil => simp [KeyMap.lookup]
  | cons entry rest ih =>
    obtain ⟨k, value?⟩ := entry
    rw [List.foldl_cons, ih, KeyMap.find?_insertIfNew, KeyMap.lookup]
    by_cases hk : key = k
    · subst hk
      cases known.find? key <;> simp
    · simp [hk]

theorem find?_merged (horizon? : Option Bytes) (sources : List (List TableEntry)) :
    (merged horizon? sources).find? key =
      if within horizon? key then newest sources key else none := by
  unfold merged
  rw [find?_foldl_insertIfNew, KeyMap.find?_empty, Option.none_or, KeyMap.lookup_filter]
  rfl

theorem mem_live {known : KeyMap (Option Bytes)} {value : Bytes} :
    (key, value) ∈ live known ↔ known.find? key = some (some value) := by
  unfold live
  rw [List.mem_filterMap, ← KeyMap.mem_toList_iff]
  constructor
  · rintro ⟨⟨k, value?⟩, hmem, heq⟩
    obtain ⟨v, rfl, hpair⟩ := Option.map_eq_some_iff.1 heq
    cases hpair
    exact hmem
  · intro hmem
    exact ⟨(key, some value), hmem, rfl⟩

theorem ascending_live (known : KeyMap (Option Bytes)) : (live known).Pairwise (·.1 < ·.1) := by
  unfold live
  refine List.pairwise_filterMap.2 (known.ascending.imp ?_)
  rintro ⟨k, value?⟩ ⟨k', value?'⟩ hlt entry hentry entry' hentry'
  obtain ⟨v, _, rfl⟩ := Option.map_eq_some_iff.1 hentry
  obtain ⟨v', _, rfl⟩ := Option.map_eq_some_iff.1 hentry'
  exact hlt

/-! ## What a scan has to give -/

/-- All live pairs from a key on. -/
def liveFrom (sources : List (List TableEntry)) (start : Bytes) : List (Bytes × Bytes) :=
  live (merged none (sources.map (fromKey start)))

theorem ascending_liveFrom (sources : List (List TableEntry)) (start : Bytes) :
    (liveFrom sources start).Pairwise (·.1 < ·.1) :=
  ascending_live _

theorem newest_eq_none_of_lt (h : ∀ source ∈ sources, ∀ entry ∈ source, start ≤ entry.1)
    (hlt : ¬ start ≤ key) : newest sources key = none := by
  unfold newest
  rw [KeyMap.lookup_eq_none_iff]
  intro hmem
  obtain ⟨entry, hentry, rfl⟩ := List.mem_map.1 hmem
  obtain ⟨source, hsource, hin⟩ := List.mem_flatten.1 hentry
  exact hlt (h source hsource entry hin)

theorem mem_liveFrom {value : Bytes} :
    (key, value) ∈ liveFrom sources start ↔
      start ≤ key ∧ newest sources key = some (some value) := by
  unfold liveFrom
  rw [mem_live, find?_merged]
  simp only [within, Option.all_none, if_true]
  by_cases hle : start ≤ key
  · rw [newest_congr fun source _ => lookup_fromKey hle]
    simp [hle]
  · have hnone : newest (sources.map (fromKey start)) key = none := by
      refine newest_eq_none_of_lt ?_ hle
      intro source hsource entry hentry
      obtain ⟨whole, _, rfl⟩ := List.mem_map.1 hsource
      simpa using (List.mem_filter.1 hentry).2
    simp [hnone, hle]

/-- One round gives the live pairs up to its horizon. -/
theorem live_cut (ascending : Ascending sources) (pos : 0 < limit) :
    live (merged (horizon? limit (sources.map (cut start limit)))
      (sources.map (cut start limit))) =
      (liveFrom sources start).filter fun pair =>
        within (horizon? limit (sources.map (cut start limit))) pair.1 := by
  refine KeyMap.eq_of_ascending_of_mem_iff (ascending_live _)
    ((ascending_liveFrom _ _).filter _) ?_
  rintro ⟨key, value⟩
  rw [mem_live, find?_merged, List.mem_filter, mem_liveFrom]
  by_cases hwithin : within (horizon? limit (sources.map (cut start limit))) key = true
  · simp only [hwithin, if_true, and_true]
    by_cases hle : start ≤ key
    · rw [newest_cut ascending pos hle hwithin]
      simp [hle]
    · have hnone : newest (sources.map (cut start limit)) key = none := by
        refine newest_eq_none_of_lt ?_ hle
        intro source hsource entry hentry
        obtain ⟨whole, _, rfl⟩ := List.mem_map.1 hsource
        simpa using (List.mem_filter.1 (List.mem_of_mem_take hentry)).2
      simp [hnone, hle]
  · simp [hwithin]

/-- The pairs within a horizon come first. -/
theorem filter_within_prefix {pairs : List (Bytes × Bytes)} (sorted : pairs.Pairwise (·.1 < ·.1))
    (horizon? : Option Bytes) :
    (pairs.filter fun pair => within horizon? pair.1) <+: pairs := by
  induction pairs with
  | nil => exact List.prefix_rfl
  | cons pair rest ih =>
    obtain ⟨hfirst, hrest⟩ := List.pairwise_cons.1 sorted
    by_cases hwithin : within horizon? pair.1 = true
    · rw [List.filter_cons_of_pos (by simpa using hwithin)]
      exact List.cons_prefix_cons.2 ⟨rfl, ih hrest⟩
    -- The first pair lies beyond the horizon, so all do.
    · have hnone : (pair :: rest).filter (fun pair => within horizon? pair.1) = [] := by
        rw [List.filter_eq_nil_iff]
        intro other hother hin
        refine hwithin ?_
        cases horizon? with
        | none => rfl
        | some low =>
          have hle : other.1 ≤ low := by simpa [within] using hin
          rcases List.mem_cons.1 hother with rfl | hmem
          · simpa [within] using hle
          · simpa [within] using Std.le_trans (Std.le_of_lt (hfirst other hmem)) hle
      rw [hnone]
      exact List.nil_prefix

/-! ## Rounds -/

/-- A scan of sources, round by round. -/
def scanOf (sources : List (List TableEntry)) (limit : Nat) : (rounds : Nat) → (start : Bytes) →
    List (Bytes × Bytes)
  | 0, _ => []
  | rounds + 1, start =>
    let cuts := sources.map (cut start limit)
    match horizon? limit cuts, (live (merged (horizon? limit cuts) cuts)).take limit with
    | some low, [] => scanOf sources limit rounds low.successor
    | _, page => page

/-- The number of entries from a key on. -/
def countFrom (sources : List (List TableEntry)) (start : Bytes) : Nat :=
  (fromKey start sources.flatten).length

/-- A round that leads to another one leaves an entry behind. -/
theorem countFrom_successor_lt {low : Bytes}
    (h : horizon? limit (sources.map (cut start limit)) = some low) :
    countFrom sources low.successor < countFrom sources start := by
  obtain ⟨source, hsource, entry, hentry, rfl⟩ := (horizon?_spec h).1
  obtain ⟨whole, hwhole, rfl⟩ := List.mem_map.1 hsource
  have hfrom := List.mem_filter.1 (List.mem_of_mem_take hentry)
  have hstart : start ≤ entry.1 := by simpa using hfrom.2
  have hmem : entry ∈ fromKey start sources.flatten :=
    List.mem_filter.2 ⟨List.mem_flatten.2 ⟨whole, hwhole, hfrom.1⟩, hfrom.2⟩
  -- What is left behind the horizon is a part of what was there, and lacks this entry.
  have hsub : fromKey (Bytes.successor entry.1) sources.flatten =
      (fromKey start sources.flatten).filter fun other => Bytes.successor entry.1 ≤ other.1 := by
    unfold fromKey
    rw [List.filter_filter]
    refine List.filter_congr fun other _ => ?_
    by_cases hle : Bytes.successor entry.1 ≤ other.1
    · have : start ≤ other.1 :=
        Std.le_trans hstart (Std.le_of_lt (Bytes.successor_le_iff.1 hle))
      simp [hle, this]
    · simp [hle]
  unfold countFrom
  rw [hsub]
  refine List.length_filter_lt_length_iff_exists.2 ⟨entry, hmem, ?_⟩
  simp only [decide_eq_true_eq, Bytes.successor_le_iff]
  exact List.lt_irrefl _

/-- Behind a horizon up to which nothing is live the same pairs are live. -/
theorem liveFrom_successor {low : Bytes} (hstart : start ≤ low)
    (h : ∀ pair ∈ liveFrom sources start, ¬ pair.1 ≤ low) :
    liveFrom sources low.successor = liveFrom sources start := by
  refine KeyMap.eq_of_ascending_of_mem_iff (ascending_liveFrom _ _) (ascending_liveFrom _ _) ?_
  rintro ⟨key, value⟩
  rw [mem_liveFrom, mem_liveFrom, Bytes.successor_le_iff]
  constructor
  · rintro ⟨hlt, hnewest⟩
    exact ⟨Std.le_trans hstart (Std.le_of_lt hlt), hnewest⟩
  · rintro ⟨hle, hnewest⟩
    have := h (key, value) (mem_liveFrom.2 ⟨hle, hnewest⟩)
    exact ⟨List.not_le.1 this, hnewest⟩

/-- A scan gives the first live pairs, and some if there are any. -/
theorem scanOf_spec (ascending : Ascending sources) (pos : 0 < limit) {rounds : Nat}
    (enough : countFrom sources start < rounds) :
    scanOf sources limit rounds start <+: liveFrom sources start ∧
      (scanOf sources limit rounds start).length ≤ limit ∧
      (scanOf sources limit rounds start = [] → liveFrom sources start = []) := by
  induction rounds generalizing start with
  | zero => omega
  | succ rounds ih =>
    have hround : live (merged (horizon? limit (sources.map (cut start limit)))
        (sources.map (cut start limit))) = _ := live_cut ascending pos
    have hinitial := filter_within_prefix (ascending_liveFrom sources start)
      (horizon? limit (sources.map (cut start limit)))
    rw [← hround] at hinitial
    unfold scanOf
    simp only
    split
    · rename_i low hlow hpage
      -- Nothing is live up to the horizon.
      have hnone : live (merged (horizon? limit (sources.map (cut start limit)))
          (sources.map (cut start limit))) = [] := by
        rcases List.take_eq_nil_iff.1 hpage with hzero | hnil
        · omega
        · exact hnil
      rw [hnone, hlow] at hround
      have hstart : start ≤ low := by
        obtain ⟨source, hsource, entry, hentry, rfl⟩ := (horizon?_spec hlow).1
        obtain ⟨whole, _, rfl⟩ := List.mem_map.1 hsource
        simpa using (List.mem_filter.1 (List.mem_of_mem_take hentry)).2
      have hsame : liveFrom sources low.successor = liveFrom sources start := by
        refine liveFrom_successor hstart fun pair hpair hle => ?_
        have hmem := List.filter_eq_nil_iff.1 hround.symm pair hpair
        exact hmem (by simpa [within] using hle)
      have hlt := countFrom_successor_lt hlow
      rw [← hsame]
      exact ih (by omega)
    · rename_i page hpage
      refine ⟨(List.take_prefix limit _).trans hinitial, List.length_take_le _ _, ?_⟩
      intro hnil
      have hlive : live (merged (horizon? limit (sources.map (cut start limit)))
          (sources.map (cut start limit))) = [] := by
        rcases List.take_eq_nil_iff.1 hnil with hzero | hnil
        · omega
        · exact hnil
      cases hhorizon : horizon? limit (sources.map (cut start limit)) with
      | some low => exact absurd hnil (hpage low hhorizon)
      | none =>
        rw [hlive, hhorizon] at hround
        have hfilter : (liveFrom sources start).filter (fun pair => within none pair.1) =
            liveFrom sources start := List.filter_eq_self.2 fun _ _ => rfl
        rw [hfilter] at hround
        exact hround.symm

end OrderedStore.Merge
