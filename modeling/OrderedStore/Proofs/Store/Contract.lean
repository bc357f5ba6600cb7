import OrderedStore.Engine.Catalog
import OrderedStore.Proofs.Log.History

/-!
# What handles owe a store

A store relies on little: a scan gives a first part of what its handle holds, and an empty one only
if nothing is left. States of an engine are of any type, so that a state may also hold what decides
about failures.

Main definitions:

- `Plain.Page`: a first part of what a map holds from a key on.
- `Paged`: handles whose scans give such pages.
- `Scannable`: such handles that stay so whatever is asked of them.

Main statement: `World.scannable_memory` says this of the engine in memory.
-/

namespace OrderedStore

/-! ## Pages of a map -/

/-- The ascending list of what a map holds from a key on. -/
structure Plain.Lists (plain : Plain) (start : Bytes) (pairs : List (Bytes × Bytes)) : Prop where
  ascending : pairs.Pairwise (·.1 < ·.1)
  mem_iff : ∀ key value, (key, value) ∈ pairs ↔ start ≤ key ∧ plain key = some value

/-- A first part of what a map holds from a key on, which is empty only if the map holds nothing
there. -/
def Plain.Page (plain : Plain) (start : Bytes) (page : List (Bytes × Bytes)) : Prop :=
  ∃ rest, plain.Lists start (page ++ rest) ∧ (page = [] → rest = [])

namespace Plain

variable {plain : Plain} {start key value : Bytes} {page : List (Bytes × Bytes)}

theorem Page.ascending (h : plain.Page start page) : page.Pairwise (·.1 < ·.1) := by
  obtain ⟨rest, lists, _⟩ := h
  exact (List.pairwise_append.1 lists.ascending).1

theorem Page.of_mem (h : plain.Page start page) (hmem : (key, value) ∈ page) :
    start ≤ key ∧ plain key = some value := by
  obtain ⟨rest, lists, _⟩ := h
  exact (lists.mem_iff key value).1 (List.mem_append_left _ hmem)

/-- Up to its last key a page holds all that the map holds. -/
theorem Page.mem (h : plain.Page start page) {last : Bytes × Bytes}
    (hlast : page.getLast? = some last) (hstart : start ≤ key) (hle : key ≤ last.1)
    (hvalue : plain key = some value) : (key, value) ∈ page := by
  obtain ⟨rest, lists, _⟩ := h
  rcases List.mem_append.1 ((lists.mem_iff key value).2 ⟨hstart, hvalue⟩) with hpage | hrest
  · exact hpage
  · have hlt := (List.pairwise_append.1 lists.ascending).2.2 last (List.mem_of_getLast? hlast)
      (key, value) hrest
    exact absurd hlt (List.not_lt.2 hle)

theorem Page.eq_none_of_nil (h : plain.Page start []) (hstart : start ≤ key) :
    plain key = none := by
  obtain ⟨rest, lists, hempty⟩ := h
  rw [hempty rfl] at lists
  cases hvalue : plain key with
  | none => rfl
  | some value =>
    have hmem := (lists.mem_iff key value).2 ⟨hstart, hvalue⟩
    cases hmem

theorem lists_entriesFrom (content : KeyMap Bytes) (start : Bytes) :
    Lists content.find? start (content.entriesFrom start) := by
  rw [content.entriesFrom_eq_filter]
  refine ⟨content.ascending.filter _, fun key value => ?_⟩
  rw [List.mem_filter, content.mem_toList_iff]
  simp [and_comm]

/-- The first entries of a map from a key on are a page. -/
theorem page_take (content : KeyMap Bytes) (start : Bytes) {limit : Nat} (pos : 1 ≤ limit) :
    Page content.find? start ((content.entriesFrom start).take limit) := by
  refine ⟨(content.entriesFrom start).drop limit, ?_, ?_⟩
  · rw [List.take_append_drop]
    exact lists_entriesFrom content start
  · intro hnil
    rcases List.take_eq_nil_iff.1 hnil with hzero | hempty
    · omega
    · rw [hempty, List.drop_nil]

end Plain

/-! ## Handles that can be scanned -/

/-- What follows a computation starts in the state that the computation leaves. -/
theorem state_bind {σ α β : Type} {x : StateM σ α} {f : α → StateM σ β} {s after : σ} {a : α}
    (h : x s = (a, after)) : (x >>= f) s = f a after := by
  change f (x s).1 (x s).2 = f a after
  rw [h]

/-- Handles whose scans give pages of what they hold, as long as they are ready, and leave them
ready. -/
def Paged {σ H : Type} [Backend (StateM σ) H] (content : H → σ → Plain) (ready : H → σ → Prop) :
    Prop :=
  ∀ handle start limit (s : σ), ready handle s → 1 ≤ limit → ∃ page after,
    (Backend.scan handle start limit : StateM σ _) s = (.ok page, after) ∧
      (content handle s).Page start page ∧ ready handle after

/-- Handles whose scans give pages of what they hold, as long as they are ready, and which stay
ready whatever is asked of them. What the other operations do is left open; they may fail. -/
structure Scannable {σ H : Type} [Backend (StateM σ) H] (content : H → σ → Plain)
    (ready : H → σ → Prop) : Prop where
  scan : ∀ handle start limit (s : σ), ready handle s → 1 ≤ limit → ∃ page after,
    (Backend.scan handle start limit : StateM σ _) s = (.ok page, after) ∧
      (content handle s).Page start page ∧ ready handle after
  put : ∀ handle key value (s : σ), ready handle s → ∃ result handle' after,
    (Backend.put handle key value : StateM σ _) s = ((result, handle'), after) ∧
      ready handle' after
  delete : ∀ handle key (s : σ), ready handle s → ∃ result handle' after,
    (Backend.delete handle key : StateM σ _) s = ((result, handle'), after) ∧ ready handle' after
  write : ∀ handle batch (s : σ), ready handle s → ∃ result handle' after,
    (Backend.write handle batch : StateM σ _) s = ((result, handle'), after) ∧ ready handle' after

theorem Scannable.paged {σ H : Type} [Backend (StateM σ) H] {content : H → σ → Plain}
    {ready : H → σ → Prop} (scannable : Scannable content ready) : Paged content ready :=
  scannable.scan

/-! ## The engine in memory -/

namespace World

/-- What the engine in memory holds that a handle belongs to. -/
def memoryContent (handle : WorldHandle) (world : World) : Plain :=
  match handle with
  | .portable _ => Plain.empty
  | .memory name _ =>
    match world.engines.find? name with
    | some (.memory engine) => engine.content.find?
    | _ => Plain.empty

/-- A handle of an engine in memory that is there. -/
def MemoryReady (handle : WorldHandle) (world : World) : Prop :=
  ∃ name kind engine, handle = .memory name kind ∧
    world.engines.find? name = some (.memory engine)

theorem onMemory_of_find? {α : Type} {name : String} {world : World} {engine : MemoryEngine}
    (h : world.engines.find? name = some (.memory engine)) (missing : α)
    (action : MemoryEngine → α × MemoryEngine) :
    ∃ after, onMemory name missing action world = ((action engine).1, after) ∧
      after.engines.find? name = some (.memory (action engine).2) := by
  refine ⟨{ world with engines := world.engines.insert name (.memory (action engine).2) }, ?_, ?_⟩
  · simp only [onMemory, h]
  · rw [Dictionary.find?_insert]
    simp

/-- A handle of an engine in memory stays ready when it is used. -/
theorem memoryReady_change {name : String} {kind : EngineKind} {world : World}
    {engine : MemoryEngine} (h : world.engines.find? name = some (.memory engine))
    (action : MemoryEngine → Except Error Unit × MemoryEngine) :
    ∃ result handle after,
      (do
        let done ← onMemory name (.error .closed) action
        return (done, WorldHandle.memory name kind) : StateM World _) world =
          ((result, handle), after) ∧ MemoryReady handle after := by
  obtain ⟨after, hrun, hafter⟩ := onMemory_of_find? h (.error .closed) action
  exact ⟨_, _, after, state_bind hrun, name, kind, _, rfl, hafter⟩

/-- The engine in memory gives pages of what it holds. -/
theorem scannable_memory : Scannable memoryContent MemoryReady where
  scan := by
    rintro _ start limit world ⟨name, kind, engine, rfl, hfind⟩ hlimit
    obtain ⟨after, hrun, hafter⟩ := onMemory_of_find? hfind (Except.error Error.closed)
      fun engine => (.ok (engine.scan start limit), engine)
    refine ⟨engine.scan start limit, after, hrun, ?_, name, kind, engine, rfl, hafter⟩
    simp only [memoryContent, hfind]
    exact Plain.page_take engine.content start hlimit
  put := by
    rintro _ key value world ⟨name, kind, engine, rfl, hfind⟩
    exact memoryReady_change hfind _
  delete := by
    rintro _ key world ⟨name, kind, engine, rfl, hfind⟩
    exact memoryReady_change hfind _
  write := by
    rintro _ batch world ⟨name, kind, engine, rfl, hfind⟩
    exact memoryReady_change hfind _

end World

end OrderedStore
