import OrderedStore.Proofs.Host.Errors
import OrderedStore.Table.Draft

/-!
# Drafts, part by part

A table file is started and finished by actions that are put together from calls of a few kinds and
have no errors of their own. What is passed on from the parts of an action to the whole, and holds
of these calls, holds of all these actions.

Main definition: `Action.Composes`, what is passed on from parts to the whole.

Main statements: `Action.Composes.putAll`, `Action.Composes.startDraft`,
`Action.Composes.finishDraft`.
-/

namespace OrderedStore

namespace Action

/-- A property of actions that is passed on from parts to the whole. -/
structure Composes (holds : (α : Type) → Action α → Prop) : Prop where
  pure : ∀ {α : Type} (value : α), holds α (pure value)
  bind : ∀ {α β : Type} {action : Action α} {f : α → Action β},
    holds α action → (∀ value, holds β (f value)) → holds β (action >>= f)

theorem composes_throws (raised : Error → Prop) : Composes fun _ action => action.Throws raised :=
  ⟨throws_pure, Throws.bind⟩

namespace Composes

variable {holds : (α : Type) → Action α → Prop} (composes : Composes holds)
  (writes : ∀ handle offset data, holds Unit (write handle offset data))
include composes writes

theorem writeThrough (out : Output) (data : Bytes) : holds Output (out.writeThrough data) := by
  unfold Output.writeThrough
  split
  · exact composes.pure _
  · exact composes.bind (writes _ _ _) fun _ => composes.pure _

theorem flushOutput (out : Output) : holds Output out.flush :=
  composes.bind (composes.writeThrough writes out _) fun _ => composes.pure _

theorem put (out : Output) (piece : Bytes) : holds Output (out.put piece) := by
  have hpiece : ∀ out : Output, holds Output
      (if out.capacity ≤ piece.length then out.writeThrough piece
        else return { out with pending := out.pending ++ piece }) := by
    intro out
    split
    · exact composes.writeThrough writes out piece
    · exact composes.pure _
  unfold Output.put
  simp only
  split
  · exact composes.bind (composes.flushOutput writes out) hpiece
  · exact composes.bind (composes.pure out) hpiece

theorem putAll (out : Output) (pieces : List Bytes) : holds Output (out.putAll pieces) := by
  induction pieces generalizing out with
  | nil => exact composes.pure _
  | cons piece rest ih => exact composes.bind (composes.put writes out piece) fun out => ih out

theorem startDraft (replaces : ∀ path, holds Handle (openFile path .replace)) (path : Path)
    (capacity : Nat) : holds Table.Draft (Table.Draft.start path capacity) :=
  composes.bind (replaces path) fun _ => composes.bind (composes.putAll writes _ _) fun _ =>
    composes.pure _

/-- Index and footer are put out, then the number of entries is written into the header. -/
theorem finishDraft (syncs : ∀ handle, holds Unit (sync handle))
    (sizes : ∀ handle, holds Nat (size handle)) (draft : Table.Draft) :
    holds Table.Summary draft.finish := by
  refine composes.bind (composes.putAll writes _ _) fun out => ?_
  refine composes.bind (composes.flushOutput writes out) fun out => ?_
  refine composes.bind (writes _ _ _) fun _ => composes.bind (syncs out.handle) fun _ => ?_
  exact composes.bind (sizes out.handle) fun _ => composes.pure _

end Composes

end Action

/-! ## Errors of drafts -/

theorem Output.throws_putAll (out : Output) (pieces : List Bytes) :
    (out.putAll pieces).Throws Error.OfSystem :=
  (Action.composes_throws _).putAll (fun _ _ _ => Action.throws_attempt_ofSystem _) out pieces

namespace Table.Draft

theorem throws_start (path : Path) (capacity : Nat) :
    (Draft.start path capacity).Throws Error.OfSystem :=
  (Action.composes_throws _).startDraft (fun _ _ _ => Action.throws_attempt_ofSystem _)
    (fun _ => Action.throws_attempt_ofSystem _) path capacity

theorem throws_finish (draft : Draft) : draft.finish.Throws Error.OfSystem :=
  (Action.composes_throws _).finishDraft (fun _ _ _ => Action.throws_attempt_ofSystem _)
    (fun _ => Action.throws_attempt_ofSystem _) (fun _ => Action.throws_ofScript _) draft

end Table.Draft

end OrderedStore
