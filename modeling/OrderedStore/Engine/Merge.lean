import OrderedStore.KeyMap
import OrderedStore.Memtable

/-!
# Merging sources

A scan asks every source for its first entries from some key on. A source that gave as many as it
was asked for may hold more, so together the sources are known only up to the smallest last key of
these: the horizon. Up to there the first source that knows a key decides about it.
-/

namespace OrderedStore.Merge

def least? : List Bytes → Option Bytes
  | [] => none
  | key :: rest =>
    match least? rest with
    | none => some key
    | some other => some (if key ≤ other then key else other)

/-- Up to which key sources that were asked for `limit` entries each are complete; `none` if they
are complete altogether. -/
def horizon? (limit : Nat) (sources : List (List TableEntry)) : Option Bytes :=
  least? <| sources.filterMap fun source =>
    if source.length = limit then source.getLast?.map (·.1) else none

/-- Whether a key lies within a horizon. -/
def within (horizon? : Option Bytes) (key : Bytes) : Bool :=
  horizon?.all (key ≤ ·)

/-- What the sources say about the keys within a horizon, the first source winning. -/
def merged (horizon? : Option Bytes) (sources : List (List TableEntry)) :
    KeyMap (Option Bytes) :=
  (sources.flatten.filter fun entry => within horizon? entry.1).foldl
    (fun known entry => known.insertIfNew entry.1 entry.2) .empty

/-- The entries of a map that are not tombstones. -/
def live (known : KeyMap (Option Bytes)) : List (Bytes × Bytes) :=
  known.toList.filterMap fun (key, value?) => value?.map (key, ·)

end OrderedStore.Merge
