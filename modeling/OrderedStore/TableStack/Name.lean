import OrderedStore.Decimal

/-!
# Names of table files

The table numbered 42 is kept in `sstable_000042.sst`, and written as `sstable_000042.sst.tmp`
before it is complete.
-/

namespace OrderedStore.TableStack

def stemStart : List Char :=
  "sstable_".toList

def fileName (id : Nat) : String :=
  String.ofList (stemStart ++ Decimal.padded 6 id ++ ".sst".toList)

/-- The name of a table file that is not complete. -/
def draftName (id : Nat) : String :=
  fileName id ++ ".tmp"

/-- The parts of a name before and after its last point, if there is something before it. -/
def stemAndExtension? (name : List Char) : Option (List Char × List Char) :=
  let extension := name.reverse.takeWhile (· ≠ '.')
  let stem := (name.reverse.drop (extension.length + 1)).reverse
  if stem.isEmpty then none else some (stem, extension.reverse)

def stemId? (stem : List Char) : Option Nat :=
  if stemStart.isPrefixOf stem then Decimal.read? (stem.drop stemStart.length) else none

/-- What a file in the directory of the tables is. -/
inductive NameKind where
  /-- A table that was not completed. -/
  | draft
  | table (id : Nat)
  /-- Not a file of the tables. -/
  | foreign
deriving DecidableEq

/-- What a name says about the file that has it. The number of a table may be written with any
number of digits. -/
def nameKind (name : String) : NameKind :=
  match stemAndExtension? name.toList with
  | none => .foreign
  | some (stem, extension) =>
    if extension = "tmp".toList then .draft
    else if extension = "sst".toList then
      match stemId? stem with
      | some id => .table id
      | none => .foreign
    else .foreign

end OrderedStore.TableStack
