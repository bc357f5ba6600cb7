import OrderedStore.Bytes

/-!
# Bytes as text

Reading bytes as UTF-8 for display. Where the bytes are not UTF-8, the longest beginning of a
character that stands there, or else one byte, is shown as one replacement character.
-/

namespace OrderedStore.Bytes

/-- What a leading byte announces: its share of the code point, and the range of every byte that
has to follow. `none` for a byte that starts no character. -/
def announced (lead : UInt8) : Option (Nat × List (UInt8 × UInt8)) :=
  let plain : UInt8 × UInt8 := (0x80, 0xBF)
  if lead < 0x80 then some (lead.toNat, [])
  else if lead < 0xC2 then none
  else if lead < 0xE0 then some (lead.toNat - 0xC0, [plain])
  else if lead = 0xE0 then some (0, [(0xA0, 0xBF), plain])
  else if lead = 0xED then some (0xD, [(0x80, 0x9F), plain])
  else if lead < 0xF0 then some (lead.toNat - 0xE0, [plain, plain])
  else if lead = 0xF0 then some (0, [(0x90, 0xBF), plain, plain])
  else if lead < 0xF4 then some (lead.toNat - 0xF0, [plain, plain, plain])
  else if lead = 0xF4 then some (4, [(0x80, 0x8F), plain, plain])
  else none

/-- Reads the announced bytes as long as they are in range: the code point if all are there, and
the number of bytes that were. -/
def continued (value : Nat) : List (UInt8 × UInt8) → Bytes → Option Nat × Nat
  | [], _ => (some value, 0)
  | _ :: _, [] => (none, 0)
  | (low, high) :: ranges, b :: rest =>
    if low ≤ b ∧ b ≤ high then
      let (found, count) := continued (value * 64 + (b.toNat - 0x80)) ranges rest
      (found, count + 1)
    else (none, 0)

/-- The character shown for the bytes that start with `lead`, and how many bytes after `lead`
it stands for. -/
def shownChar (lead : UInt8) (rest : Bytes) : Char × Nat :=
  match announced lead with
  | none => ('\uFFFD', 0)
  | some (value, ranges) =>
    match continued value ranges rest with
    | (some code, count) => (Char.ofNat code, count)
    | (none, count) => ('\uFFFD', count)

def shownChars : Bytes → List Char
  | [] => []
  | lead :: rest =>
    (shownChar lead rest).1 :: shownChars (rest.drop (shownChar lead rest).2)
termination_by bytes => bytes.length
decreasing_by
  simp only [List.length_drop, List.length_cons]
  omega

/-- The text shown for a byte string: its characters if it is UTF-8, with a replacement character
for every piece that is not. -/
def shown (bytes : Bytes) : String :=
  String.ofList (shownChars bytes)

def ofText (text : String) : Bytes :=
  text.toUTF8.toList

end OrderedStore.Bytes
