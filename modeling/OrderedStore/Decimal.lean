/-!
# Decimal numbers in 64 bits

Reading and writing natural numbers of at most 64 bits in decimal digits.
-/

namespace OrderedStore.Decimal

def digit? (c : Char) : Option Nat :=
  if '0' ≤ c ∧ c ≤ '9' then some (c.toNat - '0'.toNat) else none

/-- The number that digits continue, if all characters are digits. -/
def continue? (value : Nat) : List Char → Option Nat
  | [] => some value
  | c :: rest => (digit? c).bind fun d => continue? (value * 10 + d) rest

def digits? : List Char → Option Nat
  | [] => none
  | text => continue? 0 text

/-- The number of at most 64 bits written as digits after an optional plus sign. -/
def read? (text : List Char) : Option Nat :=
  let digits := match text with
    | '+' :: rest => rest
    | _ => text
  (digits? digits).filter (· < UInt64.size)

/-- A number in at least `width` digits. -/
def padded (width n : Nat) : List Char :=
  let digits := Nat.toDigits 10 n
  List.replicate (width - digits.length) '0' ++ digits

end OrderedStore.Decimal
