/-!
# CommandLine.AddressBook.Index

Indices as they are typed: decimal digits, with at most one `+` in front, for a number
from 1 to `2 ^ 64 - 1`. Leading zeros do not matter.
-/

namespace CommandLine.AddressBook

/-- The number that digits stand for, the first one weighing most. -/
def decimalValue (digits : List Char) : Nat :=
  digits.foldl (fun n c => 10 * n + (c.toNat - '0'.toNat)) 0

/-- What follows the sign of a number. -/
def dropPlus : List Char → List Char
  | '+' :: digits => digits
  | digits => digits

/-- The index that a text stands for, if it stands for one. -/
def index? (text : String) : Option Nat :=
  let digits := dropPlus text.toList
  if digits ≠ [] ∧ digits.all Char.isDigit ∧ 0 < decimalValue digits
      ∧ decimalValue digits < Nat.pow 2 64 then
    some (decimalValue digits)
  else none

end CommandLine.AddressBook
