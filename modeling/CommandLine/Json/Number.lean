import CommandLine.Decimal.Shortest
import CommandLine.Json.Fault
/-!
# CommandLine.Json.Number

Reading JSON numbers.

* A number without sign, fraction and exponent below `2 ^ 64` is a natural number, and one
  with a sign down to `-2 ^ 63` is a negative one.
* All others are doubles. Their digits are read into a significand below `2 ^ 64`; digits
  of the integer part for which it has no room only count, digits of the fraction for which
  it has none are dropped. The double is the significand times a power of ten.
-/

namespace CommandLine.Json

/-- A number as it was read. -/
inductive Number where
  | natural (n : Nat)
  /-- The number `-n`, less than zero. -/
  | negative (n : Nat)
  | float (x : Float)
  deriving Repr

/-- What a number is when it is not what was expected. -/
def Number.found : Number → Found
  | natural n => .natural n
  | negative n => .negative n
  | float x => .float (Decimal.text x)

/-- The greatest natural number that is read as one. -/
def maxNatural : Nat := Nat.pow 2 64 - 1

/-- The greatest exponent that is read as a number. -/
def maxExponent : Nat := Nat.pow 2 31 - 1

/-- Whether the next character is a digit. -/
def startsWithDigit : List Char → Bool
  | [] => false
  | c :: _ => c.isDigit

/-- Leaves out digits. -/
def skipDigits (s : List Char) : List Char := s.dropWhile Char.isDigit

theorem skipDigits_suffix (s : List Char) : skipDigits s <:+ s := List.dropWhile_suffix _

/-- Appends digits to a number as long as it does not exceed `limit`. -/
def takeDigits (limit n : Nat) : List Char → Nat × List Char
  | [] => (n, [])
  | c :: s =>
    if c.isDigit ∧ 10 * n + (c.toNat - '0'.toNat) ≤ limit then
      takeDigits limit (10 * n + (c.toNat - '0'.toNat)) s
    else (n, c :: s)

theorem takeDigits_suffix (limit n : Nat) (s : List Char) : (takeDigits limit n s).2 <:+ s := by
  induction s generalizing n with
  | nil => exact List.suffix_refl _
  | cons c s ih =>
    rw [takeDigits]
    split
    · exact (ih _).trans (List.suffix_cons _ _)
    · exact List.suffix_refl _

/-! ### Doubles -/

/-- The double nearest to a power of ten. -/
def powerOfTen (n : Nat) : Float := Float.ofScientific 1 false n

/-- A double divided by a power of ten, in steps that are doubles themselves. -/
def dividedByPower (x : Float) (n : Nat) : Float :=
  if n ≤ 308 then x / powerOfTen n
  else if x == 0 then x
  else dividedByPower (x / powerOfTen 308) (n - 308)
termination_by n

/-- A significand times a power of ten, unless that is too much for a double. -/
def scaled? (significand : Nat) (exponent : Int) : Option Float :=
  let x := significand.toUInt64.toFloat
  if exponent < 0 then some (dividedByPower x exponent.natAbs)
  else if x == 0 then some x
  else if exponent ≤ 308 then
    let y := x * powerOfTen exponent.toNat
    if y.isInf then none else some y
  else none

/-- A double with a sign. -/
def signed (minus : Bool) (x : Float) : Number := .float (if minus then -x else x)

/-- The double of a significand and an exponent, read up to `s`. -/
def scale (minus : Bool) (significand : Nat) (exponent : Int) (s : List Char) :
    Except Fault (Number × List Char) :=
  match scaled? significand exponent with
  | some x => .ok (signed minus x, s)
  | none => .error (.after .numberOutOfRange s)

/-- The number of digits that all had room, read up to `s`. -/
def integer (minus : Bool) (n : Nat) : Number :=
  if !minus then .natural n
  else if n = 0 ∨ Nat.pow 2 63 < n then signed true n.toUInt64.toFloat
  else .negative n

/-! ### Parts of numbers -/

/-- Reads the sign of an exponent: whether it is a minus. -/
def readSign : List Char → Bool × List Char
  | '+' :: s => (false, s)
  | '-' :: s => (true, s)
  | s => (false, s)

theorem readSign_suffix (s : List Char) : (readSign s).2 <:+ s := by
  unfold readSign
  split
  · exact List.suffix_cons _ _
  · exact List.suffix_cons _ _
  · exact List.suffix_refl _

/-- Reads the exponent of a number, behind its `e`. -/
def readExponent (minus : Bool) (significand : Nat) (exponent : Int) (s : List Char) :
    Except Fault (Number × List Char) :=
  let (down, digits) := readSign s
  if digits = [] then .error (.after .endInValue [])
  else if !startsWithDigit digits then .error (.next .invalidNumber digits)
  else
    let (n, rest) := takeDigits maxExponent 0 digits
    if startsWithDigit rest then
      if significand = 0 ∨ down then .ok (signed minus 0, skipDigits rest)
      else .error (.next .numberOutOfRange rest)
    else scale minus significand (if down then exponent - n else exponent + n) rest

/-- Reads an exponent, if there is one. -/
def readScale (minus : Bool) (significand : Nat) (exponent : Int) (s : List Char) :
    Except Fault (Number × List Char) :=
  match s with
  | 'e' :: rest | 'E' :: rest => readExponent minus significand exponent rest
  | _ => scale minus significand exponent s

/-- Reads the fraction of a number, behind its point, and what follows it. -/
def readFraction (minus : Bool) (significand : Nat) (exponent : Int) (s : List Char) :
    Except Fault (Number × List Char) :=
  if s = [] then .error (.after .endInValue [])
  else if !startsWithDigit s then .error (.next .invalidNumber s)
  else
    let (significand, rest) := takeDigits maxNatural significand s
    readScale minus significand (exponent - (s.length - rest.length : Nat)) (skipDigits rest)

/-- Reads what follows the integer part of a number. -/
def readTail (minus : Bool) (significand dropped : Nat) (s : List Char) :
    Except Fault (Number × List Char) :=
  match s with
  | '.' :: rest => readFraction minus significand dropped rest
  | 'e' :: _ | 'E' :: _ => readScale minus significand dropped s
  | _ =>
    if dropped = 0 then .ok (integer minus significand, s)
    else scale minus significand dropped s

/-- Reads a number behind its sign. -/
def readUnsigned (minus : Bool) (s : List Char) : Except Fault (Number × List Char) :=
  match s with
  | [] => .error (.after .endInValue [])
  | '0' :: rest =>
    if startsWithDigit rest then .error (.next .invalidNumber rest) else readTail minus 0 0 rest
  | _ =>
    if !startsWithDigit s then .error (.next .invalidNumber s)
    else
      let (n, rest) := takeDigits maxNatural 0 s
      let tail := skipDigits rest
      readTail minus n (rest.length - tail.length) tail

/-- Reads a number. -/
def readNumber (s : List Char) : Except Fault (Number × List Char) :=
  match s with
  | '-' :: rest => readUnsigned true rest
  | _ => readUnsigned false s

/-! ### What is left is an end of what was there -/

variable {minus : Bool} {significand : Nat} {exponent : Int} {s r : List Char} {x : Number}

theorem suffix_of_scale (h : scale minus significand exponent s = .ok (x, r)) : r <:+ s := by
  unfold scale at h
  split at h <;> cases h
  exact List.suffix_refl _

theorem suffix_of_readExponent (h : readExponent minus significand exponent s = .ok (x, r)) :
    r <:+ s := by
  simp only [readExponent] at h
  have hdigits := (takeDigits_suffix maxExponent 0 (readSign s).2).trans (readSign_suffix s)
  split at h
  · cases h
  · split at h
    · cases h
    · split at h
      · split at h <;> cases h
        exact (skipDigits_suffix _).trans hdigits
      · exact (suffix_of_scale h).trans hdigits

theorem suffix_of_readScale (h : readScale minus significand exponent s = .ok (x, r)) :
    r <:+ s := by
  unfold readScale at h
  split at h
  · exact (suffix_of_readExponent h).trans (List.suffix_cons _ _)
  · exact (suffix_of_readExponent h).trans (List.suffix_cons _ _)
  · exact suffix_of_scale h

theorem suffix_of_readFraction (h : readFraction minus significand exponent s = .ok (x, r)) :
    r <:+ s := by
  simp only [readFraction] at h
  split at h
  · cases h
  · split at h
    · cases h
    · exact (suffix_of_readScale h).trans ((skipDigits_suffix _).trans (takeDigits_suffix ..))

theorem suffix_of_readTail {dropped : Nat} (h : readTail minus significand dropped s = .ok (x, r)) :
    r <:+ s := by
  unfold readTail at h
  split at h
  · exact (suffix_of_readFraction h).trans (List.suffix_cons _ _)
  · exact suffix_of_readScale h
  · exact suffix_of_readScale h
  · split at h
    · cases h
      exact List.suffix_refl _
    · exact suffix_of_scale h

theorem suffix_of_readUnsigned (h : readUnsigned minus s = .ok (x, r)) : r <:+ s := by
  unfold readUnsigned at h
  split at h
  · cases h
  · split at h
    · cases h
    · exact (suffix_of_readTail h).trans (List.suffix_cons _ _)
  · split at h
    · cases h
    · exact (suffix_of_readTail h).trans ((skipDigits_suffix _).trans (takeDigits_suffix ..))

theorem suffix_of_readNumber (h : readNumber s = .ok (x, r)) : r <:+ s := by
  unfold readNumber at h
  split at h
  · exact (suffix_of_readUnsigned h).trans (List.suffix_cons _ _)
  · exact suffix_of_readUnsigned h

end CommandLine.Json
