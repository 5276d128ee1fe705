/-!
# CommandLine.Decimal.Shortest

The shortest decimal that stands for a double.

A decimal stands for a double if it lies among the reals that round to it: from halfway
to the neighbour below up to halfway to the neighbour above, the ends included if the
significand is even. Of the decimals with the fewest digits among these the nearest one
is taken, and of two equally near ones that with an even last digit.

Every double is a decimal itself, only with many digits. So the double and the two ends
are first written as natural numbers with one decimal exponent (`Range`), and the rest
is division by powers of ten.
-/

namespace CommandLine.Decimal

/-- The number `digits * 10 ^ exponent`. -/
structure Number where
  digits : Nat
  exponent : Int
  deriving Repr, DecidableEq

/-- The number of digits of a natural number. -/
def digitCount (n : Nat) : Nat := (Nat.toDigits 10 n).length

/-- A number without the zeros at the end of its digits. -/
def Number.strip (x : Number) : Number :=
  if 0 < x.digits ∧ x.digits % 10 = 0 then Number.strip ⟨x.digits / 10, x.exponent + 1⟩ else x
termination_by x.digits
decreasing_by exact Nat.div_lt_self (by omega) (by decide)

/-- The exponent of the leading digit. -/
def Number.leading (x : Number) : Int := (digitCount x.digits : Int) - 1 + x.exponent

/-- A positive double and the reals that round to it, all times `10 ^ (-exponent)`. -/
structure Range where
  low : Nat
  value : Nat
  high : Nat
  /-- Whether the two ends belong to the range. -/
  closed : Bool
  exponent : Int
  deriving Repr

/-- The range of `m * 2 ^ q`. If `narrow`, the neighbour below is only half as far away
as the neighbour above. -/
def Range.ofBinary (m : Nat) (q : Int) (narrow : Bool) : Range :=
  let scale := if 2 ≤ q then Nat.pow 2 (q - 2).toNat else Nat.pow 5 (2 - q).toNat
  { low := (4 * m - if narrow then 1 else 2) * scale
    value := 4 * m * scale
    high := (4 * m + 2) * scale
    closed := m % 2 == 0
    exponent := min (q - 2) 0 }

/-- Whether a number lies in the range. -/
def Range.contains (r : Range) (n : Nat) : Bool :=
  if r.closed then r.low ≤ n && n ≤ r.high else r.low < n && n < r.high

/-- The multiple of `unit` in the range that is nearest to the value, if there is one,
divided by `unit`. -/
def Range.multiple? (r : Range) (unit : Nat) : Option Nat :=
  let below := r.value / unit
  let above := below + 1
  match r.contains (below * unit), r.contains (above * unit) with
  | true, true =>
    match compare (r.value - below * unit) (above * unit - r.value) with
    | .lt => some below
    | .gt => some above
    | .eq => some (if below % 2 = 0 then below else above)
  | true, false => some below
  | false, true => some above
  | false, false => none

/-- The shortest decimal in a range. Seventeen digits are enough for every double; the
value itself is there for ranges of other origin. -/
def Range.shortest (r : Range) : Number :=
  let length := digitCount r.value
  let found := (List.range 17).findSome? fun n =>
    let dropped := length - (n + 1)
    (r.multiple? (Nat.pow 10 dropped)).map fun digits => Number.mk digits (r.exponent + dropped)
  (found.getD ⟨r.value, r.exponent⟩).strip

/-- The shortest decimal for a positive finite double. -/
def shortest (x : Float) : Number :=
  let bits := x.toBits.toNat
  let exponent : Nat := bits / Nat.pow 2 52 % Nat.pow 2 11
  let fraction : Nat := bits % Nat.pow 2 52
  let range :=
    if exponent = 0 then Range.ofBinary fraction (-1074) false
    else
      Range.ofBinary (Nat.pow 2 52 + fraction) ((exponent : Int) - 1075)
        (fraction == 0 && exponent > 1)
  range.shortest

/-! ### Layout -/

/-- Digits from the leading one on, and the exponent of the leading one, as text: with a
decimal point from `1e-5` up to below `1e16`, else with an exponent that has a sign. -/
def layout (digits : List Char) (leading : Int) : List Char :=
  if -5 ≤ leading ∧ leading < 0 then
    ['0', '.'] ++ List.replicate (-leading - 1).toNat '0' ++ digits
  else if 0 ≤ leading ∧ leading < 16 then
    let whole := leading.toNat + 1
    let fraction := digits.drop whole
    (digits ++ List.replicate (whole - digits.length) '0').take whole ++ ['.']
      ++ if fraction = [] then ['0'] else fraction
  else
    let point := if digits.length ≤ 1 then digits else digits.take 1 ++ ['.'] ++ digits.drop 1
    point ++ ['e', if leading < 0 then '-' else '+'] ++ Nat.toDigits 10 leading.natAbs

/-- A finite double as text. -/
def text (x : Float) : String :=
  let sign := if x.toBits.toNat < Nat.pow 2 63 then [] else ['-']
  let magnitude :=
    if x == 0 then ['0', '.', '0']
    else
      let number := shortest x.abs
      layout (Nat.toDigits 10 number.digits) number.leading
  String.ofList (sign ++ magnitude)

end CommandLine.Decimal
