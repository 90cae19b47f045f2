import LayeredFix.Number.Binary64

/-!
# The shortest decimal of a floating-point number

`Decimal.shortest` gives the fewest decimal digits that read back as the same number, and of those the
ones nearest to it. `DecimalStyle` says how digits and exponent are written down.
-/

namespace LayeredFix

/-- A decimal number without sign: `digits * 10 ^ exponent`. -/
structure Decimal where
  /-- The digits, read as a number. -/
  digits : Nat
  /-- The exponent of ten of the last digit. -/
  exponent : Int
  deriving DecidableEq, Repr

namespace Decimal

open Binary64 (pow2 pow10)

/-- A positive number with the open or closed interval of the reals that round to it, all over the same
denominator. -/
structure Interval where
  /-- The lower end. -/
  low : Nat
  /-- The number. -/
  value : Nat
  /-- The upper end. -/
  high : Nat
  /-- The common denominator. -/
  denominator : Nat
  /-- Whether the ends belong to the interval. -/
  closed : Bool

/-- The reals that round to `mantissa * 2 ^ exponent`: half a unit to either side, a quarter below a power
of two, and the ends go to an even mantissa. -/
def Interval.around (mantissa : Nat) (exponent : Int) : Interval :=
  let narrow := mantissa == pow2 52 && -1074 < exponent
  let up := pow2 exponent.toNat
  let down := pow2 (-exponent).toNat
  { low := (4 * mantissa - if narrow then 1 else 2) * up
    value := 4 * mantissa * up
    high := (4 * mantissa + 2) * up
    denominator := 4 * down
    closed := mantissa % 2 == 0 }

/-- Whether `digits * 10 ^ exponent` lies in the interval. -/
def Interval.holds (i : Interval) (digits : Nat) (exponent : Int) : Bool :=
  let point := digits * pow10 exponent.toNat * i.denominator
  let scale := pow10 (-exponent).toNat
  if i.closed then i.low * scale ≤ point && point ≤ i.high * scale
  else i.low * scale < point && point < i.high * scale

/-- The number of the interval over `10 ^ exponent`, rounded down. -/
def Interval.gridFloor (i : Interval) (exponent : Int) : Nat :=
  i.value * pow10 (-exponent).toNat / (i.denominator * pow10 exponent.toNat)

/-- The exponent `k` with `10 ^ k ≤ value < 10 ^ (k + 1)`, for a positive number. -/
def Interval.floorLog10 (i : Interval) : Int :=
  let guess : Int := (Binary64.digitCount i.value : Int) - (Binary64.digitCount i.denominator : Int)
  if i.gridFloor guess == 0 then guess - 1 else guess

/-- Of the two neighbours of the number on the grid of multiples of `10 ^ exponent`, the one in the
interval; if both are, the nearer, and if both are equally near, the even one. -/
def Interval.nearestOnGrid? (i : Interval) (exponent : Int) : Option Nat :=
  let below := i.gridFloor exponent
  let above := below + 1
  match i.holds below exponent, i.holds above exponent with
  | false, false => none
  | true, false => some below
  | false, true => some above
  | true, true =>
    let twice := 2 * i.value * pow10 (-exponent).toNat
    let middle := (below + above) * pow10 exponent.toNat * i.denominator
    if twice < middle then some below
    else if middle < twice then some above
    else if below % 2 == 0 then some below else some above

/-- The first grid with a hit, from `count` grids, the coarsest first. -/
def Interval.search (i : Interval) : (count : Nat) → (exponent : Int) → Decimal
  | 0, exponent => ⟨i.gridFloor exponent, exponent⟩
  | count + 1, exponent =>
    match i.nearestOnGrid? exponent with
    | some digits => ⟨digits, exponent⟩
    | none => i.search count (exponent - 1)

/-- Zeros at the end of the digits moved into the exponent. -/
def trimZeros : (fuel : Nat) → Decimal → Decimal
  | 0, d => d
  | fuel + 1, d =>
    if d.digits != 0 && d.digits % 10 == 0 then trimZeros fuel ⟨d.digits / 10, d.exponent + 1⟩ else d

/-- The fewest digits that read back as `mantissa * 2 ^ exponent`, and of those the nearest. Seventeen
digits always suffice. -/
def shortest (mantissa : Nat) (exponent : Int) : Decimal :=
  if mantissa == 0 then ⟨0, 0⟩
  else
    let i := Interval.around mantissa exponent
    trimZeros 20 (i.search 18 i.floorLog10)

end Decimal

/-- How a floating-point number is written down. -/
structure DecimalStyle where
  /-- The least exponent of the first digit that is written without an exponent. -/
  positionalFrom : Int
  /-- The exponent of the first digit from which on an exponent is written. -/
  positionalBelow : Int
  /-- The least number of digits of an exponent. -/
  exponentWidth : Nat
  /-- The word for infinity. -/
  infinity : String
  /-- The word for a number that is none. -/
  nan : String

namespace DecimalStyle

/-- A numeral with zeros in front up to a width. -/
def padLeft (width : Nat) (s : String) : String :=
  String.ofList (List.replicate (width - s.length) '0') ++ s

/-- A decimal without sign: without exponent it has a point and at least one place after it. -/
def writeDecimal (style : DecimalStyle) (d : Decimal) : String :=
  let digits := toString d.digits
  let first := d.exponent + digits.length - 1
  if style.positionalFrom ≤ first && first < style.positionalBelow then
    if 0 ≤ d.exponent then digits ++ String.ofList (List.replicate d.exponent.toNat '0') ++ ".0"
    else if first < 0 then
      "0." ++ String.ofList (List.replicate (-first - 1).toNat '0') ++ digits
    else
      String.ofList (digits.toList.take (first + 1).toNat) ++ "." ++
        String.ofList (digits.toList.drop (first + 1).toNat)
  else
    let tail := digits.toList.drop 1
    let fraction := if tail.isEmpty then "" else "." ++ String.ofList tail
    let sign := if first < 0 then "-" else "+"
    String.ofList (digits.toList.take 1) ++ fraction ++ "e" ++ sign ++
      padLeft style.exponentWidth (toString first.natAbs)

/-- A floating-point number in its shortest form. -/
def write (style : DecimalStyle) : Binary64 → String
  | .finite s m e => (if s then "-" else "") ++ style.writeDecimal (Decimal.shortest m e)
  | .infinity s => (if s then "-" else "") ++ style.infinity
  | .nan => style.nan

/-- Plain numbers: no exponent from `0.0001` up to below `10 ^ 16`, at least two digits in an exponent. -/
def plain : DecimalStyle := ⟨-4, 16, 2, "inf", "nan"⟩

end DecimalStyle

end LayeredFix
