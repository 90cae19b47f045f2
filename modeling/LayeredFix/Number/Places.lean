import LayeredFix.Number.Basic

/-!
# Numbers with a fixed number of places

A floating-point number may be written with so many places after the point, with so many places and an
exponent of ten, or with so many digits in whichever of the two forms suits its size. The number is rounded
once, exactly, and a half goes to the even neighbour.
-/

namespace LayeredFix

/-- The forms of a number with a fixed number of places. -/
inductive PlacesForm where
  /-- Places after the point. -/
  | point
  /-- One digit before the point, places after it, and an exponent of ten. -/
  | exponent
  /-- So many digits in all: with an exponent if the number is very small or has more digits before the
  point. -/
  | digits
  deriving DecidableEq, Repr

namespace Binary64

/-- The positive number `mantissa * 2 ^ exponent` times `10 ^ shift`, rounded to an integer. -/
def shifted (mantissa : Nat) (exponent shift : Int) : Nat :=
  roundHalfEven (mantissa * pow2 exponent.toNat * pow10 shift.toNat)
    (pow2 (-exponent).toNat * pow10 (-shift).toNat)

/-- A number rounded to one digit and so many places: all digits read as a number, and the exponent of ten of
the first. -/
def leadingDigits (places mantissa : Nat) (exponent : Int) : Nat × Int :=
  if mantissa == 0 then (0, 0)
  else
    let first := (Decimal.Interval.around mantissa exponent).floorLog10
    let n := shifted mantissa exponent (places - first)
    if n == pow10 (places + 1) then (pow10 places, first + 1) else (n, first)

/-- Digits with a point before the last `places` of them; without places the point is left out unless it is
to be kept. -/
def withPoint (places : Nat) (keep : Bool) (n : Nat) : Text :=
  let ds := Text.padded (places + 1) n
  let whole := ds.take (ds.length - places)
  if places == 0 then if keep then whole ++ ['.'] else whole
  else whole ++ '.' :: ds.drop (ds.length - places)

/-- An exponent of ten: its sign and at least two digits. -/
def exponentText (n : Int) : Text := 'e' :: (if n < 0 then '-' else '+') :: Text.padded 2 n.natAbs

/-- A number in digits without the zeros that end its places, and without a point that ends it. -/
def withoutEndZeros (t : Text) : Text :=
  if t.contains '.' then Text.dropRightWhile (· == '.') (Text.dropRightWhile (· == '0') t) else t

/-- The least exponent of the first digit that is written without an exponent where the form is free. -/
def leastPointed : Int := -4

/-- The positive number `mantissa * 2 ^ exponent` in a form with a fixed number of places. `keep` keeps a point
without places after it, and zeros at the end where the form is free. -/
def placesText (form : PlacesForm) (places : Nat) (keep : Bool) (mantissa : Nat) (exponent : Int) : Text :=
  match form with
  | .point => withPoint places keep (shifted mantissa exponent places)
  | .exponent =>
    let (n, first) := leadingDigits places mantissa exponent
    withPoint places keep n ++ exponentText first
  | .digits =>
    let count := max places 1
    let (n, first) := leadingDigits (count - 1) mantissa exponent
    let trim := if keep then id else withoutEndZeros
    if leastPointed ≤ first && first < count then trim (withPoint (count - 1 - first).toNat keep n)
    else trim (withPoint (count - 1) keep n) ++ exponentText first

end Binary64

end LayeredFix
