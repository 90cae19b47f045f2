/-!
# Binary floating-point numbers of 64 bits

A finite number is a sign, a mantissa below `2 ^ 53` and an exponent of two between `-1074` and `971`; it
stands for `± mantissa * 2 ^ exponent`. Numbers made here are in normal form: the mantissa has 53 bits,
or the exponent is `-1074`.

A rational number becomes the nearest of these, a half going to the even neighbour. All arithmetic is
done exactly on integers and rounded once at the end.
-/

namespace LayeredFix

/-- A binary floating-point number of 64 bits. -/
inductive Binary64 where
  /-- `± mantissa * 2 ^ exponent`. -/
  | finite (negative : Bool) (mantissa : Nat) (exponent : Int)
  /-- An infinity. -/
  | infinity (negative : Bool)
  /-- Not a number. -/
  | nan
  deriving DecidableEq, Repr, Inhabited

namespace Binary64

/-- Two to a power. -/
def pow2 (n : Nat) : Nat := Nat.pow 2 n

/-- Ten to a power. -/
def pow10 (n : Nat) : Nat := Nat.pow 10 n

/-- The number zero. -/
def zero : Binary64 := finite false 0 (-1074)

/-- `num / den` rounded to an integer, a half going to the even neighbour. -/
def roundHalfEven (num den : Nat) : Nat :=
  let q := num / den
  let r := num % den
  if den < 2 * r then q + 1
  else if 2 * r < den then q
  else if q % 2 == 0 then q else q + 1

/-- `num / den` as a numerator and a denominator scaled by `2 ^ (-e)`. -/
def scaleDown (num den : Nat) (e : Int) : Nat × Nat :=
  if 0 ≤ e then (num, den * pow2 e.toNat) else (num * pow2 (-e).toNat, den)

/-- The exponent `k` with `2 ^ k ≤ num / den < 2 ^ (k + 1)`, for a positive fraction. -/
def floorLog2 (num den : Nat) : Int :=
  let guess : Int := (Nat.log2 num : Int) - (Nat.log2 den : Int)
  let (n, d) := scaleDown num den guess
  if d ≤ n then guess else guess - 1

/-- The number nearest to `± num / den`; `den` is positive. -/
def ofRatio (negative : Bool) (num den : Nat) : Binary64 :=
  if num == 0 then finite negative 0 (-1074)
  else
    let e := max (floorLog2 num den - 52) (-1074)
    let (n, d) := scaleDown num den e
    let m := roundHalfEven n d
    let (m, e) := if m == pow2 53 then (pow2 52, e + 1) else (m, e)
    if 971 < e then infinity negative else finite negative m e

/-- The number nearest to `± mantissa * 2 ^ exponent`. -/
def ofScaled (negative : Bool) (mantissa : Nat) (exponent : Int) : Binary64 :=
  let (n, d) := scaleDown mantissa 1 (-exponent)
  ofRatio negative n d

/-- The number nearest to an integer. -/
def ofInt (n : Int) : Binary64 := ofRatio (n < 0) n.natAbs 1

/-- The number of decimal digits. -/
def digitCount (n : Nat) : Nat := (Nat.toDigits 10 n).length

/-- The number nearest to `± digits * 10 ^ exponent`. Exponents beyond the range of the format are decided
by the size of the number alone. -/
def ofDecimal (negative : Bool) (digits : Nat) (exponent : Int) : Binary64 :=
  let size := exponent + digitCount digits
  if digits == 0 || size < -330 then finite negative 0 (-1074)
  else if 310 < size then infinity negative
  else if 0 ≤ exponent then ofRatio negative (digits * pow10 exponent.toNat) 1
  else ofRatio negative digits (pow10 (-exponent).toNat)

/-- The mantissa with its sign. -/
def signed (negative : Bool) (mantissa : Nat) : Int :=
  if negative then -(mantissa : Int) else mantissa

/-- The number with the other sign. -/
def neg : Binary64 → Binary64
  | finite s m e => finite (!s) m e
  | infinity s => infinity (!s)
  | nan => nan

/-- The sum, rounded once. -/
def add : Binary64 → Binary64 → Binary64
  | finite s m e, finite s' m' e' =>
    let low := min e e'
    let sum := signed s m * pow2 (e - low).toNat + signed s' m' * pow2 (e' - low).toNat
    ofScaled (if sum == 0 then s && s' else sum < 0) sum.natAbs low
  | infinity s, infinity s' => if s == s' then infinity s else nan
  | infinity s, finite _ _ _ => infinity s
  | finite _ _ _, infinity s => infinity s
  | nan, _ => nan
  | _, nan => nan

/-- The difference, rounded once. -/
def sub (a b : Binary64) : Binary64 := add a b.neg

/-- Whether one number is less than another; nothing is less or greater than `nan`. -/
def lt : Binary64 → Binary64 → Bool
  | finite s m e, finite s' m' e' =>
    let low := min e e'
    signed s m * pow2 (e - low).toNat < signed s' m' * pow2 (e' - low).toNat
  | infinity s, infinity s' => s && !s'
  | infinity s, finite _ _ _ => s
  | finite _ _ _, infinity s => !s
  | nan, _ => false
  | _, nan => false

/-- The integer that the number stands for, if it is one. -/
def toInt? : Binary64 → Option Int
  | finite s m e =>
    if 0 ≤ e then some (signed s (m * pow2 e.toNat))
    else
      let d := pow2 (-e).toNat
      if m % d == 0 then some (signed s (m / d)) else none
  | _ => none

/-- Whether the number is neither infinite nor `nan`. -/
def isFinite : Binary64 → Bool
  | finite _ _ _ => true
  | _ => false

end Binary64

end LayeredFix
