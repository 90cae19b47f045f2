import LayeredFix.Number.Shortest
import LayeredFix.Text.Basic

/-!
# Numbers

A number is an integer of any size or a floating-point number. The two kinds stay apart: a sum of
integers is exact, a sum with a floating-point number is rounded. Comparison is exact throughout.
-/

namespace LayeredFix

/-- An integer or a floating-point number. -/
inductive Number where
  /-- An integer. -/
  | int (n : Int)
  /-- A floating-point number. -/
  | real (x : Binary64)
  deriving DecidableEq, Repr, Inhabited

namespace Number

/-- The number as a floating-point number. -/
def toReal : Number → Binary64
  | int n => .ofInt n
  | real x => x

/-- The number as an unrounded sign, mantissa and exponent, for comparison only. -/
def exact : Number → Binary64
  | int n => .finite (n < 0) n.natAbs 0
  | real x => x

/-- The sum; exact for integers. -/
def add : Number → Number → Number
  | int a, int b => int (a + b)
  | a, b => real (a.toReal.add b.toReal)

/-- The difference; exact for integers. -/
def sub : Number → Number → Number
  | int a, int b => int (a - b)
  | a, b => real (a.toReal.sub b.toReal)

/-- Whether one number is less than another, compared exactly. -/
def lt (a b : Number) : Bool := a.exact.lt b.exact

/-- The integer that the number stands for, if it is one. -/
def toInt? : Number → Option Int
  | int n => some n
  | real x => x.toInt?

/-- Whether the number is zero. -/
def isZero (a : Number) : Bool := a.toInt? == some 0

/-- The most digits that a decimal integer may have where one is read. -/
def maxDigits : Nat := 4300

/-- The wording of the refusal of an integer with so many digits. -/
def tooManyDigits (count : Nat) : String :=
  s!"Exceeds the limit ({maxDigits} digits) for integer string conversion: value has {count} digits; " ++
    "use sys.set_int_max_str_digits() to increase the limit"

end Number

namespace Text

/-- The value of a row of ASCII digits. -/
def digitsToNat (t : Text) : Nat := t.foldl (fun n c => 10 * n + (c.toNat - '0'.toNat)) 0

/-- An integer in decimal. -/
def ofInt (n : Int) : Text := (toString n).toList

/-- A natural number in decimal. -/
def ofNat (n : Nat) : Text := (toString n).toList

/-- A natural number in decimal with zeros in front, at least so many digits. -/
def padded (width n : Nat) : Text :=
  let digits := ofNat n
  List.replicate (width - digits.length) '0' ++ digits

end Text

end LayeredFix
