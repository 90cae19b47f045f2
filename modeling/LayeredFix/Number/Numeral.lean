import LayeredFix.Number.Basic

/-!
# Numerals

How people write numbers in settings: integers may carry a sign, zeros in front, underscores between digits
and a fraction of zeros; floating-point numbers may lack the digits on one side of the point, and infinities
have names. Only ASCII digits count.

`Numeral.int?` and `Numeral.real?` read a whole text; blanks around the numeral are passed over.
-/

namespace LayeredFix.Numeral

/-- White space: blanks other than the information separators. -/
def isSpace (c : Char) : Bool := Text.isBlank c && !(0x1c ≤ c.toNat && c.toNat ≤ 0x1f)

/-- White space removed at both ends. -/
def trim (t : Text) : Text := Text.dropRightWhile isSpace (t.dropWhile isSpace)

/-- Why a text is no integer. -/
inductive IntFault where
  /-- It is no numeral. -/
  | malformed
  /-- It is too long. -/
  | tooLong
  deriving DecidableEq, Repr

/-- An integer as it is always written: an optional minus sign, then digits without a zero in front. A row of
digits that is too long is refused before what follows it is looked at. -/
def strictInt? (t : Text) : Except IntFault Int :=
  let (negative, body) := match t with
    | '-' :: t => (true, t)
    | t => (false, t)
  let digits := body.takeWhile Char.isDigit
  if body == ['0'] then .ok 0
  else if digits.isEmpty || digits.head? == some '0' then .error .malformed
  else if Number.maxDigits < digits.length then .error .tooLong
  else if digits.length < body.length then .error .malformed
  else
    let n : Int := Text.digitsToNat digits
    .ok (if negative then -n else n)

/-- What is left after zeros and underscores that follow a first zero; `last` is the character before. A minus
sign may come after them. -/
def dropZeros (last : Char) : Text → Option Text
  | [] => some [last]
  | c :: t =>
    if c == '0' || c == '_' then dropZeros c t
    else if c.isDigit || c == '-' then some (c :: t)
    else if c == '.' then some (last :: c :: t)
    else none

/-- A numeral without the zeros in front of its first digit; none if it begins with neither a digit nor a
minus sign. -/
def withoutZeros : Text → Option Text
  | [] => none
  | c :: t =>
    if c == '0' then dropZeros c t
    else if c.isDigit || c == '-' then some (c :: t)
    else none

/-- A numeral without a fraction that consists of zeros, at least one of them. -/
def withoutFraction (t : Text) : Text :=
  let zeros := (t.dropWhile (· != '.')).drop 1
  if !zeros.isEmpty && zeros.all (· == '0') then t.takeWhile (· != '.') else t

/-- Whether underscores stand at an end or next to each other. -/
def hasStrayUnderscore (t : Text) : Bool :=
  t.head? == some '_' || t.getLast? == some '_' || Text.occursIn ['_', '_'] t

/-- A numeral without underscores, none of which may stand at an end or next to another. -/
def withoutUnderscores (t : Text) : Option Text :=
  if hasStrayUnderscore t then none else some (t.filter (· != '_'))

/-- A numeral without its plus sign, which no minus sign may follow. -/
def withoutPlus : Text → Text
  | '+' :: '-' :: t => '+' :: '-' :: t
  | '+' :: t => t
  | t => t

/-- An integer without sign in the form in which it is always written. -/
def plainDigits? (t : Text) : Option Text :=
  (withoutZeros t).map fun t =>
    let whole := withoutFraction t
    (withoutUnderscores whole).getD whole

/-- An integer in the form in which it is always written; a minus sign in front stays. -/
def plainInt? (t : Text) : Option Text :=
  match withoutPlus (trim t) with
  | '-' :: t => (plainDigits? t).map ('-' :: ·)
  | t => plainDigits? t

/-- The integer that a text stands for. -/
def int? (t : Text) : Except IntFault Int :=
  match plainInt? t with
  | none => .error .malformed
  | some t => strictInt? t

/-- The exponent of a numeral, from its letter on; the empty text is the exponent zero. -/
def exponent? : Text → Option Int
  | [] => some 0
  | c :: t =>
    if c != 'e' && c != 'E' then none
    else
      let (negative, digits) := match t with
        | '-' :: t => (true, t)
        | '+' :: t => (false, t)
        | t => (false, t)
      if digits.isEmpty || !digits.all Char.isDigit then none
      else
        let n : Int := Text.digitsToNat digits
        some (if negative then -n else n)

/-- The number that a numeral without sign stands for. -/
def unsignedReal? (negative : Bool) (t : Text) : Option Binary64 :=
  let lower := String.ofList (t.map Char.toLower)
  if lower == "inf" || lower == "infinity" then some (.infinity negative)
  else if lower == "nan" then some .nan
  else
    let whole := t.takeWhile Char.isDigit
    let t := t.dropWhile Char.isDigit
    let (fraction, t) := match t with
      | '.' :: t => (t.takeWhile Char.isDigit, t.dropWhile Char.isDigit)
      | t => ([], t)
    if whole.isEmpty && fraction.isEmpty then none
    else
      match exponent? t with
      | none => none
      | some e => some (.ofDecimal negative (Text.digitsToNat (whole ++ fraction)) (e - fraction.length))

/-- The number that a numeral stands for, nothing around it. -/
def strictReal? : Text → Option Binary64
  | '-' :: t => unsignedReal? true t
  | '+' :: t => unsignedReal? false t
  | t => unsignedReal? false t

/-- The number that a text stands for. -/
def real? (t : Text) : Option Binary64 :=
  match strictReal? (trim t) with
  | some x => some x
  | none => (withoutUnderscores t).bind strictReal?

end LayeredFix.Numeral
