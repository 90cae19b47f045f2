import LayeredFix.Toml.Fault

/-!
# Strings, numbers and moments in TOML

Readers for the values that hold no others. A string stands on one line in single or double quotes, or on
any number of lines between three of them; only double quotes know escapes. Digits may have single
underscores between them.
-/

namespace LayeredFix.Toml

/-! ### Strings -/

/-- The control characters. -/
def isControl (c : Char) : Bool := c.toNat < 0x20 || c.toNat == 0x7f

/-- Spaces and tabs removed in front. -/
def skipSpaces (t : Text) : Text := t.dropWhile Text.isSpaceOrTab

/-- Spaces, tabs and newlines. -/
def isFiller (c : Char) : Bool := Text.isSpaceOrTab c || c == '\n'

/-- Characters that may not stand in a string as they are; newlines may in a string on several lines. -/
def isIllegal (onLines : Bool) (c : Char) : Bool :=
  isControl c && c != '\t' && !(onLines && c == '\n')

/-- Reads a string without escapes up to the text that closes it. -/
def readLiteral (onLines : Bool) (close t : Text) : Reading Text :=
  match Text.cutFirst close t with
  | none => .error (.at (.expected close) [])
  | some (inside, rest) =>
    match inside.dropWhile (!isIllegal onLines ·) with
    | [] => .ok (inside, rest)
    | c :: more => .error (.at (.foundInvalid c) (c :: more ++ close ++ rest))

/-- The character of so many hexadecimal digits. -/
def readHexChar (count : Nat) (t : Text) : Reading Char :=
  let digits := t.take count
  if digits.length != count || !digits.all Text.isHexDigit then .error (.at .badHex t)
  else
    let n := digits.foldl (fun n c => n * 16 + (Text.hexValue? c).getD 0) 0
    let rest := t.drop count
    if n < 0xd800 || (0xdfff < n && n < 0x110000) then .ok (Char.ofNat n, rest)
    else .error (.at .noScalar rest)

/-- The character that a letter after a backslash stands for. -/
def escaped? : Char → Option Char
  | 'b' => some '\x08'
  | 't' => some '\t'
  | 'n' => some '\n'
  | 'f' => some '\x0c'
  | 'r' => some '\r'
  | '"' => some '"'
  | '\\' => some '\\'
  | _ => none

/-- Reads an escape after its backslash. In a string on several lines, a backslash at the end of a line
stands for nothing and takes the white space after it along. -/
def readEscape (onLines : Bool) : Text → Reading (Option Char)
  | [] => .error (.at .badEscape [])
  | c :: t =>
    if onLines && c == '\n' then .ok (none, t.dropWhile isFiller)
    else if onLines && Text.isSpaceOrTab c then
      match skipSpaces t with
      | [] => .ok (none, [])
      | '\n' :: t => .ok (none, t.dropWhile isFiller)
      | t => .error (.at .badEscape t)
    else if c == 'u' then (readHexChar 4 t).map fun r => (some r.1, r.2)
    else if c == 'U' then (readHexChar 8 t).map fun r => (some r.1, r.2)
    else
      match escaped? c with
      | some e => .ok (some e, t)
      | none => .error (.at .badEscape t)

/-- Reads the characters of a string in double quotes up to its end; `done` holds the characters read, last
first. -/
def readEscaped (onLines : Bool) : (fuel : Nat) → (done : Text) → Text → Reading Text
  | 0, _, t => .error (.at .unterminatedString t)
  | _, _, [] => .error (.at .unterminatedString [])
  | fuel + 1, done, c :: t =>
    if c == '"' then
      if !onLines then .ok (done.reverse, t)
      else if ['"', '"'].isPrefixOf t then .ok (done.reverse, t.drop 2)
      else readEscaped onLines fuel (c :: done) t
    else if c == '\\' then
      match readEscape onLines t with
      | .error f => .error f
      | .ok (e, t) => readEscaped onLines fuel (e.toList ++ done) t
    else if isIllegal onLines c then .error (.at (.illegal c) (c :: t))
    else readEscaped onLines fuel (c :: done) t

/-- A string in double quotes after the first of them. -/
def readQuoted (onLines : Bool) (t : Text) : Reading Text := readEscaped onLines (t.length + 1) [] t

/-- Up to two quotes that stand right after the three that close a string belong to the string. -/
def withMoreQuotes (quote : Char) : Text × Text → Text × Text
  | (s, a :: b :: t) =>
    if a == quote then if b == quote then (s ++ [a, b], t) else (s ++ [a], b :: t) else (s, a :: b :: t)
  | (s, [a]) => if a == quote then (s ++ [a], []) else (s, [a])
  | (s, []) => (s, [])

/-- A string on several lines, after the quotes that open it; a newline right after those is no part of
it. -/
def readOnLines (quote : Char) (t : Text) : Reading Text :=
  let t := if t.head? == some '\n' then t.drop 1 else t
  (if quote == '"' then readQuoted true t else readLiteral true (List.replicate 3 quote) t).map
    (withMoreQuotes quote)

/-! ### Numbers -/

/-- The digits that go on a row of digits, without the underscores between them, and what is left. -/
def moreDigits (ok : Char → Bool) : Text → Text × Text
  | '_' :: d :: t =>
    if ok d then
      let (ds, rest) := moreDigits ok t
      (d :: ds, rest)
    else ([], '_' :: d :: t)
  | d :: t =>
    if ok d then
      let (ds, rest) := moreDigits ok t
      (d :: ds, rest)
    else ([], d :: t)
  | [] => ([], [])

/-- A row of digits, without the underscores between them, and what is left. -/
def digitRun (ok : Char → Bool) : Text → Text × Text
  | d :: t =>
    if ok d then
      let (ds, rest) := moreDigits ok t
      (d :: ds, rest)
    else ([], d :: t)
  | [] => ([], [])

/-- An integer in another base, from its leading zero on. -/
def readBased? : Text → Option (Int × Text)
  | '0' :: base :: t =>
    let radix : Nat := if base == 'x' then 16 else if base == 'o' then 8 else if base == 'b' then 2 else 0
    let (digits, rest) := digitRun (fun c => (Text.hexValue? c).any (· < radix)) t
    if digits.isEmpty then none
    else some (digits.foldl (fun n c => n * radix + (Text.hexValue? c).getD 0) 0, rest)
  | _ => none

/-- The digits after a decimal point, if there are any. -/
def readFraction (t : Text) : Text × Text :=
  match t with
  | '.' :: t' =>
    let (digits, rest) := digitRun Char.isDigit t'
    if digits.isEmpty then ([], t) else (digits, rest)
  | _ => ([], t)

/-- A sign, if there is one: whether it is a minus sign, and what is left. -/
def readSign : Text → Bool × Text
  | '-' :: t => (true, t)
  | '+' :: t => (false, t)
  | t => (false, t)

/-- The exponent, if there is one. -/
def readExponent (t : Text) : Option Int × Text :=
  match t with
  | c :: t' =>
    if c == 'e' || c == 'E' then
      let (negative, t') := readSign t'
      let (digits, rest) := digitRun Char.isDigit t'
      if digits.isEmpty then (none, t)
      else
        let n : Int := Text.digitsToNat digits
        (some (if negative then -n else n), rest)
    else (none, t)
  | [] => (none, [])

/-- A decimal number, if one begins here. -/
def readDecimal? (t : Text) : Option (Reading Number) :=
  let (negative, t) := readSign t
  let (whole, t) := match t with
    | '0' :: t => (['0'], t)
    | t => digitRun Char.isDigit t
  if whole.isEmpty then none
  else
    let (fraction, t) := readFraction t
    let (exponent, t) := readExponent t
    if fraction.isEmpty && exponent.isNone then
      if Number.maxDigits < whole.length then some (.error (.tooManyDigits whole.length))
      else
        let n : Int := Text.digitsToNat whole
        some (.ok (.int (if negative then -n else n), t))
    else
      let digits := Text.digitsToNat (whole ++ fraction)
      some (.ok (.real (.ofDecimal negative digits (exponent.getD 0 - fraction.length)), t))

/-- An infinity or `nan`, if its name begins here. -/
def readNamedReal? (t : Text) : Option (Binary64 × Text) :=
  let (negative, rest) := readSign t
  if "inf".toList.isPrefixOf rest then some (.infinity negative, rest.drop 3)
  else if "nan".toList.isPrefixOf rest then some (.nan, rest.drop 3)
  else none

/-- A number, if one begins here. -/
def readNumber? (t : Text) : Option (Reading Number) :=
  match readBased? t with
  | some (n, rest) => some (.ok (.int n, rest))
  | none =>
    match readDecimal? t with
    | some r => some r
    | none => (readNamedReal? t).map fun r => .ok (.real r.1, r.2)

/-! ### Moments -/

/-- A number of so many digits between two bounds. -/
def readFixed? (count least most : Nat) (t : Text) : Option (Nat × Text) :=
  let digits := t.take count
  let n := Text.digitsToNat digits
  if digits.length == count && digits.all Char.isDigit && least ≤ n && n ≤ most then some (n, t.drop count)
  else none

/-- A character, if it comes next. -/
def readChar? (c : Char) : Text → Option Text
  | d :: t => if d == c then some t else none
  | [] => none

/-- The microseconds of a fraction of a second; further digits are dropped. -/
def readMicros (t : Text) : Nat × Text :=
  match t with
  | '.' :: t' =>
    let digits := t'.takeWhile Char.isDigit
    if digits.isEmpty then (0, t)
    else
      let first := digits.take 6
      (Text.digitsToNat first * Binary64.pow10 (6 - first.length), t'.dropWhile Char.isDigit)
  | _ => (0, t)

/-- Hours and minutes, if they begin here. -/
def readMinutes? (t : Text) : Option (Nat × Nat × Text) := do
  let (hour, t) ← readFixed? 2 0 23 t
  let t ← readChar? ':' t
  let (minute, t) ← readFixed? 2 0 59 t
  return (hour, minute, t)

/-- A time of the day, if one begins here. -/
def readTime? (t : Text) : Option (ClockTime × Text) := do
  let (hour, minute, t) ← readMinutes? t
  let t ← readChar? ':' t
  let (second, t) ← readFixed? 2 0 59 t
  let (micros, t) := readMicros t
  return (⟨hour, minute, second, micros⟩, t)

/-- The distance from universal time, if it is written here. -/
def readDistance (t : Text) : Option Int × Text :=
  match t with
  | c :: t' =>
    if c == 'Z' || c == 'z' then (some 0, t')
    else if c == '+' || c == '-' then
      match readMinutes? t' with
      | none => (none, t)
      | some (hour, minute, rest) =>
        let minutes : Int := 60 * hour + minute
        (some (if c == '-' then -minutes else minutes), rest)
    else (none, t)
  | [] => (none, [])

/-- The form of a day, if one begins here; the calendar need not have the day. -/
def readDate? (t : Text) : Option (Date × Text) := do
  let (year, t) ← readFixed? 4 0 9999 t
  let t ← readChar? '-' t
  let (month, t) ← readFixed? 2 1 12 t
  let t ← readChar? '-' t
  let (day, t) ← readFixed? 2 1 31 t
  return (⟨year, month, day⟩, t)

/-- The time that follows a day after a space or a letter T, if there is one. -/
def readTimeOfDay? : Text → Option (ClockTime × Text)
  | c :: t => if c == 'T' || c == 't' || c == ' ' then readTime? t else none
  | [] => none

/-- A moment, if one begins here. -/
def readMoment? (t : Text) : Option (Reading Moment) :=
  match readDate? t with
  | some (d, rest) =>
    if !d.isValid then some (.error (.at .badMoment t))
    else
      match readTimeOfDay? rest with
      | none => some (.ok (.date d, rest))
      | some (time, rest) =>
        let (distance, rest) := readDistance rest
        some (.ok (.dateTime d time distance, rest))
  | none => (readTime? t).map fun r => .ok (.time r.1, r.2)

end LayeredFix.Toml
