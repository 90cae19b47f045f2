import LayeredFix.Json.Basic
import LayeredFix.Text.Hex
import LayeredFix.Text.Position

/-!
# Reading JSON

`Json.parse` reads a text that holds one JSON value between blanks. It is lenient in one thing: `NaN`,
`Infinity` and `-Infinity` are numbers. Integers of more than 4300 digits are refused, and so are lists and
objects that stand too deep inside others.

The readers below take what is left of the text and give back a value and what is left after it; a fault
names what is left at the place of the fault, from which `Json.parse` computes the position.
-/

namespace LayeredFix.Json

/-- What is wrong at a place. -/
inductive ParseCause where
  /-- No value begins here. -/
  | expectingValue
  /-- No member name begins here. -/
  | expectingName
  /-- No colon stands here. -/
  | expectingColon
  /-- No comma stands here. -/
  | expectingComma
  /-- The string that begins here does not end. -/
  | unterminatedString
  /-- A control character stands in a string. -/
  | controlCharacter
  /-- A backslash is followed by a character that makes no escape. -/
  | badEscape
  /-- Four hexadecimal digits are missing. -/
  | badUnicodeEscape
  /-- Something follows the value. -/
  | extraData
  /-- The text begins with a byte order mark. -/
  | byteOrderMark
  deriving DecidableEq, Repr

/-- The values that hold others. -/
inductive Holder where
  /-- A list. -/
  | list
  /-- An object. -/
  | object
  deriving DecidableEq, Repr

/-- How many lists and objects may stand one inside the other. -/
def maxNesting : Nat := 987

/-- Why a text is no JSON value. -/
inductive ParseError where
  /-- Something is wrong at a place. -/
  | at (cause : ParseCause) (position : Position)
  /-- An integer has too many digits. -/
  | tooManyDigits (count : Nat)
  /-- A list or an object stands too deep inside others. -/
  | tooDeep (holder : Holder)
  deriving DecidableEq, Repr

/-- A fault inside the readers: `at` names what is left of the text at its place. -/
inductive Fault where
  /-- Something is wrong where this is left of the text. -/
  | at (cause : ParseCause) (rest : Text)
  /-- An integer has too many digits. -/
  | tooManyDigits (count : Nat)
  /-- A list or an object stands too deep inside others. -/
  | tooDeep (holder : Holder)

/-- The outcome of a reader: a value and what is left, or a fault. -/
abbrev Reading (α : Type) := Except Fault (α × Text)

/-- The blanks between the parts of a JSON text. -/
def isBlank (c : Char) : Bool := c == ' ' || c == '\t' || c == '\n' || c == '\r'

/-- What is left after blanks. -/
def skipBlanks (t : Text) : Text := t.dropWhile isBlank

/-- The value of four hexadecimal digits, if something follows them. -/
def readHex4? : Text → Option (Nat × Text)
  | a :: b :: c :: d :: e :: t => do
    let a ← Text.hexValue? a
    let b ← Text.hexValue? b
    let c ← Text.hexValue? c
    let d ← Text.hexValue? d
    return (((a * 16 + b) * 16 + c) * 16 + d, e :: t)
  | _ => none

/-- The character that a letter after a backslash stands for. -/
def escaped? : Char → Option Char
  | '"' => some '"'
  | '\\' => some '\\'
  | '/' => some '/'
  | 'b' => some '\x08'
  | 'f' => some '\x0c'
  | 'n' => some '\n'
  | 'r' => some '\r'
  | 't' => some '\t'
  | _ => none

/-- The second half of a surrogate pair, if an escape for one comes next. -/
def readLowSurrogate? : Text → Option (Nat × Text)
  | '\\' :: 'u' :: t =>
    match readHex4? t with
    | some (low, rest) => if 0xdc00 ≤ low && low < 0xe000 then some (low, rest) else none
    | none => none
  | _ => none

/-- The character of a `\u` escape whose number has been read, and what is left. A half of a surrogate
pair that stands alone becomes the replacement character. -/
def readScalar (n : Nat) (rest : Text) : Char × Text :=
  if 0xd800 ≤ n && n < 0xdc00 then
    match readLowSurrogate? rest with
    | some (low, rest') => (Char.ofNat (0x10000 + (n - 0xd800) * 0x400 + (low - 0xdc00)), rest')
    | none => (Char.ofNat 0xfffd, rest)
  else if 0xdc00 ≤ n && n < 0xe000 then (Char.ofNat 0xfffd, rest)
  else (Char.ofNat n, rest)

/-- Reads the characters of a string up to its closing quote. `opening` is the text from the opening quote
on, `done` holds the characters read, last first. The fuel bounds their number. -/
def readString (opening : Text) : (fuel : Nat) → (done : Text) → Text → Reading Text
  | 0, _, _ => .error (.at .unterminatedString opening)
  | _, _, [] => .error (.at .unterminatedString opening)
  | fuel + 1, done, c :: t =>
    if c == '"' then .ok (done.reverse, t)
    else if c == '\\' then
      match t with
      | [] => .error (.at .unterminatedString opening)
      | 'u' :: t' =>
        match readHex4? t' with
        | none => .error (.at .badUnicodeEscape t)
        | some (n, rest) =>
          let (d, rest) := readScalar n rest
          readString opening fuel (d :: done) rest
      | d :: t' =>
        match escaped? d with
        | none => .error (.at .badEscape (c :: t))
        | some e => readString opening fuel (e :: done) t'
    else if c.toNat < 0x20 then .error (.at .controlCharacter (c :: t))
    else readString opening fuel (c :: done) t

/-- The digits after a decimal point, if there are any. -/
def readFraction (t : Text) : Text × Text :=
  match t with
  | '.' :: t' =>
    let digits := t'.takeWhile Char.isDigit
    if digits.isEmpty then ([], t) else (digits, t'.dropWhile Char.isDigit)
  | _ => ([], t)

/-- The exponent with its sign, if there is one. -/
def readExponent (t : Text) : Option Int × Text :=
  match t with
  | c :: t' =>
    if c == 'e' || c == 'E' then
      let (negative, t') := match t' with
        | '-' :: t'' => (true, t'')
        | '+' :: t'' => (false, t'')
        | _ => (false, t')
      let digits := t'.takeWhile Char.isDigit
      if digits.isEmpty then (none, t)
      else
        let n : Int := Text.digitsToNat digits
        (some (if negative then -n else n), t'.dropWhile Char.isDigit)
    else (none, t)
  | [] => (none, t)

/-- Reads a number after its sign; `opening` is the text from the sign on. -/
def readNumber (opening : Text) (negative : Bool) (t : Text) : Reading Json :=
  let whole := match t with
    | '0' :: _ => ['0']
    | _ => t.takeWhile Char.isDigit
  if whole.isEmpty then .error (.at .expectingValue opening)
  else
    let t := t.drop whole.length
    let (fraction, t) := readFraction t
    let (exponent, t) := readExponent t
    if fraction.isEmpty && exponent.isNone then
      if Number.maxDigits < whole.length then .error (.tooManyDigits whole.length)
      else
        let n : Int := Text.digitsToNat whole
        .ok (int (if negative then -n else n), t)
    else
      let digits := Text.digitsToNat (whole ++ fraction)
      let x := Binary64.ofDecimal negative digits (exponent.getD 0 - fraction.length)
      .ok (number (.real x), t)

/-- Reads a word, a number or the name of a number. -/
def readScalarValue (t : Text) : Reading Json :=
  let words : List (String × Json) := [("null", null), ("true", bool true), ("false", bool false),
    ("NaN", number (.real .nan)), ("Infinity", number (.real (.infinity false))),
    ("-Infinity", number (.real (.infinity true)))]
  match words.find? (fun w => w.1.toList.isPrefixOf t) with
  | some (w, v) => .ok (v, t.drop w.length)
  | none =>
    match t with
    | '-' :: t' => readNumber t true t'
    | _ => readNumber t false t

mutual

/-- Reads a value; `room` says how deep lists and objects may still nest. The fuel bounds the number of
readers that call each other and the characters of a string; twice the length of the text is enough. -/
def readValue : (fuel room : Nat) → Text → Reading Json
  | 0, _, t => .error (.at .expectingValue t)
  | fuel + 1, room, t =>
    match t, room with
    | '"' :: r, _ =>
      match readString t fuel [] r with
      | .error f => .error f
      | .ok (s, r) => .ok (text s, r)
    | '[' :: _, 0 => .error (.tooDeep .list)
    | '[' :: r, room + 1 =>
      match skipBlanks r with
      | ']' :: r => .ok (list [], r)
      | r => readItems fuel room [] r
    | '{' :: _, 0 => .error (.tooDeep .object)
    | '{' :: r, room + 1 =>
      match skipBlanks r with
      | '}' :: r => .ok (object [], r)
      | r => readMembers fuel room [] r
    | _, _ => readScalarValue t

/-- Reads the items of a list and its closing bracket; `done` holds the items read, last first. -/
def readItems : (fuel room : Nat) → (done : List Json) → Text → Reading Json
  | 0, _, _, t => .error (.at .expectingValue t)
  | fuel + 1, room, done, t =>
    match readValue fuel room t with
    | .error f => .error f
    | .ok (v, r) =>
      match skipBlanks r with
      | ']' :: r => .ok (list (v :: done).reverse, r)
      | ',' :: r => readItems fuel room (v :: done) (skipBlanks r)
      | r => .error (.at .expectingComma r)

/-- Reads the members of an object and its closing brace; `done` holds the members read, last first. -/
def readMembers : (fuel room : Nat) → (done : Entries Json) → Text → Reading Json
  | 0, _, _, t => .error (.at .expectingName t)
  | fuel + 1, room, done, t =>
    match t with
    | '"' :: r =>
      match readString t fuel [] r with
      | .error f => .error f
      | .ok (name, r) =>
        match skipBlanks r with
        | ':' :: r =>
          match readValue fuel room (skipBlanks r) with
          | .error f => .error f
          | .ok (v, r) =>
            match skipBlanks r with
            | '}' :: r => .ok (object (Entries.ofList ((name, v) :: done).reverse), r)
            | ',' :: r => readMembers fuel room ((name, v) :: done) (skipBlanks r)
            | r => .error (.at .expectingComma r)
        | r => .error (.at .expectingColon r)
    | _ => .error (.at .expectingName t)

end

/-- A fault with its position in the text. -/
def Fault.locate (t : Text) : Fault → ParseError
  | .at cause rest => .at cause (.ofRest t rest)
  | .tooManyDigits n => .tooManyDigits n
  | .tooDeep h => .tooDeep h

/-- Reads a text that holds one value between blanks. -/
def read (t : Text) : Except Fault Json :=
  match t with
  | '\ufeff' :: _ => .error (.at .byteOrderMark t)
  | _ =>
    match readValue (2 * t.length + 2) maxNesting (skipBlanks t) with
    | .error f => .error f
    | .ok (v, r) =>
      match skipBlanks r with
      | [] => .ok v
      | r => .error (.at .extraData r)

/-- The value that a text holds between blanks, or why it holds none. -/
def parse (t : Text) : Except ParseError Json :=
  match read t with
  | .ok v => .ok v
  | .error f => .error (f.locate t)

/-- The wording of a cause. -/
def ParseCause.message : ParseCause → String
  | expectingValue => "Expecting value"
  | expectingName => "Expecting property name enclosed in double quotes"
  | expectingColon => "Expecting ':' delimiter"
  | expectingComma => "Expecting ',' delimiter"
  | unterminatedString => "Unterminated string starting at"
  | controlCharacter => "Invalid control character at"
  | badEscape => "Invalid \\escape"
  | badUnicodeEscape => "Invalid \\uXXXX escape"
  | extraData => "Extra data"
  | byteOrderMark => "Unexpected UTF-8 BOM (decode using utf-8-sig)"

/-- The word for a value that holds others. -/
def Holder.word : Holder → String
  | list => "array"
  | object => "object"

/-- The wording of an error. -/
def ParseError.message : ParseError → String
  | .at cause p => s!"{cause.message}: line {p.line} column {p.column} (char {p.index})"
  | .tooManyDigits n => Number.tooManyDigits n
  | .tooDeep h => s!"maximum recursion depth exceeded while decoding a JSON {h.word} from a unicode string"

end LayeredFix.Json
