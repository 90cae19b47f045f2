import LayeredFix.Text.Position
import LayeredFix.Text.Quoted
import LayeredFix.Toml.Basic

/-!
# What is wrong with a TOML document

A fault inside a reader names its cause and what is left of the document at its place; `Fault.locate` turns
it into an error with a position. A fault after the last character is said to be at the end of the document.
-/

namespace LayeredFix.Toml

/-- What is wrong at a place. -/
inductive Cause where
  /-- No statement begins here. -/
  | badStatement
  /-- A statement has ended, and something follows it on the line. -/
  | expectedLineEnd
  /-- No part of a key begins here. -/
  | badKeyStart
  /-- No equals sign stands after a key. -/
  | expectedEquals
  /-- No value begins here. -/
  | badValue
  /-- The declaration of a table does not end. -/
  | expectedTableEnd
  /-- The declaration of a list of tables does not end. -/
  | expectedListEnd
  /-- A list does not end. -/
  | unclosedList
  /-- A table in braces does not end. -/
  | unclosedTable
  /-- A string does not end. -/
  | unterminatedString
  /-- The text that ends a string is missing. -/
  | expected (close : Text)
  /-- A character may not stand in a comment or a string in single quotes. -/
  | foundInvalid (c : Char)
  /-- A character may not stand in a string in double quotes. -/
  | illegal (c : Char)
  /-- A backslash makes no escape. -/
  | badEscape
  /-- Hexadecimal digits are missing. -/
  | badHex
  /-- An escape stands for no character. -/
  | noScalar
  /-- The calendar does not have this day. -/
  | badMoment
  /-- A table is declared again. -/
  | declaredTwice (key : Key)
  /-- What was written in one piece is added to. -/
  | immutable (key : Key)
  /-- A declared table is entered by a dotted key. -/
  | redefined (key : Key)
  /-- A value stands where another one or a table is to be. -/
  | overwritten
  /-- A name occurs again in a table in braces. -/
  | duplicate (name : Text)
  deriving DecidableEq, Repr

/-- A fault inside a reader. -/
inductive Fault where
  /-- Something is wrong where this is left of the document. -/
  | at (cause : Cause) (rest : Text)
  /-- An integer has too many digits. -/
  | tooManyDigits (count : Nat)
  /-- Lists and tables in braces nest too deep. -/
  | tooDeep
  deriving DecidableEq, Repr

/-- The outcome of a reader: a value and what is left, or a fault. -/
abbrev Reading (α : Type) := Except Fault (α × Text)

/-- Why a text is no TOML document. -/
inductive ParseError where
  /-- Something is wrong at a place; no place is the end of the document. -/
  | at (cause : Cause) (position : Option Position)
  /-- An integer has too many digits. -/
  | tooManyDigits (count : Nat)
  /-- Lists and tables in braces nest too deep. -/
  | tooDeep
  deriving DecidableEq, Repr

/-- A fault with its position in the document. -/
def Fault.locate (t : Text) : Fault → ParseError
  | .at cause [] => .at cause none
  | .at cause rest => .at cause (some (.ofRest t rest))
  | .tooManyDigits n => .tooManyDigits n
  | .tooDeep => .tooDeep

/-- A key in a message: its names in quotes between parentheses, a comma after a lone one. -/
def Key.shown : Key → Text
  | [name] => '(' :: Text.quoted name ++ [',', ')']
  | names => '(' :: List.intercalate [',', ' '] (names.map Text.quoted) ++ [')']

/-- The wording of a cause. -/
def Cause.message : Cause → Text
  | badStatement => "Invalid statement".toList
  | expectedLineEnd => "Expected newline or end of document after a statement".toList
  | badKeyStart => "Invalid initial character for a key part".toList
  | expectedEquals => "Expected '=' after a key in a key/value pair".toList
  | badValue => "Invalid value".toList
  | expectedTableEnd => "Expected ']' at the end of a table declaration".toList
  | expectedListEnd => "Expected ']]' at the end of an array declaration".toList
  | unclosedList => "Unclosed array".toList
  | unclosedTable => "Unclosed inline table".toList
  | unterminatedString => "Unterminated string".toList
  | expected close => "Expected ".toList ++ Text.quoted close
  | foundInvalid c => "Found invalid character ".toList ++ Text.quoted [c]
  | illegal c => "Illegal character ".toList ++ Text.quoted [c]
  | badEscape => "Unescaped '\\' in a string".toList
  | badHex => "Invalid hex value".toList
  | noScalar => "Escaped character is not a Unicode scalar value".toList
  | badMoment => "Invalid date or datetime".toList
  | declaredTwice key => "Cannot declare ".toList ++ key.shown ++ " twice".toList
  | immutable key => "Cannot mutate immutable namespace ".toList ++ key.shown
  | redefined key => "Cannot redefine namespace ".toList ++ key.shown
  | overwritten => "Cannot overwrite a value".toList
  | duplicate name => "Duplicate inline table key ".toList ++ Text.quoted name

/-- The wording of a place. -/
def placeText : Option Position → Text
  | none => "end of document".toList
  | some p => s!"line {p.line}, column {p.column}".toList

/-- The wording of a cause at a place. -/
def Cause.messageAt (cause : Cause) (position : Option Position) : Text :=
  cause.message ++ " (at ".toList ++ placeText position ++ [')']

end LayeredFix.Toml
