import LayeredFix.Json.Basic
import LayeredFix.Text.Hex

/-!
# Writing JSON

`Json.render` writes a value over several lines, each level of nesting two spaces further in. Characters
beyond ASCII are written as they are. `Json.compact` writes a value on one line without blanks, and
escapes everything beyond ASCII.

Values are written in front of the text that comes after them, so that a value deep inside others is written
once. `renderAt_eq` and `compactAt_eq` say that this text stays as it is.
-/

namespace LayeredFix.Json

/-- Floating-point numbers in JSON: as plain numbers, with words of their own for those without digits. -/
def numberStyle : DecimalStyle := { DecimalStyle.plain with infinity := "Infinity", nan := "NaN" }

/-- A number. -/
def renderNumber : Number → Text
  | .int n => Text.ofInt n
  | .real x => (numberStyle.write x).toList

/-- The escape of a code unit by its number. -/
def unicodeEscape (n : Nat) : Text := '\\' :: 'u' :: Text.hexDigits 4 n

/-- A character inside a string: quote, backslash and control characters are escaped. -/
def renderChar (c : Char) : Text :=
  match c with
  | '"' => ['\\', '"']
  | '\\' => ['\\', '\\']
  | '\n' => ['\\', 'n']
  | '\r' => ['\\', 'r']
  | '\t' => ['\\', 't']
  | '\x08' => ['\\', 'b']
  | '\x0c' => ['\\', 'f']
  | _ => if c.toNat < 0x20 then unicodeEscape c.toNat else [c]

/-- A string in quotes. -/
def renderString (t : Text) : Text := '"' :: t.flatMap renderChar ++ ['"']

/-- A new line at a level of nesting. -/
def newline (level : Nat) : Text := '\n' :: List.replicate (2 * level) ' '

mutual

/-- A value at a level of nesting, and after it a text. -/
def renderAt (level : Nat) : Json → (after : Text) → Text
  | null, after => "null".toList ++ after
  | bool true, after => "true".toList ++ after
  | bool false, after => "false".toList ++ after
  | number n, after => renderNumber n ++ after
  | text t, after => renderString t ++ after
  | list [], after => '[' :: ']' :: after
  | list (x :: xs), after =>
    '[' :: newline (level + 1) ++ renderAt (level + 1) x
      (renderItems (level + 1) xs (newline level ++ ']' :: after))
  | object [], after => '{' :: '}' :: after
  | object ((name, v) :: ms), after =>
    '{' :: newline (level + 1) ++ renderString name ++ ':' :: ' ' :: renderAt (level + 1) v
      (renderMembers (level + 1) ms (newline level ++ '}' :: after))

/-- The items of a list after the first, and after them a text. -/
def renderItems (level : Nat) : List Json → (after : Text) → Text
  | [], after => after
  | x :: xs, after => ',' :: newline level ++ renderAt level x (renderItems level xs after)

/-- The members of an object after the first, and after them a text. -/
def renderMembers (level : Nat) : Entries Json → (after : Text) → Text
  | [], after => after
  | (name, v) :: ms, after =>
    ',' :: newline level ++ renderString name ++ ':' :: ' ' :: renderAt level v
      (renderMembers level ms after)

end

mutual

/-- A value is written in front of the text after it. -/
theorem renderAt_eq (level : Nat) (after : Text) :
    (v : Json) → renderAt level v after = renderAt level v [] ++ after
  | null | bool true | bool false | number _ | text _ | list [] | object [] => by simp [renderAt]
  | list (x :: xs) => by
    rw [renderAt, renderAt, renderAt_eq _ _ x, renderItems_eq _ _ xs,
      renderAt_eq _ (renderItems _ _ (_ ++ [_])) x, renderItems_eq _ (_ ++ [_]) xs]
    simp
  | object ((name, v) :: ms) => by
    rw [renderAt, renderAt, renderAt_eq _ _ v, renderMembers_eq _ _ ms,
      renderAt_eq _ (renderMembers _ _ (_ ++ [_])) v, renderMembers_eq _ (_ ++ [_]) ms]
    simp

/-- Items are written in front of the text after them. -/
theorem renderItems_eq (level : Nat) (after : Text) :
    (xs : List Json) → renderItems level xs after = renderItems level xs [] ++ after
  | [] => by simp [renderItems]
  | x :: xs => by
    rw [renderItems, renderItems, renderAt_eq _ _ x, renderItems_eq _ _ xs,
      renderAt_eq _ (renderItems _ _ []) x]
    simp

/-- Members are written in front of the text after them. -/
theorem renderMembers_eq (level : Nat) (after : Text) :
    (ms : Entries Json) → renderMembers level ms after = renderMembers level ms [] ++ after
  | [] => by simp [renderMembers]
  | (name, v) :: ms => by
    rw [renderMembers, renderMembers, renderAt_eq _ _ v, renderMembers_eq _ _ ms,
      renderAt_eq _ (renderMembers _ _ []) v]
    simp

end

/-- A value over several lines. -/
def render (v : Json) : Text := renderAt 0 v []

/-- A character inside a string of ASCII characters; above U+FFFF two code units are written. -/
def asciiChar (c : Char) : Text :=
  let n := c.toNat
  if n < 0x7f then renderChar c
  else if n < 0x10000 then unicodeEscape n
  else
    unicodeEscape (0xd800 + (n - 0x10000) / 0x400) ++ unicodeEscape (0xdc00 + (n - 0x10000) % 0x400)

/-- A string of ASCII characters in quotes. -/
def asciiString (t : Text) : Text := '"' :: t.flatMap asciiChar ++ ['"']

mutual

/-- A value on one line, in ASCII characters and without blanks, and after it a text. -/
def compactAt : Json → (after : Text) → Text
  | null, after => "null".toList ++ after
  | bool true, after => "true".toList ++ after
  | bool false, after => "false".toList ++ after
  | number n, after => renderNumber n ++ after
  | text t, after => asciiString t ++ after
  | list [], after => '[' :: ']' :: after
  | list (x :: xs), after => '[' :: compactAt x (compactItems xs (']' :: after))
  | object [], after => '{' :: '}' :: after
  | object ((name, v) :: ms), after =>
    '{' :: asciiString name ++ ':' :: compactAt v (compactMembers ms ('}' :: after))

/-- The items of a list after the first, on one line, and after them a text. -/
def compactItems : List Json → (after : Text) → Text
  | [], after => after
  | x :: xs, after => ',' :: compactAt x (compactItems xs after)

/-- The members of an object after the first, on one line, and after them a text. -/
def compactMembers : Entries Json → (after : Text) → Text
  | [], after => after
  | (name, v) :: ms, after => ',' :: asciiString name ++ ':' :: compactAt v (compactMembers ms after)

end

mutual

/-- A value on one line is written in front of the text after it. -/
theorem compactAt_eq (after : Text) :
    (v : Json) → compactAt v after = compactAt v [] ++ after
  | null | bool true | bool false | number _ | text _ | list [] | object [] => by simp [compactAt]
  | list (x :: xs) => by
    rw [compactAt, compactAt, compactAt_eq _ x, compactItems_eq _ xs,
      compactAt_eq (compactItems _ [_]) x, compactItems_eq [_] xs]
    simp
  | object ((name, v) :: ms) => by
    rw [compactAt, compactAt, compactAt_eq _ v, compactMembers_eq _ ms,
      compactAt_eq (compactMembers _ [_]) v, compactMembers_eq [_] ms]
    simp

/-- Items on one line are written in front of the text after them. -/
theorem compactItems_eq (after : Text) :
    (xs : List Json) → compactItems xs after = compactItems xs [] ++ after
  | [] => by simp [compactItems]
  | x :: xs => by
    rw [compactItems, compactItems, compactAt_eq _ x, compactItems_eq _ xs,
      compactAt_eq (compactItems _ []) x]
    simp

/-- Members on one line are written in front of the text after them. -/
theorem compactMembers_eq (after : Text) :
    (ms : Entries Json) → compactMembers ms after = compactMembers ms [] ++ after
  | [] => by simp [compactMembers]
  | (name, v) :: ms => by
    rw [compactMembers, compactMembers, compactAt_eq _ v, compactMembers_eq _ ms,
      compactAt_eq (compactMembers _ []) v]
    simp

end

/-- A value on one line, in ASCII characters and without blanks. -/
def compact (v : Json) : Text := compactAt v []

end LayeredFix.Json
