import LayeredFix.Text.Hex

/-!
# Quoted names

A name in quotes, as messages show it. Single quotes are used unless the name holds a single and no double
quote. A backslash, the quote in use, and characters without a visible form are escaped. `asciiOnly` escapes
the characters beyond ASCII too.
-/

namespace LayeredFix.Text

/-- The quote for a name. -/
def quoteFor (t : List Char) : Char := if t.contains '\'' && !t.contains '"' then '"' else '\''

/-- The escape of a character by its number: two, four or eight hexadecimal digits. -/
def numberEscape (n : Nat) : List Char :=
  if n < 0x100 then '\\' :: 'x' :: hexDigits 2 n
  else if n < 0x10000 then '\\' :: 'u' :: hexDigits 4 n
  else '\\' :: 'U' :: hexDigits 8 n

/-- A character between quotes. -/
def quotedChar (quote c : Char) : List Char :=
  if c == quote || c == '\\' then ['\\', c]
  else if c == '\n' then ['\\', 'n']
  else if c == '\r' then ['\\', 'r']
  else if c == '\t' then ['\\', 't']
  else if isHidden c then numberEscape c.toNat
  else [c]

/-- A name in quotes. -/
def quoted (t : List Char) : List Char :=
  let quote := quoteFor t
  quote :: t.flatMap (quotedChar quote) ++ [quote]

/-- A text with the characters beyond ASCII escaped by their numbers. -/
def asciiOnly (t : List Char) : List Char :=
  t.flatMap fun c => if c.toNat < 128 then [c] else numberEscape c.toNat

end LayeredFix.Text
