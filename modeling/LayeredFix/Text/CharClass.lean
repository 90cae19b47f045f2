import LayeredFix.Text.WordTable
import LayeredFix.Text.HiddenTable

/-!
# Character classes

The classes of characters that the passes and checks speak of: blanks, digits, word characters, and the
characters that have no visible form. Below U+0080 each class is a short list; above, it is a table of
ranges of code points, searched by bisection.
-/

namespace LayeredFix.Text

/-- Bisection for `n` between the indices `lo` and `hi` of an ascending table of closed ranges. -/
def inTableFrom (table : Array (Nat × Nat)) (n lo hi : Nat) : Bool :=
  if _h : lo < hi then
    let mid := (lo + hi) / 2
    match table[mid]? with
    | none => false
    | some (first, last) =>
      if n < first then inTableFrom table n lo mid
      else if last < n then inTableFrom table n (mid + 1) hi
      else true
  else false
termination_by hi - lo
decreasing_by all_goals omega

/-- Whether a code point lies in one of the ranges of an ascending table. -/
def inTable (table : Array (Nat × Nat)) (n : Nat) : Bool :=
  inTableFrom table n 0 table.size

/-- Blanks: the space, the line and page controls, the information separators U+001C to U+001F, and the
space separators and line and paragraph separators of Unicode. -/
def isBlank (c : Char) : Bool :=
  let n := c.toNat
  n == 0x20 || (0x09 ≤ n && n ≤ 0x0d) || (0x1c ≤ n && n ≤ 0x1f) || n == 0x85 || n == 0xa0 ||
    n == 0x1680 || (0x2000 ≤ n && n ≤ 0x200a) || n == 0x2028 || n == 0x2029 || n == 0x202f ||
    n == 0x205f || n == 0x3000

/-- Decimal digits of any script. -/
def isDigit (c : Char) : Bool :=
  c.isDigit || (128 ≤ c.toNat && inTable digitTable c.toNat)

/-- Word characters: letters and numbers of any script, and the underscore. -/
def isWord (c : Char) : Bool :=
  c.isAlphanum || c == '_' || (128 ≤ c.toNat && inTable wordTable c.toNat)

/-- Hexadecimal digits, ASCII only. -/
def isHexDigit (c : Char) : Bool :=
  c.isDigit || ('a' ≤ c && c ≤ 'f') || ('A' ≤ c && c ≤ 'F')

/-- Characters with no visible form; the space counts as visible. -/
def isHidden (c : Char) : Bool :=
  c.toNat < 0x20 || c.toNat == 0x7f || (128 ≤ c.toNat && inTable hiddenTable c.toNat)

/-- A character with its case removed: ASCII letters, and the letters beyond ASCII that are cases of an
ASCII letter. -/
def foldCase (c : Char) : Char :=
  if c == 'ſ' then 's'
  else if c == 'İ' || c == 'ı' then 'i'
  else if c == 'K' then 'k'
  else c.toLower

/-- The space and the tab. -/
def isSpaceOrTab (c : Char) : Bool := c == ' ' || c == '\t'

end LayeredFix.Text
