import LayeredFix.Entries
import LayeredFix.Number.Basic

/-!
# JSON values

The members of an object are entries: they stand in order, and a name occurs
once.
-/

namespace LayeredFix

/-- A JSON value. -/
inductive Json where
  /-- The null value. -/
  | null
  /-- A truth value. -/
  | bool (b : Bool)
  /-- A number. -/
  | number (n : Number)
  /-- A text. -/
  | text (t : Text)
  /-- A list of values. -/
  | list (xs : List Json)
  /-- An object: its members in order. -/
  | object (ms : List (Text × Json))
  deriving Inhabited, BEq

namespace Json

/-- An integer. -/
def int (n : Int) : Json := number (.int n)

/-- A text given as a string. -/
def str (s : String) : Json := text s.toList

/-- A list of texts given as strings. -/
def strs (ss : List String) : Json := list (ss.map str)

/-- Whether a value counts as absent: null, false, zero, and the empty text, list and object. -/
def isFalsy : Json → Bool
  | null => true
  | bool b => !b
  | number n => n.isZero
  | text t => t.isEmpty
  | list xs => xs.isEmpty
  | object ms => ms.isEmpty

end Json

end LayeredFix
