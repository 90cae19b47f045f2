import LayeredFix.Text.Basic

/-!
# Positions

Where in a text something stands, as messages tell it: line, column and number of characters before it.
-/

namespace LayeredFix

/-- A place in a text. -/
structure Position where
  /-- The line, from 1. -/
  line : Nat
  /-- The column in the line, from 1. -/
  column : Nat
  /-- The number of characters before the place. -/
  index : Nat
  deriving DecidableEq, Repr

/-- The position after `before`. -/
def Position.after (before : Text) : Position :=
  ⟨before.count '\n' + 1, (before.reverse.takeWhile (· != '\n')).length + 1, before.length⟩

/-- The position in a text at which `rest` is left of it. -/
def Position.ofRest (t rest : Text) : Position := after (t.take (t.length - rest.length))

end LayeredFix
