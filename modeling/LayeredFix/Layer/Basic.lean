import LayeredFix.Failure

/-!
# Layers

A layer is a pass over a text with a number and a name. Layers run in the order of their numbers.
-/

namespace LayeredFix

/-- A layer. -/
structure Layer where
  /-- The number, which fixes the order. -/
  id : Int
  /-- The name. -/
  name : Text
  /-- What the layer does, in words. -/
  description : Text
  /-- The pass. -/
  transform : Transform

end LayeredFix
