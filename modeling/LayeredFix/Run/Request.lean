import LayeredFix.Failure
import LayeredFix.Json.Basic

/-!
# Requests

What a run is asked to do. The layers may be asked for by any value that can be gone through: the items of
a list, the characters of a text or the names of an object. Items that are no number of a layer are
passed over; a value that cannot be gone through, and an item that cannot belong to a set, is a failure.
-/

namespace LayeredFix

/-- What a run is asked to do. -/
structure Request where
  /-- The text. -/
  text : Text
  /-- The numbers of the layers; nothing asks for the default layers. -/
  layers : Option (List Int) := none
  /-- Whether the cache may be used. -/
  useCache : Bool := true
  /-- Whether changes that a check advises against are taken back. -/
  revertOnRisk : Bool := false

namespace Request

/-- The failure of a value that cannot be gone through. -/
def notIterable (kind : String) : Failure := ⟨.wrongKind, s!"'{kind}' object is not iterable".toList⟩

/-- The failure of an item that cannot belong to a set. -/
def notHashable (kind : String) : Failure := ⟨.wrongKind, s!"unhashable type: '{kind}'".toList⟩

/-- The number that an item stands for, if it stands for one. Truth values count as one and zero. -/
def itemId? : Json → Except Failure (Option Int)
  | .list _ => .error (notHashable "list")
  | .object _ => .error (notHashable "dict")
  | .bool b => .ok (some (if b then 1 else 0))
  | .number n => .ok n.toInt?
  | .null | .text _ => .ok none

/-- The numbers that items stand for. -/
def itemIds : List Json → Except Failure (List Int)
  | [] => .ok []
  | v :: vs =>
    match itemId? v with
    | .error f => .error f
    | .ok n =>
      match itemIds vs with
      | .error f => .error f
      | .ok ns => .ok (n.toList ++ ns)

/-- The numbers that a value asks for; the null value asks for the default layers. -/
def layersOf : Json → Except Failure (Option (List Int))
  | .null => .ok none
  | .list vs => (itemIds vs).map some
  | .text _ | .object _ => .ok (some [])
  | .bool _ => .error (notIterable "bool")
  | .number (.int _) => .error (notIterable "int")
  | .number (.real _) => .error (notIterable "float")

end Request

end LayeredFix
