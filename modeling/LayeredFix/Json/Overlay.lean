import LayeredFix.Json.Basic

/-!
# Objects over objects

An object laid over another one sets its members there. Where both have an object under one name, the two
are laid over each other in turn, so that members deep inside are set one by one.
-/

namespace LayeredFix.Json

mutual

/-- Members laid over others. -/
def overlay (base : Entries Json) : List (Text × Json) → Entries Json
  | [] => base
  | (name, v) :: newer => overlay (Entries.put name (overlayValue (Entries.get? name base) v) base) newer

/-- A value laid over what was there before. -/
def overlayValue (old : Option Json) : Json → Json
  | .object newer =>
    match old with
    | some (.object base) => .object (overlay base newer)
    | _ => .object newer
  | v => v

end

end LayeredFix.Json
