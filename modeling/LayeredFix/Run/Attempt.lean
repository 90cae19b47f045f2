import LayeredFix.Layer.Basic
import LayeredFix.Log.Event
import LayeredFix.Run.Changes
import LayeredFix.Run.Record

/-!
# One attempt of a layer

A layer is tried on the text as the layers before it left it. If its pass fails, the text stays as it was
and the failure is written down. If changes are to be taken back on risk, and the check of the layer advises
against the change, the text stays as it was too.

No clock is read here: a pass takes some time, but less than any positive limit. So a layer is slow just
when the limit is not positive.
-/

namespace LayeredFix

/-- The terms on which layers are tried. -/
structure Terms where
  /-- The validator behind the checks. -/
  validator : Validator
  /-- The time, in milliseconds, above which a layer is slow. -/
  slowLimit : Number
  /-- Whether changes that a check advises against are taken back. -/
  revertOnRisk : Bool

/-- What came of trying a layer. -/
structure Attempt where
  /-- The outcome. -/
  result : LayerResult
  /-- The text after the attempt. -/
  after : Text
  /-- Whether the pass failed. -/
  raised : Bool
  /-- The events of the attempt. -/
  events : List Event

namespace Attempt

/-- Whether every layer is slow: the limit is zero or less. -/
def alwaysSlow (limit : Number) : Bool := limit.lt (.int 0) || limit.isZero

/-- The attempt of a layer whose pass fails. -/
def failed (layer : Layer) (before : Text) (f : Failure) : Attempt where
  result :=
    { id := layer.id
      name := layer.name
      description := layer.description
      success := false
      message := some ("Layer failed: ".toList ++ f.message) }
  after := before
  raised := true
  events := [.layerFailed layer.id layer.name f.message]

/-- The decision of the layer's check on a change, if changes are to be taken back on risk. -/
def verdict? (terms : Terms) (layer : Layer) (before after : Text) : Option Decision :=
  if terms.revertOnRisk && after != before then
    some ((CheckKind.ofLayer layer.id).decide terms.validator before after)
  else none

/-- The events of a check: the lenient one says that it did not look for damage. -/
def checkEvents (layer : Layer) (before after : Text) : List Event :=
  match CheckKind.ofLayer layer.id with
  | .lenient => Check.lenientEvents before after
  | _ => []

/-- The word for a reason that may be missing. -/
def reasonText (d : Decision) : Text := d.reason.getD "None".toList

/-- The event of a slow layer, if the layer is slow. -/
def slowEvents (terms : Terms) (layer : Layer) : List Event :=
  if alwaysSlow terms.slowLimit then [.layerSlow layer.id] else []

/-- The attempt of a layer whose change stands. -/
def kept (terms : Terms) (layer : Layer) (before after : Text) (events : List Event) : Attempt where
  result :=
    { id := layer.id
      name := layer.name
      description := layer.description
      success := true
      changeCount := changeCount before after
      improvements := LayeredFix.improvements before after }
  after := after
  raised := false
  events := events ++ slowEvents terms layer

/-- The attempt of a layer whose change is taken back. -/
def reverted (terms : Terms) (layer : Layer) (before : Text) (d : Decision) (events : List Event) :
    Attempt where
  result :=
    { id := layer.id
      name := layer.name
      description := layer.description
      success := false
      changeCount := changeCount before before
      message := some ("Transformation reverted: ".toList ++ reasonText d)
      improvements := ["Prevented code corruption".toList] }
  after := before
  raised := false
  events := events ++ .layerReverted layer.id d.risk d.reason :: slowEvents terms layer

/-- The attempt of a layer on a text. -/
def make (terms : Terms) (layer : Layer) (before : Text) : Attempt :=
  match layer.transform before with
  | .error f => failed layer before f
  | .ok after =>
    match verdict? terms layer before after with
    | none => kept terms layer before after []
    | some d =>
      if d.shouldRevert then reverted terms layer before d (checkEvents layer before after)
      else kept terms layer before after (checkEvents layer before after)

end Attempt

end LayeredFix
