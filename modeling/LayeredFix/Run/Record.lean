import LayeredFix.Reader.Basic
import LayeredFix.Trace.Span

/-!
# Records of a run

What a run leaves behind: the text before and after, the text after each layer, and the outcome of each
layer.
-/

namespace LayeredFix

/-- The outcome of one layer in one run. -/
structure LayerResult where
  /-- The number of the layer. -/
  id : Int
  /-- The name of the layer. -/
  name : Text
  /-- What the layer does, in words. -/
  description : Text
  /-- Whether the layer's change stands. -/
  success : Bool
  /-- The number of lines changed. -/
  changeCount : Int := 0
  /-- The time taken, in milliseconds. -/
  elapsed : Binary64 := .zero
  /-- Why the layer failed or its change was taken back. -/
  message : Option Text := none
  /-- What the layer improved. -/
  improvements : List Text := []
  deriving DecidableEq, Repr, Inhabited

/-- The record of one run. -/
structure RunRecord where
  /-- The text given. -/
  input : Text
  /-- The numbers of the layers selected. -/
  layers : List Int
  /-- The text that came out. -/
  output : Text
  /-- The outcomes of the layers; none if the answer came from the cache. -/
  results : List LayerResult
  /-- The text given and the text after each layer. -/
  outputs : List Text
  /-- Whether the answer came from the cache. -/
  cacheHit : Bool
  /-- What was added to the record from outside. -/
  extra : Option (Entries Json)
  deriving Inhabited, BEq

namespace LayerResult

/-- The outcome as a JSON value. -/
def toJson (r : LayerResult) : Json :=
  .object
    [("layer_id".toList, .int r.id),
     ("name".toList, .text r.name),
     ("description".toList, .text r.description),
     ("success".toList, .bool r.success),
     ("change_count".toList, .int r.changeCount),
     ("execution_time_ms".toList, .number (.real r.elapsed)),
     ("message".toList, (r.message.map Json.text).getD .null),
     ("improvements".toList, .list (r.improvements.map .text))]

/-- Reads an outcome. -/
def read : Reader LayerResult :=
  open Reader in
  record <| make LayerResult.mk
    |> (andThen · (required "layer_id" int))
    |> (andThen · (required "name" text))
    |> (andThen · (required "description" text))
    |> (andThen · (required "success" bool))
    |> (andThen · (optional "change_count" 0 int))
    |> (andThen · (optional "execution_time_ms" .zero real))
    |> (andThen · (optional "message" none (orNull text)))
    |> (andThen · (optional "improvements" [] (list text)))

end LayerResult

namespace RunRecord

/-- Whether the run changed the text. -/
def changed (r : RunRecord) : Bool := r.output != r.input

/-- The numbers of the layers whose change does not stand. -/
def failedLayers (r : RunRecord) : List Int :=
  (r.results.filter fun x => !x.success).map LayerResult.id

/-- The record as a JSON value. -/
def toJson (r : RunRecord) : Json :=
  .object
    [("input_text".toList, .text r.input),
     ("enabled_layer_ids".toList, .list (r.layers.map .int)),
     ("output_text".toList, .text r.output),
     ("results".toList, .list (r.results.map LayerResult.toJson)),
     ("layer_outputs".toList, .list (r.outputs.map .text)),
     ("cache_hit".toList, .bool r.cacheHit),
     ("meta".toList, (r.extra.map Json.object).getD .null)]

/-- Reads a record. -/
def read : Reader RunRecord :=
  open Reader in
  record <| make RunRecord.mk
    |> (andThen · (required "input_text" text))
    |> (andThen · (optional "enabled_layer_ids" [] (list int)))
    |> (andThen · (required "output_text" text))
    |> (andThen · (optional "results" [] (list LayerResult.read)))
    |> (andThen · (optional "layer_outputs" [] (list text)))
    |> (andThen · (optional "cache_hit" false bool))
    |> (andThen · (optional "meta" none (orNull members)))

/-- The key under which a record holds its tree of spans. -/
def traceKey : Text := "telemetry".toList

/-- The record with its tree of spans added; what else was added to it stays. -/
def withTrace (root : Span) (r : RunRecord) : RunRecord :=
  { r with extra := some (Entries.put traceKey root.toJson (r.extra.getD [])) }

end RunRecord

end LayeredFix
