import LayeredFix.Reader.Basic
import LayeredFix.Run.CacheKey

/-!
# The sections of the settings

Each section is a record whose members all have defaults, so that a configuration need only say what
differs from them.
-/

namespace LayeredFix

/-- How layers are run. -/
structure PipelineSettings where
  /-- The layers that run when none are asked for, in ascending order without repetition. -/
  defaultLayers : List Int := [1, 2, 3, 4]
  /-- Whether outputs are kept in a cache. -/
  useCache : Bool := true
  /-- The time, in milliseconds, above which a layer is slow. -/
  slowLayerMs : Binary64 := .ofInt 10000
  deriving DecidableEq, Repr, Inhabited

/-- How outputs are kept. -/
structure CacheSettings where
  /-- The time, in seconds, for which an output is kept. -/
  ttlSeconds : Binary64 := .ofInt 300
  deriving DecidableEq, Repr, Inhabited

/-- How texts are inspected. -/
structure ValidatorSettings where
  /-- The most lines. -/
  maxLines : Int := 50000
  /-- The most decisions that a change may add. -/
  maxComplexityIncrease : Int := 50
  deriving DecidableEq, Repr, Inhabited

namespace PipelineSettings

/-- The names of the members. -/
def names : List String := ["default_layers", "use_cache", "slow_layer_ms"]

/-- Reads a list of layers. -/
def readLayers : Reader (List Int) := fun v => (Reader.list Reader.int v).map CacheKey.sortedUnique

/-- Reads the members of the section. -/
def fields : Reader.Members PipelineSettings :=
  open Reader in
  make PipelineSettings.mk
    |> (andThen · (optional "default_layers" [1, 2, 3, 4] readLayers))
    |> (andThen · (optional "use_cache" true bool))
    |> (andThen · (optional "slow_layer_ms" (.ofInt 10000) real))

/-- Reads the section. -/
def read : Reader PipelineSettings := Reader.record fields

/-- The section as a JSON value. -/
def toJson (s : PipelineSettings) : Json :=
  .object
    [("default_layers".toList, .list (s.defaultLayers.map .int)),
     ("use_cache".toList, .bool s.useCache),
     ("slow_layer_ms".toList, .number (.real s.slowLayerMs))]

end PipelineSettings

namespace CacheSettings

/-- The names of the members. -/
def names : List String := ["ttl_seconds"]

/-- Reads the members of the section. -/
def fields : Reader.Members CacheSettings :=
  open Reader in
  make CacheSettings.mk
    |> (andThen · (optional "ttl_seconds" (.ofInt 300) positiveReal))

/-- Reads the section. -/
def read : Reader CacheSettings := Reader.record fields

/-- The section as a JSON value. -/
def toJson (s : CacheSettings) : Json :=
  .object [("ttl_seconds".toList, .number (.real s.ttlSeconds))]

end CacheSettings

namespace ValidatorSettings

/-- The names of the members. -/
def names : List String := ["max_lines", "max_complexity_increase"]

/-- Reads the members of the section. -/
def fields : Reader.Members ValidatorSettings :=
  open Reader in
  make ValidatorSettings.mk
    |> (andThen · (optional "max_lines" 50000 positiveInt))
    |> (andThen · (optional "max_complexity_increase" 50 int))

/-- Reads the section. -/
def read : Reader ValidatorSettings := Reader.record fields

/-- The section as a JSON value. -/
def toJson (s : ValidatorSettings) : Json :=
  .object
    [("max_lines".toList, .int s.maxLines),
     ("max_complexity_increase".toList, .int s.maxComplexityIncrease)]

end ValidatorSettings

end LayeredFix
