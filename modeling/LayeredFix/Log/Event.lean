import LayeredFix.Check.Decision

/-!
# Events

What a run reports while it goes on: which layers failed, were taken back or were slow, and how the run
ended. Each event has a level, a source, a wording and fields.
-/

namespace LayeredFix

/-- How grave an event is. -/
inductive Level where
  /-- Of interest to a developer only. -/
  | debug
  /-- Worth knowing. -/
  | info
  /-- Something may be wrong. -/
  | warning
  /-- Something is wrong. -/
  | error
  /-- Nothing works any more. -/
  | critical
  deriving DecidableEq, Repr, Inhabited

namespace Level

/-- The rank of a level; graver levels rank higher. -/
def rank : Level → Nat
  | debug => 10
  | info => 20
  | warning => 30
  | error => 40
  | critical => 50

/-- The word for a level. -/
def word : Level → String
  | debug => "debug"
  | info => "info"
  | warning => "warning"
  | error => "error"
  | critical => "critical"

/-- The name of a level as a threshold. -/
def name : Level → String
  | debug => "DEBUG"
  | info => "INFO"
  | warning => "WARNING"
  | error => "ERROR"
  | critical => "CRITICAL"

/-- Whether this level is at least as grave as another. -/
def reaches (l threshold : Level) : Bool := threshold.rank ≤ l.rank

end Level

/-- An event. -/
inductive Event where
  /-- The answer came from the cache. -/
  | cacheHit (layers : List Int)
  /-- A layer failed. -/
  | layerFailed (id : Int) (name message : Text)
  /-- The change that a layer made was taken back. -/
  | layerReverted (id : Int) (risk : Risk) (reason : Option Text)
  /-- A layer took long. -/
  | layerSlow (id : Int)
  /-- The result has more errors than the input. -/
  | moreErrors (before after : Nat)
  /-- A run came to its end. -/
  | complete (layers failed : List Int) (changed : Bool)
  /-- A traced call came to its end. -/
  | spanComplete (name : Text) (ok : Bool) (children : Nat)
  /-- A change was checked leniently. -/
  | scanSkipped (lines : Int)
  /-- Expired entries were dropped from a cache. -/
  | cacheSwept (count : Nat)
  deriving DecidableEq, Repr

namespace Event

/-- The level of an event. -/
def level : Event → Level
  | layerFailed .. | layerReverted .. | layerSlow .. | moreErrors .. => .warning
  | _ => .debug

/-- The wording of an event. -/
def wording : Event → String
  | cacheHit .. => "pipeline.cache_hit"
  | layerFailed .. => "layer.failed"
  | layerReverted .. => "layer.reverted"
  | layerSlow .. => "layer.slow"
  | moreErrors .. => "pipeline.more_errors_than_input"
  | complete .. => "pipeline.complete"
  | spanComplete .. => "span.complete"
  | scanSkipped n => s!"Lenient validation: corruption scan skipped ({n} lines changed)"
  | cacheSwept n => s!"Swept {n} expired cache entries"

/-- The fields of an event. -/
def fields : Event → Entries Json
  | cacheHit layers => [("layers".toList, .list (layers.map .int))]
  | layerFailed id name message =>
    [("layer_id".toList, .int id), ("layer".toList, .text name), ("error".toList, .text message)]
  | layerReverted id risk reason =>
    [("layer_id".toList, .int id), ("risk".toList, .str risk.word),
     ("reason".toList, (reason.map Json.text).getD .null)]
  | layerSlow id => [("layer_id".toList, .int id)]
  | moreErrors before after => [("before".toList, .int before), ("after".toList, .int after)]
  | complete layers failed changed =>
    [("layers".toList, .list (layers.map .int)), ("failed".toList, .list (failed.map .int)),
     ("changed".toList, .bool changed)]
  | spanComplete name ok children =>
    [("span_name".toList, .text name), ("ok".toList, .bool ok), ("children".toList, .int children)]
  | scanSkipped _ | cacheSwept _ => []

/-- Where an event comes from. -/
def source : Event → String
  | spanComplete .. => "neurolint.telemetry"
  | scanSkipped .. => "neurolint.services.validation"
  | cacheSwept .. => "neurolint.services.cache"
  | _ => "neurolint.services.pipeline"

/-- Whether an event has fields of its own; the others are plain messages. -/
def isStructured : Event → Bool
  | scanSkipped .. | cacheSwept .. => false
  | _ => true

end Event

/-- The events of a lenient check: it says that it did not look for damage, unless nothing changed. -/
def Check.lenientEvents (before after : Text) : List Event :=
  if before == after then [] else [.scanSkipped (Check.lineDelta before after)]

end LayeredFix
