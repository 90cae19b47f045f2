import LayeredFix.Run.Record
import LayeredFix.Trace.Recorder
import LayeredFix.Failure

/-!
# Programs of spans and calls

A small language for what can be recorded: recording is turned on and off, spans and calls nest to any
depth, notes are made, and failures pass through spans and calls up to the nearest steps that catch them.
`Step.run` runs a program on a recorder and writes down what can be observed on the way.

A note belongs to the innermost span or call around it. Inside a span that is not recorded it is lost.
-/

namespace LayeredFix.Trace

/-- What a call returns. -/
inductive Returned where
  /-- A value. -/
  | value (v : Json)
  /-- The record of a run. -/
  | run (r : RunRecord)

/-- What a failing step or call gives back. -/
inductive Fault where
  /-- A failure. -/
  | failure (f : Failure)
  /-- The members of a record are not as they should be. -/
  | issues (is : List Issue)

/-- A step of a program. -/
inductive Step where
  /-- Recording is turned on or off. -/
  | enable (on : Bool)
  /-- A span. -/
  | span (name : Text) (body : List Step)
  /-- A note on the span or call around it. -/
  | note (key : Text) (value : Json)
  /-- A failure. -/
  | fail (f : Fault)
  /-- A call. -/
  | call (name : Text) (body : List Step) (returned : Returned)
  /-- Steps that end with their failure, which goes no further. -/
  | catching (body : List Step)
  deriving Inhabited

/-- What can be observed. -/
inductive Sighting where
  /-- Recording was turned on or off. -/
  | enabled (on : Bool)
  /-- A span began: whether it is recorded, the name of the current span, and that of the span around it. -/
  | began (name : Text) (active : Bool) (current parent : Option Text)
  /-- A call began: the name of the current span. -/
  | entered (name : Text) (current : Option Text)
  /-- A call ended: what it gave back, and the name of the current span. -/
  | left (name : Text) (result : Except Fault Returned) (current : Option Text)

/-- What comes of steps: what was observed, and the failure that ended them. -/
abbrev Course := List Sighting × Option Fault

/-- The name of the current span. -/
def currentName (r : Recorder) : Option Text := r.current?.map Span.name

/-- The name of the span around the current one. -/
def parentName (r : Recorder) : Option Text := (r.path.drop 1).head?.map Span.name

/-- A result with its tree of spans, if it is the record of a run. -/
def Returned.withTrace (root : Span) : Returned → Returned
  | value v => value v
  | run r => run (r.withTrace root)

/-- Whether a call failed. -/
def fails (a : List Sighting × Except Fault Returned) : Bool :=
  match a.2 with
  | .error _ => true
  | .ok _ => false

/-- Gives the result of a call its tree. -/
def giveTrace (root : Span) (a : List Sighting × Except Fault Returned) :
    List Sighting × Except Fault Returned :=
  (a.1, a.2.map (·.withTrace root))

mutual

/-- Runs a step. `noted` says whether a note here goes to the current span. -/
def Step.run (noted : Bool) : Step → Recorder → Course × Recorder
  | .enable on, r => (([.enabled on], none), r.enable on)
  | .note key value, r => (([], none), if noted then r.note key value else r)
  | .fail f, r => (([], some f), r)
  | .span name body, r =>
    r.within name fun active r =>
      let seen := Sighting.began name active (currentName r) (if active then parentName r else none)
      let ((sightings, fault), r) := runAll active body r
      ((seen :: sightings, fault), r)
  | .call name body returned, r =>
    let (a, r) := r.call name fails giveTrace fun r =>
      let seen := Sighting.entered name (currentName r)
      let ((sightings, fault), r) := runAll true body r
      ((seen :: sightings, match fault with
        | none => .ok returned
        | some f => .error f), r)
    ((a.1 ++ [.left name a.2 (currentName r)], match a.2 with
      | .ok _ => none
      | .error f => some f), r)
  | .catching body, r =>
    let ((sightings, _), r) := runAll noted body r
    ((sightings, none), r)

/-- Runs steps one after the other, up to a failure. -/
def runAll (noted : Bool) : List Step → Recorder → Course × Recorder
  | [], r => (([], none), r)
  | s :: ss, r =>
    match s.run noted r with
    | ((sightings, some f), r) => ((sightings, some f), r)
    | ((sightings, none), r) =>
      let ((more, fault), r) := runAll noted ss r
      ((sightings ++ more, fault), r)

end

/-- Runs a whole program, recording turned off and no span open. -/
def runProgram (steps : List Step) : Course × Recorder := runAll false steps (.idle false)

end LayeredFix.Trace
