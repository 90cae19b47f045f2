import LayeredFix.Log.Event
import LayeredFix.Trace.Span

/-!
# Recording spans

A recorder keeps the spans that are open, the innermost first, and the events logged so far. Work is
recorded by two combinators. `Recorder.within` makes a stretch of work a span inside the current one, if
recording is on and a span is current. `Recorder.call` makes a call the root of a tree of its own, if
recording is on; the finished tree is handed to the result of the call and is attached to no other tree.

Both leave the spans around them as they were, whatever the work inside did.
-/

namespace LayeredFix

/-- The state of recording. -/
structure Recorder where
  /-- Whether recording is on. -/
  enabled : Bool
  /-- The open spans, the innermost first. -/
  path : List Span
  /-- The events logged, in order. -/
  events : List Event

namespace Recorder

/-- A recorder without open spans and events. -/
def idle (enabled : Bool) : Recorder := ⟨enabled, [], []⟩

/-- The current span. -/
def current? (r : Recorder) : Option Span := r.path.head?

/-- Turns recording on or off; open spans stay open. -/
def enable (on : Bool) (r : Recorder) : Recorder := { r with enabled := on }

/-- Logs events. -/
def log (es : List Event) (r : Recorder) : Recorder := { r with events := r.events ++ es }

/-- Makes a note on the current span. -/
def note (key : Text) (value : Json) (r : Recorder) : Recorder :=
  match r.path with
  | [] => r
  | s :: rest => { r with path := s.note key value :: rest }

/-- Opens a span. -/
def push (name : Text) (r : Recorder) : Recorder := { r with path := .begin name :: r.path }

/-- Closes the current span and puts it into the span around it. -/
def close (r : Recorder) : Recorder :=
  match r.path with
  | child :: parent :: rest => { r with path := parent.adopt child :: rest }
  | _ => r

/-- Work as a span inside the current one, if recording is on and a span is current; the work is told
whether it is. -/
def within {α : Type} (name : Text) (work : Bool → Recorder → α × Recorder) (r : Recorder) :
    α × Recorder :=
  if r.enabled && !r.path.isEmpty then
    let (a, r) := work true (r.push name)
    (a, r.close)
  else work false r

/-- A call as the root of a tree of its own, if recording is on. The end of the call is logged; a call that
does not fail gets its tree. -/
def call {α : Type} (name : Text) (fails : α → Bool) (give : Span → α → α)
    (work : Recorder → α × Recorder) (r : Recorder) : α × Recorder :=
  if r.enabled then
    match work (r.push name) with
    | (a, r') =>
      match r'.path with
      | [] => (a, r')
      | root :: rest =>
        let ended := { r' with path := rest }
        if fails a then (a, ended.log [.spanComplete root.name false root.children.length])
        else (give root a, ended.log [.spanComplete root.name true root.children.length])
  else work r

end Recorder

end LayeredFix
