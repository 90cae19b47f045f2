import LayeredFix.Log.Event
import LayeredFix.Log.Template

/-!
# The journal

The journal takes records of many sources and shows those that are grave enough: records of this library
from a level on that depends on whether the journal is verbose, all others from warnings on. Fields may be
bound for a time; they are added to each record that has no field of the same name.
-/

namespace LayeredFix

/-- The name of the library's own source; names of its parts follow after a point. -/
def ownSource : Text := "neurolint".toList

/-- How a journal is set up. -/
structure JournalSetup where
  /-- Whether everything from this library is shown. -/
  verbose : Bool := false
  /-- Whether records are shown as JSON. -/
  json : Bool := false
  /-- Whether runs are recorded as spans too. -/
  recording : Bool := false
  deriving DecidableEq, Repr

namespace JournalSetup

/-- The set-up that follows from settings: a verbose journal records spans too. -/
def ofFlags (verbose json : Bool) : JournalSetup := ⟨verbose, json, verbose⟩

/-- The level from which on records of this library are shown. -/
def ownLevel (s : JournalSetup) : Level := if s.verbose then .debug else .warning

/-- The level from which on records of other sources are shown. -/
def otherLevel : Level := .warning

/-- Whether a source belongs to this library. -/
def isOwn (source : Text) : Bool := source == ownSource || (ownSource ++ ['.']).isPrefixOf source

/-- Whether a record of a source and a level is shown. -/
def shows (s : JournalSetup) (source : Text) (level : Level) : Bool :=
  level.reaches (if isOwn source then s.ownLevel else otherLevel)

end JournalSetup

/-- A record in the journal. -/
structure JournalEntry where
  /-- What happened. -/
  event : Text
  /-- How grave it is. -/
  level : Level
  /-- Where it comes from. -/
  source : Text
  /-- The fields. -/
  fields : Entries Json

namespace JournalEntry

/-- The record as a JSON value. The time is only noted as present. -/
def toJson (e : JournalEntry) : Json :=
  .object (Entries.merge e.fields
    [("event".toList, .text e.event),
     ("level".toList, .str e.level.word),
     ("logger".toList, .text e.source),
     ("timestamp".toList, .bool true)])

/-- The number of lines that the record takes in a journal that people read. -/
def lineCount (e : JournalEntry) : Nat := Text.lineCount e.event

end JournalEntry

/-- A journal: its set-up and the fields bound at present. -/
structure Journal where
  /-- The set-up. -/
  setup : JournalSetup
  /-- The fields bound, by name. -/
  bound : Entries Json := []

namespace Journal

/-- Binds fields; a later binding of a name wins. -/
def bind (fields : Entries Json) (j : Journal) : Journal :=
  { j with bound := Entries.merge j.bound fields }

/-- Ends the binding of names. -/
def unbind (names : List Text) (j : Journal) : Journal :=
  { j with bound := j.bound.filter fun m => !names.contains m.1 }

/-- What the journal shows of a record: nothing, or the record with the bound fields added. -/
def entry (j : Journal) (source : Text) (level : Level) (event : Text) (fields : Entries Json) :
    List JournalEntry :=
  if j.setup.shows source level then [⟨event, level, source, Entries.merge j.bound fields⟩] else []

/-- What the journal shows of a message made from a template. -/
def templateEntry (j : Journal) (source : Text) (level : Level) (template : Text) (args : List Json) :
    List JournalEntry :=
  match Template.message? template args with
  | none => []
  | some m => j.entry source level m []

/-- What the journal shows of an event. -/
def eventEntry (j : Journal) (e : Event) : List JournalEntry :=
  j.entry e.source.toList e.level e.wording.toList e.fields

/-- The name under which the number of a run is bound. -/
def runIdName : Text := "run_id".toList

/-- The journal during a run with this number. -/
def duringRun (runId : Text) (j : Journal) : Journal := j.bind [(runIdName, .text runId)]

/-- The journal after a run. -/
def afterRun (j : Journal) : Journal := j.unbind [runIdName]

/-- What the journal shows of the events of a run. The number of the run is bound until its span ends. -/
def runEntries (j : Journal) (runId : Text) (es : List Event) : List JournalEntry :=
  es.flatMap fun e =>
    match e with
    | .spanComplete .. => j.afterRun.eventEntry e
    | e => (j.duringRun runId).eventEntry e

end Journal

end LayeredFix
