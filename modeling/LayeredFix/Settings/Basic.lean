import LayeredFix.Settings.Environment
import LayeredFix.Settings.File
import LayeredFix.Settings.Sections

/-!
# Settings

Settings come from three sources: what the caller overrides, what the environment says, and what a file
says. The first of these that sets a member decides it, also deep inside a section, and defaults fill the
rest. Only what decides is read into the record, so a wrong value under a right one does no harm.

`Settings.build` makes settings with a file in force; `Loader.load` chooses the file, keeps it in force while
the settings are built, and then no longer. The path of the file is a member of the settings too. It comes from the
loader that has chosen the file, or else from the environment.
-/

namespace LayeredFix

/-- The settings. -/
structure Settings where
  /-- The file that they were read from. -/
  configPath : Option Path := none
  /-- Whether more is logged, and spans are recorded. -/
  verbose : Bool := false
  /-- Whether the journal is written in JSON. -/
  logJson : Bool := false
  /-- How layers are run. -/
  pipeline : PipelineSettings := {}
  /-- How outputs are kept. -/
  cache : CacheSettings := {}
  /-- How texts are inspected. -/
  validator : ValidatorSettings := {}
  deriving DecidableEq, Repr, Inhabited

/-- Why there are no settings. -/
inductive SettingsError where
  /-- The file gives no configuration. -/
  | file (fault : ConfigFault)
  /-- A variable for a section should be in JSON and is not. -/
  | variable (name : Text)
  /-- The JSON in a variable nests too deep. -/
  | tooDeep (holder : Json.Holder)
  /-- What decides is wrong in places. -/
  | invalid (issues : List Issue)
  deriving DecidableEq, Repr

/-- The wording of the failure of a variable. -/
def SettingsError.variableMessage (name : Text) : Text :=
  "error parsing value for field \"".toList ++ name ++ "\" from source \"EnvSettingsSource\"".toList

namespace Settings

/-- The sections with their members. -/
def sectionNames : List (String × List String) :=
  [("pipeline", PipelineSettings.names), ("cache", CacheSettings.names), ("validator", ValidatorSettings.names)]

/-- The names of all members. -/
def names : List String := ["config_path", "verbose", "log_json"] ++ sectionNames.map (·.1)

/-- Reads the members of the settings. The path is not read but known. -/
def fields (configPath : Option Path) : Reader.Members Settings :=
  open Reader in
  make (Settings.mk configPath)
    |> (andThen · (optional "verbose" false bool))
    |> (andThen · (optional "log_json" false bool))
    |> (andThen · (optional "pipeline" {} PipelineSettings.read))
    |> (andThen · (optional "cache" {} CacheSettings.read))
    |> (andThen · (optional "validator" {} ValidatorSettings.read))

/-- Reads settings. -/
def read (configPath : Option Path) : Reader Settings := Reader.record (Reader.closed names (fields configPath))

/-- The settings as a JSON value. -/
def toJson (s : Settings) : Json :=
  .object
    [("config_path".toList, (s.configPath.map fun p => Json.text p.toText).getD .null),
     ("verbose".toList, .bool s.verbose),
     ("log_json".toList, .bool s.logJson),
     ("pipeline".toList, s.pipeline.toJson),
     ("cache".toList, s.cache.toJson),
     ("validator".toList, s.validator.toJson)]

/-- What it means for the settings that the variables for a section are not in JSON. -/
def variableError (name : Text) : Json.ParseError → SettingsError
  | .tooDeep h => .tooDeep h
  | _ => .variable name

/-- What the environment says of sections, in their order. -/
def sectionsFrom (vars : Entries Text) :
    List (String × List String) → Except SettingsError (Entries Json)
  | [] => .ok []
  | (name, members) :: more =>
    match Environment.readSection vars name.toList (members.map String.toList) with
    | .error e => .error (variableError name.toList e)
    | .ok v =>
      match sectionsFrom vars more with
      | .error e => .error e
      | .ok ms => .ok (v.toList.map (name.toList, ·) ++ ms)

/-- What the environment says. -/
def fromEnvironment (s : Surroundings) : Except SettingsError (Entries Json) :=
  let vars := Environment.byLowerName s.environment
  let switches := ["verbose", "log_json"].flatMap fun n => Environment.switch vars n.toList
  (sectionsFrom vars sectionNames).map (switches ++ ·)

/-- What the file in force says. A moment sets nothing that settings know; it stands as a null value. -/
def fromFile (s : Surroundings) : Option Path → Except SettingsError (Entries Json)
  | none => .ok []
  | some p =>
    match s.readConfig p with
    | .error f => .error (.file f)
    | .ok table => .ok (Toml.tableToJson (fun _ => .null) table)

/-- The sources laid over each other: the overrides over the environment over the file. -/
def combine (file environment overrides : Entries Json) : Entries Json :=
  Json.overlay file (Json.overlay environment overrides)

/-- Settings with a file in force and a path that is known. -/
def build (s : Surroundings) (inForce configPath : Option Path) (overrides : Entries Json) :
    Except SettingsError Settings :=
  match fromFile s inForce with
  | .error e => .error e
  | .ok file =>
    match fromEnvironment s with
    | .error e => .error e
    | .ok environment => (read configPath (.object (combine file environment overrides))).mapError .invalid

end Settings

/-- What makes settings: the file in force is the one that settings are read from. -/
structure Loader where
  /-- The file in force. -/
  inForce : Option Path := none

namespace Loader

/-- Settings from the file that is asked for or discovered, and its path. The file is in force until they are built. -/
def load (s : Surroundings) (path start : Option Text) (overrides : Entries Json) (l : Loader) :
    Except SettingsError Settings × Loader :=
  let chosen := s.resolve path start
  let l := { l with inForce := chosen }
  (Settings.build s l.inForce chosen overrides, { l with inForce := none })

end Loader

end LayeredFix
