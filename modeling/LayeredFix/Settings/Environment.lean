import LayeredFix.Json.Overlay
import LayeredFix.Json.Parser

/-!
# Settings in the environment

Variables whose names begin with `NEUROLINT_` set members of the settings; the case of letters does not
matter, and of names that differ in case only the last one counts. A switch is set by the text of its
variable. A section is set as a whole by an object in JSON, or member by member by variables in whose names
two underscores lead inwards, which win over the object. The list of layers is written in JSON.
-/

namespace LayeredFix.Environment

/-- A name with its ASCII letters in lower case. -/
def lower (t : Text) : Text := t.map Char.toLower

/-- The variables by their names in lower case. -/
def byLowerName (vars : Entries Text) : Entries Text :=
  Entries.ofList (vars.map fun v => (lower v.1, v.2))

/-- What the names of the settings' variables begin with, in lower case. -/
def namePrefix : Text := "neurolint_".toList

/-- What leads inwards in a name. -/
def inwards : Text := ['_', '_']

/-- The name that holds a list. -/
def listName : Text := "default_layers".toList

/-- Whether a member of a section is a list; its name may be given with the prefix of variables. -/
def isListName (part name : Text) : Bool :=
  part == "pipeline".toList && (name == listName || name == namePrefix ++ listName)

/-- The value of a variable for a member of a section: its text, or what the text says in JSON if the member
is a list. -/
def memberValue (part : Text) (way : List Text) (t : Text) : Except Json.ParseError Json :=
  match way with
  | [name] => if isListName part name && !t.isEmpty then Json.parse t else .ok (.text t)
  | _ => .ok (.text t)

/-- The members with a value set at the end of a way; nothing is set below what is no object. -/
def setAt (way : List Text) (v : Json) (ms : Entries Json) : Entries Json :=
  match way with
  | [] => ms
  | [name] => Entries.put name v ms
  | name :: way =>
    match Entries.get? name ms with
    | none => Entries.put name (.object (setAt way v [])) ms
    | some (.object inner) => Entries.put name (.object (setAt way v inner)) ms
    | some _ => ms

/-- The members of a section that variables set one by one, each of them in JSON that should be. -/
def membersFrom (part : Text) (ms : Entries Json) : Entries Text → Except Json.ParseError (Entries Json)
  | [] => .ok ms
  | (name, t) :: vars =>
    let start := namePrefix ++ part ++ inwards
    if start.isPrefixOf name then
      let way := Text.splitOn inwards (name.drop start.length)
      match memberValue part way t with
      | .error e => .error e
      | .ok v => membersFrom part (setAt way v ms) vars
    else membersFrom part ms vars

/-- Members under the names of the section that they equal but for case. -/
def withKnownNames (names : List Text) (ms : Entries Json) : Entries Json :=
  Entries.ofList (ms.map fun m => ((names.find? (· == lower m.1)).getD m.1, m.2))

/-- What the environment says of a section: nothing, or a value. It fails if a variable should be in JSON
and is not. -/
def readSection (vars : Entries Text) (name : Text) (members : List Text) :
    Except Json.ParseError (Option Json) :=
  let exploded := membersFrom name [] vars
  match Entries.get? (namePrefix ++ name) vars with
  | none =>
    exploded.map fun ms => if ms.isEmpty then none else some (.object (withKnownNames members ms))
  | some t =>
    match Json.parse t with
    | .error e => .error e
    | .ok .null => .ok none
    | .ok (.object ms) =>
      exploded.map fun newer => some (.object (withKnownNames members (Json.overlay ms newer)))
    | .ok v => .ok (some v)

/-- What the environment says of a switch. -/
def switch (vars : Entries Text) (name : Text) : Entries Json :=
  match Entries.get? (namePrefix ++ name) vars with
  | none => []
  | some t => [(name, .text t)]

end LayeredFix.Environment
