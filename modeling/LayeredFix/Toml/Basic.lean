import LayeredFix.Json.Basic
import LayeredFix.Toml.Moment

/-!
# TOML values

A document is a table; its entries are texts, numbers, truth values, moments, lists and tables. A path of
names leads from a table into tables within it, and through a list of tables to its last one.

`Table.within` changes the table at the end of a path and makes the tables that are missing on the way.
-/

namespace LayeredFix.Toml

/-- A TOML value. -/
inductive Value where
  /-- A text. -/
  | text (t : Text)
  /-- A number. -/
  | number (n : Number)
  /-- A truth value. -/
  | bool (b : Bool)
  /-- A day, a time, or both. -/
  | moment (m : Moment)
  /-- A list of values. -/
  | list (vs : List Value)
  /-- A table: its entries in order. -/
  | table (es : List (Text × Value))
  deriving Inhabited, BEq

/-- The entries of a table. -/
abbrev Table := Entries Value

/-- The names that lead to an entry of a table. -/
abbrev Key := List Text

mutual

/-- The value as a JSON value; `ofMoment` says what stands for a moment. -/
def Value.toJson (ofMoment : Moment → Json) : Value → Json
  | .text t => .text t
  | .number n => .number n
  | .bool b => .bool b
  | .moment m => ofMoment m
  | .list vs => .list (itemsToJson ofMoment vs)
  | .table es => .object (tableToJson ofMoment es)

/-- Items as JSON values. -/
def itemsToJson (ofMoment : Moment → Json) : List Value → List Json
  | [] => []
  | v :: vs => v.toJson ofMoment :: itemsToJson ofMoment vs

/-- Entries as JSON members. -/
def tableToJson (ofMoment : Moment → Json) : List (Text × Value) → Entries Json
  | [] => []
  | (n, v) :: es => (n, v.toJson ofMoment) :: tableToJson ofMoment es

end

namespace Table

/-- The table that a value is or, through a list, ends in, and how the value is made again from what becomes
of that table. -/
def focus? (throughLists : Bool) : Value → Option (Table × (Table → Value))
  | .table es => some (es, .table)
  | .list vs =>
    match throughLists, vs.getLast? with
    | true, some (.table es) => some (es, fun es => .list (vs.dropLast ++ [.table es]))
    | _, _ => none
  | _ => none

/-- Changes the table at the end of a path, if only tables are on the way; those that are missing are
made. -/
def within (throughLists : Bool) (f : Table → Option Table) : Key → Table → Option Table
  | [], es => f es
  | name :: path, es =>
    match Entries.get? name es with
    | none => (within throughLists f path []).map fun inner => Entries.put name (.table inner) es
    | some v =>
      match focus? throughLists v with
      | none => none
      | some (inner, again) =>
        (within throughLists f path inner).map fun inner => Entries.put name (again inner) es

/-- One more table at the end of the list under a name; the list is made if it is missing. -/
def append (name : Text) (es : Table) : Option Table :=
  match Entries.get? name es with
  | none => some (Entries.put name (.list [.table []]) es)
  | some (.list vs) => some (Entries.put name (.list (vs ++ [.table []])) es)
  | some _ => none

end Table

end LayeredFix.Toml
