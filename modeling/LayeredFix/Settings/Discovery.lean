import LayeredFix.Entries
import LayeredFix.Files.Tree

/-!
# Which file configures

A path that is asked for decides alone: it is the file, or there is none. If no path is asked for, the
variable `NEUROLINT_CONFIG` decides in the same way. Without either, the nearest file of the usual name
counts, in the directory of the start or in one above it. An empty text asks for nothing.
-/

namespace LayeredFix

/-- What a process has around it. -/
structure Surroundings where
  /-- The files. -/
  tree : FileTree
  /-- The directory in which paths are used. -/
  directory : Location := []
  /-- The environment: the values of variables by name. -/
  environment : Entries Text := []

namespace Surroundings

/-- The usual name of the file. -/
def configName : Text := "neurolint.toml".toList

/-- The variable that names the file. -/
def configVariable : Text := "NEUROLINT_CONFIG".toList

/-- The path that is asked for by a text, unless that is empty. -/
def asked? : Option Text → Option Path
  | some (c :: t) => some (.ofText (c :: t))
  | _ => none

/-- Whether a path leads to a file. -/
def hasFile (s : Surroundings) (p : Path) : Bool := s.tree.isFile s.directory p

/-- A path, if it leads to a file. -/
def file? (s : Surroundings) (p : Path) : Option Path := if s.hasFile p then some p else none

/-- The paths of the usual name in a directory and in all above it, the nearest first. -/
def candidates (l : Location) : List Path :=
  (List.range (l.length + 1)).reverse.map fun n => .ofLocation (l.take n ++ [configName])

/-- The nearest file of the usual name from a directory upwards. -/
def nearest? (s : Surroundings) (l : Location) : Option Path := (candidates l).find? s.hasFile

/-- The directory in which the search starts. -/
def startOf (s : Surroundings) (start : Option Text) : Location :=
  match asked? start with
  | some p => p.target s.directory
  | none => s.directory

/-- The file that the environment or the directories choose. -/
def discover (s : Surroundings) (start : Option Text) : Option Path :=
  match asked? (Entries.get? configVariable s.environment) with
  | some p => s.file? p
  | none => s.nearest? (s.startOf start)

/-- The file that is asked for, or else the one that is discovered. -/
def resolve (s : Surroundings) (path start : Option Text) : Option Path :=
  match asked? path with
  | some p => s.file? p
  | none => s.discover start

end Surroundings

end LayeredFix
