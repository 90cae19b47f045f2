import LayeredFix.Settings.Discovery
import LayeredFix.Toml.Parser

/-!
# Reading the file that configures

The file holds a TOML document in UTF-8. What can go wrong is told with the path as it was given.
-/

namespace LayeredFix

/-- Why a file gives no configuration. -/
inductive ConfigFault where
  /-- It cannot be read. -/
  | unreadable (path : Path) (fault : FileFault)
  /-- It is no TOML document. -/
  | malformed (path : Path) (error : Toml.ParseError)
  deriving DecidableEq, Repr

namespace ConfigFault

/-- A wording that ends in a path in quotes. -/
def aboutPath (wording : String) (p : Path) : Text := wording.toList ++ ": ".toList ++ Text.quoted p.toText

/-- The wording of a fault. -/
def message : ConfigFault → Text
  | unreadable p .missing => aboutPath "[Errno 2] No such file or directory" p
  | unreadable p .throughFile => aboutPath "[Errno 20] Not a directory" p
  | unreadable p .isDirectory => aboutPath "[Errno 21] Is a directory" p
  | unreadable _ (.undecodable f) => f.message.toList
  | malformed p (.at cause position) =>
    "Invalid TOML in ".toList ++ p.toText ++ ": ".toList ++ cause.messageAt position
  | malformed _ (.tooManyDigits n) => (Number.tooManyDigits n).toList
  | malformed _ .tooDeep => "maximum recursion depth exceeded".toList

end ConfigFault

/-- The configuration that a file holds. -/
def Surroundings.readConfig (s : Surroundings) (p : Path) : Except ConfigFault Toml.Table :=
  match s.tree.readText s.directory p with
  | .error f => .error (.unreadable p f)
  | .ok t =>
    match Toml.parse t with
    | .error e => .error (.malformed p e)
    | .ok table => .ok table

end LayeredFix
