import LayeredFix.Files.Path
import LayeredFix.Text.Utf8

/-!
# File trees

What stands at each place: a file with its bytes, a directory, or nothing. There are no links. A path is
followed step by step, and each step starts from a directory that is there.

`FileTree.readText` gives the text of a file, with every end of a line a newline.
-/

namespace LayeredFix

/-- What stands at a place. -/
inductive FileEntry where
  /-- A file with its bytes. -/
  | file (bytes : List UInt8)
  /-- A directory. -/
  | directory
  deriving DecidableEq, Repr, Inhabited

/-- A file tree. -/
structure FileTree where
  /-- What stands at a place. -/
  entry? : Location → Option FileEntry

/-- Why a file cannot be read. -/
inductive FileFault where
  /-- Nothing is there. -/
  | missing
  /-- It is a directory. -/
  | isDirectory
  /-- The way leads through a file. -/
  | throughFile
  /-- Its bytes spell no text. -/
  | undecodable (fault : Utf8.Fault)
  deriving DecidableEq, Repr

namespace FileTree

/-- The tree with nothing but its top. -/
def bare : FileTree := ⟨fun l => if l.isEmpty then some .directory else none⟩

/-- The tree with a directory, and all directories above it. -/
def addDirectory (l : Location) (t : FileTree) : FileTree :=
  ⟨fun m => if m.isPrefixOf l then some .directory else t.entry? m⟩

/-- The tree with a file, and all directories above it. -/
def addFile (l : Location) (bytes : List UInt8) (t : FileTree) : FileTree :=
  ⟨fun m => if m == l then some (.file bytes) else if m.isPrefixOf l then some .directory else t.entry? m⟩

/-- What a path leads to from a place, step by step. -/
def follow (t : FileTree) (l : Location) : List Text → Except FileFault FileEntry
  | [] =>
    match t.entry? l with
    | none => .error .missing
    | some e => .ok e
  | step :: steps =>
    match t.entry? l with
    | none => .error .missing
    | some (.file _) => .error .throughFile
    | some .directory => follow t (Path.goto l step) steps

/-- What a path used in a directory leads to. -/
def find (t : FileTree) (directory : Location) (p : Path) : Except FileFault FileEntry :=
  t.follow (p.origin directory) p.steps

/-- Whether a path leads to a file. -/
def isFile (t : FileTree) (directory : Location) (p : Path) : Bool :=
  match t.find directory p with
  | .ok (.file _) => true
  | _ => false

/-- Every end of a line as a newline: a return, with or without a newline after it, becomes one. -/
def unifyNewlines : Text → Text
  | '\r' :: '\n' :: t => '\n' :: unifyNewlines t
  | c :: t => (if c == '\r' then '\n' else c) :: unifyNewlines t
  | [] => []

/-- The text of a file. -/
def readText (t : FileTree) (directory : Location) (p : Path) : Except FileFault Text :=
  match t.find directory p with
  | .error f => .error f
  | .ok .directory => .error .isDirectory
  | .ok (.file bytes) =>
    match Utf8.decode bytes with
    | .error f => .error (.undecodable f)
    | .ok text => .ok (unifyNewlines text)

end FileTree

end LayeredFix
