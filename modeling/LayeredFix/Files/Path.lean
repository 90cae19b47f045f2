import LayeredFix.Text.Basic

/-!
# Paths

A path leads through directories by names; `..` leads back to the directory above. It starts from the top of
the tree if it begins with a slash, and otherwise from the directory in which it is used. Empty names and the
name `.` lead nowhere and are left out.
-/

namespace LayeredFix

/-- A place in a file tree: the names that lead there from the top. -/
abbrev Location := List Text

/-- A path. -/
structure Path where
  /-- The slashes it begins with: none, one, or exactly two. -/
  anchor : Text
  /-- Its names. -/
  steps : List Text
  deriving DecidableEq, Repr, Inhabited

namespace Path

/-- The name of the directory above. -/
def up : Text := ['.', '.']

/-- Two slashes at the beginning are kept, more count as one. -/
def anchorOf : Text → Text
  | '/' :: '/' :: '/' :: _ => ['/']
  | '/' :: '/' :: _ => ['/', '/']
  | '/' :: _ => ['/']
  | _ => []

/-- The path that a text writes. -/
def ofText (t : Text) : Path :=
  ⟨anchorOf t, (Text.splitWhere (· == '/') t).filter fun name => !name.isEmpty && name != ['.']⟩

/-- The path to a place. -/
def ofLocation (l : Location) : Path := ⟨['/'], l⟩

/-- The path as it is written; the path that leads nowhere is a point. -/
def toText (p : Path) : Text :=
  if p.anchor.isEmpty && p.steps.isEmpty then ['.'] else p.anchor ++ List.intercalate ['/'] p.steps

/-- Whether the path starts from the top. -/
def isAbsolute (p : Path) : Bool := !p.anchor.isEmpty

/-- The place from which a path used in a directory starts. -/
def origin (directory : Location) (p : Path) : Location := if p.isAbsolute then [] else directory

/-- The place one step further; `..` goes up whether or not there is such a directory. -/
def goto (l : Location) (step : Text) : Location := if step == up then l.dropLast else l ++ [step]

/-- The place that a path used in a directory leads to, whether or not anything is there. -/
def target (directory : Location) (p : Path) : Location := p.steps.foldl goto (p.origin directory)

end Path

end LayeredFix
