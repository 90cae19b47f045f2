import LayeredFix.Toml.Basic

/-!
# What a document has settled

While a document is read, some of its tables are settled: a table that has been declared may not be declared
again, and what was written in one piece, a list or a table in braces, may not be added to. A mark says
which of the two holds of a path.
-/

namespace LayeredFix.Toml

/-- How a path is settled. -/
inductive MarkKind where
  /-- It has been declared. -/
  | declared
  /-- It was written in one piece; this holds of all paths that go on from it. -/
  | whole
  deriving DecidableEq, Repr

/-- A path that is settled. -/
structure Mark where
  /-- How. -/
  kind : MarkKind
  /-- The path. -/
  path : Key
  deriving DecidableEq, Repr

/-- Whether a mark settles a path. -/
def Mark.covers (m : Mark) (path : Key) : Bool :=
  match m.kind with
  | .declared => m.path == path
  | .whole => m.path.isPrefixOf path

/-- The marks of a document so far. -/
abbrev Marks := List Mark

namespace Marks

/-- Whether a path is settled in a way. -/
def has (kind : MarkKind) (path : Key) (ms : Marks) : Bool :=
  ms.any fun m => m.kind == kind && m.covers path

/-- The marks without those on a path and on paths that go on from it. -/
def release (path : Key) (ms : Marks) : Marks := ms.filter fun m => !path.isPrefixOf m.path

end Marks

end LayeredFix.Toml
