import LayeredFix.Json.Basic

/-!
# Spans

A span is a stretch of work with a name, with notes made during it, and with the spans that began and ended
within it. A finished span is a tree.
-/

namespace LayeredFix

/-- A span. -/
structure Span where
  /-- The name. -/
  name : Text
  /-- The notes, by key; a key occurs once. -/
  notes : Entries Json
  /-- The spans within, in the order in which they began. -/
  children : List Span
  deriving Inhabited

namespace Span

/-- A span that has just begun. -/
def begin (name : Text) : Span := ⟨name, [], []⟩

/-- A span with a note; a later note under the same key wins. -/
def note (key : Text) (value : Json) (s : Span) : Span := { s with notes := Entries.put key value s.notes }

/-- A span with one more span within. -/
def adopt (s child : Span) : Span := { s with children := s.children ++ [child] }

/-- A member that is left out when its value is empty. -/
def memberUnless (empty : Bool) (name : String) (value : Json) : Entries Json :=
  if empty then [] else [(name.toList, value)]

mutual

/-- A span as a JSON value; empty notes and an empty list of children are left out. -/
def toJson : Span → Json
  | ⟨name, notes, children⟩ =>
    .object (("name".toList, .text name) ::
      (memberUnless notes.isEmpty "annotations" (.object notes) ++
        memberUnless children.isEmpty "children" (.list (toJsons children))))

/-- Spans as JSON values. -/
def toJsons : List Span → List Json
  | [] => []
  | s :: ss => toJson s :: toJsons ss

end

end Span

end LayeredFix
