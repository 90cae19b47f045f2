import LayeredFix.Text.Basic
import LayeredFix.Text.Quoted

/-!
# Failures

A pass may fail. A failure has a kind and a wording; the run records the wording and goes on with the
text as it was before the pass.
-/

namespace LayeredFix

/-- The kinds of failure. -/
inductive FailureKind where
  /-- A layer cannot work on its input. -/
  | layer
  /-- A registry of layers is asked for something that it cannot hold. -/
  | registry
  /-- A value is out of range. -/
  | value
  /-- A value is of the wrong kind. -/
  | wrongKind
  /-- A name is missing. -/
  | missingName
  /-- Something nests too deep. -/
  | tooDeep
  /-- Anything else. -/
  | other
  deriving DecidableEq, Repr, Inhabited

/-- A failure: its kind and its wording. -/
structure Failure where
  /-- The kind. -/
  kind : FailureKind
  /-- The wording. -/
  message : Text
  deriving DecidableEq, Repr, Inhabited

/-- The failure that a name is missing; it is worded as the name in quotes. -/
def Failure.missing (name : Text) : Failure := ⟨.missingName, Text.quoted name⟩

/-- A pass over a text, which may fail. -/
abbrev Transform := Text → Except Failure Text

end LayeredFix
