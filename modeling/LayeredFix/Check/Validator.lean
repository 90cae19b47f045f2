import LayeredFix.Check.Report
import LayeredFix.Check.Signature

/-!
# Validators

A validator inspects a text and says how much more complex a change may make it. `Limits.validator` is the
validator that follows from fixed limits; any other function from texts to reports makes a validator too.
-/

namespace LayeredFix

open Check

/-- The limits of the standard inspection. -/
structure Limits where
  /-- The most lines. -/
  maxLines : Int := 50000
  /-- The most decisions that a change may add. -/
  maxComplexityIncrease : Int := 50
  /-- The size, in bytes, above which memory is a concern. -/
  memoryConcern : Int := 52428800

/-- A validator. -/
structure Validator where
  /-- The report on a text; the flag says whether to look for damage. -/
  inspect : (scan : Bool) → Text → Report
  /-- The most decisions that a change may add. -/
  maxComplexityIncrease : Int

namespace Check

/-- What makes a text invalid. -/
inductive Fault where
  /-- The text has more lines than allowed. -/
  | tooManyLines (lines : Nat) (most : Int)
  /-- The text is damaged. -/
  | damaged (damage : Damage)
  deriving DecidableEq, Repr

/-- The wording of a fault. -/
def Fault.message : Fault → Text
  | tooManyLines n most => s!"Code too large: {n} lines exceeds maximum of {most}".toList
  | damaged d => s!"Code corruption detected: {d.word}".toList

/-- What is worth a warning. -/
inductive Warning where
  /-- Many calls that write to the console. -/
  | consoleCalls
  /-- Marks of unfinished work. -/
  | unfinished
  deriving DecidableEq, Repr

/-- The wording of a warning. -/
def Warning.message : Warning → Text
  | consoleCalls => "Many console.log statements detected - consider removing in production".toList
  | unfinished => "TODO/FIXME comments detected".toList

/-- The wording of a danger. -/
def Danger.message (d : Danger) : Text := s!"Potentially dangerous pattern: {d.word}".toList

/-- The least number of console calls that is worth a warning. -/
def manyConsoleCalls : Nat := 10

/-- The warnings about a text. -/
def warningsOn (t : Text) : List Warning :=
  (if manyConsoleCalls ≤ Text.occurrences "console.log".toList t then [.consoleCalls] else []) ++
    if Text.anyOccursIn ["// TODO".toList, "// FIXME".toList] t then [.unfinished] else []

/-- The faults of a text; damage is looked for only on demand. -/
def faultsOf (limits : Limits) (scan : Bool) (t : Text) : List Fault :=
  (if limits.maxLines < Text.lineCount t then [.tooManyLines (Text.lineCount t) limits.maxLines]
    else []) ++
    if scan then (damageIn t).map .damaged else []

/-- The memory that a text is taken to need: four bytes a character. -/
def memoryNeed (t : Text) : Nat := 4 * t.length

/-- The concerns about the time and memory that a text takes. -/
def performanceOf (limits : Limits) (t : Text) : List Text :=
  if limits.memoryConcern < memoryNeed t then
    ["Large file may cause memory issues during processing".toList]
  else []

end Check

/-- The report on what is no text, or an empty one. -/
def Report.noText : Report where
  valid := false
  errors := ["Invalid code input: must be a non-empty string".toList]
  warnings := []
  corrupt := true
  performance := []
  security := []

/-- The standard inspection. A text is valid if it has no faults. -/
def Limits.inspect (limits : Limits) (scan : Bool) (t : Text) : Report :=
  if t.isEmpty then .noText
  else
    { valid := (faultsOf limits scan t).isEmpty
      errors := (faultsOf limits scan t).map Fault.message
      warnings := (warningsOn t).map Warning.message
      corrupt := scan && !(damageIn t).isEmpty
      performance := performanceOf limits t
      security := (dangersIn t).map Danger.message }

namespace Validator

/-- The validator that follows from limits. -/
def ofLimits (limits : Limits) : Validator := ⟨limits.inspect, limits.maxComplexityIncrease⟩

/-- The validator with the standard limits. -/
def standard : Validator := ofLimits {}

/-- The full report on a text. -/
def report (v : Validator) (t : Text) : Report := v.inspect true t

/-- The report on what may be no text at all. -/
def inspectAny (v : Validator) (scan : Bool) : Option Text → Report
  | none => .noText
  | some t => v.inspect scan t

/-- The errors that each occurrence of a marker adds: `per` for each, numbered from 0. -/
def markerErrors (marker : Text) (per : Int) (t : Text) : List Text :=
  (List.range (per * Text.occurrences marker t).toNat).map fun i => s!"lint error {i}".toList

/-- The report `r` on a text `t` with the errors for a marker that occurs in it. -/
def addMarkerErrors (marker : Text) (per : Int) (t : Text) (r : Report) : Report :=
  if Text.occursIn marker t then
    { r with valid := false, errors := r.errors ++ markerErrors marker per t }
  else r

/-- A validator to which texts that contain a marker are invalid, with `per` errors for each
occurrence. -/
def withMarker (v : Validator) (marker : Text) (per : Int) : Validator :=
  { v with inspect := fun scan t => addMarkerErrors marker per t (v.inspect scan t) }

end Validator

end LayeredFix
