import LayeredFix.Check.Validator

/-!
# Decisions on a change

Given a text before and after a change, a check says whether the change should be taken back, and why.
There are three checks. The standard one compares the reports on both texts; the lenient one only measures
the change; the advanced one looks for conflicts in addition. `CheckKind.ofLayer` says which check belongs
to a layer.
-/

namespace LayeredFix

open Check

/-- How risky a change is. -/
inductive Risk where
  /-- Hardly. -/
  | low
  /-- Somewhat. -/
  | medium
  /-- Very. -/
  | high
  /-- The text is corrupt. -/
  | critical
  deriving DecidableEq, Repr, Inhabited

/-- The word for a risk. -/
def Risk.word : Risk → String
  | low => "low"
  | medium => "medium"
  | high => "high"
  | critical => "critical"

/-- All risks. -/
def Risk.all : List Risk := [low, medium, high, critical]

/-- Measures of a change. -/
structure Metrics where
  /-- By how many lines the lengths differ. -/
  linesChanged : Int := 0
  /-- How many decisions were added. -/
  complexityDelta : Int := 0
  /-- How many errors were added. -/
  errorCount : Int := 0
  deriving DecidableEq, Repr, Inhabited

/-- A decision on a change. -/
structure Decision where
  /-- Whether the change should be taken back. -/
  shouldRevert : Bool
  /-- How risky the change is. -/
  risk : Risk
  /-- Why the change should be taken back. -/
  reason : Option Text := none
  /-- Measures of the change. -/
  metrics : Metrics := {}
  deriving DecidableEq, Repr, Inhabited

namespace Metrics

/-- The measures as a JSON value. -/
def toJson (m : Metrics) : Json :=
  .object
    [("lines_changed".toList, .int m.linesChanged),
     ("complexity_delta".toList, .int m.complexityDelta),
     ("error_count".toList, .int m.errorCount)]

/-- Reads measures. -/
def read : Reader Metrics :=
  open Reader in
  record <| make Metrics.mk
    |> (andThen · (optional "lines_changed" 0 int))
    |> (andThen · (optional "complexity_delta" 0 int))
    |> (andThen · (optional "error_count" 0 int))

end Metrics

namespace Decision

/-- The decision as a JSON value. -/
def toJson (d : Decision) : Json :=
  .object
    [("should_revert".toList, .bool d.shouldRevert),
     ("risk_level".toList, .str d.risk.word),
     ("reason".toList, (d.reason.map Json.text).getD .null),
     ("metrics".toList, d.metrics.toJson)]

/-- Reads a decision. -/
def read : Reader Decision :=
  open Reader in
  record <| make Decision.mk
    |> (andThen · (required "should_revert" bool))
    |> (andThen · (required "risk_level" (word (Risk.all.map fun r => (r.word, r)))))
    |> (andThen · (optional "reason" none (orNull text)))
    |> (andThen · (optional "metrics" {} Metrics.read))

end Decision

namespace Check

/-! ### Reasons -/

/-- A conflict that an eager change can leave behind. -/
inductive Conflict where
  /-- More default exports than one were added. -/
  | defaultExports
  /-- A component is memoised twice. -/
  | nestedMemo
  /-- Several lines mark the code for the client. -/
  | clientDirectives
  /-- A keyword of the module system stands twice. -/
  | doubledKeyword
  /-- There are more closing than opening tags. -/
  | unbalancedTags
  deriving DecidableEq, Repr

/-- The wording of a conflict. -/
def Conflict.message : Conflict → Text
  | defaultExports => "Multiple export default statements detected".toList
  | nestedMemo => "Nested React.memo wrapping detected".toList
  | clientDirectives => "Multiple 'use client' directives detected".toList
  | doubledKeyword => "Duplicated import/export statements detected".toList
  | unbalancedTags => "Malformed JSX structure detected".toList

/-- Why a change should be taken back. -/
inductive Reason where
  /-- It made the text corrupt. -/
  | corruption
  /-- It made a valid text invalid, with these errors. -/
  | brokeValid (errors : List Text)
  /-- It added so many errors. -/
  | newErrors (count : Int)
  /-- It added so many decisions. -/
  | complexity (delta : Int)
  /-- It left a conflict behind. -/
  | conflict (c : Conflict)
  deriving DecidableEq, Repr

/-- The wording of a reason. -/
def Reason.message : Reason → Text
  | corruption => "Transformation introduced code corruption".toList
  | brokeValid errors =>
    "Transformation broke valid code: ".toList ++ List.intercalate [',', ' '] errors
  | newErrors n => s!"Transformation added {n} new errors".toList
  | complexity n => s!"Transformation increased complexity by {n}".toList
  | conflict c => c.message

/-- How risky it is to keep a change in spite of a reason. -/
def Reason.risk : Reason → Risk
  | corruption => .critical
  | brokeValid _ => .high
  | newErrors _ => .high
  | complexity _ => .medium
  | conflict _ => .high

/-- The decision to take a change back. -/
def revert (r : Reason) (m : Metrics) : Decision := ⟨true, r.risk, some r.message, m⟩

/-! ### The standard check -/

/-- By how many lines the lengths of two texts differ. -/
def lineDelta (before after : Text) : Int :=
  ((Text.lineCount after : Int) - Text.lineCount before).natAbs

/-- The measures of a change. -/
def measure (v : Validator) (before after : Text) : Metrics where
  linesChanged := lineDelta before after
  complexityDelta := (decisionCount after : Int) - decisionCount before
  errorCount := ((v.report after).errors.length : Int) - (v.report before).errors.length

/-- The most errors that a change may add to a text that was invalid before. -/
def maxNewErrors : Int := 10

/-- The most lines by which the length may change at low risk. -/
def mediumLines : Int := 100

/-- The strictest rule that a change breaks. -/
def standardReason (v : Validator) (before after : Text) : Option Reason :=
  let was := v.report before
  let now := v.report after
  let m := measure v before after
  if now.corrupt && !was.corrupt then some .corruption
  else if was.valid && !now.valid then some (.brokeValid now.errors)
  else if maxNewErrors < m.errorCount then some (.newErrors m.errorCount)
  else if v.maxComplexityIncrease < m.complexityDelta then some (.complexity m.complexityDelta)
  else none

/-- The risk of a change that may stay. -/
def standardRisk (m : Metrics) : Risk :=
  if 0 < m.errorCount || mediumLines < m.linesChanged then .medium else .low

/-- The standard check: the strictest rule that is broken decides. No change is no risk. -/
def standard (v : Validator) (before after : Text) : Decision :=
  if before == after then { shouldRevert := false, risk := .low }
  else
    let m := measure v before after
    match standardReason v before after with
    | some r => revert r m
    | none => { shouldRevert := false, risk := standardRisk m, metrics := m }

/-! ### The lenient check -/

/-- The risk of a change that adds or removes so many lines. -/
def lenientRisk (lines : Int) : Risk :=
  if 5000 < lines then .high else if 1000 < lines then .medium else .low

/-- The lenient check: only the number of lines counts, and no change is taken back. -/
def lenient (before after : Text) : Decision :=
  if before == after then { shouldRevert := false, risk := .low }
  else
    let lines := lineDelta before after
    { shouldRevert := false, risk := lenientRisk lines, metrics := { linesChanged := lines } }

/-! ### The advanced check -/

/-- A line that marks the code for the client. -/
def clientDirectiveLine : Pattern :=
  let quote : Pattern := .one fun c => c == '\'' || c == '"'
  .all [.lineStart, .blanks, quote, .text "use client", quote, .optional (.text ";"), .blanks, .lineEnd]

/-- An opening tag. -/
def openingTag : Pattern :=
  .all [.text "<", .one (fun c => c != '/' && c != '>'), .many (· != '>'), .text ">"]

/-- A closing tag. -/
def closingTag : Pattern := .all [.text "</", .some1 (· != '>'), .text ">"]

/-- Whether a change leaves a conflict behind. -/
def Conflict.arises (before after : Text) : Conflict → Bool
  | defaultExports =>
    Text.occurrences "export default".toList before + 1 < Text.occurrences "export default".toList after
  | nestedMemo => Text.occursIn "React.memo(React.memo(".toList after
  | clientDirectives => 1 < clientDirectiveLine.count after
  | doubledKeyword => Text.anyOccursIn ["import import".toList, "export export".toList] after
  | unbalancedTags =>
    Text.occursIn "</".toList after && openingTag.count after < closingTag.count after

/-- All conflicts, in the order in which they are looked for. -/
def Conflict.all : List Conflict :=
  [defaultExports, nestedMemo, clientDirectives, doubledKeyword, unbalancedTags]

/-- The first conflict that a change leaves behind. -/
def conflictIn (before after : Text) : Option Conflict :=
  Conflict.all.find? (Conflict.arises before after)

/-- The advanced check: the standard check, and no conflicts. -/
def advanced (v : Validator) (before after : Text) : Decision :=
  let base := standard v before after
  if base.shouldRevert then base
  else
    match conflictIn before after with
    | some c => revert (.conflict c) base.metrics
    | none => base

end Check

/-! ### The check of a layer -/

/-- The kinds of check. -/
inductive CheckKind where
  /-- The standard check. -/
  | standard
  /-- The lenient check. -/
  | lenient
  /-- The advanced check. -/
  | advanced
  deriving DecidableEq, Repr

/-- The check that belongs to a layer: layers 4 and 5 make large changes on purpose and are checked
leniently, layer 6 is checked for conflicts. -/
def CheckKind.ofLayer (id : Int) : CheckKind :=
  if id == 4 || id == 5 then lenient else if id == 6 then advanced else standard

/-- The decision of a check. -/
def CheckKind.decide (v : Validator) (before after : Text) : CheckKind → Decision
  | standard => Check.standard v before after
  | lenient => Check.lenient before after
  | advanced => Check.advanced v before after

end LayeredFix
