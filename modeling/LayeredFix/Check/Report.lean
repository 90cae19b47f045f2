import LayeredFix.Reader.Basic

/-!
# Reports on a text

What an inspection says about one text: whether it is valid, what is wrong with it, and what else is
worth a remark.
-/

namespace LayeredFix

/-- The report on a text. -/
structure Report where
  /-- Whether the text is valid. -/
  valid : Bool
  /-- What is wrong. -/
  errors : List Text
  /-- What is worth a warning. -/
  warnings : List Text
  /-- Whether the text is corrupt. -/
  corrupt : Bool
  /-- What may be slow. -/
  performance : List Text
  /-- What may be dangerous. -/
  security : List Text
  deriving DecidableEq, Repr, Inhabited

namespace Report

/-- The report as a JSON value. -/
def toJson (r : Report) : Json :=
  .object
    [("is_valid".toList, .bool r.valid),
     ("errors".toList, .list (r.errors.map .text)),
     ("warnings".toList, .list (r.warnings.map .text)),
     ("corruption_detected".toList, .bool r.corrupt),
     ("performance_issues".toList, .list (r.performance.map .text)),
     ("security_issues".toList, .list (r.security.map .text))]

/-- Reads a report. -/
def read : Reader Report :=
  open Reader in
  record <| make Report.mk
    |> (andThen · (required "is_valid" bool))
    |> (andThen · (optional "errors" [] (list text)))
    |> (andThen · (optional "warnings" [] (list text)))
    |> (andThen · (optional "corruption_detected" false bool))
    |> (andThen · (optional "performance_issues" [] (list text)))
    |> (andThen · (optional "security_issues" [] (list text)))

end Report

end LayeredFix
