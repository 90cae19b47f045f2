import LayeredFix.Pass.Guard

/-!
# Hardening

Five narrow edits, in this order: a fallback for components at risk, a loading flag for small components
that wait, error handling for the first asynchronous function, semicolons after the members of
interfaces, and exactly one default export.
-/

namespace LayeredFix.Pass.Hardening

/-! ### Fallback for components at risk -/

/-- Texts that show a risk: network, uploads, streams. -/
def riskMarkers : List Text :=
  ["fetch(", "axios.", "upload", "PDF", "WebSocket", "EventSource"].map String.toList

/-- The beginning of a block with error handling. -/
def tryBlock : Pattern := .all [.edge, .text "try", .blanks, .text "\x7b"]

/-- The default export of a function. -/
def defaultFunction : Pattern := .all [.text "export default function ", .group 1 .word]

/-- A component that renders another one and shows a message if that fails. -/
def fallbackWrapper (name : Text) : Text :=
  "// Fallback render for ".toList ++ name ++
  "\nfunction ".toList ++ name ++
  "WithErrorBoundary(props: any) \x7b\n  try \x7b\n    return <".toList ++ name ++
  (" \x7b...props\x7d />;\n" ++
   "  \x7d catch (error) \x7b\n" ++
   "    console.error('").toList ++ name ++
  (" error:', error);\n" ++
   "    return (\n" ++
   "      <div className=\"p-4 text-red-600 bg-red-50 rounded-lg border border-red-200\">\n" ++
   "        <h3 className=\"font-semibold\">Something went wrong</h3>\n" ++
   "        <p className=\"text-sm mt-1\">Please try refreshing the page.</p>\n" ++
   "      </div>\n" ++
   "    );\n" ++
   "  \x7d\n" ++
   "\x7d\n\n").toList

/-- A fallback around the default export, if it is at risk and nothing handles errors. -/
def addFallbackRender (t : Text) : Text :=
  if !Text.anyOccursIn riskMarkers t then t
  else if Text.occursIn "ErrorBoundary".toList t || tryBlock.occursIn t then t
  else
    match defaultFunction.search t with
    | none => t
    | some f =>
      let name := f.hit.group 1
      Text.replaceFirst ("export default function ".toList ++ name)
          (fallbackWrapper name ++ "function ".toList ++ name) t ++
        "\n\nexport default ".toList ++ name ++ "WithErrorBoundary;".toList

/-! ### Loading flag -/

/-- Texts that show waiting for an answer. -/
def waitMarkers : List Text := ["fetch(", "axios.", "api."].map String.toList

/-- The number of characters from which on a component is not small. -/
def smallComponentLimit : Nat := 300

/-- The declaration of the loading flag. -/
def loadingState : Text := "const [isLoading, setIsLoading] = useState(false);\n  ".toList

/-- A loading flag before the first declaration of state of a small component that waits. -/
def addLoadingState (t : Text) : Text :=
  if smallComponentLimit ≤ t.length || !Text.occursIn "useState".toList t then t
  else if !Text.anyOccursIn waitMarkers t then t
  else if Text.occursIn "loading".toList t || Text.occursIn "isLoading".toList t then t
  else
    match Guard.stateDeclaration.search t with
    | none => t
    | some f => f.before ++ loadingState ++ f.hit.text ++ f.after

/-! ### Error handling -/

/-- The word that begins the handling of an error. -/
def catchWord : Pattern := .all [.edge, .text "catch", .edge]

/-- The first line of an asynchronous arrow function that is bound to a name. -/
def asyncArrow : Pattern :=
  .all [.lineStart, .group 1 (.many Text.isSpaceOrTab), .text "const ", .word, .text " = async (",
    .many (· != ')'), .text ") => \x7b", .many Text.isSpaceOrTab, .lineEnd]

/-- The index of the brace at which as many braces are closed as were opened; `depth` is the number of
braces opened so far less the number closed, `index` the index of the first character. -/
def closingBraceFrom (depth : Int) (index : Nat) : Text → Option Nat
  | [] => none
  | c :: t =>
    if c == '{' then closingBraceFrom (depth + 1) (index + 1) t
    else if c == '}' then
      if depth == 1 then some index else closingBraceFrom (depth - 1) (index + 1) t
    else closingBraceFrom depth (index + 1) t

/-- The index of the brace that closes the one at `opening`. -/
def closingBrace (t : Text) (opening : Nat) : Option Nat :=
  closingBraceFrom 0 opening (t.drop opening)

/-- A function body inside error handling, with the braces around it; `indent` is the indentation of the
function. -/
def wrapBody (indent body : Text) : Text :=
  let indented := (Text.lines body).map fun line =>
    if (Text.trim line).isEmpty then line else "  ".toList ++ line
  "\x7b\n".toList ++ indent ++ "  try \x7b\n".toList ++ Text.unlines indented ++ "\n".toList ++
    indent ++ "  \x7d catch (error) \x7b\n".toList ++
    indent ++ "    console.error(\"Error:\", error);\n".toList ++
    indent ++ "  \x7d\n".toList ++ indent ++ "\x7d".toList

/-- The text between two indices, without blanks at its end and newlines at its beginning. -/
def bodyBetween (t : Text) (opening closing : Nat) : Text :=
  (Text.trimRight ((t.take closing).drop (opening + 1))).dropWhile (· == '\n')

/-- Error handling for the first asynchronous arrow function, unless the text handles errors already. -/
def addErrorHandling (t : Text) : Text :=
  if !Text.occursIn "async".toList t || !Text.occursIn "await".toList t then t
  else if tryBlock.occursIn t || catchWord.occursIn t then t
  else
    match asyncArrow.search t with
    | none => t
    | some f =>
      let opening := f.before.length + (Text.dropRightWhile (· != '{') f.hit.text).length - 1
      match closingBrace t opening with
      | none => t
      | some closing =>
        let body := bodyBetween t opening closing
        if !Text.occursIn "await".toList body then t
        else t.take opening ++ wrapBody (f.hit.group 1) body ++ t.drop (closing + 1)

/-! ### Members of interfaces -/

/-- A character inside the body of an interface without nested braces. -/
def isFlat (c : Char) : Bool := c != '{' && c != '}'

/-- An interface without nested braces. -/
def interfaceBody : Pattern :=
  .all [.group 1 (.all [.edge, .text "interface", .blanks1, .word, .blanks, .text "\x7b"]),
    .group 2 (.many isFlat), .group 3 (.text "\x7d")]

/-- A character inside the type of a member. -/
def isTypeChar (c : Char) : Bool := c != ';' && c != ',' && isFlat c

/-- A line that holds a member without terminator and without comment. -/
def unterminatedMember : Pattern :=
  .all [.lineStart, .notFollowedBy (.all [.many (· != '\n'), .text "//"]),
    .group 1 (.all [.many Text.isSpaceOrTab, .some1 (fun c => Text.isWord c || c == '$'),
      .optional (.text "?"), .many Text.isSpaceOrTab, .text ":",
      .many (fun c => isTypeChar c && c != '\n'), .one (fun c => isTypeChar c && !Text.isBlank c)]),
    .many Text.isSpaceOrTab, .lineEnd]

/-- The body of an interface with its members terminated. -/
def terminateMembers (body : Text) : Text :=
  unterminatedMember.replace (fun h => h.group 1 ++ [';']) body

/-- The members of flat interfaces terminated by semicolons. -/
def fixInterfaceSemicolons (t : Text) : Text :=
  interfaceBody.replace (fun h => h.group 1 ++ terminateMembers (h.group 2) ++ h.group 3) t

/-! ### Default exports -/

/-- A line that declares a function or a class as default export. -/
def defaultDeclaration : Pattern :=
  .all [.lineStart, .blanks, .text "export default ", .optional (.seq (.text "async") .blanks1),
    .anyText ["function", "class"], .edge]

/-- A line that exports a name as default. -/
def defaultStatement : Pattern :=
  .all [.textStart, .blanks, .text "export default ", .word, .text ";", .blanks, .textEnd]

/-- The head of a function with a name. -/
def firstFunction : Pattern := .all [.text "function ", .group 1 .word, .blanks, .text "("]

/-- Whether a line exports a name as default. -/
def isDefaultStatement (line : Text) : Bool := defaultStatement.beginsWith line

/-- The lines without default export statements, the last `keep` of them apart. -/
def dropStatements (keep : Nat) : List Text → List Text
  | [] => []
  | line :: rest =>
    if isDefaultStatement line && keep ≤ rest.countP isDefaultStatement then dropStatements keep rest
    else line :: dropStatements keep rest

/-- Exactly one default export: a missing one is added for the first function; a declaration wins over
statements, and of several statements the last wins. -/
def ensureSingleDefaultExport (t : Text) : Text :=
  let lines := Text.lines t
  let statements := lines.countP isDefaultStatement
  let declared := defaultDeclaration.occursIn t
  if statements == 0 && !declared then
    match firstFunction.search t with
    | none => t
    | some f => t ++ "\n\nexport default ".toList ++ f.hit.group 1 ++ ";".toList
  else
    let keep := if declared then 0 else 1
    if statements ≤ keep then t else Text.unlines (dropStatements keep lines)

/-- The pass that hardens code. -/
def transform (t : Text) : Text :=
  ensureSingleDefaultExport (fixInterfaceSemicolons (addErrorHandling (addLoadingState
    (addFallbackRender t))))

end LayeredFix.Pass.Hardening
