import LayeredFix.Pass.Guard
import LayeredFix.Pass.Component

/-!
# Framework conventions

Five repairs, in this order: one mark of client code at the first line of code, flat import statements
without repetition, the mark for client components that lack it, one blank line after the mark, and the
names and the metadata that the framework's router expects of pages.
-/

namespace LayeredFix.Pass.Convention

open Guard (clientDirective hasClientDirective markClient)
open Component (isQuote inLine)

/-! ### One mark of client code -/

/-- The lines that are nothing but the mark, apart from blanks around it. -/
def directiveLines : List Text :=
  ["'use client';", "\"use client\";", "'use client'", "\"use client\""].map String.toList

/-- Whether a line is nothing but the mark. -/
def isDirectiveLine (line : Text) : Bool := directiveLines.contains (Text.trim line)

/-- The number of lines before the first line of code: blank lines, line comments and block comments are
passed over. `inComment` says that the lines begin inside a block comment. -/
def firstCodeIndexFrom (inComment : Bool) : List Text → Nat
  | [] => 0
  | line :: rest =>
    let line := Text.trim line
    if inComment then firstCodeIndexFrom (!Text.occursIn "*/".toList line) rest + 1
    else if line.isEmpty || "//".toList.isPrefixOf line then firstCodeIndexFrom false rest + 1
    else if "/*".toList.isPrefixOf line then
      firstCodeIndexFrom (!Text.occursIn "*/".toList line) rest + 1
    else 0

/-- The number of lines before the first line of code. -/
def firstCodeIndex (lines : List Text) : Nat := firstCodeIndexFrom false lines

/-- One mark of client code, at the first line of code, in the place of all others. -/
def fixClientDirectives (t : Text) : Text :=
  let lines := Text.lines t
  let count := lines.countP isDirectiveLine
  if count == 0 then t
  else if count == 1 && lines.findIdx isDirectiveLine == firstCodeIndex lines then t
  else
    let body := lines.filter fun line => !isDirectiveLine line
    let at' := firstCodeIndex body
    Text.unlines (body.take at' ++ [clientDirective.toList, []] ++ body.drop at')

/-! ### Import statements -/

/-- An import block that is left open before another one begins. -/
def nestedImport : Pattern :=
  .all [.text "import", .blanks, .text "\x7b", .blanks, .text "\n", .blanks, .text "import", .blanks,
    .text "\x7b", .group 1 (.some1 (· != '}')), .text "\x7d", .blanks, .text "from", .blanks,
    .one isQuote, .group 2 (.some1 fun c => !isQuote c), .one isQuote]

/-- The inner of two import blocks as a statement. -/
def flatImport (h : Hit) : Text :=
  "import \x7b ".toList ++ Text.trim (h.group 1) ++ " \x7d from \"".toList ++ h.group 2 ++ ['"']

/-- An import block that is left open before another import begins. -/
def danglingImport : Pattern :=
  .all [.lineStart, .text "import", .blanks, .text "\x7b", .blanks, .text "\n",
    .followedBy (.all [.blanks, .text "import", .edge])]

/-- A whole line that is an import statement. -/
def completeImport : Pattern :=
  let source : Pattern := .all [.one isQuote, .some1 fun c => !isQuote c, .one isQuote,
    .optional (.text ";"), .textEnd]
  .alt
    (.all [.textStart, .text "import", .one Text.isBlank, .some1 inLine, .edge, .text "from", .blanks1,
      source])
    (.all [.textStart, .text "import", .blanks1, source])

/-- A line with each row of blanks as one space and none at its ends. -/
def collapseBlanks (line : Text) : Text := List.intercalate [' '] (Text.words line)

/-- The lines without the import statements that occur before; `seen` holds the collapsed statements of
the lines so far. -/
def dropRepeatedImports (seen : List Text) : List Text → List Text
  | [] => []
  | line :: rest =>
    let collapsed := collapseBlanks line
    if completeImport.beginsWith collapsed then
      if seen.contains collapsed then dropRepeatedImports seen rest
      else line :: dropRepeatedImports (collapsed :: seen) rest
    else line :: dropRepeatedImports seen rest

/-- Import blocks flattened and repeated import lines dropped. -/
def fixCorruptedImports (t : Text) : Text :=
  let flat := danglingImport.replace (fun _ => []) (nestedImport.replace flatImport t)
  Text.unlines (dropRepeatedImports [] (Text.lines flat))

/-! ### The mark for client components -/

/-- Texts that show a hook of client code. -/
def coreHooks : List Text := ["useState", "useEffect", "useReducer"].map String.toList

/-- Texts that show an event handler. -/
def eventHandlers : List Text := ["onClick", "onChange", "onSubmit"].map String.toList

/-- Texts that show the use of the browser. -/
def browserUses : List Text :=
  ["localStorage", "window.location", "document.getElementById"].map String.toList

/-- Texts that show code for the server only. -/
def serverMarkers : List Text :=
  ["getServerSideProps", "getStaticProps", "generateMetadata"].map String.toList

/-- Texts that show an exported component. -/
def exportMarkers : List Text :=
  ["export default function", "export function"].map String.toList

/-- The mark of client code, in front of exported components that are clearly for the client. -/
def addMissingClientDirective (t : Text) : Text :=
  if hasClientDirective t then t
  else if !(Text.anyOccursIn exportMarkers t &&
      Text.anyOccursIn (coreHooks ++ eventHandlers ++ browserUses) t) then t
  else if Text.anyOccursIn serverMarkers t then t
  else markClient t

/-! ### The blank line after the mark -/

/-- One blank line after a mark of client code that begins the text. -/
def fixDirectiveSpacing (t : Text) : Text :=
  let mark := clientDirective.toList
  if mark.isPrefixOf t then
    match t.drop mark.length with
    | '\n' :: rest => mark ++ ['\n', '\n'] ++ rest.dropWhile (· == '\n')
    | _ => t
  else t

/-! ### Pages -/

/-- Texts that show a page or a layout of the router. -/
def routerMarkers : List Text :=
  ["export default function Page", "export default function Layout", "generateMetadata",
    "export const metadata"].map String.toList

/-- The export of a component whose name contains a word. -/
def exportOf (word : String) : Pattern :=
  .all [.text "export default function ", .many Text.isWord, .text word, .many Text.isWord]

/-- The export of a component whose name is a word. -/
def exportNamed (word : String) : Text := ("export default function " ++ word).toList

/-- The number of characters from which on a page is not small. -/
def smallPageLimit : Nat := 500

/-- The metadata of a page that has none. -/
def defaultMetadata : Text :=
  ("export const metadata = \x7b\n" ++
   "  title: 'Page',\n" ++
   "  description: 'Page description',\n" ++
   "\x7d;\n\n").toList

/-- The names `Page` and `Layout` for pages and layouts, and metadata for small server pages. -/
def fixRouterPatterns (t : Text) : Text :=
  if !Text.anyOccursIn routerMarkers t then t
  else
    let fixed := (exportOf "Page").replace (fun _ => exportNamed "Page") t
    let fixed := (exportOf "Layout").replace (fun _ => exportNamed "Layout") fixed
    if Text.occursIn (exportNamed "Page") fixed &&
        !Text.occursIn "export const metadata".toList fixed &&
        !Text.occursIn "generateMetadata".toList fixed &&
        !hasClientDirective fixed && t.length < smallPageLimit then
      defaultMetadata ++ fixed
    else fixed

/-- The pass over framework conventions. -/
def transform (t : Text) : Text :=
  fixRouterPatterns (fixDirectiveSpacing (addMissingClientDirective
    (fixCorruptedImports (fixClientDirectives t))))

end LayeredFix.Pass.Convention
