import LayeredFix.Text.Pattern.Search

/-!
# Component code

Three repairs of component code, in this order: an import for hooks that are called without one, a `key`
attribute for elements rendered from lists, and an `alt` attribute for images.
-/

namespace LayeredFix.Pass.Component

/-- A quotation mark. -/
def isQuote (c : Char) : Bool := c == '\'' || c == '"'

/-- Every character but the newline. -/
def inLine (c : Char) : Bool := c != '\n'

/-- Every character but the closing angle bracket. -/
def inTag (c : Char) : Bool := c != '>'

/-- ASCII letters, digits and the underscore. -/
def isItemChar (c : Char) : Bool := c.isAlphanum || c == '_'

/-! ### Hook imports -/

/-- The hooks that can be imported. -/
def knownHooks : List String := ["useState", "useEffect", "useCallback", "useMemo", "useRef"]

/-- A call of a hook. -/
def hookCall : Pattern :=
  .all [.edge, .text "use",
    .anyText ["State", "Effect", "Callback", "Memo", "Ref", "Context", "Reducer", "ImperativeHandle",
      "LayoutEffect", "DebugValue"],
    .text "("]

/-- An import statement on one line. -/
def importStatement : Pattern :=
  .all [.text "import", .many inLine, .text "from", .many inLine, .one isQuote,
    .some1 (fun c => !isQuote c), .one isQuote]

/-- The known hooks that a text calls. -/
def hooksCalled (t : Text) : List String :=
  knownHooks.filter fun hook => Text.occursIn (hook ++ "(").toList t

/-- The import statement for some hooks, with a blank line after it. -/
def hookImport (hooks : List String) : Text :=
  ("import \x7b " ++ ", ".intercalate hooks ++ " \x7d from 'react';\n\n").toList

/-- An import of the known hooks that are called, put in front if no import mentions the library. -/
def addMissingImports (t : Text) : Text :=
  if !hookCall.occursIn t then t
  else if (importStatement.hits t).any (fun h => Text.occursIn "react".toList h.text) then t
  else
    let hooks := hooksCalled t
    if hooks.isEmpty then t else hookImport hooks ++ t

/-! ### Keys of list items -/

/-- The tags whose elements are left without a key. -/
def interactiveTags : List String := ["button", "input", "a", "textarea", "form", "select"]

/-- A list rendered by an arrow function of one argument, as an element with content. -/
def mapWithChildren : Pattern :=
  .all [.text ".map(", .blanks, .group 1 (.some1 isItemChar), .blanks, .text "=>", .blanks,
    .text "<", .group 2 .word, .group 3 (.few inTag), .text ">", .group 4 (.few inLine),
    .text "</", .again 2, .text ">", .blanks, .text ")"]

/-- A list rendered by an arrow function of one argument, as an element without content. -/
def mapSelfClosing : Pattern :=
  .all [.text ".map(", .blanks, .group 1 (.some1 isItemChar), .blanks, .text "=>", .blanks,
    .text "<", .group 2 .word, .group 3 (.few inTag), .text "/>"]

/-- A list rendered by an arrow function of two arguments, as an element with content. -/
def mapWithIndex : Pattern :=
  .all [.text ".map(", .blanks, .text "(", .group 1 (.some1 fun c => c != ',' && c != ')'), .text ",",
    .blanks, .group 2 (.some1 (· != ')')), .text ")", .blanks, .text "=>", .blanks,
    .text "<", .group 3 .word, .group 4 (.few inTag), .text ">", .group 5 (.few inLine),
    .text "</", .again 3, .text ">", .blanks, .text ")"]

/-- Whether an element is left as it is: it has a key, it handles clicks, or its tag is interactive. -/
def skipsKey (tag attributes whole : Text) : Bool :=
  Text.occursIn "key=".toList attributes || Text.occursIn "onClick=".toList whole ||
    (interactiveTags.map String.toList).contains tag

/-- The beginning of the element of a list item with a key: the callback's arguments, the tag and the
key. -/
def keyedOpening (item index tag key attributes : Text) : Text :=
  ".map((".toList ++ item ++ ", ".toList ++ index ++ ") => <".toList ++ tag ++ " key=\x7b".toList ++
    key ++ "\x7d".toList ++ attributes

/-- The key of an item: its `id`, or the index. -/
def itemKey (item : Text) : Text := item ++ ".id ?? index".toList

/-- An element with content, given a key. -/
def keyWithChildren (h : Hit) : Text :=
  let item := h.group 1
  let tag := h.group 2
  if skipsKey tag (h.group 3) h.text then h.text
  else
    keyedOpening item "index".toList tag (itemKey item) (h.group 3) ++ ">".toList ++ h.group 4 ++
      "</".toList ++ tag ++ ">)".toList

/-- An element without content, given a key. -/
def keySelfClosing (h : Hit) : Text :=
  let item := h.group 1
  let tag := h.group 2
  if skipsKey tag (h.group 3) h.text then h.text
  else keyedOpening item "index".toList tag (itemKey item) (h.group 3) ++ "/>".toList

/-- An element whose callback has an index already, given the index as key. -/
def keyWithIndex (h : Hit) : Text :=
  let tag := h.group 3
  if skipsKey tag (h.group 4) h.text then h.text
  else
    let index := Text.trim (h.group 2)
    keyedOpening (h.group 1) index tag index (h.group 4) ++ ">".toList ++ h.group 5 ++
      "</".toList ++ tag ++ ">)".toList

/-- A key for the elements rendered from lists. -/
def addMissingKeys (t : Text) : Text :=
  mapWithIndex.replace keyWithIndex
    (mapSelfClosing.replace keySelfClosing (mapWithChildren.replace keyWithChildren t))

/-! ### Alternative texts of images -/

/-- An image tag. -/
def imageTag : Pattern :=
  .all [.text "<img", .edge, .group 1 (.few inTag), .blanks, .optional (.text "/"), .text ">"]

/-- An image tag with an empty alternative text, if it has none. -/
def giveAlt (h : Hit) : Text :=
  if Text.occursIn "alt=".toList (h.group 1) then h.text
  else "<img".toList ++ h.group 1 ++ " alt=\"\" />".toList

/-- An empty alternative text for the images that have none. -/
def addMissingAlt (t : Text) : Text := imageTag.replace giveAlt t

/-- The pass over component code. -/
def transform (t : Text) : Text := addMissingAlt (addMissingKeys (addMissingImports t))

end LayeredFix.Pass.Component
