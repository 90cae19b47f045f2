import LayeredFix.Text.Pattern.Search

/-!
# Signatures of damage and danger

Damage and dangerous calls are recognised by patterns over the raw text. A pattern is an approximation:
it does not know strings or comments.
-/

namespace LayeredFix.Check

/-! ### Damage -/

/-- The kinds of damage that a change to a text can do. -/
inductive Damage where
  /-- An import block that begins inside another. -/
  | nestedImport
  /-- More than one default export. -/
  | severalDefaults
  /-- A function declared in the parameter list of another. -/
  | nestedFunction
  /-- An opening tag that is closed by a tag of another name. -/
  | wrongClosure
  deriving DecidableEq, Repr

/-- The word for a kind of damage. -/
def Damage.word : Damage → String
  | nestedImport => "nested_import_block"
  | severalDefaults => "multiple_default_exports"
  | nestedFunction => "nested_function_declaration"
  | wrongClosure => "malformed_tag_closure"

/-- The word `import` and an opening brace. -/
def importOpening : Pattern := .all [.text "import", .blanks, .text "\x7b"]

/-- An import block whose first line begins with another import block. -/
def nestedImport : Pattern := .all [importOpening, .blanks, .text "\n", .blanks, importOpening]

/-- The words that begin a default export. -/
def defaultExport : Pattern := .all [.text "export", .blanks1, .text "default", .edge]

/-- Two default exports on different lines. -/
def severalDefaults : Pattern :=
  .all [defaultExport, .many (· != '\n'), .text "\n", .few (fun _ => true), .edge, defaultExport]

/-- The word `function` and a name. -/
def functionName : Pattern := .all [.text "function", .blanks1, .word]

/-- A function whose parameter list begins with the declaration of another. -/
def nestedFunction : Pattern := .all [functionName, .blanks, .text "(", .blanks, functionName]

/-- Every character but angle brackets. -/
def outsideTag (c : Char) : Bool := c != '<' && c != '>'

/-- The name of a tag: a letter, then word characters and dots. -/
def tagName : Pattern := .seq (.one Char.isAlpha) (.many fun c => Text.isWord c || c == '.')

/-- An opening tag, not closed in itself, and right after it a closing tag of another name. -/
def wrongClosure : Pattern :=
  .all [.text "<", .group 1 tagName, .optional (.seq (.one Text.isBlank) (.many outsideTag)),
    .notAfter ['/'], .text ">", .blanks, .text "</",
    .notFollowedBy (.all [.again 1, .blanks, .text ">"]), .many outsideTag, .text ">"]

/-- The pattern of a kind of damage. -/
def Damage.pattern : Damage → Pattern
  | .nestedImport => Check.nestedImport
  | .severalDefaults => Check.severalDefaults
  | .nestedFunction => Check.nestedFunction
  | .wrongClosure => Check.wrongClosure

/-- All kinds of damage, in the order in which they are reported. -/
def Damage.all : List Damage := [nestedImport, severalDefaults, nestedFunction, wrongClosure]

/-- The kinds of damage found in a text. -/
def damageIn (t : Text) : List Damage := Damage.all.filter fun d => d.pattern.occursIn t

/-! ### Danger -/

/-- The kinds of dangerous code. -/
inductive Danger where
  /-- A call that evaluates a text. -/
  | evaluation
  /-- A call that makes a function from a text. -/
  | functionFromText
  /-- A timer that is given a text. -/
  | textTimer
  /-- An access to the prototype of an object. -/
  | prototypeAccess
  /-- A script element. -/
  | scriptTag
  /-- An address that holds code. -/
  | unsafeAddress
  deriving DecidableEq, Repr

/-- The word for a kind of danger. -/
def Danger.word : Danger → String
  | evaluation => "dynamic_eval"
  | functionFromText => "dynamic_function"
  | textTimer => "string_timer"
  | prototypeAccess => "prototype_access"
  | scriptTag => "script_tag"
  | unsafeAddress => "unsafe_url"

/-- A call of the function with this name. -/
def callOf (name : String) : Pattern := .all [.edge, .text name, .blanks, .text "("]

/-- The pattern of a kind of danger. -/
def Danger.pattern : Danger → Pattern
  | evaluation => callOf "eval"
  | functionFromText => callOf "Function"
  | textTimer =>
    .all [.edge, .text "set", .anyText ["Timeout", "Interval"], .blanks, .text "(", .blanks,
      .one fun c => c == '\'' || c == '"' || c == '\x60']
  | prototypeAccess =>
    .alt (.text "__proto__") (.all [.text "constructor", .blanks, .text ".", .blanks, .text "constructor"])
  | scriptTag => .all [.text "<", .anyCase "script", .edge]
  | unsafeAddress =>
    .alt (.all [.edge, .alt (.anyCase "javascript") (.anyCase "vbscript"), .blanks, .text ":"])
      (.all [.anyCase "data", .blanks, .text ":", .blanks, .anyCase "text/html"])

/-- All kinds of danger, in the order in which they are reported. -/
def Danger.all : List Danger :=
  [evaluation, functionFromText, textTimer, prototypeAccess, scriptTag, unsafeAddress]

/-- The kinds of danger found in a text. -/
def dangersIn (t : Text) : List Danger := Danger.all.filter fun d => d.pattern.occursIn t

/-! ### Complexity -/

/-- A word that makes a decision. -/
def decisionWord : Pattern :=
  .all [.edge, .anyText ["if", "else", "while", "for", "switch", "case"], .edge]

/-- A conditional expression, up to its colon: a question mark that is part of no other operator, at
least one character, and the first colon after it. -/
def conditional : Pattern :=
  .all [.notAfter ['?'], .text "?", .notFollowedBy (.one fun c => c == '.' || c == '?'),
    .some1 (· != ':'), .text ":"]

/-- The number of decisions in a text. -/
def decisionCount (t : Text) : Nat := decisionWord.count t + conditional.count t

end LayeredFix.Check
