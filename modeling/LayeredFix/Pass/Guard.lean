import LayeredFix.Text.Pattern.Search

/-!
# Host guards

Code that is rendered on a server must not touch the globals of a browser. References to them get a test
for their existence; a component with state that uses them renders nothing until it is mounted; and code
with signs of interactivity is marked for the client.

References that are guarded already, or that are members of another object, are left alone.
-/

namespace LayeredFix.Pass.Guard

/-- The mark of client code. -/
def clientDirective : String := "'use client';"

/-- The ways to write the mark, without its semicolon. -/
def directiveSpellings : List String := ["'use client'", "\"use client\""]

/-! ### Existence tests -/

/-- A rule for a host global: the reference that needs the test, what must follow it, and what is written
in its place after the test. -/
structure HostRule where
  /-- The global whose existence is tested. -/
  host : String
  /-- The reference, without what must follow it. -/
  reference : String
  /-- What must follow the reference. -/
  follow : Pattern
  /-- What is written in the place of the reference, after the test. -/
  qualified : String

/-- The test for the existence of a global. -/
def existenceTest (host : String) : Text := ("typeof " ++ host ++ " !== \"undefined\" && ").toList

/-- A reference that is not guarded and is no member of another object. -/
def HostRule.pattern (r : HostRule) : Pattern :=
  .all [.notAfter (existenceTest r.host),
    .notAfterAny (fun c => Text.isWord c || c == '.' || c == '$'),
    .text r.reference, .followedBy r.follow]

/-- A guarded reference. -/
def HostRule.guarded (r : HostRule) : Text := existenceTest r.host ++ r.qualified.toList

/-- Guards all references of a rule. -/
def HostRule.apply (r : HostRule) (t : Text) : Text := r.pattern.replace (fun _ => r.guarded) t

/-- A call of a method of a storage. -/
def storageMethod : Pattern :=
  .seq (.anyText ["getItem", "setItem", "removeItem", "clear", "key"]) (.text "(")

/-- The first character of a member's name. -/
def memberStart : Pattern := .one fun c => c.isAlpha || c == '_' || c == '$'

/-- The rules for host globals, in the order in which they are applied. -/
def hostRules : List HostRule :=
  [⟨"window", "localStorage.", storageMethod, "localStorage."⟩,
   ⟨"window", "sessionStorage.", storageMethod, "sessionStorage."⟩,
   ⟨"window", "window.", memberStart, "window."⟩,
   ⟨"document", "document.", memberStart, "document."⟩,
   ⟨"navigator", "navigator.", memberStart, "navigator."⟩,
   ⟨"window", "location.", memberStart, "window.location."⟩,
   ⟨"window", "history.", memberStart, "window.history."⟩]

/-- An existence test for all references to host globals. -/
def addEnvironmentGuards (t : Text) : Text := hostRules.foldl (fun t r => r.apply t) t

/-! ### Rendering after mounting -/

/-- Texts that show the use of host globals. -/
def hostMarkers : List Text :=
  ["localStorage", "sessionStorage", "window.", "document.", "navigator."].map String.toList

/-- A declaration of state. -/
def stateDeclaration : Pattern :=
  .all [.text "const [", .group 1 (.some1 fun c => c != ',' && c != ']'), .text ",", .blanks,
    .text "set", .some1 (· != ']'), .text "] = useState"]

/-- The beginning of what a component returns. -/
def renderReturn : Pattern := .all [.text "return", .blanks, .text "("]

/-- The declaration of the flag and its effect, put before the first declaration of state. -/
def mountedState : Text :=
  ("const [mounted, setMounted] = useState(false);\n" ++
   "  useEffect(() => \x7b\n" ++
   "    setMounted(true);\n" ++
   "  \x7d, []);\n" ++
   "  ").toList

/-- The test of the flag, in the place of the first beginning of a return. -/
def mountedRender : Text :=
  ("if (!mounted) \x7b\n" ++
   "    return null;\n" ++
   "  \x7d\n\n" ++
   "  return (").toList

/-- A flag that defers rendering until the component is mounted. -/
def addMountedState (t : Text) : Text :=
  if !Text.anyOccursIn hostMarkers t || !Text.occursIn "useState".toList t ||
      Text.occursIn "mounted".toList t then t
  else
    match stateDeclaration.search t with
    | none => t
    | some f => renderReturn.replaceFirst mountedRender
        (f.before ++ mountedState ++ f.hit.text ++ f.after)

/-! ### Marking client code -/

/-- Texts that show interactivity. -/
def interactivitySignals : List Text :=
  ["useState", "useEffect", "onClick", "onChange", "onSubmit"].map String.toList

/-- Whether a text holds the mark of client code. -/
def hasClientDirective (t : Text) : Bool :=
  Text.anyOccursIn (directiveSpellings.map String.toList) t

/-- A text with the mark of client code and a blank line in front. -/
def markClient (t : Text) : Text := (clientDirective ++ "\n\n").toList ++ t

/-- The mark of client code, in front of interactive code that has none. -/
def addClientDirective (t : Text) : Text :=
  if hasClientDirective t then t
  else if !Text.anyOccursIn interactivitySignals t then t
  else markClient t

/-- The pass that inserts host guards. -/
def transform (t : Text) : Text := addClientDirective (addMountedState (addEnvironmentGuards t))

end LayeredFix.Pass.Guard
