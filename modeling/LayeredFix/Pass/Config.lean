import LayeredFix.Failure
import LayeredFix.Json.Parser
import LayeredFix.Json.Printer
import LayeredFix.Text.Pattern.Search

/-!
# Configuration files

A text may be a compiler configuration, a framework configuration or a package manifest. `sniff` tells
which. Compiler configurations and manifests are JSON objects: they are read, known fields are set to
fixed values, and the object is written again. A framework configuration is replaced by a template. Any
other text is left alone.
-/

namespace LayeredFix.Pass.Config

/-- The kinds of configuration file. -/
inductive Kind where
  /-- A compiler configuration. -/
  | compiler
  /-- A framework configuration. -/
  | framework
  /-- A package manifest. -/
  | manifest
  deriving DecidableEq, Repr

/-- Why a configuration file cannot be brought into shape. -/
inductive ConfigError where
  /-- The file called `label` is not JSON. -/
  | badJson (label : Text) (error : Json.ParseError)
  /-- The file called `label` is JSON but no object. -/
  | notAnObject (label : Text)
  /-- A field that is to be overridden member by member holds something else than an object. -/
  | noMembers (found : Json)
  /-- A field in which a member is to be set holds something else than an object. -/
  | noMemberToSet (found : Json)

/-- The word for the kind of a JSON value. -/
def kindWord : Json → String
  | .null => "NoneType"
  | .bool _ => "bool"
  | .number (.int _) => "int"
  | .number (.real _) => "float"
  | .text _ => "str"
  | .list _ => "list"
  | .object _ => "dict"

/-- The failure that an error amounts to. What goes beyond a limit, of digits or of nesting, is no fault of
the file. -/
def ConfigError.failure : ConfigError → Failure
  | badJson _ (.tooManyDigits n) => ⟨.value, (Json.ParseError.tooManyDigits n).message.toList⟩
  | badJson _ (.tooDeep h) => ⟨.tooDeep, (Json.ParseError.tooDeep h).message.toList⟩
  | badJson label e => ⟨.layer, "Invalid JSON in ".toList ++ label ++ ": ".toList ++ e.message.toList⟩
  | notAnObject label => ⟨.layer, "Expected a JSON object in ".toList ++ label⟩
  | noMembers v => ⟨.wrongKind, s!"'{kindWord v}' object is not a mapping".toList⟩
  | noMemberToSet (.list _) =>
    ⟨.wrongKind, "list indices must be integers or slices, not str".toList⟩
  | noMemberToSet v =>
    ⟨.wrongKind, s!"'{kindWord v}' object does not support item assignment".toList⟩

/-! ### The fixed values -/

/-- The compiler options that are set. -/
def compilerOptions : Entries Json :=
  [("target".toList, .str "ES2022"),
   ("lib".toList, .strs ["dom", "dom.iterable", "ES2022"]),
   ("allowJs".toList, .bool true),
   ("allowSyntheticDefaultImports".toList, .bool true),
   ("esModuleInterop".toList, .bool true),
   ("forceConsistentCasingInFileNames".toList, .bool true),
   ("incremental".toList, .bool true),
   ("isolatedModules".toList, .bool true),
   ("jsx".toList, .str "preserve"),
   ("module".toList, .str "esnext"),
   ("moduleResolution".toList, .str "node"),
   ("noEmit".toList, .bool true),
   ("resolveJsonModule".toList, .bool true),
   ("skipLibCheck".toList, .bool true),
   ("strict".toList, .bool true),
   ("exactOptionalPropertyTypes".toList, .bool true),
   ("noImplicitReturns".toList, .bool true),
   ("noFallthroughCasesInSwitch".toList, .bool true),
   ("noUncheckedIndexedAccess".toList, .bool true),
   ("baseUrl".toList, .str "."),
   ("paths".toList, .object
     [("@/*".toList, .strs ["./src/*"]), ("~/*".toList, .strs ["./public/*"])])]

/-- The files a compiler configuration includes if it does not say. -/
def defaultInclude : Json := .strs ["next-env.d.ts", "**/*.ts", "**/*.tsx"]

/-- The files a compiler configuration excludes if it does not say. -/
def defaultExclude : Json := .strs ["node_modules"]

/-- The scripts that are set in a manifest. -/
def scripts : Entries Json :=
  [("dev".toList, .str "next dev"),
   ("build".toList, .str "next build"),
   ("start".toList, .str "next start"),
   ("lint".toList, .str "next lint"),
   ("lint:fix".toList, .str "next lint --fix"),
   ("type-check".toList, .str "tsc --noEmit"),
   ("format".toList, .str "prettier --write ."),
   ("format:check".toList, .str "prettier --check .")]

/-- The runtime version that a manifest asks for. -/
def nodeVersion : Json := .str ">=18.0.0"

/-- What takes the place of a framework configuration. -/
def frameworkTemplate : Text :=
  ("/** @type \x7bimport('next').NextConfig\x7d */\n" ++
   "const nextConfig = \x7b\n" ++
   "  experimental: \x7b\n" ++
   "    appDir: true,\n" ++
   "  \x7d,\n" ++
   "  typescript: \x7b\n" ++
   "    ignoreBuildErrors: false,\n" ++
   "  \x7d,\n" ++
   "  eslint: \x7b\n" ++
   "    ignoreDuringBuilds: false,\n" ++
   "  \x7d,\n" ++
   "  swcMinify: true,\n" ++
   "  reactStrictMode: true,\n" ++
   "  poweredByHeader: false,\n" ++
   "  compress: true,\n" ++
   "  images: \x7b\n" ++
   "    formats: ['image/webp', 'image/avif'],\n" ++
   "    minimumCacheTTL: 60,\n" ++
   "  \x7d,\n" ++
   "\x7d\n" ++
   "\n" ++
   "module.exports = nextConfig").toList

/-! ### Telling the kinds apart -/

/-- A field of a framework configuration. -/
def frameworkHint : Pattern :=
  .all [.edge, .anyText ["reactStrictMode", "swcMinify", "experimental", "poweredByHeader", "images"],
    .blanks, .text ":"]

/-- The kind of configuration file that a text looks like. -/
def sniff (t : Text) : Option Kind :=
  let isObject := (Text.trimLeft t).head? == some '{'
  if isObject && Text.occursIn "compilerOptions".toList t then some .compiler
  else if Text.occursIn "nextConfig".toList t ||
      (Text.occursIn "module.exports".toList t && frameworkHint.occursIn t) then some .framework
  else if isObject && Text.occursIn "\"scripts\"".toList t then some .manifest
  else none

/-! ### Setting the fields -/

/-- The members of the JSON object that a file holds; `label` names the file in errors. -/
def loadObject (t label : Text) : Except ConfigError (Entries Json) :=
  match Json.parse t with
  | .error e => .error (.badJson label e)
  | .ok (.object ms) => .ok ms
  | .ok _ => .error (.notAnObject label)

/-- An object written over several lines. -/
def dump (ms : Entries Json) : Text := Json.render (.object ms)

/-- A field as an object: a missing or falsy one is empty, and anything else that is no object is
refused. -/
def membersOf (refuse : Json → ConfigError) (field : Option Json) :
    Except ConfigError (Entries Json) :=
  match field with
  | none => .ok []
  | some (.object ms) => .ok ms
  | some v => if v.isFalsy then .ok [] else .error (refuse v)

/-- A member set if there is none of that name yet. -/
def putIfMissing (name : Text) (value : Json) (ms : Entries Json) : Entries Json :=
  if Entries.has name ms then ms else Entries.put name value ms

/-- The members of a compiler configuration with the fixed options set. -/
def fixCompiler (ms : Entries Json) : Except ConfigError (Entries Json) :=
  match membersOf .noMembers (Entries.get? "compilerOptions".toList ms) with
  | .error e => .error e
  | .ok options =>
    let ms := Entries.put "compilerOptions".toList (.object (Entries.merge options compilerOptions)) ms
    let ms := putIfMissing "include".toList defaultInclude ms
    .ok (putIfMissing "exclude".toList defaultExclude ms)

/-- The members of a manifest with the fixed scripts and the runtime version set. -/
def fixManifest (ms : Entries Json) : Except ConfigError (Entries Json) :=
  match membersOf .noMembers (Entries.get? "scripts".toList ms) with
  | .error e => .error e
  | .ok old =>
    let ms := Entries.put "scripts".toList (.object (Entries.merge old scripts)) ms
    match membersOf .noMemberToSet (Entries.get? "engines".toList ms) with
    | .error e => .error e
    | .ok engines =>
      .ok (Entries.put "engines".toList (.object (Entries.put "node".toList nodeVersion engines)) ms)

/-- Reads an object, sets its fields and writes it again. -/
def fixObject (label : String) (fix : Entries Json → Except ConfigError (Entries Json))
    (t : Text) : Except ConfigError Text :=
  match loadObject t label.toList with
  | .error e => .error e
  | .ok ms =>
    match fix ms with
    | .error e => .error e
    | .ok ms => .ok (dump ms)

/-- The pass over configuration files, with its own errors. -/
def apply (t : Text) : Except ConfigError Text :=
  match sniff t with
  | some .compiler => fixObject "compiler config" fixCompiler t
  | some .framework => .ok frameworkTemplate
  | some .manifest => fixObject "package manifest" fixManifest t
  | none => .ok t

/-- The pass over configuration files. -/
def transform : Transform := fun t => (apply t).mapError ConfigError.failure

end LayeredFix.Pass.Config
