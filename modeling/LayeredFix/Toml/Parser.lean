import LayeredFix.Toml.Marks
import LayeredFix.Toml.Scalar

/-!
# Reading TOML

`Toml.parse` reads a document whose lines end in newlines. A statement sets the value of a key, declares a
table, or adds a table to a list; a declaration also says where the keys after it start from.

Marks keep a document honest: a table is declared once, and a value is set once. Tables that keys enter on
their way are marked as declared only when the next declaration comes, so that further keys may enter them
until then.
-/

namespace LayeredFix.Toml

/-! ### Blanks and comments -/

/-- What is left after a comment, if one begins here. -/
def skipComment (t : Text) : Except Fault Text :=
  match t with
  | '#' :: t =>
    match t.dropWhile fun c => !isIllegal false c with
    | [] => .ok []
    | '\n' :: t => .ok ('\n' :: t)
    | c :: t => .error (.at (.foundInvalid c) (c :: t))
  | t => .ok t

/-- What is left after blanks, newlines and comments. -/
def skipFiller (inComment : Bool) : Text → Except Fault Text
  | [] => .ok []
  | c :: t =>
    if c == '\n' then skipFiller false t
    else if inComment then
      if isIllegal false c then .error (.at (.foundInvalid c) (c :: t)) else skipFiller true t
    else if Text.isSpaceOrTab c then skipFiller false t
    else if c == '#' then skipFiller true t
    else .ok (c :: t)

/-! ### Keys -/

/-- The characters of a name without quotes. -/
def isBare (c : Char) : Bool := c.isAlphanum || c == '-' || c == '_'

/-- Reads one name of a key. -/
def readName (t : Text) : Reading Text :=
  match t with
  | [] => .error (.at .badKeyStart t)
  | c :: rest =>
    if isBare c then .ok (t.takeWhile isBare, t.dropWhile isBare)
    else if c == '\'' then readLiteral false ['\''] rest
    else if c == '"' then readQuoted false rest
    else .error (.at .badKeyStart t)

/-- Reads the names of a key, with points between them, and the blanks after it; `done` holds the names
read, last first. -/
def readNames : (fuel : Nat) → (done : List Text) → Text → Reading Key
  | 0, _, t => .error (.at .badKeyStart t)
  | fuel + 1, done, t =>
    match readName t with
    | .error f => .error f
    | .ok (name, t) =>
      match skipSpaces t with
      | '.' :: t => readNames fuel (name :: done) (skipSpaces t)
      | t => .ok ((name :: done).reverse, t)

/-- Reads a key and the blanks after it. -/
def readKey (t : Text) : Reading Key := readNames (t.length + 1) [] t

/-! ### Values -/

/-- Reads a value that holds no others and is no string. -/
def readPlain (t : Text) : Reading Value :=
  if "true".toList.isPrefixOf t then .ok (.bool true, t.drop 4)
  else if "false".toList.isPrefixOf t then .ok (.bool false, t.drop 5)
  else
    match readMoment? t with
    | some r => r.map fun r => (.moment r.1, r.2)
    | none =>
      match readNumber? t with
      | some r => r.map fun r => (.number r.1, r.2)
      | none => .error (.at .badValue t)

/-- A text as a value. -/
def textValue (r : Reading Text) : Reading Value := r.map fun r => (.text r.1, r.2)

/-- Whether a value was written in one piece: a list or a table. -/
def Value.isWhole : Value → Bool
  | .list _ | .table _ => true
  | _ => false

/-- Sets an entry that is not there yet. -/
def setNew (name : Text) (v : Value) (es : Table) : Option Table :=
  if Entries.has name es then none else some (Entries.put name v es)

/-- Sets the value of a key in a table in braces; `t` is what is left after the value. -/
def setInBraces (es : Table) (marks : Marks) (key : Key) (v : Value) (t : Text) : Except Fault Table :=
  let name := key.getLast?.getD []
  if marks.has .whole key then .error (.at (.immutable key) t)
  else
    match es.within false some key.dropLast with
    | none => .error (.at .overwritten t)
    | some es =>
      match es.within false (setNew name v) key.dropLast with
      | none => .error (.at (.duplicate name) t)
      | some es => .ok es

/-- How deep lists and tables in braces may nest, by the weight of all that stand one inside the other. -/
def maxWeight : Nat := 984

/-- The weight of a list. -/
def listWeight : Nat := 2

/-- The weight of a table in braces. -/
def bracesWeight : Nat := 3

mutual

/-- Reads a value; `room` is the weight that may still nest. The fuel bounds the number of readers that call
each other; three times the length of the text is enough. -/
def readValue : (fuel room : Nat) → Text → Reading Value
  | 0, _, t => .error (.at .badValue t)
  | fuel + 1, room, t =>
    match t with
    | '"' :: '"' :: '"' :: r => textValue (readOnLines '"' r)
    | '"' :: r => textValue (readQuoted false r)
    | '\'' :: '\'' :: '\'' :: r => textValue (readOnLines '\'' r)
    | '\'' :: r => textValue (readLiteral false ['\''] r)
    | '[' :: r =>
      if room < listWeight then .error .tooDeep
      else
        match skipFiller false r with
        | .error f => .error f
        | .ok (']' :: r) => .ok (.list [], r)
        | .ok r => readItems fuel (room - listWeight) [] r
    | '\x7b' :: r =>
      if room < bracesWeight then .error .tooDeep
      else
        match skipSpaces r with
        | '\x7d' :: r => .ok (.table [], r)
        | r => readPairs fuel (room - bracesWeight) [] [] r
    | _ => readPlain t

/-- Reads the items of a list and its closing bracket; `done` holds the items read, last first. -/
def readItems : (fuel room : Nat) → (done : List Value) → Text → Reading Value
  | 0, _, _, t => .error (.at .badValue t)
  | fuel + 1, room, done, t =>
    match readValue fuel room t with
    | .error f => .error f
    | .ok (v, r) =>
      match skipFiller false r with
      | .error f => .error f
      | .ok (']' :: r) => .ok (.list (v :: done).reverse, r)
      | .ok (',' :: r) =>
        match skipFiller false r with
        | .error f => .error f
        | .ok (']' :: r) => .ok (.list (v :: done).reverse, r)
        | .ok r => readItems fuel room (v :: done) r
      | .ok r => .error (.at .unclosedList r)

/-- Reads the entries of a table in braces and its closing brace; `es` and `marks` are the entries so far
and those among them that were written in one piece. -/
def readPairs : (fuel room : Nat) → (es : Table) → (marks : Marks) → Text → Reading Value
  | 0, _, _, _, t => .error (.at .badKeyStart t)
  | fuel + 1, room, es, marks, t =>
    match readPair fuel room t with
    | .error f => .error f
    | .ok ((key, v), r) =>
      match setInBraces es marks key v r with
      | .error f => .error f
      | .ok es =>
        match skipSpaces r with
        | '\x7d' :: r => .ok (.table es, r)
        | ',' :: r =>
          readPairs fuel room es (if v.isWhole then ⟨.whole, key⟩ :: marks else marks) (skipSpaces r)
        | r => .error (.at .unclosedTable r)

/-- Reads a key, an equals sign and a value. -/
def readPair : (fuel room : Nat) → Text → Reading (Key × Value)
  | 0, _, t => .error (.at .badKeyStart t)
  | fuel + 1, room, t =>
    match readKey t with
    | .error f => .error f
    | .ok (key, '=' :: r) =>
      match readValue fuel room (skipSpaces r) with
      | .error f => .error f
      | .ok (v, r) => .ok ((key, v), r)
    | .ok (_, r) => .error (.at .expectedEquals r)

end

/-! ### Statements -/

/-- A document while it is read. -/
structure Document where
  /-- What it says so far. -/
  table : Table := []
  /-- What is settled. -/
  marks : Marks := []
  /-- The tables that keys have entered since the last declaration. -/
  entered : List Key := []
  /-- Where keys start from. -/
  header : Key := []

namespace Document

/-- The tables that a key enters on its way. -/
def waypoints (header key : Key) : List Key :=
  (List.range (key.length - 1)).map fun i => header ++ key.take (i + 1)

/-- Sets the value of a key; `t` is what is left after the value. -/
def set (d : Document) (key : Key) (v : Value) (t : Text) : Except Fault Document :=
  let way := waypoints d.header key
  let parent := d.header ++ key.dropLast
  match way.find? fun k => d.marks.has .declared k with
  | some k => .error (.at (.redefined k) t)
  | none =>
    if d.marks.has .whole parent then .error (.at (.immutable parent) t)
    else
      match d.table.within true (setNew (key.getLast?.getD []) v) parent with
      | none => .error (.at .overwritten t)
      | some table =>
        .ok { d with
          table := table
          marks := if v.isWhole then ⟨.whole, d.header ++ key⟩ :: d.marks else d.marks
          entered := way ++ d.entered }

/-- The document when a declaration comes: the tables entered so far count as declared. -/
def settled (d : Document) : Document :=
  { d with marks := d.entered.map (⟨.declared, ·⟩) ++ d.marks, entered := [] }

/-- Declares a table; `t` is what is left after the key. -/
def declareTable (d : Document) (key : Key) (t : Text) : Except Fault (Document × Text) :=
  if d.marks.has .declared key || d.marks.has .whole key then .error (.at (.declaredTwice key) t)
  else
    match d.table.within true some key with
    | none => .error (.at .overwritten t)
    | some table =>
      match t with
      | ']' :: t => .ok ({ d with table := table, marks := ⟨.declared, key⟩ :: d.marks, header := key }, t)
      | t => .error (.at .expectedTableEnd t)

/-- Adds a table to a list; `t` is what is left after the key. -/
def declareItem (d : Document) (key : Key) (t : Text) : Except Fault (Document × Text) :=
  if d.marks.has .whole key then .error (.at (.immutable key) t)
  else
    match d.table.within true (Table.append (key.getLast?.getD [])) key.dropLast with
    | none => .error (.at .overwritten t)
    | some table =>
      match t with
      | ']' :: ']' :: t =>
        .ok ({ d with table := table, marks := ⟨.declared, key⟩ :: d.marks.release key, header := key }, t)
      | t => .error (.at .expectedListEnd t)

/-- Reads a statement; a comment or the end of a line is an empty one. -/
def readStatement (d : Document) (t : Text) : Reading Document :=
  match t with
  | '[' :: '[' :: r =>
    match readKey (skipSpaces r) with
    | .error f => .error f
    | .ok (key, r) => d.settled.declareItem key r
  | '[' :: r =>
    match readKey (skipSpaces r) with
    | .error f => .error f
    | .ok (key, r) => d.settled.declareTable key r
  | c :: _ =>
    if c == '#' || c == '\n' then .ok (d, t)
    else if isBare c || c == '"' || c == '\'' then
      match readPair (3 * t.length + 3) maxWeight t with
      | .error f => .error f
      | .ok ((key, v), r) => (d.set key v r).map fun d => (d, r)
    else .error (.at .badStatement t)
  | [] => .ok (d, [])

/-- Reads statements to the end of the text, one a line. -/
def readLines : (fuel : Nat) → Document → Text → Except Fault Document
  | 0, d, _ => .ok d
  | fuel + 1, d, t =>
    match d.readStatement (skipSpaces t) with
    | .error f => .error f
    | .ok (d, t) =>
      match skipComment (skipSpaces t) with
      | .error f => .error f
      | .ok [] => .ok d
      | .ok ('\n' :: t) => readLines fuel d t
      | .ok t => .error (.at .expectedLineEnd t)

end Document

/-- The table that a text describes, or why it describes none. -/
def parse (t : Text) : Except ParseError Table :=
  match Document.readLines (t.length + 1) {} t with
  | .ok d => .ok d.table
  | .error f => .error (f.locate t)

end LayeredFix.Toml
