import LayeredFix.Json.Basic
import LayeredFix.Number.Places
import LayeredFix.Text.Quoted

/-!
# Message templates

A message may be given as a template and arguments. In the template a percent sign begins a directive:
it says which argument stands there, in which form, and how wide. `%%` stands for a percent sign.

The arguments are taken in order, and all of them must be used. A single argument that is an object with
members gives them by name: `%(name)s`. A template without arguments stands for itself. A template that is
not well formed, or whose arguments do not suit it, has no message.
-/

namespace LayeredFix.Template

/-! ### Values as they are shown -/

/-- A number as it is shown. -/
def showNumber : Number → Text
  | .int n => Text.ofInt n
  | .real x => (DecimalStyle.plain.write x).toList

mutual

/-- A value as it is shown inside another: texts are quoted. -/
def inner : Json → Text
  | .null => "None".toList
  | .bool true => "True".toList
  | .bool false => "False".toList
  | .number n => showNumber n
  | .text t => Text.quoted t
  | .list vs => '[' :: List.intercalate [',', ' '] (innerItems vs) ++ [']']
  | .object ms => '{' :: List.intercalate [',', ' '] (innerMembers ms) ++ ['}']

/-- Items as they are shown. -/
def innerItems : List Json → List Text
  | [] => []
  | v :: vs => inner v :: innerItems vs

/-- Members as they are shown. -/
def innerMembers : Entries Json → List Text
  | [] => []
  | (name, v) :: ms => (Text.quoted name ++ ':' :: ' ' :: inner v) :: innerMembers ms

end

/-- A value as it is shown by itself. -/
def shown : Json → Text
  | .text t => t
  | v => inner v

/-! ### Values as numbers -/

/-- The whole part of a number; numbers beyond all bounds have none. -/
def wholePart? : Number → Option Int
  | .int n => some n
  | .real (.finite negative m e) =>
    let n := if 0 ≤ e then m * Binary64.pow2 e.toNat else m / Binary64.pow2 (-e).toNat
    some (Binary64.signed negative n)
  | .real _ => none

/-- The integer that a value is; truth values count as one and zero. -/
def integer? : Json → Option Int
  | .number (.int n) => some n
  | .bool b => some (if b then 1 else 0)
  | _ => none

/-- A value as an integer, its places cut off. -/
def whole? : Json → Option Int
  | .number n => wholePart? n
  | v => integer? v

/-- A value as a floating-point number; integers beyond the range have none. -/
def real? : Json → Option Binary64
  | .number (.real x) => some x
  | v => (integer? v).bind fun n =>
    let x := Binary64.ofInt n
    if x.isFinite then some x else none

/-- The character that a value is or is the number of. -/
def char? : Json → Option Char
  | .text [c] => some c
  | v => (integer? v).bind fun n =>
    if 0 ≤ n && n.toNat.isValidChar then some (Char.ofNat n.toNat) else none

/-! ### Arguments -/

/-- The arguments that are still to be used. -/
inductive Supply where
  /-- Arguments in order. -/
  | row (args : List Json)
  /-- Arguments by name, and the one that the next directive takes. -/
  | named (args : Entries Json) (next : Option Json)

namespace Supply

/-- The arguments given. -/
def ofList : List Json → Supply
  | [.object (m :: ms)] => named (m :: ms) (some (.object (m :: ms)))
  | args => row args

/-- The next argument, and the arguments after it. -/
def next? : Supply → Option (Json × Supply)
  | row (v :: vs) => some (v, row vs)
  | named args (some v) => some (v, named args none)
  | _ => none

/-- The arguments after one was chosen by name. -/
def choose? (name : Text) : Supply → Option Supply
  | row _ => none
  | named args _ => (Entries.get? name args).map fun v => named args (some v)

/-- Whether the arguments may be left as they are. -/
def isDone : Supply → Bool
  | row args => args.isEmpty
  | named _ _ => true

end Supply

/-! ### Directives -/

/-- How a directive lays out its argument. -/
structure Layout where
  /-- Whether the blanks come after. -/
  left : Bool := false
  /-- Whether a number that is not negative has a plus sign. -/
  plus : Bool := false
  /-- Whether a number that is not negative has a blank for a sign. -/
  blank : Bool := false
  /-- Whether the base of an integer is shown and a point is kept. -/
  marked : Bool := false
  /-- Whether a number is filled up with zeros. -/
  zeros : Bool := false
  /-- The least number of characters. -/
  width : Nat := 0
  /-- The number of places, of digits or of characters. -/
  places : Option Nat := none

namespace Layout

/-- Fills up to the width; `front` stays in front of zeros. -/
def fill (l : Layout) (zeros : Bool) (front body : Text) : Text :=
  let gap := l.width - (front.length + body.length)
  if l.left then front ++ body ++ List.replicate gap ' '
  else if zeros then front ++ List.replicate gap '0' ++ body
  else List.replicate gap ' ' ++ front ++ body

/-- A text, cut to the number of characters. -/
def text (l : Layout) (t : Text) : Text := l.fill false [] (t.take (l.places.getD t.length))

/-- A number by its sign, the mark of its base and its digits. -/
def number (l : Layout) (negative : Bool) (mark digits : Text) : Text :=
  let sign : Text := if negative then ['-'] else if l.plus then ['+'] else if l.blank then [' '] else []
  l.fill l.zeros (sign ++ mark) digits

/-- An integer in a base, with at least so many digits. -/
def integer (l : Layout) (base : Nat) (mark : Text) (n : Int) : Text :=
  let digits := Nat.toDigits base n.natAbs
  l.number (n < 0) (if l.marked then mark else [])
    (List.replicate (l.places.getD 0 - digits.length) '0' ++ digits)

/-- The number of places where none is given. -/
def usualPlaces : Nat := 6

/-- A floating-point number. -/
def real (l : Layout) (form : PlacesForm) : Binary64 → Text
  | .finite negative m e =>
    l.number negative [] (Binary64.placesText form (l.places.getD usualPlaces) l.marked m e)
  | .infinity negative => l.number negative [] "inf".toList
  | .nan => l.number false [] "nan".toList

/-- What the letter of a directive makes of an argument. -/
def write? (l : Layout) (letter : Char) (v : Json) : Option Text :=
  match letter with
  | 's' => some (l.text (shown v))
  | 'r' => some (l.text (inner v))
  | 'a' => some (l.text (Text.asciiOnly (inner v)))
  | 'c' => (char? v).map fun c => l.fill false [] [c]
  | 'd' | 'i' | 'u' => (whole? v).map (l.integer 10 [])
  | 'o' => (integer? v).map (l.integer 8 ['0', 'o'])
  | 'x' => (integer? v).map (l.integer 16 ['0', 'x'])
  | 'X' => (integer? v).map fun n => (l.integer 16 ['0', 'x'] n).map Char.toUpper
  | 'f' => (real? v).map (l.real .point)
  | 'F' => (real? v).map fun x => (l.real .point x).map Char.toUpper
  | 'e' => (real? v).map (l.real .exponent)
  | 'E' => (real? v).map fun x => (l.real .exponent x).map Char.toUpper
  | 'g' => (real? v).map (l.real .digits)
  | 'G' => (real? v).map fun x => (l.real .digits x).map Char.toUpper
  | _ => none

end Layout

/-! ### Reading a directive -/

/-- The name in parentheses at the beginning of a directive, up to the parenthesis that closes it. -/
def readName (depth : Nat) (done : Text) : Text → Option (Text × Text)
  | [] => none
  | ')' :: t =>
    match depth with
    | 0 => some (done.reverse, t)
    | depth + 1 => readName depth (')' :: done) t
  | '(' :: t => readName (depth + 1) ('(' :: done) t
  | c :: t => readName depth (c :: done) t

/-- The arguments after a name at the beginning of a directive, if there is one, has chosen among them. -/
def readChoice (s : Supply) : Text → Option (Supply × Text)
  | '(' :: t =>
    match readName 0 [] t with
    | none => none
    | some (name, t) => (s.choose? name).map (·, t)
  | t => some (s, t)

/-- Whether a character changes the layout. -/
def isFlag (c : Char) : Bool := c == '-' || c == '+' || c == ' ' || c == '#' || c == '0'

/-- The greatest width and number of places. -/
def maxCount : Nat := 2147483647

/-- A width or a number of places, if there is one: digits, or a star for the next argument. -/
def readCount (s : Supply) (t : Text) : Option (Option Int × Supply × Text) :=
  match t with
  | '*' :: t =>
    match s.next? with
    | none => none
    | some (v, s) =>
      match integer? v with
      | none => none
      | some n => if maxCount < n.natAbs then none else some (some n, s, t)
  | t =>
    let digits := t.takeWhile Char.isDigit
    let n := Text.digitsToNat digits
    if digits.isEmpty then some (none, s, t)
    else if maxCount < n then none
    else some (some n, s, t.drop digits.length)

/-- The number of places, if there is a point: none after it means zero, and so does a negative one. -/
def readPlaces (s : Supply) : Text → Option (Option Nat × Supply × Text)
  | '.' :: t => (readCount s t).map fun (n, s, t) => (some (n.getD 0).toNat, s, t)
  | t => some (none, s, t)

/-- The rest after a letter for the size of a number, which says nothing here. -/
def skipSize : Text → Text
  | c :: t => if c == 'h' || c == 'l' || c == 'L' then t else c :: t
  | [] => []

/-- The layout, the letter, and what is left of the arguments and the text. A negative width means blanks
after. -/
def readLayout (s : Supply) (t : Text) : Option (Layout × Char × Supply × Text) :=
  let flags := t.takeWhile isFlag
  match readCount s (t.drop flags.length) with
  | none => none
  | some (width, s, t) =>
    match readPlaces s t with
    | none => none
    | some (places, s, t) =>
      match skipSize t with
      | [] => none
      | letter :: t =>
        some
          ({ left := flags.contains '-' || (width.getD 0) < 0
             plus := flags.contains '+'
             blank := flags.contains ' '
             marked := flags.contains '#'
             zeros := flags.contains '0'
             width := (width.getD 0).natAbs
             places := places },
           letter, s, t)

/-- A directive other than a second percent sign: the text that it stands for, and what is left of the
arguments and the text. -/
def readForm (s : Supply) (t : Text) : Option (Text × Supply × Text) :=
  match readChoice s t with
  | none => none
  | some (s, t) =>
    match readLayout s t with
    | none => none
    | some (l, letter, s, t) =>
      match s.next? with
      | none => none
      | some (v, s) => (l.write? letter v).map (·, s, t)

/-- A directive, from behind its percent sign on. -/
def readDirective (s : Supply) : Text → Option (Text × Supply × Text)
  | '%' :: t => some (['%'], s, t)
  | t => readForm s t

/-- The message of a template, from left to right. Every step reads a character, so as many steps as there are
characters, and one for the end, suffice. -/
def fillFrom : (fuel : Nat) → Supply → Text → Option Text
  | 0, _, _ => none
  | _ + 1, s, [] => if s.isDone then some [] else none
  | fuel + 1, s, '%' :: t =>
    match readDirective s t with
    | none => none
    | some (w, s, t) => (fillFrom fuel s t).map (w ++ ·)
  | fuel + 1, s, c :: t => (fillFrom fuel s t).map (c :: ·)

/-- The message of a template with its arguments, if it has one. -/
def message? (template : Text) (args : List Json) : Option Text :=
  if args.isEmpty then some template else fillFrom (template.length + 1) (Supply.ofList args) template

end LayeredFix.Template
