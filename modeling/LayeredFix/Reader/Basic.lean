import LayeredFix.Number.Numeral
import LayeredFix.Reader.Issue

/-!
# Reading values into records

A reader turns a JSON value into a value of a type of its own, or lists all that is wrong with it, in the
order of the members of the record. Readers are lenient: a text may stand for a number or a truth value,
a whole number for an integer, a one for a truth value.

`Reader.both` is what lets a record report the issues of all its members and not just of the first.
-/

namespace LayeredFix

/-- What comes out of a reader: a value, or all that is wrong. -/
abbrev Outcome (α : Type) := Except (List Issue) α

/-- A reader of values of a type. -/
abbrev Reader (α : Type) := Json → Outcome α

namespace Reader

/-- One issue at the place itself. -/
def fault {α : Type} (k : IssueKind) : Outcome α := .error [⟨[], k⟩]

/-- An outcome as seen from one step further out. -/
def under {α : Type} (a : Access) : Outcome α → Outcome α
  | .ok x => .ok x
  | .error is => .error (is.map (Issue.under a))

/-- Two outcomes joined: both values, or the issues of both. -/
def both {α β : Type} (f : Outcome (α → β)) (x : Outcome α) : Outcome β :=
  match f, x with
  | .ok f, .ok x => .ok (f x)
  | .ok _, .error js => .error js
  | .error is, .ok _ => .error is
  | .error is, .error js => .error (is ++ js)

/-! ### Scalars -/

/-- The integer that a number stands for. A floating-point number must be whole and fit into 64 bits. -/
def intOfReal (x : Binary64) : Outcome Int :=
  if !x.isFinite then fault .unboundedInt
  else
    match x.toInt? with
    | none => fault .fractionalInt
    | some n => if n.natAbs < Binary64.pow2 63 then .ok n else fault .longInt

/-- An integer: a number, a truth value, or a text that stands for an integer. -/
def int : Reader Int
  | .number (.int n) => .ok n
  | .number (.real x) => intOfReal x
  | .bool b => .ok (if b then 1 else 0)
  | .text t =>
    match Numeral.int? t with
    | .ok n => .ok n
    | .error .malformed => fault .noIntText
    | .error .tooLong => fault .longInt
  | _ => fault .noInt

/-- A floating-point number: a number, a truth value, or a text that stands for a number. -/
def real : Reader Binary64
  | .number (.int n) =>
    let x := Binary64.ofInt n
    if x.isFinite then .ok x else fault .noReal
  | .number (.real x) => .ok x
  | .bool b => .ok (.ofInt (if b then 1 else 0))
  | .text t =>
    match Numeral.real? t with
    | some x => .ok x
    | none => fault .noRealText
  | _ => fault .noReal

/-- The words for true. -/
def trueWords : List String := ["1", "t", "y", "on", "yes", "true"]

/-- The words for false. -/
def falseWords : List String := ["0", "f", "n", "off", "no", "false"]

/-- The truth value that an integer stands for. -/
def boolOfInt (n : Int) : Outcome Bool :=
  if n == 0 then .ok false else if n == 1 then .ok true else fault .unclearBool

/-- Whether an integer fits into 64 bits with a sign. -/
def fitsWord (n : Int) : Bool := -(Binary64.pow2 63 : Int) ≤ n && n < Binary64.pow2 63

/-- The truth value that a number stands for. Beyond 64 bits, and between integers, it stands for none. -/
def boolOfNumber : Number → Outcome Bool
  | .int n => if fitsWord n then boolOfInt n else fault .noBool
  | .real x =>
    match intOfReal x with
    | .ok n => boolOfInt n
    | .error _ => fault .noBool

/-- A truth value: itself, a one or a zero, or a word for it in any case of letters. -/
def bool : Reader Bool
  | .bool b => .ok b
  | .number n => boolOfNumber n
  | .text t =>
    let word := String.ofList (t.map Char.toLower)
    if trueWords.contains word then .ok true
    else if falseWords.contains word then .ok false
    else fault .unclearBool
  | _ => fault .noBool

/-- A text. -/
def text : Reader Text
  | .text t => .ok t
  | _ => fault .noText

/-- Nothing, or what the reader reads. -/
def orNull {α : Type} (r : Reader α) : Reader (Option α)
  | .null => .ok none
  | v => (r v).map some

/-- An object with any members. -/
def members : Reader (Entries Json)
  | .object ms => .ok ms
  | _ => fault .noObject

/-- One of several words. -/
def word {α : Type} (words : List (String × α)) : Reader α
  | .text t =>
    match words.find? fun w => w.1.toList == t with
    | some w => .ok w.2
    | none => fault .unknownWord
  | _ => fault .unknownWord

/-- What the reader reads, if it is above zero. -/
def positiveInt : Reader Int := fun v =>
  match int v with
  | .ok n => if n ≤ 0 then fault .tooSmall else .ok n
  | e => e

/-- A floating-point number above zero, which `nan` is not. -/
def positiveReal : Reader Binary64 := fun v =>
  match real v with
  | .ok x => if Binary64.zero.lt x then .ok x else fault .tooSmall
  | e => e

/-! ### Lists -/

/-- The items of a list from a number on. -/
def itemsFrom {α : Type} (r : Reader α) (i : Nat) : List Json → Outcome (List α)
  | [] => .ok []
  | v :: vs => both (both (.ok List.cons) (under (.item i) (r v))) (itemsFrom r (i + 1) vs)

/-- A list of what the reader reads. -/
def list {α : Type} (r : Reader α) : Reader (List α)
  | .list vs => itemsFrom r 0 vs
  | _ => fault .noList

/-! ### Records -/

/-- A reader of the members of a record. -/
abbrev Members (α : Type) := Entries Json → Outcome α

/-- A member that must be there. -/
def required {α : Type} (name : String) (r : Reader α) : Members α := fun ms =>
  under (.member name.toList) <| match Entries.get? name.toList ms with
    | none => fault .missing
    | some v => r v

/-- A member with a default. -/
def optional {α : Type} (name : String) (default : α) (r : Reader α) : Members α := fun ms =>
  match Entries.get? name.toList ms with
  | none => .ok default
  | some v => under (.member name.toList) (r v)

/-- A record from nothing but its constructor. -/
def make {α : Type} (f : α) : Members α := fun _ => .ok f

/-- A record and one more of its members. -/
def andThen {α β : Type} (f : Members (α → β)) (x : Members α) : Members β := fun ms =>
  both (f ms) (x ms)

/-- The members under unknown names. -/
def unknown (names : List String) (ms : Entries Json) : List Issue :=
  (ms.filter fun m => !names.any (·.toList == m.1)).map fun m => ⟨[.member m.1], .unknownMember⟩

/-- A record that has no members under unknown names. -/
def closed {α : Type} (names : List String) (m : Members α) : Members α := fun ms =>
  match unknown names ms with
  | [] => m ms
  | is => both (both (.ok fun x _ => x) (m ms)) (.error is : Outcome Unit)

/-- A record from an object. -/
def record {α : Type} (m : Members α) : Reader α
  | .object ms => m ms
  | _ => fault .noRecord

end Reader

end LayeredFix
