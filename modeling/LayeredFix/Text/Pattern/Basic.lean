import LayeredFix.Text.Basic

/-!
# Patterns

A pattern describes how a stretch of text may look, with its surroundings: what stands before and after
it may be asked for too. Where several stretches fit at one place, the pattern puts them in an order of
preference, so that "the" match at a place is well defined.

`Pattern.ends` lists, in that order, the places where a match that begins at a place may end.
`Pattern.run` looks for the first of them that a continuation accepts, and stops there. `run_eq` says
that the two agree, so statements about matches can be made about the list.
-/

namespace LayeredFix

/-- A stretch of a text, kept as its length and the text that begins where it begins. -/
structure Stretch where
  /-- The text from the beginning of the stretch on. -/
  ahead : Text
  /-- The number of characters. -/
  length : Nat

/-- The characters of a stretch. -/
def Stretch.text (w : Stretch) : Text := w.ahead.take w.length

/-- A place in a text: what has been read, last character first, and what is still to be read. `groups`
holds the stretches that have been given a number on the way. -/
structure Place where
  /-- The number of characters read. -/
  index : Nat
  /-- The characters read, last first. -/
  behind : Text
  /-- The characters still to be read. -/
  ahead : Text
  /-- The numbered stretches, latest first. -/
  groups : List (Nat × Stretch)

namespace Place

/-- The beginning of a text. -/
def start (t : Text) : Place := ⟨0, [], t, []⟩

/-- The place after `w`, which must stand ahead. -/
def advance (w : Text) (s : Place) : Place :=
  ⟨s.index + w.length, w.reverse ++ s.behind, s.ahead.drop w.length, s.groups⟩

/-- The place after the stretch `w`, if `w` stands ahead. -/
def read (w : Text) (s : Place) : Option Place :=
  if w.isPrefixOf s.ahead then some (s.advance w) else none

/-- The stretch from the place `s` to the later place `e`. -/
def stretch (s e : Place) : Stretch := ⟨s.ahead, e.index - s.index⟩

/-- The places reached by reading characters of a class from here, the farthest first; `found` are the
nearer ones. -/
def reach (ok : Char → Bool) (index : Nat) (behind : Text) (groups : List (Nat × Stretch))
    (found : List Place) : Text → List Place
  | [] => ⟨index, behind, [], groups⟩ :: found
  | c :: t =>
    if ok c then
      reach ok (index + 1) (c :: behind) groups (⟨index, behind, c :: t, groups⟩ :: found) t
    else ⟨index, behind, c :: t, groups⟩ :: found

/-- The places reached by reading characters of a class, the farthest first. -/
def farthest (ok : Char → Bool) (s : Place) : List Place :=
  reach ok s.index s.behind s.groups [] s.ahead

/-- The first answer that `k` gives at a place reached by reading characters of a class, trying the
nearest place first. -/
def tryNearest {α : Type} (ok : Char → Bool) (k : Place → Option α) (index : Nat) (behind : Text)
    (groups : List (Nat × Stretch)) : Text → Option α
  | [] => k ⟨index, behind, [], groups⟩
  | c :: t =>
    match k ⟨index, behind, c :: t, groups⟩ with
    | some a => some a
    | none => if ok c then tryNearest ok k (index + 1) (c :: behind) groups t else none

/-- Whether the character before this place is a word character. -/
def afterWord (s : Place) : Bool := s.behind.head?.any Text.isWord

/-- Whether the character after this place is a word character. -/
def beforeWord (s : Place) : Bool := s.ahead.head?.any Text.isWord

/-- The stretch that was given the number `i` last. -/
def group? (s : Place) (i : Nat) : Option Text := (s.groups.lookup i).map Stretch.text

end Place

/-- A pattern. -/
inductive Pattern where
  /-- The empty stretch. -/
  | empty
  /-- One character of a class. -/
  | one (ok : Char → Bool)
  /-- Exactly these characters. -/
  | exactly (w : Text)
  /-- Any number of characters of a class, as many as possible first. -/
  | many (ok : Char → Bool)
  /-- Any number of characters of a class, as few as possible first. -/
  | few (ok : Char → Bool)
  /-- The one and then the other. -/
  | seq (p q : Pattern)
  /-- The one or the other; the first is preferred. -/
  | alt (p q : Pattern)
  /-- A stretch that is given a number. -/
  | group (i : Nat) (p : Pattern)
  /-- The stretch with this number once more. -/
  | again (i : Nat)
  /-- The empty stretch at either end of a word. -/
  | edge
  /-- The empty stretch at the beginning of a line. -/
  | lineStart
  /-- The empty stretch at the end of a line. -/
  | lineEnd
  /-- The empty stretch at the beginning of the text. -/
  | textStart
  /-- The empty stretch at the end of the text or before a newline that ends it. -/
  | textEnd
  /-- The empty stretch where the pattern matches what follows. -/
  | followedBy (p : Pattern)
  /-- The empty stretch where the pattern does not match what follows. -/
  | notFollowedBy (p : Pattern)
  /-- The empty stretch that does not come right after `w`. -/
  | notAfter (w : Text)
  /-- The empty stretch that does not come right after a character of a class. -/
  | notAfterAny (ok : Char → Bool)

namespace Pattern

/-- The places where a match that begins at a place may end, in order of preference. -/
def ends : Pattern → Place → List Place
  | empty, s => [s]
  | one ok, s => match s.ahead with
    | [] => []
    | c :: _ => if ok c then [s.advance [c]] else []
  | exactly w, s => (s.read w).toList
  | many ok, s => s.farthest ok
  | few ok, s => (s.farthest ok).reverse
  | seq p q, s => (p.ends s).flatMap q.ends
  | alt p q, s => p.ends s ++ q.ends s
  | group i p, s => (p.ends s).map fun e => { e with groups := (i, s.stretch e) :: e.groups }
  | again i, s => ((s.group? i).bind s.read).toList
  | edge, s => if s.afterWord != s.beforeWord then [s] else []
  | lineStart, s => if s.behind.head?.all (· == '\n') then [s] else []
  | lineEnd, s => if s.ahead.head?.all (· == '\n') then [s] else []
  | textStart, s => if s.behind.isEmpty then [s] else []
  | textEnd, s => if s.ahead.isEmpty || s.ahead == ['\n'] then [s] else []
  | followedBy p, s => if (p.ends s).isEmpty then [] else [s]
  | notFollowedBy p, s => if (p.ends s).isEmpty then [s] else []
  | notAfter w, s => if w.reverse.isPrefixOf s.behind then [] else [s]
  | notAfterAny ok, s => if s.behind.head?.any ok then [] else [s]

/-- The first answer that `k` gives at an end of a match that begins at a place. -/
def run {α : Type} : Pattern → (Place → Option α) → Place → Option α
  | empty, k, s => k s
  | one ok, k, s => match s.ahead with
    | [] => none
    | c :: _ => if ok c then k (s.advance [c]) else none
  | exactly w, k, s => if w.isPrefixOf s.ahead then k (s.advance w) else none
  | many ok, k, s => (s.farthest ok).findSome? k
  | few ok, k, s => Place.tryNearest ok k s.index s.behind s.groups s.ahead
  | seq p q, k, s => p.run (q.run k) s
  | alt p q, k, s => match p.run k s with
    | some a => some a
    | none => q.run k s
  | group i p, k, s => p.run (fun e => k { e with groups := (i, s.stretch e) :: e.groups }) s
  | again i, k, s => match s.group? i with
    | none => none
    | some w => if w.isPrefixOf s.ahead then k (s.advance w) else none
  | edge, k, s => if s.afterWord != s.beforeWord then k s else none
  | lineStart, k, s => if s.behind.head?.all (· == '\n') then k s else none
  | lineEnd, k, s => if s.ahead.head?.all (· == '\n') then k s else none
  | textStart, k, s => if s.behind.isEmpty then k s else none
  | textEnd, k, s => if s.ahead.isEmpty || s.ahead == ['\n'] then k s else none
  | followedBy p, k, s => if (p.run some s).isSome then k s else none
  | notFollowedBy p, k, s => if (p.run some s).isSome then none else k s
  | notAfter w, k, s => if w.reverse.isPrefixOf s.behind then none else k s
  | notAfterAny ok, k, s => if s.behind.head?.any ok then none else k s

/-! ### Shorthands -/

/-- Exactly the characters of a string. -/
def text (w : String) : Pattern := exactly w.toList

/-- The characters of a string in lower case, in any case of letters. -/
def anyCase (w : String) : Pattern :=
  w.toList.foldr (fun c p => seq (one fun d => Text.foldCase d == c) p) empty

/-- Several patterns one after another. -/
def all : List Pattern → Pattern
  | [] => empty
  | [p] => p
  | p :: ps => seq p (all ps)

/-- One of several patterns; earlier ones are preferred. -/
def any : List Pattern → Pattern
  | [] => notFollowedBy empty
  | [p] => p
  | p :: ps => alt p (any ps)

/-- One of several strings; earlier ones are preferred. -/
def anyText (ws : List String) : Pattern := any (ws.map text)

/-- The pattern, or nothing. -/
def optional (p : Pattern) : Pattern := alt p empty

/-- At least one character of a class, as many as possible first. -/
def some1 (ok : Char → Bool) : Pattern := seq (one ok) (many ok)

/-- Any number of blanks. -/
def blanks : Pattern := many Text.isBlank

/-- At least one blank. -/
def blanks1 : Pattern := some1 Text.isBlank

/-- A word: at least one word character. -/
def word : Pattern := some1 Text.isWord

/-! ### The two readings agree -/

theorem findSome?_flatMap {α β γ : Type} (f : β → Option γ) (g : α → List β) (xs : List α) :
    (xs.flatMap g).findSome? f = xs.findSome? fun x => (g x).findSome? f := by
  induction xs with
  | nil => rfl
  | cons x xs ih =>
    rw [List.flatMap_cons, List.findSome?_append, ih, List.findSome?]
    cases (g x).findSome? f <;> rfl

theorem findSome?_one {α β : Type} (f : α → Option β) (a : α) : [a].findSome? f = f a := by
  cases h : f a <;> simp [List.findSome?, h]

theorem tryNearest_eq {α : Type} (ok : Char → Bool) (k : Place → Option α) (t : Text) :
    ∀ (index : Nat) (behind : Text) (groups : List (Nat × Stretch)) (found : List Place),
      ((Place.reach ok index behind groups found t).reverse).findSome? k =
        (found.reverse.findSome? k).or (Place.tryNearest ok k index behind groups t) := by
  induction t with
  | nil =>
    intro i b g found
    simp only [Place.reach, Place.tryNearest, List.reverse_cons, List.findSome?_append, findSome?_one]
  | cons c t ih =>
    intro i b g found
    simp only [Place.reach, Place.tryNearest]
    split
    · rw [ih]
      simp only [List.reverse_cons, List.findSome?_append, findSome?_one, Option.or_assoc]
      congr 1
      cases k ⟨i, b, c :: t, g⟩ <;> rfl
    · simp only [List.reverse_cons, List.findSome?_append, findSome?_one]
      congr 1
      cases k ⟨i, b, c :: t, g⟩ <;> rfl

/-- Looking for the first end that a continuation accepts is searching the list of ends. -/
theorem run_eq {α : Type} (p : Pattern) (k : Place → Option α) (s : Place) :
    p.run k s = (p.ends s).findSome? k := by
  induction p generalizing α k s with
  | empty => exact (findSome?_one k s).symm
  | one ok =>
    simp only [run, ends]
    split
    · rfl
    · split
      · exact (findSome?_one k _).symm
      · rfl
  | exactly w =>
    simp only [run, ends, Place.read]
    split
    · exact (findSome?_one k _).symm
    · rfl
  | many ok => rfl
  | few ok =>
    simp only [run, ends, Place.farthest]
    rw [tryNearest_eq]
    simp
  | seq p q ihp ihq =>
    simp only [run, ends, ihp, findSome?_flatMap]
    congr 1
    funext e
    exact ihq k e
  | alt p q ihp ihq =>
    simp only [run, ends, ihp, ihq, List.findSome?_append]
    cases (p.ends s).findSome? k <;> rfl
  | group i p ih => simp only [run, ends, ih, List.findSome?_map]; rfl
  | again i =>
    simp only [run, ends]
    cases s.group? i with
    | none => rfl
    | some w =>
      simp only [Option.bind_some, Place.read]
      split
      · exact (findSome?_one k _).symm
      · rfl
  | followedBy p ih =>
    simp only [run, ends, ih]
    cases p.ends s with
    | nil => rfl
    | cons e es => simp
  | notFollowedBy p ih =>
    simp only [run, ends, ih]
    cases p.ends s with
    | nil => simp
    | cons e es => simp
  | notAfter w | notAfterAny ok =>
    simp only [run, ends]
    split
    · rfl
    · exact (findSome?_one k _).symm
  | edge | lineStart | lineEnd | textStart | textEnd =>
    simp only [run, ends]
    split
    · exact (findSome?_one k _).symm
    · rfl

end Pattern

end LayeredFix
