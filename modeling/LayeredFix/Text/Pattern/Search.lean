import LayeredFix.Text.Pattern.Basic

/-!
# Searching a text for a pattern

`Pattern.search` finds the first match, `Pattern.cut` cuts a text into the matches found from left to
right and the characters between them, and `Pattern.replace` puts something else in the place of each
match. Matches do not overlap, and empty matches are passed over.

`text_cut` says that cutting a text loses nothing.
-/

namespace LayeredFix

/-- A match: the matched stretch and its numbered parts. -/
structure Hit where
  /-- The matched stretch. -/
  text : Text
  /-- The numbered parts, latest first. -/
  groups : List (Nat × Text)

/-- The part with the number `i`; empty if the match gave that number to nothing. -/
def Hit.group (h : Hit) (i : Nat) : Text := (h.groups.lookup i).getD []

/-- The first match in a text, with the text before and after it. -/
structure Found where
  /-- The text before the match. -/
  before : Text
  /-- The match. -/
  hit : Hit
  /-- The text after the match. -/
  after : Text

/-- A piece of a text that was searched: a match, or a character that belongs to none. -/
inductive Piece where
  /-- A character outside all matches. -/
  | kept (c : Char)
  /-- A match. -/
  | hit (h : Hit)

/-- The text of a piece. -/
def Piece.text : Piece → Text
  | kept c => [c]
  | hit h => h.text

namespace Pattern

/-- The match that begins at a place. -/
def hitAt (p : Pattern) (s : Place) : Option Hit :=
  (p.run some s).map fun e => ⟨(s.stretch e).text, e.groups.map fun g => (g.1, g.2.text)⟩

/-- Whether a match begins at the beginning of the text. -/
def beginsWith (p : Pattern) (t : Text) : Bool := (p.hitAt (Place.start t)).isSome

/-- The first match in what is ahead. -/
def searchFrom (p : Pattern) (index : Nat) (behind : Text) : Text → Option Found
  | [] => (p.hitAt ⟨index, behind, [], []⟩).map fun h => ⟨behind.reverse, h, []⟩
  | c :: t =>
    match p.hitAt ⟨index, behind, c :: t, []⟩ with
    | some h => some ⟨behind.reverse, h, (c :: t).drop h.text.length⟩
    | none => searchFrom p (index + 1) (c :: behind) t

/-- The first match in a text. -/
def search (p : Pattern) (t : Text) : Option Found := p.searchFrom 0 [] t

/-- Whether the pattern matches somewhere in a text. -/
def occursIn (p : Pattern) (t : Text) : Bool := (p.search t).isSome

/-- The pieces of what is ahead, put after the pieces in `done`, which stand in reverse. `skip` counts
the characters that belong to the last match. -/
def cutFrom (p : Pattern) (skip index : Nat) (behind t : Text) (done : List Piece) : List Piece :=
  match skip, t with
  | _, [] => done.reverse
  | skip + 1, c :: t => cutFrom p skip (index + 1) (c :: behind) t done
  | 0, c :: t =>
    match p.hitAt ⟨index, behind, c :: t, []⟩ with
    | none => cutFrom p 0 (index + 1) (c :: behind) t (.kept c :: done)
    | some h =>
      if h.text.isEmpty then cutFrom p 0 (index + 1) (c :: behind) t (.kept c :: done)
      else cutFrom p (h.text.length - 1) (index + 1) (c :: behind) t (.hit h :: done)

/-- A text cut into the matches, found from left to right, and the characters between them. -/
def cut (p : Pattern) (t : Text) : List Piece := p.cutFrom 0 0 [] t []

/-- The matches in a text. -/
def hits (p : Pattern) (t : Text) : List Hit :=
  (p.cut t).filterMap fun
    | .kept _ => none
    | .hit h => some h

/-- The number of matches in a text. -/
def count (p : Pattern) (t : Text) : Nat := (p.hits t).length

/-- Something else in the place of each match. -/
def replace (p : Pattern) (f : Hit → Text) (t : Text) : Text :=
  (p.cut t).flatMap fun
    | .kept c => [c]
    | .hit h => f h

/-- A fixed text in the place of the first match. -/
def replaceFirst (p : Pattern) (new t : Text) : Text :=
  match p.search t with
  | none => t
  | some f => f.before ++ new ++ f.after

/-! ### Cutting loses nothing -/

theorem text_hitAt {p : Pattern} {s : Place} {h : Hit} (hh : p.hitAt s = some h) :
    h.text = s.ahead.take h.text.length := by
  unfold hitAt at hh
  cases hr : p.run some s with
  | none => simp [hr] at hh
  | some e =>
    simp only [hr, Option.map_some, Option.some.injEq] at hh
    subst hh
    simp [Place.stretch, Stretch.text, List.take_eq_take_iff]

theorem text_cutFrom (p : Pattern) (t : Text) :
    ∀ (skip index : Nat) (behind : Text) (done : List Piece),
      (p.cutFrom skip index behind t done).flatMap Piece.text =
        done.reverse.flatMap Piece.text ++ t.drop skip := by
  induction t with
  | nil => intro skip i b done; cases skip <;> simp [cutFrom]
  | cons c t ih =>
    intro skip i b done
    cases skip with
    | succ skip => rw [cutFrom, ih]; rfl
    | zero =>
      rw [cutFrom]
      split
      · rw [ih]; simp [Piece.text]
      · rename_i h hh
        split
        · rw [ih]; simp [Piece.text]
        · rename_i hne
          rw [ih]
          have ht := text_hitAt hh
          simp only [List.reverse_cons, List.flatMap_append, List.flatMap_cons, List.flatMap_nil,
            List.append_nil, Piece.text, List.drop_zero, List.append_assoc]
          congr 1
          cases hl : h.text.length with
          | zero => simp [List.length_eq_zero_iff.1 hl] at hne
          | succ n =>
            rw [hl] at ht
            rw [ht]
            simp

/-- Cutting a text loses nothing. -/
theorem text_cut (p : Pattern) (t : Text) : (p.cut t).flatMap Piece.text = t := by
  simp [cut, text_cutFrom]

end Pattern

end LayeredFix
