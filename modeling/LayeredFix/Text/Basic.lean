import LayeredFix.Text.CharClass

/-!
# Texts

A text is the list of its characters. Here are the operations that every pass shares: cutting a text into
lines, fields or parts around a separator, finding and counting one text inside another, and trimming.

`unlines_lines` says that cutting into lines loses nothing, `occursIn_iff` that the search for a part
finds exactly the parts.
-/

namespace LayeredFix

/-- A text: its characters in order. -/
abbrev Text := List Char

namespace Text

/-! ### Characters of a text -/

-- There is also a way to decide such statements by going through all characters that exist, hence the priority.
instance (priority := 2000) decidableForallMem (t : Text) (p : Char → Prop) [DecidablePred p] :
    Decidable (∀ c ∈ t, p c) := List.decidableBAll p t

instance (priority := 2000) decidableExistsMem (t : Text) (p : Char → Prop) [DecidablePred p] :
    Decidable (∃ c ∈ t, p c) := List.decidableBEx p t

/-! ### Lines and fields -/

/-- A character put before the first of several parts. -/
def consPart (c : Char) : List Text → List Text
  | [] => [[c]]
  | part :: rest => (c :: part) :: rest

/-- The stretches between the characters that satisfy `stop`: always one more than there are such
characters. -/
def splitWhere (stop : Char → Bool) (t : Text) : List Text :=
  t.foldr (fun c parts => if stop c then [] :: parts else consPart c parts) [[]]

/-- The lines of a text; only the newline ends a line. -/
def lines (t : Text) : List Text := splitWhere (· == '\n') t

/-- Lines joined by newlines. -/
def unlines (ls : List Text) : Text := List.intercalate ['\n'] ls

/-- The number of lines. -/
def lineCount (t : Text) : Nat := t.count '\n' + 1

/-- The maximal stretches without blanks. -/
def words (t : Text) : List Text := (splitWhere isBlank t).filter (!·.isEmpty)

/-! ### Trimming -/

/-- Leading blanks removed. -/
def trimLeft (t : Text) : Text := t.dropWhile isBlank

/-- Trailing characters of a class removed. -/
def dropRightWhile (ok : Char → Bool) (t : Text) : Text := (t.reverse.dropWhile ok).reverse

/-- Trailing blanks removed. -/
def trimRight (t : Text) : Text := dropRightWhile isBlank t

/-- Blanks removed at both ends. -/
def trim (t : Text) : Text := trimRight (trimLeft t)

/-! ### One text inside another -/

/-- Whether the text `w` occurs somewhere in `t`. -/
def occursIn (w : Text) : Text → Bool
  | [] => w.isEmpty
  | c :: t => w.isPrefixOf (c :: t) || occursIn w t

/-- Whether one of several texts occurs in `t`. -/
def anyOccursIn (ws : List Text) (t : Text) : Bool := ws.any fun w => occursIn w t

/-- Cuts a text at the occurrences of `w`, from left to right and without overlap. `skip` counts the
characters of an occurrence that are still to be passed over; `part` is the present part, last character
first. -/
def splitOnFrom (w : Text) (skip : Nat) (t part : Text) (parts : List Text) : List Text :=
  match skip, t with
  | _, [] => (part.reverse :: parts).reverse
  | skip + 1, _ :: t => splitOnFrom w skip t part parts
  | 0, c :: t =>
    if w.isPrefixOf (c :: t) then splitOnFrom w (w.length - 1) t [] (part.reverse :: parts)
    else splitOnFrom w 0 t (c :: part) parts

/-- The parts of a text between the occurrences of a non-empty separator. -/
def splitOn (w t : Text) : List Text := splitOnFrom w 0 t [] []

/-- The number of occurrences of `w` that do not overlap, counted from the left. The empty text occurs
before each character and at the end. -/
def occurrences (w t : Text) : Nat :=
  if w.isEmpty then t.length + 1 else (splitOn w t).length - 1

/-- Each occurrence of `old` replaced by `new`; the empty text is replaced before each character and at
the end. -/
def replaceAll (old new t : Text) : Text :=
  if old.isEmpty then new ++ t.flatMap fun c => c :: new
  else List.intercalate new (splitOn old t)

/-- The text before the first occurrence of `w` in `t` and the text after it; `passed` holds the
characters already passed over, last first. -/
def cutFirstFrom (w passed : Text) : Text → Option (Text × Text)
  | [] => if w.isEmpty then some (passed.reverse, []) else none
  | c :: t =>
    if w.isPrefixOf (c :: t) then some (passed.reverse, (c :: t).drop w.length)
    else cutFirstFrom w (c :: passed) t

/-- The text before the first occurrence of `w` and the text after it. -/
def cutFirst (w t : Text) : Option (Text × Text) := cutFirstFrom w [] t

/-- The first occurrence of `old` replaced by `new`. -/
def replaceFirst (old new t : Text) : Text :=
  match cutFirst old t with
  | none => t
  | some (before, after) => before ++ new ++ after

/-! ### Small facts -/

@[simp] theorem splitWhere_nil (stop : Char → Bool) : splitWhere stop [] = [[]] := rfl

theorem splitWhere_cons (stop : Char → Bool) (c : Char) (t : Text) :
    splitWhere stop (c :: t) =
      if stop c then [] :: splitWhere stop t else consPart c (splitWhere stop t) := rfl

theorem splitWhere_ne_nil (stop : Char → Bool) (t : Text) : splitWhere stop t ≠ [] := by
  cases t with
  | nil => simp
  | cons c t =>
    rw [splitWhere_cons]
    split
    · simp
    · cases splitWhere stop t <;> simp [consPart]

/-- Cutting into lines and joining them again gives the text back. -/
theorem unlines_lines (t : Text) : unlines (lines t) = t := by
  induction t with
  | nil => rfl
  | cons c t ih =>
    have hne := splitWhere_ne_nil (· == '\n') t
    unfold lines unlines at *
    rw [splitWhere_cons]
    cases hs : splitWhere (· == '\n') t with
    | nil => exact absurd hs hne
    | cons part rest =>
      rw [hs] at ih
      split
      · rename_i h
        have hc : c = '\n' := by simpa using h
        simpa [List.intercalate, List.intersperse, hc] using ih
      · cases rest with
        | nil => simpa [List.intercalate, consPart] using ih
        | cons r rs => simpa [List.intercalate, List.intersperse, consPart] using ih

/-- The search for a part finds exactly the parts. -/
theorem occursIn_iff (w t : Text) : occursIn w t = true ↔ w <:+: t := by
  induction t with
  | nil => simp [occursIn, List.infix_nil]
  | cons c t ih => simp [occursIn, ih, List.infix_cons_iff, List.isPrefixOf_iff_prefix]

end Text

end LayeredFix
