import LayeredFix.Proofs.Convention.Marks
import Mathlib.Data.List.TakeWhile

/-!
# The first line of code

Whether a line is code depends on the lines in front of it through one bit only: whether a block comment is open
(`commentAfter`). So the search for the first line of code comes to the same place again where a line of code has been put
(`firstCodeIndexFrom_insert`), unless it ends inside a comment. What is put into a comment is not read, if it does not close
the comment (`scan_comment`).
-/

namespace LayeredFix.Pass.Convention

/-- Whether a block comment is open behind a line that is no code; `inComment` says that one is open in front of it. -/
def commentAfter (inComment : Bool) (line : Text) : Option Bool :=
  let line := Text.trim line
  if inComment then some (!Text.occursIn "*/".toList line)
  else if line.isEmpty || "//".toList.isPrefixOf line then some false
  else if "/*".toList.isPrefixOf line then some (!Text.occursIn "*/".toList line)
  else none

/-- Whether a block comment is open behind some lines that are no code. -/
def endsInComment (inComment : Bool) : List Text → Bool
  | [] => inComment
  | line :: rest =>
    match commentAfter inComment line with
    | none => false
    | some inComment => endsInComment inComment rest

variable {b c : Bool} {l : Text} {ls rest : List Text}

theorem firstCodeIndexFrom_cons (b : Bool) (l : Text) (ls : List Text) : firstCodeIndexFrom b (l :: ls) =
    match commentAfter b l with
    | none => 0
    | some c => firstCodeIndexFrom c ls + 1 := by
  rw [firstCodeIndexFrom, commentAfter]
  split
  · rfl
  · split
    · rfl
    · split <;> rfl

theorem firstCodeIndexFrom_of_code (h : commentAfter b l = none) : firstCodeIndexFrom b (l :: ls) = 0 := by
  rw [firstCodeIndexFrom_cons, h]

theorem firstCodeIndexFrom_of_comment (h : commentAfter b l = some c) :
    firstCodeIndexFrom b (l :: ls) = firstCodeIndexFrom c ls + 1 := by
  rw [firstCodeIndexFrom_cons, h]

/-- Inside a comment no line is code. -/
theorem eq_false_of_code (h : commentAfter b l = none) : b = false := by
  unfold commentAfter at h
  cases b with
  | false => rfl
  | true => cases h

/-- A mark is code. -/
theorem commentAfter_of_isDirectiveLine (h : isDirectiveLine l = true) : commentAfter false l = none := by
  have hall : ∀ l ∈ directiveLines, l.isEmpty = false ∧ "//".toList.isPrefixOf l = false ∧
      "/*".toList.isPrefixOf l = false := by decide
  obtain ⟨hempty, hline, hopen⟩ := hall _ (List.contains_iff_mem.1 h)
  simp only [commentAfter, hempty, hline, hopen, Bool.or_self, Bool.false_eq_true, if_false]

theorem firstCodeIndexFrom_le (b : Bool) (ls : List Text) : firstCodeIndexFrom b ls ≤ ls.length := by
  induction ls generalizing b with
  | nil => exact le_rfl
  | cons l ls ih =>
    rcases h : commentAfter b l with _ | c
    · rw [firstCodeIndexFrom_of_code h]
      exact Nat.zero_le _
    · rw [firstCodeIndexFrom_of_comment h, List.length_cons]
      exact Nat.succ_le_succ (ih c)

/-- **A line of code that is put at the first line of code is the first line of code**, if no comment is open there. -/
theorem firstCodeIndexFrom_insert (hl : commentAfter false l = none) (h : endsInComment b ls = false) :
    firstCodeIndexFrom b (ls.take (firstCodeIndexFrom b ls) ++ l :: rest) = firstCodeIndexFrom b ls := by
  induction ls generalizing b with
  | nil =>
    obtain rfl : b = false := h
    exact firstCodeIndexFrom_of_code hl
  | cons l' ls ih =>
    unfold endsInComment at h
    rcases hl' : commentAfter b l' with _ | c
    · obtain rfl := eq_false_of_code hl'
      rw [firstCodeIndexFrom_of_code hl']
      exact firstCodeIndexFrom_of_code hl
    · rw [hl'] at h
      rw [firstCodeIndexFrom_of_comment hl', List.take_succ_cons, List.cons_append, firstCodeIndexFrom_of_comment hl', ih h]

/-! ### Lines that are no code -/

theorem occursIn_trim (l : Text) : Text.occursIn "*/".toList (Text.trim l) = Text.occursIn "*/".toList l := by
  rw [Bool.eq_iff_iff, Text.occursIn_iff, Text.occursIn_iff]
  exact Text.infix_trim_iff (by decide) (by decide)

theorem commentAfter_true (l : Text) : commentAfter true l = some !Text.occursIn "*/".toList l := by
  rw [commentAfter, if_pos rfl, occursIn_trim]

theorem isEmpty_trim_iff : (Text.trim l).isEmpty = true ↔ ∀ d ∈ l, Text.isBlank d = true := by
  rw [List.isEmpty_iff]
  constructor
  · intro h d hd
    by_contra hblank
    have hmem := Text.mem_trim (Bool.eq_false_iff.2 hblank) hd
    rw [h] at hmem
    cases hmem
  · intro h
    have hleft : Text.trimLeft l = [] := by
      rw [Text.trimLeft, List.dropWhile_eq_nil_iff]
      exact h
    rw [Text.trim, hleft]
    rfl

/-- Outside of a comment, a line that is no code is blank or a line comment, or it opens a block comment. -/
theorem commentAfter_false_eq_some_iff : commentAfter false l = some c ↔
    ((∀ d ∈ l, Text.isBlank d = true) ∨ "//".toList <+: Text.trimLeft l) ∧ c = false ∨
      "/*".toList <+: Text.trimLeft l ∧ c = !Text.occursIn "*/".toList l := by
  have hline : "//".toList.isPrefixOf (Text.trim l) = true ↔ "//".toList <+: Text.trimLeft l := by
    rw [List.isPrefixOf_iff_prefix, Text.prefix_trim_iff (by decide)]
  have hblock : "/*".toList.isPrefixOf (Text.trim l) = true ↔ "/*".toList <+: Text.trimLeft l := by
    rw [List.isPrefixOf_iff_prefix, Text.prefix_trim_iff (by decide)]
  -- No text begins in both ways.
  have hno : ((Text.trim l).isEmpty || "//".toList.isPrefixOf (Text.trim l)) = true →
      "/*".toList.isPrefixOf (Text.trim l) = false := by
    rcases Text.trim l with _ | ⟨d, _ | ⟨e, t⟩⟩
    · exact fun _ => rfl
    · exact fun h => absurd h (by simp [List.isPrefixOf])
    · intro h
      have he : e = '/' := by
        simp [List.isPrefixOf] at h
        exact h.2.symm
      rw [he]
      simp [List.isPrefixOf]
  rw [commentAfter, if_neg (by decide), occursIn_trim, ← isEmpty_trim_iff, ← hline, ← hblock]
  clear hline hblock
  revert hno
  generalize (Text.trim l).isEmpty = blank, "//".toList.isPrefixOf (Text.trim l) = line,
    "/*".toList.isPrefixOf (Text.trim l) = block, Text.occursIn "*/".toList l = closed
  revert blank line block closed c
  decide

/-! ### Inside of comments -/

theorem endsInComment_of_comment (h : commentAfter b l = some c) :
    endsInComment b (l :: ls) = endsInComment c ls := by
  rw [endsInComment, h]

/-- Lines are read up to the first line of code, and those in front of it only for where comments open and close. -/
def PassesComments {α : Type} (F : Bool → List Text → α) : Prop :=
  ∀ b c l ls, commentAfter b l = some c → F b (l :: ls) = F c ls

theorem passesComments_endsInComment : PassesComments endsInComment := fun _ _ _ _ => endsInComment_of_comment

/-- Where a comment is not closed yet, it is closed in what follows, unless its end is cut. -/
theorem closes_append {p : Text} (hp : ¬ "*/".toList <:+: p) (hcut : p.getLast? ≠ some '*' ∨ l.head? ≠ some '/') :
    "*/".toList <:+: p ++ l ↔ "*/".toList <:+: l := by
  rw [List.infix_append_iff]
  refine ⟨fun hin => ?_, fun hin => Or.inr (Or.inl hin)⟩
  rcases hin with hin | hin | ⟨u, v, huv, hu, hv⟩
  · exact absurd hin hp
  · exact hin
  · have hend : "*/".toList = ['*', '/'] := by decide
    rw [hend] at huv
    rcases u with _ | ⟨d, _ | ⟨e, u⟩⟩
    · rw [hend, huv]
      exact hv.isInfix
    · obtain ⟨rfl, rfl⟩ := List.cons.inj huv
      obtain ⟨a, rfl⟩ := hu
      obtain ⟨r, rfl⟩ := hv
      simp at hcut
    · obtain ⟨rfl, htail⟩ := List.cons.inj huv
      obtain ⟨rfl, hnil⟩ := List.cons.inj htail
      obtain ⟨rfl, rfl⟩ := List.append_eq_nil_iff.1 hnil.symm
      exact absurd hu.isInfix hp

/-- A line that ends inside of a comment goes on in what is put behind it as a comment does. -/
theorem commentAfter_append {p : Text} (h : commentAfter b p = some true)
    (hcut : p.getLast? ≠ some '*' ∨ l.head? ≠ some '/') : commentAfter b (p ++ l) = commentAfter true l := by
  have hclosed (hp : true = !Text.occursIn "*/".toList p) :
      Text.occursIn "*/".toList (p ++ l) = Text.occursIn "*/".toList l := by
    rw [Bool.eq_iff_iff, Text.occursIn_iff, Text.occursIn_iff]
    exact closes_append (Text.occursIn_eq_false_iff.1 (by simpa using hp)) hcut
  rw [commentAfter_true l]
  cases b with
  | true =>
    rw [commentAfter_true] at h ⊢
    rw [hclosed (Option.some.inj h).symm]
  | false =>
    obtain ⟨-, hfalse⟩ | ⟨hblock, hopen⟩ := commentAfter_false_eq_some_iff.1 h
    · cases hfalse
    · rw [commentAfter_false_eq_some_iff, hclosed hopen]
      refine Or.inr ⟨?_, rfl⟩
      have hne : Text.trimLeft p ≠ [] := by
        obtain ⟨r, hr⟩ := hblock
        rw [← hr]
        exact List.cons_ne_nil _ _
      rw [Text.trimLeft_append hne]
      exact hblock.trans (List.prefix_append _ _)

/-- **Behind a text that ends inside of a comment, lines are read as inside of a comment.** -/
theorem scan_append {α : Type} {F : Bool → List Text → α} (hF : PassesComments F) {a r : Text}
    (ha : endsInComment b (Text.lines a) = true) (hcut : a.getLast? ≠ some '*' ∨ r.head? ≠ some '/') :
    F b (Text.lines (a ++ r)) = F true (Text.lines r) := by
  obtain ⟨init, p, hlines⟩ := Text.exists_lines_concat a
  obtain ⟨l, ls, hr⟩ := List.exists_cons_of_ne_nil (Text.lines_ne_nil r)
  have hhead : p.getLast? ≠ some '*' ∨ l.head? ≠ some '/' := by
    refine hcut.imp (fun ha hp => ha ?_) fun hr' hl => hr' ?_
    · obtain ⟨x, rfl⟩ := Text.suffix_of_lines_eq_concat hlines
      rw [List.getLast?_append, hp]
      rfl
    · obtain ⟨x, rfl⟩ := Text.prefix_of_lines_eq_cons hr
      rw [List.head?_append, hl]
      rfl
  rw [Text.lines_append hlines hr, hr]
  rw [hlines] at ha
  clear hlines
  induction init generalizing b with
  | nil =>
    rcases hp : commentAfter b p with _ | c
    · rw [List.nil_append, endsInComment, hp] at ha
      cases ha
    · rw [List.nil_append, endsInComment_of_comment hp] at ha
      obtain rfl : c = true := ha
      obtain ⟨c, hc⟩ : ∃ c, commentAfter true l = some c := ⟨_, commentAfter_true l⟩
      rw [List.nil_append, hF _ _ _ _ ((commentAfter_append hp hhead).trans hc), hF _ _ _ _ hc]
  | cons l' init ih =>
    rcases hl' : commentAfter b l' with _ | c
    · rw [List.cons_append, endsInComment, hl'] at ha
      cases ha
    · rw [List.cons_append, endsInComment_of_comment hl'] at ha
      rw [List.cons_append, hF _ _ _ _ hl']
      exact ih ha

/-- A text without the first character of the sign that closes a comment stays inside of one. -/
theorem endsInComment_of_notMem {w : Text} (hw : '*' ∉ w) : endsInComment true (Text.lines w) = true := by
  have hlines (ls : List Text) (h : ∀ l ∈ ls, '*' ∉ l) : endsInComment true ls = true := by
    induction ls with
    | nil => rfl
    | cons l ls ih =>
      rw [List.forall_mem_cons] at h
      have hopen : Text.occursIn "*/".toList l = false :=
        Text.occursIn_eq_false_iff.2 fun hin => h.1 (hin.subset (by decide))
      rw [endsInComment_of_comment ((commentAfter_true l).trans (by rw [hopen]))]
      exact ih h.2
  exact hlines _ fun l hl hmem => hw ((Text.infix_of_mem_lines hl).subset hmem)

/-- A text that can be put into a comment: it holds no part of the comment's end, and does not begin with one. -/
structure Inert (w : Text) : Prop where
  star : '*' ∉ w
  head : ∃ c v, w = c :: v ∧ c ≠ '/'

variable {a w z : Text}

theorem Inert.head?_append (hw : Inert w) (z : Text) : (w ++ z).head? ≠ some '/' := by
  obtain ⟨c, v, rfl, hc⟩ := hw.head
  simpa using hc

/-- What is put into a comment is not read. -/
theorem scan_comment {α : Type} {F : Bool → List Text → α} (hF : PassesComments F)
    (ha : endsInComment false (Text.lines a) = true) (hw : Inert w) :
    F false (Text.lines (a ++ (w ++ z))) = F true (Text.lines z) := by
  rw [scan_append hF ha (Or.inr (hw.head?_append z))]
  exact scan_append hF (endsInComment_of_notMem hw.star) (Or.inl fun hlast => hw.star (List.mem_of_getLast? hlast))

end LayeredFix.Pass.Convention
