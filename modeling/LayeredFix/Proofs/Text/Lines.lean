import LayeredFix.Proofs.Text.Part
import Mathlib.Algebra.Ring.Nat

/-!
# Lines

A text is cut at its newlines, so what stands in front of a newline and what stands behind it are cut apart
(`lines_append_newline`), and lines that were joined are cut again (`lines_unlines`). A word without newline is counted line
by line (`occurrences_unlines`). Trimming a line removes no character but blanks.
-/

namespace LayeredFix.Text

variable {a t l : Text}

theorem splitWhere_eq_splitOnP (stop : Char → Bool) (t : Text) : splitWhere stop t = t.splitOnP stop := by
  induction t with
  | nil => simp
  | cons c t ih =>
    rw [splitWhere_cons, List.splitOnP_cons_eq_if_modifyHead, ih]
    split
    · rfl
    · obtain ⟨part, rest, hparts⟩ := List.exists_cons_of_ne_nil (List.splitOnP_ne_nil stop t)
      rw [hparts]
      rfl

theorem lines_eq_splitOn (t : Text) : lines t = List.splitOn '\n' t := splitWhere_eq_splitOnP _ t

theorem lines_ne_nil (t : Text) : lines t ≠ [] := splitWhere_ne_nil _ t

theorem exists_lines_concat (t : Text) : ∃ init p, lines t = init ++ [p] := by
  obtain ⟨init, p, h⟩ := (List.eq_nil_or_concat (lines t)).resolve_left (lines_ne_nil t)
  exact ⟨init, p, by rw [h, List.concat_eq_append]⟩

theorem lines_append_newline (a t : Text) : lines (a ++ '\n' :: t) = lines a ++ lines t := by
  simp only [lines_eq_splitOn]
  exact List.splitOnP_append_cons a t (beq_self_eq_true '\n')

theorem lines_of_notMem (h : '\n' ∉ a) : lines a = [a] := by
  rw [lines_eq_splitOn]
  exact List.splitOnP_eq_singleton fun c hc => beq_eq_false_iff_ne.2 fun (heq : c = '\n') => h (heq ▸ hc)

theorem lines_newline (t : Text) : lines ('\n' :: t) = [] :: lines t := lines_append_newline [] t

theorem lines_cons_of_ne {c : Char} (hc : c ≠ '\n') (t : Text) : lines (c :: t) = consPart c (lines t) := by
  unfold lines
  rw [splitWhere_cons, if_neg (by simpa using hc)]

/-- What is put in front of a text without ending a line is put in front of its first line. -/
theorem lines_append_of_notMem (h : '\n' ∉ a) (t : Text) :
    ∃ l ls, lines t = l :: ls ∧ lines (a ++ t) = (a ++ l) :: ls := by
  obtain ⟨l, ls, ht⟩ := List.exists_cons_of_ne_nil (lines_ne_nil t)
  refine ⟨l, ls, ht, ?_⟩
  induction a with
  | nil => exact ht
  | cons c a ih =>
    rw [List.mem_cons, not_or] at h
    rw [List.cons_append, lines_cons_of_ne (Ne.symm h.1), ih h.2]
    rfl

/-- The last line of a text goes on in the first line of what follows. -/
theorem lines_append {x y p l : Text} {init ls : List Text} (hx : lines x = init ++ [p]) (hy : lines y = l :: ls) :
    lines (x ++ y) = init ++ (p ++ l) :: ls := by
  induction x generalizing init p with
  | nil =>
    obtain ⟨rfl, hp⟩ := List.append_inj' (show [] ++ [_] = _ from hx) rfl
    obtain rfl := List.singleton_inj.1 hp
    exact hy
  | cons c x ih =>
    obtain ⟨init', p', hx'⟩ := exists_lines_concat x
    have htail := ih hx'
    by_cases hc : c = '\n'
    · rw [hc, lines_newline, hx', ← List.cons_append] at hx
      obtain ⟨rfl, hp⟩ := List.append_inj' hx rfl
      obtain rfl := List.singleton_inj.1 hp
      rw [hc, List.cons_append, lines_newline, htail, List.cons_append]
    · rw [lines_cons_of_ne hc, hx'] at hx
      rw [List.cons_append, lines_cons_of_ne hc, htail]
      rcases init' with _ | ⟨i, init'⟩
      · obtain ⟨rfl, hp⟩ := List.append_inj' (show [] ++ [_] = _ from hx) rfl
        obtain rfl := List.singleton_inj.1 hp
        rfl
      · obtain ⟨rfl, hp⟩ := List.append_inj' (show ((c :: i) :: init') ++ [_] = _ from hx) rfl
        obtain rfl := List.singleton_inj.1 hp
        rfl

/-- A text with a newline is cut at the last one. -/
theorem exists_last_newline (h : '\n' ∈ t) : ∃ a b, t = a ++ '\n' :: b ∧ '\n' ∉ b := by
  obtain ⟨b, a, ht, hb⟩ := List.eq_append_cons_of_mem (List.mem_reverse.2 h)
  refine ⟨a.reverse, b.reverse, ?_, by simpa using hb⟩
  rw [← List.reverse_reverse t, ht]
  simp

/-- The first line begins the text. -/
theorem prefix_of_lines_eq_cons {ls : List Text} (h : lines t = l :: ls) : l <+: t := by
  rw [← unlines_lines t, h, unlines]
  cases ls with
  | nil => simp
  | cons l' ls =>
    rw [List.intercalate_cons_cons, List.append_assoc]
    exact List.prefix_append _ _

/-- The last line ends the text. -/
theorem suffix_of_lines_eq_concat {init : List Text} (h : lines t = init ++ [l]) : l <:+ t := by
  by_cases hline : '\n' ∈ t
  · obtain ⟨a, b, rfl, hb⟩ := exists_last_newline hline
    rw [lines_append_newline, lines_of_notMem hb] at h
    obtain rfl := List.singleton_inj.1 (List.append_inj' h rfl).2
    exact ⟨a ++ ['\n'], by simp⟩
  · rw [lines_of_notMem hline] at h
    obtain ⟨-, hl⟩ := List.append_inj' (show [] ++ [t] = init ++ [l] from h) rfl
    obtain rfl := List.singleton_inj.1 hl
    exact List.suffix_rfl

theorem unlines_singleton (l : Text) : unlines [l] = l := by simp [unlines]

theorem unlines_cons_cons (l l' : Text) (ls : List Text) : unlines (l :: l' :: ls) = l ++ '\n' :: unlines (l' :: ls) := by
  simp [unlines, List.intercalate]

theorem exists_unlines_cons (l : Text) (ls : List Text) : ∃ r, unlines (l :: ls) = l ++ r := by
  cases ls with
  | nil => exact ⟨[], by rw [unlines_singleton, List.append_nil]⟩
  | cons l' ls => exact ⟨_, unlines_cons_cons l l' ls⟩

theorem unlines_append {ls ls' : List Text} (h : ls ≠ []) (h' : ls' ≠ []) :
    unlines (ls ++ ls') = unlines ls ++ '\n' :: unlines ls' := by
  induction ls with
  | nil => exact absurd rfl h
  | cons l ls ih =>
    rcases ls with _ | ⟨l₁, ls⟩
    · obtain ⟨l', ls', rfl⟩ := List.exists_cons_of_ne_nil h'
      rw [List.singleton_append, unlines_cons_cons, unlines_singleton]
    · rw [List.cons_append, List.cons_append, unlines_cons_cons, ← List.cons_append, ih (List.cons_ne_nil _ _),
        unlines_cons_cons, List.append_assoc, List.cons_append]

/-- **Lines that were joined are cut again.** -/
theorem lines_unlines {ls : List Text} (hne : ls ≠ []) (h : ∀ l ∈ ls, '\n' ∉ l) : lines (unlines ls) = ls := by
  rw [lines_eq_splitOn]
  exact List.splitOn_intercalate '\n' h hne

theorem infix_of_mem_lines (h : l ∈ lines t) : l <:+: t := by
  rw [← unlines_lines t]
  exact List.infix_of_mem_flatten (mem_intersperse_of_mem h)

theorem mem_unlines {c : Char} {ls : List Text} (h : c ∈ unlines ls) : c = '\n' ∨ ∃ l ∈ ls, c ∈ l := by
  obtain ⟨part, hpart, hc⟩ := List.mem_flatten.1 h
  rcases mem_intersperse hpart with rfl | hpart
  · exact Or.inl (List.mem_singleton.1 hc)
  · exact Or.inr ⟨part, hpart, hc⟩

/-- A word stands in one of the lines. -/
theorem infix_unlines_iff {w : Text} (hne : w ≠ []) (hw : '\n' ∉ w) (ls : List Text) :
    w <:+: unlines ls ↔ ∃ l ∈ ls, w <:+: l := by
  induction ls with
  | nil => simp [unlines, hne]
  | cons l ls ih =>
    cases ls with
    | nil => simp [unlines_singleton]
    | cons l' ls =>
      rw [unlines_cons_cons, infix_append_cons_iff hw, ih]
      simp

theorem notMem_of_mem_lines (h : l ∈ lines t) : '\n' ∉ l := by
  induction t generalizing l with
  | nil => simp_all [lines]
  | cons c t ih =>
    by_cases hc : c = '\n'
    · rw [hc, lines_newline] at h
      rcases List.mem_cons.1 h with rfl | h
      · simp
      · exact ih h
    · obtain ⟨l', ls, ht, hcons⟩ := lines_append_of_notMem (a := [c]) (by simpa using Ne.symm hc) t
      rw [List.singleton_append] at hcons
      rw [hcons] at h
      rw [ht] at ih
      rcases List.mem_cons.1 h with rfl | h
      · simpa using ⟨Ne.symm hc, ih (List.mem_cons_self ..)⟩
      · exact ih (List.mem_cons_of_mem _ h)

/-! ### Counting a word -/

/-- The number of occurrences of a word that do not overlap, once the next `skip` characters are passed over. -/
def hits (w : Text) : Nat → Text → Nat
  | _, [] => 0
  | skip + 1, _ :: t => hits w skip t
  | 0, c :: t => if w.isPrefixOf (c :: t) then hits w (w.length - 1) t + 1 else hits w 0 t

theorem length_splitOnFrom (w : Text) (skip : Nat) (t part : Text) (parts : List Text) :
    (splitOnFrom w skip t part parts).length = parts.length + 1 + hits w skip t := by
  fun_induction splitOnFrom w skip t part parts with
  | case1 => simp [hits]
  | case2 part parts skip c t ih => rw [ih, hits]
  | case3 part parts c t hw ih =>
    rw [ih, hits, if_pos hw, List.length_cons]
    omega
  | case4 part parts c t hw ih => rw [ih, hits, if_neg hw]

theorem occurrences_eq_hits {w : Text} (hne : w ≠ []) (t : Text) : occurrences w t = hits w 0 t := by
  rw [occurrences, if_neg (by simpa using hne), splitOn, length_splitOnFrom]
  simp

/-- A newline ends every occurrence of a word that has none. -/
theorem hits_append_newline {w : Text} (hne : w ≠ []) (hw : '\n' ∉ w) (t : Text) {skip : Nat} (hskip : skip ≤ a.length) :
    hits w skip (a ++ '\n' :: t) = hits w skip a + hits w 0 t := by
  induction a generalizing skip with
  | nil =>
    obtain rfl : skip = 0 := by simpa using hskip
    have hno : ¬ w.isPrefixOf ('\n' :: t) = true := fun h =>
      hne (List.prefix_nil.1 (prefix_of_notMem (u := []) (List.isPrefixOf_iff_prefix.1 h) hw))
    rw [List.nil_append, hits, hits, if_neg hno, Nat.zero_add]
  | cons c a ih =>
    rw [List.length_cons] at hskip
    cases skip with
    | succ skip =>
      rw [List.cons_append, hits, hits]
      exact ih (by omega)
    | zero =>
      have hbegins : w.isPrefixOf (c :: (a ++ '\n' :: t)) = w.isPrefixOf (c :: a) := by
        rw [Bool.eq_iff_iff, List.isPrefixOf_iff_prefix, List.isPrefixOf_iff_prefix, ← List.cons_append]
        exact ⟨fun h => prefix_of_notMem h hw, fun h => h.trans (List.prefix_append ..)⟩
      rw [List.cons_append, hits, hits, hbegins]
      split
      · rename_i h
        have hlength := (List.isPrefixOf_iff_prefix.1 h).length_le
        rw [List.length_cons] at hlength
        rw [ih (by omega)]
        omega
      · exact ih (Nat.zero_le _)

theorem occurrences_append_newline {w : Text} (hne : w ≠ []) (hw : '\n' ∉ w) (a t : Text) :
    occurrences w (a ++ '\n' :: t) = occurrences w a + occurrences w t := by
  simp only [occurrences_eq_hits hne]
  exact hits_append_newline hne hw t (Nat.zero_le _)

/-- **A word without newline is counted line by line.** -/
theorem occurrences_unlines {w : Text} (hne : w ≠ []) (hw : '\n' ∉ w) (ls : List Text) :
    occurrences w (unlines ls) = (ls.map (occurrences w)).sum := by
  induction ls with
  | nil => rw [occurrences_eq_hits hne]; rfl
  | cons l ls ih =>
    cases ls with
    | nil => rw [unlines_singleton, List.map_singleton, List.sum_singleton]
    | cons l' ls => rw [unlines_cons_cons, occurrences_append_newline hne hw, ih, List.map_cons (l := l' :: ls), List.sum_cons]

theorem hits_length_append (w u t : Text) : hits w u.length (u ++ t) = hits w 0 t := by
  induction u with
  | nil => rfl
  | cons c u ih => rw [List.cons_append, List.length_cons, hits, ih]

theorem hits_of_not_infix {w : Text} (h : ¬ w <:+: t) : hits w 0 t = 0 := by
  induction t with
  | nil => rfl
  | cons c t ih =>
    rw [List.infix_cons_iff, not_or] at h
    rw [hits, if_neg (by rw [List.isPrefixOf_iff_prefix]; exact h.1), ih h.2]

/-- A word in front of a text it does not stand in occurs once. -/
theorem occurrences_append_of_not_infix {w : Text} (hne : w ≠ []) (h : ¬ w <:+: t) : occurrences w (w ++ t) = 1 := by
  obtain ⟨c, u, rfl⟩ := List.exists_cons_of_ne_nil hne
  rw [occurrences_eq_hits hne, List.cons_append, hits, if_pos (List.isPrefixOf_iff_prefix.2 ⟨t, by simp⟩),
    List.length_cons, Nat.add_sub_cancel, hits_length_append, hits_of_not_infix h]

/-! ### Blanks -/

theorem isBlank_of_isSpaceOrTab {c : Char} (h : isSpaceOrTab c = true) : isBlank c = true := by
  rcases Bool.or_eq_true_iff.1 h with hc | hc
  · obtain rfl := beq_iff_eq.1 hc
    decide
  · obtain rfl := beq_iff_eq.1 hc
    decide

/-- The code points of the blanks. -/
def blankPoints : List Nat :=
  [0x20, 0x85, 0xa0, 0x1680, 0x2028, 0x2029, 0x202f, 0x205f, 0x3000] ++ List.range' 0x09 5 ++ List.range' 0x1c 4 ++
    List.range' 0x2000 11

/-- No blank is a word character. -/
theorem isWord_of_isBlank {c : Char} (h : isBlank c = true) : isWord c = false := by
  have hall : ∀ n ∈ blankPoints, isWord (Char.ofNat n) = false := by decide +kernel
  have hmem : c.toNat ∈ blankPoints := by
    simp only [isBlank, Bool.or_eq_true, Bool.and_eq_true, beq_iff_eq, decide_eq_true_eq] at h
    simp only [blankPoints, List.mem_append, List.mem_cons, List.not_mem_nil, List.mem_range'_1]
    omega
  rw [← Char.ofNat_toNat c]
  exact hall _ hmem

/-! ### Trimming -/

theorem mem_trim {c : Char} (hc : isBlank c = false) (h : c ∈ t) : c ∈ trim t := by
  obtain ⟨b, b', ht, hb, hb'⟩ := exists_trim t
  have hno {v : Text} (hv : ∀ d ∈ v, isBlank d = true) : c ∉ v := fun hmem => by simp [hv c hmem] at hc
  rw [ht, List.mem_append, List.mem_append] at h
  exact (h.resolve_left (hno hb)).resolve_right (hno hb')

theorem notMem_of_blank {v w : Text} (hv : ∀ c ∈ v, isBlank c = true) (hw : ∀ c ∈ w, isBlank c = false) :
    ∀ c ∈ v, c ∉ w := fun c hc hmem => absurd ((hv c hc).symm.trans (hw c hmem)) (by decide)

/-- A word without blanks stands in a trimmed text if it stands in the text. -/
theorem infix_trim_iff {w : Text} (hne : w ≠ []) (hw : ∀ c ∈ w, isBlank c = false) : w <:+: trim t ↔ w <:+: t := by
  obtain ⟨b, b', ht, hb, hb'⟩ := exists_trim t
  have hleft (v : Text) : w <:+: b ++ v ↔ w <:+: v := by
    rw [← List.reverse_infix, List.reverse_append, infix_append_iff_of_notMem (by simpa using hne)
      (by simpa using notMem_of_blank hb hw), List.reverse_infix]
  calc w <:+: trim t
      ↔ w <:+: trim t ++ b' := (infix_append_iff_of_notMem hne (notMem_of_blank hb' hw)).symm
    _ ↔ w <:+: b ++ (trim t ++ b') := (hleft _).symm
    _ ↔ w <:+: t := by rw [← ht]

/-- A word without blanks begins a trimmed text if it begins the text without the blanks in front. -/
theorem prefix_trim_iff {w : Text} (hw : ∀ c ∈ w, isBlank c = false) : w <+: trim t ↔ w <+: trimLeft t := by
  obtain ⟨b, ht, hb⟩ := exists_trimRight (trimLeft t)
  have htrim : trim t <+: trimLeft t := ⟨b, ht.symm⟩
  refine ⟨fun h => h.trans htrim, fun h => ?_⟩
  rcases b with _ | ⟨d, b⟩
  · rw [List.append_nil] at ht
    rwa [trim, ← ht]
  · rw [ht] at h
    exact prefix_of_notMem h (notMem_of_blank hb hw d (List.mem_cons_self ..))

/-- Behind a character that is kept all is kept. -/
theorem trimLeft_append (h : trimLeft a ≠ []) (t : Text) : trimLeft (a ++ t) = trimLeft a ++ t := by
  unfold trimLeft at h ⊢
  rw [List.dropWhile_append, if_neg (by simpa using h)]

/-- What stands before the first character that is kept does not depend on what comes behind it. -/
theorem trimLeft_append_cons {c : Char} (hc : isBlank c = false) (a t : Text) :
    trimLeft (a ++ c :: t) = trimLeft a ++ c :: t := by
  unfold trimLeft
  induction a with
  | nil => simp [hc]
  | cons d a ih =>
    rw [List.cons_append, List.dropWhile_cons, List.dropWhile_cons, ih]
    split <;> rfl

/-- Blanks at both ends are removed. -/
theorem trim_append_append {b : Text} {w : Text} (ha : ∀ c ∈ a, isBlank c = true) (hb : ∀ c ∈ b, isBlank c = true)
    (hleft : trimLeft w = w) (hright : trimRight w = w) (hne : w ≠ []) : trim (a ++ (w ++ b)) = w := by
  have hfront : trimLeft (a ++ (w ++ b)) = w ++ b := calc
    trimLeft (a ++ (w ++ b)) = trimLeft (w ++ b) := List.dropWhile_append_of_pos ha
    _ = trimLeft w ++ b := trimLeft_append (by rwa [hleft]) b
    _ = w ++ b := by rw [hleft]
  have hback : trimRight (w ++ b) = trimRight w := by
    unfold trimRight dropRightWhile
    rw [List.reverse_append, List.dropWhile_append_of_pos (by simpa using hb)]
  rw [trim, hfront, hback, hright]

end LayeredFix.Text
