import LayeredFix.Text.Basic

/-!
# Parts of texts

A part of a text that holds no `d` stands on one side of each `d` of the text. So whether a word occurs in a text that
was put together can be answered piece by piece, and a text that is cut at the first `d` is cut in one way only.
-/

namespace LayeredFix.Text

variable {w u v u' v' : Text} {d : Char}

/-- A part that stands in front of a character it does not hold ends before it. -/
theorem prefix_of_notMem (h : w <+: u ++ d :: v) (hd : d ∉ w) : w <+: u := by
  have hu : u ++ [d] <+: u ++ d :: v := ⟨v, by simp⟩
  rcases List.prefix_or_prefix_of_prefix h hu with hw | hw
  · rcases List.prefix_concat_iff.1 hw with rfl | hw
    · exact absurd (by simp) hd
    · exact hw
  · obtain ⟨rest, rfl⟩ := hw
    exact absurd (by simp) hd

/-- A word that holds no `d` stands on one side of a `d`. -/
theorem infix_append_cons_iff (hd : d ∉ w) : w <:+: u ++ d :: v ↔ w <:+: u ∨ w <:+: v := by
  have hhead (u : Text) : w <+: u ++ d :: v ↔ w <+: u :=
    ⟨fun h => prefix_of_notMem h hd, fun h => h.trans (List.prefix_append _ _)⟩
  induction u with
  | nil =>
    rw [List.nil_append, List.infix_cons_iff, ← List.nil_append (d :: v), hhead, List.infix_nil, List.prefix_nil]
  | cons c u ih =>
    calc w <:+: c :: (u ++ d :: v)
        ↔ w <+: (c :: u) ++ d :: v ∨ w <:+: u ++ d :: v := List.infix_cons_iff
      _ ↔ w <+: c :: u ∨ (w <:+: u ∨ w <:+: v) := or_congr (hhead (c :: u)) ih
      _ ↔ w <:+: c :: u ∨ w <:+: v := by rw [← or_assoc, ← List.infix_cons_iff]

/-- A word does not reach into characters that it does not hold. -/
theorem infix_append_iff_of_notMem (hne : w ≠ []) (hv : ∀ c ∈ v, c ∉ w) : w <:+: u ++ v ↔ w <:+: u := by
  have hout : ¬ w <:+: v := by
    intro h
    obtain ⟨c, w, rfl⟩ := List.exists_cons_of_ne_nil hne
    exact hv c (h.subset (List.mem_cons_self ..)) (List.mem_cons_self ..)
  cases v with
  | nil => rw [List.append_nil]
  | cons d v =>
    rw [infix_append_cons_iff (hv d (List.mem_cons_self ..)), or_iff_left]
    exact fun h => hout (h.trans (List.suffix_cons d v).isInfix)

/-- A word stands behind characters that it does not hold. -/
theorem infix_append_left_iff {y r : Text} (hne : w ≠ []) (hy : ∀ c ∈ y, c ∉ w) : w <:+: y ++ r ↔ w <:+: r := by
  induction y with
  | nil => rw [List.nil_append]
  | cons c y ih =>
    rw [List.forall_mem_cons] at hy
    rw [List.cons_append, ← List.nil_append (c :: (y ++ r)), infix_append_cons_iff hy.1, ih hy.2, List.infix_nil,
      or_iff_right hne]

/-- A word stands on one side of a stretch of characters that it does not hold. -/
theorem infix_append_append_iff {a y r : Text} (hne : w ≠ []) (hy : y ≠ []) (hno : ∀ c ∈ y, c ∉ w) :
    w <:+: a ++ (y ++ r) ↔ w <:+: a ∨ w <:+: r := by
  obtain ⟨c, y, rfl⟩ := List.exists_cons_of_ne_nil hy
  rw [List.forall_mem_cons] at hno
  rw [List.cons_append, infix_append_cons_iff hno.1, infix_append_left_iff hne hno.2]

/-- A word that no end of a stretch runs into stands behind the stretch. -/
theorem infix_right_of_apart (hu : ∀ y, y <:+ u → y ≠ [] → ¬ y <+: w ∧ ¬ w <+: y) (h : w <:+: u ++ v) : w <:+: v := by
  induction u with
  | nil => exact h
  | cons c u ih =>
    rcases List.infix_cons_iff.1 h with hpre | hin
    · obtain ⟨hno, hno'⟩ := hu (c :: u) List.suffix_rfl (List.cons_ne_nil c u)
      rcases List.prefix_or_prefix_of_prefix hpre (List.prefix_append (c :: u) v) with hw | hw
      · exact absurd hw hno'
      · exact absurd hw hno
    · exact ih (fun y hy => hu y (hy.trans (List.suffix_cons c u))) hin

/-- A word ends before a stretch that does not hold its last character. -/
theorem infix_of_last_notMem (h : w ++ [d] <:+: u ++ v) (hd : d ∉ v) : w ++ [d] <:+: u := by
  obtain ⟨a, b, heq⟩ := h
  rcases List.append_eq_append_iff.1 heq with ⟨c, hu, -⟩ | ⟨c, hu, rfl⟩
  · exact ⟨a, c, hu.symm⟩
  · rcases List.eq_nil_or_concat c with rfl | ⟨c, d', rfl⟩
    · exact ⟨a, [], by rw [hu, List.append_nil, List.append_nil]⟩
    · rw [List.concat_eq_append, ← List.append_assoc, ← List.append_assoc] at hu
      have hlast : d = d' := List.singleton_inj.1 (List.append_inj' hu rfl).2
      exact absurd (by simp [hlast]) hd

/-- A front that ends in a character that a stretch does not hold ends before the stretch. -/
theorem prefix_of_last_notMem (h : w ++ [d] <+: u ++ v) (hd : d ∉ v) : w ++ [d] <+: u := by
  rcases List.prefix_or_prefix_of_prefix h (List.prefix_append u v) with hw | ⟨k, hk⟩
  · exact hw
  · rcases List.eq_nil_or_concat k with rfl | ⟨k, d', rfl⟩
    · exact ⟨[], by rw [← hk, List.append_nil, List.append_nil]⟩
    · rw [List.concat_eq_append, ← List.append_assoc] at hk
      obtain rfl : d' = d := List.singleton_inj.1 (List.append_inj' hk rfl).2
      rw [← hk, List.append_assoc, List.prefix_append_right_inj] at h
      exact absurd (h.subset (by simp)) hd

/-- A word that holds `d` at its end only ends at a `d` or stands behind it. -/
theorem infix_append_cons_last (hd : d ∉ w) (h : w ++ [d] <:+: u ++ d :: v) :
    w ++ [d] <:+: u ++ [d] ∨ w ++ [d] <:+: v := by
  have hhead {u : Text} (h : w ++ [d] <+: u ++ d :: v) : w ++ [d] <+: u ++ [d] := by
    have hu : u ++ [d] <+: u ++ d :: v := ⟨v, by simp⟩
    rcases List.prefix_or_prefix_of_prefix h hu with hw | hw
    · exact hw
    · rcases List.prefix_concat_iff.1 hw with heq | hw
      · exact heq ▸ List.prefix_rfl
      · exact absurd (hw.subset (by simp)) hd
  induction u with
  | nil =>
    rcases List.infix_cons_iff.1 h with hpre | hin
    · exact Or.inl (hhead (u := []) hpre).isInfix
    · exact Or.inr hin
  | cons c u ih =>
    rcases List.infix_cons_iff.1 h with hpre | hin
    · exact Or.inl (hhead (u := c :: u) hpre).isInfix
    · exact (ih hin).imp_left fun hleft => hleft.trans (List.suffix_cons c _).isInfix

/-- A text is cut at its first `d` in one way only. -/
theorem cut_unique (h : u ++ d :: v = u' ++ d :: v') (hu : d ∉ u) (hu' : d ∉ u') : u = u' ∧ v = v' := by
  have heq : u = u' := by
    have hpre : u <+: u' ++ d :: v' := h ▸ List.prefix_append u _
    have hpre' : u' <+: u ++ d :: v := h ▸ List.prefix_append u' _
    exact (prefix_of_notMem hpre hu).eq_of_length_le (prefix_of_notMem hpre' hu').length_le
  subst heq
  exact ⟨rfl, (List.cons.inj (List.append_cancel_left h)).2⟩

/-- What is cut off in front of a `d` holds all that stands in front of the first `d`. -/
theorem cut_after {k r : Text} (h : u ++ v = k ++ d :: r) (hd : d ∉ u) : ∃ k', k = u ++ k' ∧ v = k' ++ d :: r := by
  rcases List.append_eq_append_iff.1 h with ⟨k', hk, hv⟩ | ⟨k', rfl, hv⟩
  · exact ⟨k', hk, hv⟩
  · rcases k' with _ | ⟨c, k'⟩
    · exact ⟨[], by simp, hv.symm⟩
    · obtain ⟨rfl, -⟩ := List.cons.inj hv
      simp at hd

/-- What is cut off behind a `d` holds all that stands behind the last `d`. -/
theorem cut_before {k r : Text} (h : u ++ v = k ++ d :: r) (hd : d ∉ v) : ∃ u', u = k ++ d :: u' ∧ r = u' ++ v := by
  rcases List.append_eq_append_iff.1 h with ⟨k', rfl, rfl⟩ | ⟨k', rfl, hv⟩
  · simp at hd
  · rcases k' with _ | ⟨c, k'⟩
    · rw [List.nil_append] at hv
      simp [← hv] at hd
    · obtain ⟨rfl, rfl⟩ := List.cons.inj hv
      exact ⟨k', rfl, rfl⟩

/-- A text ends in one longest stretch of characters of a class. -/
theorem run_unique {p : Char → Bool} {u v u' v' : Text} (h : u ++ v = u' ++ v') (hv : ∀ c ∈ v, p c = true)
    (hv' : ∀ c ∈ v', p c = true) (hu : ∀ a c, u = a ++ [c] → p c = false) (hu' : ∀ a c, u' = a ++ [c] → p c = false) :
    u = u' ∧ v = v' := by
  have hshort {u v u' v' k : Text} (hu' : ∀ a c, u' = a ++ [c] → p c = false) (hv : ∀ c ∈ v, p c = true)
      (hk : u' = u ++ k) (hkv : v = k ++ v') : u = u' := by
    rcases List.eq_nil_or_concat k with rfl | ⟨k, c, rfl⟩
    · rw [hk, List.append_nil]
    · have hno := hu' (u ++ k) c (by rw [hk, List.concat_eq_append, List.append_assoc])
      rw [hv c (by simp [hkv])] at hno
      cases hno
  have heq : u = u' := by
    rcases List.append_eq_append_iff.1 h with ⟨k, hk, hkv⟩ | ⟨k, hk, hkv⟩
    · exact hshort hu' hv hk hkv
    · exact (hshort hu hv' hk hkv).symm
  subst heq
  exact ⟨rfl, List.append_cancel_left h⟩

/-- Blanks are all that is cut off a text at its end. -/
theorem exists_trimRight (t : Text) : ∃ b, t = trimRight t ++ b ∧ ∀ c ∈ b, isBlank c = true := by
  refine ⟨(t.reverse.takeWhile isBlank).reverse, ?_, fun c hc => ?_⟩
  · rw [trimRight, dropRightWhile, ← List.reverse_append, List.takeWhile_append_dropWhile, List.reverse_reverse]
  · exact List.all_eq_true.1 List.all_takeWhile c (List.mem_reverse.1 hc)

/-- Blanks are all that is cut off a text at its ends. -/
theorem exists_trim (t : Text) :
    ∃ b b', t = b ++ (trim t ++ b') ∧ (∀ c ∈ b, isBlank c = true) ∧ ∀ c ∈ b', isBlank c = true := by
  obtain ⟨b', hb', hblank⟩ := exists_trimRight (trimLeft t)
  refine ⟨t.takeWhile isBlank, b', ?_, fun c hc => List.all_eq_true.1 List.all_takeWhile c hc, hblank⟩
  rw [trim, ← hb', trimLeft, List.takeWhile_append_dropWhile]

theorem trim_infix (t : Text) : trim t <:+: t := by
  obtain ⟨b, b', ht, -⟩ := exists_trim t
  exact ⟨b, b', by rw [List.append_assoc]; exact ht.symm⟩

theorem occursIn_eq_false_iff {w t : Text} : occursIn w t = false ↔ ¬ w <:+: t := by
  rw [← Bool.not_eq_true, occursIn_iff]

theorem anyOccursIn_eq_false_iff {ws : List Text} {t : Text} : anyOccursIn ws t = false ↔ ∀ w ∈ ws, ¬ w <:+: t := by
  simp only [anyOccursIn, List.any_eq_false, occursIn_iff]

/-- A word behind a front that does not hold it, up to a character that the word does not hold. -/
theorem occursIn_append_cons (hd : d ∉ w) (hu : occursIn w u = false) (v : Text) : occursIn w (u ++ d :: v) = occursIn w v := by
  have hnot : ¬ w <:+: u := fun h => by simp [(occursIn_iff w u).2 h] at hu
  rw [Bool.eq_iff_iff, occursIn_iff, occursIn_iff, infix_append_cons_iff hd, or_iff_right hnot]

theorem anyOccursIn_append_cons {ws : List Text} (h : ∀ w ∈ ws, d ∉ w ∧ occursIn w u = false) (v : Text) :
    anyOccursIn ws (u ++ d :: v) = anyOccursIn ws v := by
  unfold anyOccursIn
  induction ws with
  | nil => rfl
  | cons w ws ih =>
    rw [List.forall_mem_cons] at h
    rw [List.any_cons, List.any_cons, ih h.2, occursIn_append_cons h.1.1 h.1.2]

/-! ### Parts put together -/

theorem mem_intersperse {α : Type} {sep x : α} {ls : List α} (h : x ∈ ls.intersperse sep) : x = sep ∨ x ∈ ls := by
  induction ls with
  | nil => cases h
  | cons l ls ih =>
    cases ls with
    | nil => exact Or.inr h
    | cons l' ls =>
      rcases List.mem_cons.1 h with rfl | h
      · exact Or.inr (List.mem_cons_self ..)
      · rcases List.mem_cons.1 h with rfl | h
        · exact Or.inl rfl
        · exact (ih h).imp_right (List.mem_cons_of_mem _)

theorem mem_intersperse_of_mem {α : Type} {sep x : α} {ls : List α} (h : x ∈ ls) : x ∈ ls.intersperse sep := by
  induction ls with
  | nil => cases h
  | cons l ls ih =>
    cases ls with
    | nil => exact h
    | cons l' ls =>
      rw [List.intersperse_cons_cons]
      rcases List.mem_cons.1 h with rfl | h
      · exact List.mem_cons_self ..
      · exact List.mem_cons_of_mem _ (List.mem_cons_of_mem _ (ih h))

/-! ### What stands in front -/

/-- What stands in front of a text stays there. -/
def KeepsFront (front : Text) (f : Text → Text) : Prop := ∀ t, ∃ t', f (front ++ t) = front ++ t'

theorem KeepsFront.comp {front : Text} {f g : Text → Text} (hf : KeepsFront front f) (hg : KeepsFront front g) :
    KeepsFront front (fun t => g (f t)) := by
  intro t
  obtain ⟨t', ht'⟩ := hf t
  obtain ⟨t'', ht''⟩ := hg t'
  exact ⟨t'', (congrArg g ht').trans ht''⟩

theorem keepsFront_foldl {α : Type} {front : Text} {apply : α → Text → Text} {rules : List α}
    (h : ∀ r ∈ rules, KeepsFront front (apply r)) : KeepsFront front (fun t => rules.foldl (fun t r => apply r t) t) := by
  induction rules with
  | nil => exact fun t => ⟨t, rfl⟩
  | cons r rules ih =>
    rw [List.forall_mem_cons] at h
    exact h.1.comp (ih h.2)

/-- What stands behind `front` keeps a property, and `front` stays there. -/
def KeepsBehind (front : Text) (P : Text → Prop) (f : Text → Text) : Prop :=
  ∀ t, P t → ∃ t', f (front ++ t) = front ++ t' ∧ P t'

theorem keepsBehind_foldl {α : Type} {front : Text} {P : Text → Prop} {apply : α → Text → Text} {rules : List α}
    (h : ∀ r ∈ rules, KeepsBehind front P (apply r)) :
    KeepsBehind front P (fun t => rules.foldl (fun t r => apply r t) t) := by
  induction rules with
  | nil => exact fun t ht => ⟨t, rfl, ht⟩
  | cons r rules ih =>
    rw [List.forall_mem_cons] at h
    intro t ht
    obtain ⟨t₁, heq, ht₁⟩ := h.1 t ht
    obtain ⟨t₂, heq', ht₂⟩ := ih h.2 t₁ ht₁
    refine ⟨t₂, ?_, ht₂⟩
    show rules.foldl (fun t r => apply r t) (apply r (front ++ t)) = front ++ t₂
    rw [heq]
    exact heq'

end LayeredFix.Text
