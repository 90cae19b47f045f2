import LayeredFix.Proofs.Entity.Collapse

/-!
# The rounds of collapsing

Collapsing goes over the text again and again, until a round changes nothing (`Rounds`). A round takes out escapes, each of
which stands right behind an ampersand and has the rest of an entity behind it (`unescaped_collapseOnce`). What several
rounds take out could have been taken out at once (`Unescaped.trans`). An escape has at least four characters, so the
rounds end (`exists_rounds`), and the length of the text bounds how many there are (`Rounds.length_le`).

Where the rounds end, no ampersand has an escape and the rest of an entity behind it. Only one text without such an
ampersand can be reached by taking out escapes (`Unescaped.unique`), so it does not matter how the rounds pick them.
-/

namespace LayeredFix.Pass.Entity

variable {n m : Nat} {a e t u v w : Text}

/-! ### The rest of an entity -/

/-- What follows the ampersand of an entity: a number behind `#`, a hexadecimal number behind `#x`, or a name, and then a
semicolon. -/
inductive IsTail : Text → Prop where
  /-- A number. -/
  | number {w : Text} (hne : w ≠ []) (hw : ∀ c ∈ w, Text.isDigit c = true) : IsTail ('#' :: (w ++ [';']))
  /-- A hexadecimal number. -/
  | hexadecimal {w : Text} (hne : w ≠ []) (hw : ∀ c ∈ w, Text.isHexDigit c = true) : IsTail ('#' :: 'x' :: (w ++ [';']))
  /-- A name. -/
  | name {c : Char} {w : Text} (hc : c.isAlpha = true) (hw : ∀ c ∈ w, c.isAlphanum = true) : IsTail (c :: (w ++ [';']))

theorem head?_dropWhile_eq_iff {ok : Char → Bool} {d : Char} (hd : ok d = false) :
    (t.dropWhile ok).head? = some d ↔ ∃ w, (∀ c ∈ w, ok c = true) ∧ w ++ [d] <+: t := by
  constructor
  · intro h
    obtain ⟨rest, hrest⟩ := List.head?_eq_some_iff.1 h
    refine ⟨t.takeWhile ok, List.all_eq_true.1 List.all_takeWhile, rest, ?_⟩
    rw [List.append_assoc, List.singleton_append, ← hrest, List.takeWhile_append_dropWhile]
  · rintro ⟨w, hw, rest, rfl⟩
    rw [List.append_assoc, List.dropWhile_append_of_pos hw, List.singleton_append, List.dropWhile_cons_of_neg (by simp [hd])]
    rfl

theorem closesAfter_iff {ok : Char → Bool} (hok : ok ';' = false) :
    closesAfter ok t = true ↔ ∃ w, w ≠ [] ∧ (∀ c ∈ w, ok c = true) ∧ w ++ [';'] <+: t := by
  cases t with
  | nil => simp [closesAfter]
  | cons c t =>
    rw [closesAfter, Bool.and_eq_true_iff, beq_iff_eq, head?_dropWhile_eq_iff hok]
    constructor
    · rintro ⟨hc, w, hw, ht⟩
      exact ⟨c :: w, List.cons_ne_nil c w, List.forall_mem_cons.2 ⟨hc, hw⟩, List.cons_prefix_cons.2 ⟨rfl, ht⟩⟩
    · rintro ⟨w, hne, hw, ht⟩
      obtain ⟨d, w, rfl⟩ := List.exists_cons_of_ne_nil hne
      rw [List.cons_append, List.cons_prefix_cons] at ht
      obtain ⟨rfl, ht⟩ := ht
      rw [List.forall_mem_cons] at hw
      exact ⟨hw.1, w, hw.2, ht⟩

theorem exists_isTail (h : beginsTail t = true) : ∃ w, IsTail w ∧ w <+: t := by
  rcases t with _ | ⟨c, t⟩
  · cases h
  · by_cases hc : c = '#'
    · subst hc
      by_cases hx : t.head? = some 'x'
      · obtain ⟨t, rfl⟩ := List.head?_eq_some_iff.1 hx
        obtain ⟨w, hne, hw, ht⟩ := (closesAfter_iff (by decide)).1 h
        exact ⟨_, .hexadecimal hne hw, List.cons_prefix_cons.2 ⟨rfl, List.cons_prefix_cons.2 ⟨rfl, ht⟩⟩⟩
      · rw [beginsTail_number hx, closesAfter_iff (by decide)] at h
        obtain ⟨w, hne, hw, ht⟩ := h
        exact ⟨_, .number hne hw, List.cons_prefix_cons.2 ⟨rfl, ht⟩⟩
    · rw [beginsTail_name hc, Bool.and_eq_true_iff, beq_iff_eq, head?_dropWhile_eq_iff (by decide)] at h
      obtain ⟨hletter, w, hw, ht⟩ := h
      exact ⟨_, .name hletter hw, List.cons_prefix_cons.2 ⟨rfl, ht⟩⟩

theorem IsTail.begins (hw : IsTail w) : beginsTail w = true := by
  cases hw with
  | @number w hne hw =>
    obtain ⟨d, w, rfl⟩ := List.exists_cons_of_ne_nil hne
    -- No digit is the sign of a hexadecimal number.
    have hd : (d :: w ++ [';']).head? ≠ some 'x' := by
      rintro ⟨⟩
      exact absurd (hw 'x' List.mem_cons_self) (by decide)
    rw [beginsTail_number hd, closesAfter_iff (by decide)]
    exact ⟨_, hne, hw, List.prefix_rfl⟩
  | hexadecimal hne hw => exact (closesAfter_iff (by decide)).2 ⟨_, hne, hw, List.prefix_rfl⟩
  | @name c w hc hw =>
    have hne : c ≠ '#' := by
      rintro rfl
      cases hc
    rw [beginsTail_name hne, hc, Bool.true_and, beq_iff_eq, head?_dropWhile_eq_iff (by decide)]
    exact ⟨_, hw, List.prefix_rfl⟩

/-- What is looked for behind an escape is the rest of an entity. -/
theorem beginsTail_iff : beginsTail t = true ↔ ∃ w, IsTail w ∧ w <+: t := by
  constructor
  · exact exists_isTail
  · rintro ⟨w, hw, rest, rfl⟩
    exact beginsTail_append hw.begins rest

theorem IsTail.ampersand_notMem (hw : IsTail w) : '&' ∉ w := by
  have hno {ok : Char → Bool} {w : Text} (hok : ok '&' = false) (hw : ∀ c ∈ w, ok c = true) : '&' ∉ w ++ [';'] := by
    intro hmem
    rcases List.mem_append.1 hmem with hmem | hmem
    · exact Bool.false_ne_true (hok.symm.trans (hw _ hmem))
    · exact absurd hmem (by decide)
  cases hw with
  | number _ hw => exact List.not_mem_cons_of_ne_of_not_mem (by decide) (hno (by decide) hw)
  | hexadecimal _ hw =>
    exact List.not_mem_cons_of_ne_of_not_mem (by decide)
      (List.not_mem_cons_of_ne_of_not_mem (by decide) (hno (by decide) hw))
  | name hc hw =>
    refine List.not_mem_cons_of_ne_of_not_mem ?_ (hno (by decide) hw)
    rintro rfl
    cases hc

/-- Nothing is left to collapse just if no ampersand has an escape and the rest of an entity behind it. -/
theorem settled_iff : Settled t ↔ ∀ e ∈ escapes, ∀ w, IsTail w → ¬ '&' :: (e ++ w) <:+: t := by
  constructor
  · rintro h e he w hw ⟨before, rest, rfl⟩
    have hno : beginsTail (w ++ rest) = false := h before e (w ++ rest) he (by simp)
    rw [beginsTail_iff.2 ⟨w, hw, List.prefix_append w rest⟩] at hno
    cases hno
  · rintro h before e rest he rfl
    refine Bool.eq_false_iff.2 fun htail => ?_
    obtain ⟨w, hw, rest, rfl⟩ := beginsTail_iff.1 htail
    exact h e he w hw ⟨before, rest, by simp⟩

/-! ### Escapes that are taken out -/

theorem length_lt_escape (he : e ∈ escapes) (t : Text) : ('&' :: t).length < ('&' :: (e ++ t)).length := by
  have hpos := escapes_length_pos e he
  rw [List.length_cons, List.length_cons, List.length_append]
  omega

/-- No escape begins with another one. -/
theorem escape_unique {e' : Text} (he : e ∈ escapes) (he' : e' ∈ escapes) (h : e ++ t = e' ++ u) : e = e' ∧ t = u := by
  have hfound := spellingAt_ampersand he t
  rw [h, spellingAt_ampersand he' u] at hfound
  obtain rfl := (List.cons.inj (Option.some.inj hfound)).2
  exact ⟨rfl, List.append_cancel_left h⟩

/-- A text, and the text with some escapes taken out. -/
inductive Unescaped : Text → Text → Prop where
  /-- The end. -/
  | nil : Unescaped [] []
  /-- A character stays. -/
  | keep (c : Char) {t u : Text} (h : Unescaped t u) : Unescaped (c :: t) (c :: u)
  /-- The escape behind an ampersand is taken out if the rest of an entity is next. What is behind it comes up to the
  ampersand, and may be taken out as well. -/
  | escape {e w t u : Text} (he : e ∈ escapes) (hw : IsTail w) (ht : w <+: t) (h : Unescaped ('&' :: t) ('&' :: u)) :
      Unescaped ('&' :: (e ++ t)) ('&' :: u)

namespace Unescaped

theorem refl (t : Text) : Unescaped t t := by
  induction t with
  | nil => exact .nil
  | cons c t ih => exact .keep c ih

/-- The first character stays. -/
theorem head {c : Char} (h : Unescaped (c :: t) v) : ∃ u, v = c :: u := by
  cases h with
  | keep _ _ => exact ⟨_, rfl⟩
  | escape _ _ _ _ => exact ⟨_, rfl⟩

/-- What stands in front of the first ampersand stays. -/
theorem prefix_iff (ha : '&' ∉ a) (h : Unescaped t u) : a <+: t ↔ a <+: u := by
  induction a generalizing t u with
  | nil => exact iff_of_true List.nil_prefix List.nil_prefix
  | cons c a ih =>
    rw [List.mem_cons, not_or] at ha
    cases h with
    | nil => rfl
    | keep d h => rw [List.cons_prefix_cons, List.cons_prefix_cons, ih ha.2 h]
    | escape _ _ _ _ =>
      have hno (s : Text) : ¬ c :: a <+: '&' :: s := fun hs => ha.1 (List.cons_prefix_cons.1 hs).1.symm
      exact iff_of_false (hno _) (hno _)

theorem of_append (ha : '&' ∉ a) (h : Unescaped (a ++ t) (a ++ u)) : Unescaped t u := by
  induction a with
  | nil => exact h
  | cons c a ih =>
    rw [List.mem_cons, not_or] at ha
    generalize hs : c :: a ++ t = s, hs' : c :: a ++ u = s' at h
    cases h with
    | nil => cases hs
    | keep _ h =>
      obtain ⟨rfl, rfl⟩ := List.cons.inj hs
      obtain ⟨-, rfl⟩ := List.cons.inj hs'
      exact ih ha.2 h
    | escape _ _ _ _ => exact absurd (List.cons.inj hs).1.symm ha.1

/-- **What is taken out in two steps can be taken out in one.** -/
theorem trans (h : Unescaped t u) (h' : Unescaped u v) : Unescaped t v := by
  induction hn : t.length using Nat.strong_induction_on generalizing t u v with
  | _ n ih =>
    subst hn
    cases h with
    | nil => exact h'
    | @keep c t u h =>
      generalize hs : c :: u = s at h'
      cases h' with
      | nil => cases hs
      | keep _ h' =>
        obtain ⟨rfl, rfl⟩ := List.cons.inj hs
        exact .keep c (ih t.length (Nat.lt_succ_self _) h h' rfl)
      | @escape e w s v he hw hs' h' =>
        -- The escape and the rest of an entity behind it hold no ampersand, so they stand in the first text as well.
        obtain ⟨rfl, rfl⟩ := List.cons.inj hs
        have hbody := ampersand_notMem_body (escapes_body he)
        obtain ⟨t, rfl⟩ := (h.prefix_iff hbody).2 (List.prefix_append e s)
        have hts : Unescaped t s := h.of_append hbody
        have hwt : w <+: t := (hts.prefix_iff hw.ampersand_notMem).2 hs'
        exact .escape he hw hwt (ih _ (length_lt_escape he t) (hts.keep '&') h' rfl)
    | @escape e w t u he hw ht h =>
      obtain ⟨v, rfl⟩ := h'.head
      exact .escape he hw ht (ih _ (length_lt_escape he t) h h' rfl)

/-- A text from which something is taken out loses at least four characters. -/
theorem shorter (h : Unescaped t u) : u = t ∨ u.length + 4 ≤ t.length := by
  have hescape : ∀ e ∈ escapes, 4 ≤ e.length := by decide
  induction h with
  | nil => exact Or.inl rfl
  | keep c _ ih =>
    rw [List.length_cons, List.length_cons]
    exact ih.imp (congrArg (c :: ·)) (by omega)
  | @escape e w t u he hw ht h ih =>
    have hlen := hescape e he
    rw [List.length_cons, List.length_cons, List.length_append]
    rcases ih with heq | hlt
    · obtain rfl := (List.cons.inj heq).2
      exact Or.inr (by omega)
    · rw [List.length_cons, List.length_cons] at hlt
      exact Or.inr (by omega)

/-- An escape with the rest of an entity behind it that stays is left to collapse. -/
theorem not_settled (he : e ∈ escapes) (hw : IsTail w) (ht : w <+: t) (h : Unescaped (e ++ t) u) :
    ¬ Settled ('&' :: u) := by
  have hbody := ampersand_notMem_body (escapes_body he)
  obtain ⟨u, rfl⟩ := (h.prefix_iff hbody).1 (List.prefix_append e t)
  obtain ⟨rest, rfl⟩ := ((h.of_append hbody).prefix_iff hw.ampersand_notMem).1 ht
  exact fun hsettled => settled_iff.1 hsettled e he w hw ⟨[], rest, by simp⟩

/-- **Only one text with nothing left to collapse can be reached.** -/
theorem unique (h : Unescaped t u) (h' : Unescaped t v) (hu : Settled u) (hv : Settled v) : u = v := by
  induction h generalizing v with
  | nil =>
    cases h'
    rfl
  | @keep c t u h ih =>
    generalize hs : c :: t = s at h'
    cases h' with
    | nil => cases hs
    | @keep _ t v h' =>
      obtain ⟨rfl, rfl⟩ := List.cons.inj hs
      rw [ih h' (Settled.of_append (u := [c]) hu) (Settled.of_append (u := [c]) hv)]
    | escape he hw ht h' =>
      obtain ⟨rfl, rfl⟩ := List.cons.inj hs
      exact absurd hu (h.not_settled he hw ht)
  | @escape e w t u he hw ht h ih =>
    generalize hs : '&' :: (e ++ t) = s at h'
    cases h' with
    | nil => cases hs
    | keep _ h' =>
      obtain ⟨rfl, rfl⟩ := List.cons.inj hs
      exact absurd hv (h'.not_settled he hw ht)
    | @escape e' w' t' v he' hw' ht' h' =>
      obtain ⟨rfl, rfl⟩ : e = e' ∧ t = t' := escape_unique he he' (List.cons.inj hs).2
      exact ih h' hu hv

end Unescaped

/-! ### Rounds -/

/-- **A round takes out escapes.** -/
theorem unescaped_collapseOnce (t : Text) : Unescaped t (collapseOnce t) := by
  rw [collapseOnce_eq]
  induction t using collapser_proper.induction with
  | nil => simpa using Unescaped.nil
  | copy c t hx ih =>
    rw [rewrite_cons_of_none hx]
    exact .keep c ih
  | entity body rest m hx hbody ih =>
    obtain ⟨rfl, e, he, hbodye, rest', hrest, htail⟩ := exists_of_collapser hx
    obtain rfl : body = e := (List.cons.inj hbodye).2
    obtain rfl : rest = rest' := List.append_cancel_left hrest
    obtain ⟨w, hw, hwrest⟩ := beginsTail_iff.1 htail
    rw [rewrite_of_some hx]
    exact .escape he hw hwrest (.keep '&' ih)

/-- **A round that changes the text makes it shorter**, by at least the length of the shortest escape. -/
theorem length_collapseOnce (h : collapseOnce t ≠ t) : (collapseOnce t).length + 4 ≤ t.length :=
  (unescaped_collapseOnce t).shorter.resolve_left h

/-- The text is gone over again and again, until a round changes nothing. The number counts the rounds that change the
text. -/
inductive Rounds : Nat → Text → Text → Prop where
  /-- A round changes nothing. -/
  | done {t : Text} (h : collapseOnce t = t) : Rounds 0 t t
  /-- A round changes the text, and there are more rounds. -/
  | again {n : Nat} {t u : Text} (h : collapseOnce t ≠ t) (hu : Rounds n (collapseOnce t) u) : Rounds (n + 1) t u

namespace Rounds

/-- The rounds go one way only. -/
theorem unique (h : Rounds n t u) (h' : Rounds m t v) : m = n ∧ v = u := by
  induction h generalizing m with
  | done hdone =>
    cases h' with
    | done _ => exact ⟨rfl, rfl⟩
    | again hchange _ => exact absurd hdone hchange
  | again hchange _ ih =>
    cases h' with
    | done hdone => exact absurd hdone hchange
    | again _ h' =>
      obtain ⟨rfl, rfl⟩ := ih h'
      exact ⟨rfl, rfl⟩

/-- What one round takes out, several take out. -/
theorem unescaped (h : Rounds n t u) : Unescaped t u := by
  induction h with
  | done _ => exact .refl _
  | again _ _ ih => exact (unescaped_collapseOnce _).trans ih

/-- Each round that changes the text has its share of the characters that are taken out. -/
theorem length_le (h : Rounds n t u) : 4 * n + u.length ≤ t.length := by
  induction h with
  | done _ => omega
  | again hchange _ ih =>
    have hshorter := length_collapseOnce hchange
    omega

end Rounds

/-- **The rounds end.** -/
theorem exists_rounds (t : Text) : ∃ n, Rounds n t (collapse t) := by
  fun_induction collapse t with
  | case1 t next hshorter ih =>
    obtain ⟨n, hn⟩ := ih
    have hchange : collapseOnce t ≠ t := fun hsame => Nat.ne_of_lt hshorter (congrArg List.length hsame)
    exact ⟨n + 1, .again hchange hn⟩
  | case2 t next hshorter =>
    have hsame : collapseOnce t = t := (unescaped_collapseOnce t).shorter.resolve_right fun hlen =>
      hshorter (Nat.lt_of_lt_of_le (Nat.lt_add_of_pos_right (by decide)) hlen)
    exact ⟨0, .done hsame⟩

/-- **The rounds end in the normal form of the text.** They end after a number of rounds that the length of the text bounds,
and a round that changes the text makes it shorter. The text in which they end is the only one that the text becomes when
escapes are taken out of it, each from behind its ampersand and from in front of the rest of an entity, and in which no
ampersand has an escape and the rest of an entity behind it. -/
theorem collapse_ends (t : Text) :
    (∃ n, 4 * n + (collapse t).length ≤ t.length ∧ ∀ m u, Rounds m t u ↔ m = n ∧ u = collapse t) ∧
      (∀ u, collapseOnce u ≠ u → (collapseOnce u).length < u.length) ∧
      ∀ u, u = collapse t ↔ Unescaped t u ∧ ∀ e ∈ escapes, ∀ w, IsTail w → ¬ '&' :: (e ++ w) <:+: u := by
  obtain ⟨n, hn⟩ := exists_rounds t
  refine ⟨⟨n, hn.length_le, fun m u => ⟨fun h => hn.unique h, ?_⟩⟩, fun u hchange => ?_, fun u => ?_⟩
  · rintro ⟨rfl, rfl⟩
    exact hn
  · have hshorter := length_collapseOnce hchange
    omega
  · rw [← settled_iff]
    constructor
    · rintro rfl
      exact ⟨hn.unescaped, collapse_settled t⟩
    · rintro ⟨hu, hsettled⟩
      exact hu.unique hn.unescaped hsettled (collapse_settled t)

end LayeredFix.Pass.Entity
