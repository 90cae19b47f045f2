import LayeredFix.Proofs.Entity.Rewriting

/-!
# Collapsing escaped ampersands

An ampersand with an escape behind it, such as `amp;`, and the rest of an entity behind that, is collapsed to the
ampersand and the rest of the entity. One round of this is a pass over the text (`collapseOnce_eq`). A round that
does not make the text shorter finds nothing to collapse anywhere (`settled_or_shorter`), so the rounds end in a
text without escaped entities (`collapse_settled`).
-/

namespace LayeredFix.Pass.Entity

/-! ### Rests of entities -/

theorem closes_append {ok : Char → Bool} {p : Text} (h : (p.dropWhile ok).head? = some ';') (t : Text) :
    ((p ++ t).dropWhile ok).head? = some ';' := by
  rw [List.dropWhile_append]
  cases hp : p.dropWhile ok with
  | nil => rw [hp] at h; cases h
  | cons c q => rwa [hp] at h

theorem closesAfter_append {ok : Char → Bool} {p : Text} (h : closesAfter ok p = true) (t : Text) :
    closesAfter ok (p ++ t) = true := by
  cases p with
  | nil => cases h
  | cons c p =>
    obtain ⟨hc, hp⟩ := Bool.and_eq_true_iff.1 h
    exact Bool.and_eq_true_iff.2 ⟨hc, beq_iff_eq.2 (closes_append (beq_iff_eq.1 hp) t)⟩

theorem beginsTail_number {t : Text} (h : t.head? ≠ some 'x') :
    beginsTail ('#' :: t) = closesAfter Text.isDigit t := by
  cases t with
  | nil => rfl
  | cons c t =>
    have hc : c ≠ 'x' := fun e => h (congrArg some e)
    simp [beginsTail, hc]

theorem beginsTail_name {c : Char} (hc : c ≠ '#') (t : Text) :
    beginsTail (c :: t) = (c.isAlpha && (t.dropWhile Char.isAlphanum).head? == some ';') := by
  simp [beginsTail, hc]

/-- What begins like the rest of an entity does so whatever follows. -/
theorem beginsTail_append {p : Text} (h : beginsTail p = true) (t : Text) : beginsTail (p ++ t) = true := by
  cases p with
  | nil => cases h
  | cons c p =>
    by_cases hc : c = '#'
    · subst hc
      cases p with
      | nil => cases h
      | cons d p =>
        by_cases hd : d = 'x'
        · subst hd
          exact closesAfter_append h t
        · have hx (q : Text) : (d :: q).head? ≠ some 'x' := fun e => hd (Option.some.inj e)
          rw [beginsTail_number (hx p)] at h
          rw [List.cons_append, List.cons_append, beginsTail_number (hx _)]
          exact closesAfter_append h t
    · rw [beginsTail_name hc, Bool.and_eq_true_iff] at h
      rw [List.cons_append, beginsTail_name hc, Bool.and_eq_true_iff]
      exact ⟨h.1, beq_iff_eq.2 (closes_append (beq_iff_eq.1 h.2) t)⟩

/-! ### One round -/

/-- What may stand behind an ampersand to escape it. -/
def escapes : List Text := ["amp;".toList, "#38;".toList, "#x26;".toList]

theorem ampersand_spellings : ampersand.spellings = escapes.map ('&' :: ·) := rfl

theorem ampersand_proper : ampersand.Proper := by decide

theorem escapes_beginTail : ∀ e ∈ escapes, beginsTail e = true := by decide

theorem escapes_length_pos : ∀ e ∈ escapes, 0 < e.length := by decide

theorem escapes_body {e : Text} (he : e ∈ escapes) : ∀ c ∈ e, isBody c = true := by
  have hall : ∀ e ∈ escapes, e.all isBody = true := by decide
  exact List.all_eq_true.1 (hall e he)

/-- The ampersand rule finds an escape just where one stands. -/
theorem spellingAt_ampersand {e : Text} (he : e ∈ escapes) (t : Text) :
    ampersand.spellingAt ('&' :: (e ++ t)) = some ('&' :: e) := by
  simp only [escapes, List.mem_cons, List.not_mem_nil, or_false] at he
  rcases he with rfl | rfl | rfl <;> rfl

theorem exists_of_spellingAt_ampersand {t w : Text} (h : ampersand.spellingAt ('&' :: t) = some w) :
    ∃ e ∈ escapes, w = '&' :: e ∧ ∃ rest, t = e ++ rest := by
  obtain ⟨hw, rest, ht⟩ := Rule.spellingAt_eq_some h
  rw [ampersand_spellings, List.mem_map] at hw
  obtain ⟨e, he, rfl⟩ := hw
  exact ⟨e, he, rfl, rest, (List.cons.inj ht).2.symm⟩

/-- What one round of collapsing looks for. -/
def collapser : Finder := ampersand.finder beginsTail

theorem collapser_proper : collapser.Proper := ampersand_proper.finder beginsTail

theorem collapseOnce_eq (t : Text) : collapseOnce t = rewrite collapser t :=
  ampersand.applyFrom_eq beginsTail 0 t []

theorem collapser_of_escape {e : Text} (he : e ∈ escapes) {t : Text} (ht : beginsTail t = true) :
    collapser ('&' :: (e ++ t)) = some ('&' :: e, ['&']) := by
  unfold collapser Rule.finder
  rw [spellingAt_ampersand he]
  dsimp only
  rw [if_pos (by simpa using ht)]
  rfl

theorem exists_of_collapser {t w m : Text} (h : collapser ('&' :: t) = some (w, m)) :
    m = ['&'] ∧ ∃ e ∈ escapes, w = '&' :: e ∧ ∃ rest, t = e ++ rest ∧ beginsTail rest = true := by
  unfold collapser Rule.finder at h
  split at h
  · cases h
  · rename_i w' hs
    obtain ⟨e, he, rfl, rest, rfl⟩ := exists_of_spellingAt_ampersand hs
    split at h
    · rename_i ht
      obtain ⟨rfl, rfl⟩ := Prod.mk.inj (Option.some.inj h)
      exact ⟨rfl, e, he, rfl, rest, rfl, by simpa using ht⟩
    · cases h

/-- A round leaves alone what stands in front of the first ampersand. -/
theorem collapseOnce_takeWhile {ok : Char → Bool} (hok : ok '&' = false) (t : Text) :
    (collapseOnce t).takeWhile ok = t.takeWhile ok := by
  rw [collapseOnce_eq]
  refine rewrite_takeWhile collapser_proper hok (fun t w m h => ?_) t
  obtain ⟨body, rest, rfl, -, rfl⟩ := collapser_proper _ _ _ h
  obtain ⟨rfl, -⟩ := exists_of_collapser h
  exact ⟨'&', [], rfl, hok⟩

theorem collapseOnce_append {u : Text} (hu : '&' ∉ u) (t : Text) :
    collapseOnce (u ++ t) = u ++ collapseOnce t := by
  rw [collapseOnce_eq, collapseOnce_eq]
  exact rewrite_append collapser_proper hu t

/-! ### The rounds -/

/-- No escape with the rest of an entity behind it follows an ampersand. -/
def Settled (t : Text) : Prop :=
  ∀ before e rest, e ∈ escapes → t = before ++ '&' :: (e ++ rest) → beginsTail rest = false

theorem Settled.of_append {u t : Text} (h : Settled (u ++ t)) : Settled t := by
  intro before e rest he ht
  exact h (u ++ before) e rest he (by rw [ht, List.append_assoc])

/-- A round makes no text longer. -/
theorem length_collapseOnce_le (t : Text) : (collapseOnce t).length ≤ t.length := by
  rw [collapseOnce_eq]
  induction t using collapser_proper.induction with
  | nil => simp
  | copy c t hx ih =>
    rw [rewrite_cons_of_none hx, List.length_cons, List.length_cons]
    omega
  | entity body rest m hx hbody ih =>
    obtain ⟨rfl, -⟩ := exists_of_collapser hx
    rw [rewrite_of_some hx, List.singleton_append, List.length_cons, List.length_cons, List.length_append]
    omega

/-- **A round makes a text shorter, unless there is nothing to collapse in it.** -/
theorem settled_or_shorter (t : Text) : Settled t ∨ (collapseOnce t).length < t.length := by
  rw [collapseOnce_eq]
  induction t using collapser_proper.induction with
  | nil => exact Or.inl fun before e rest _ ht => by simp at ht
  | copy c t hx ih =>
    rw [rewrite_cons_of_none hx, List.length_cons, List.length_cons, Nat.add_lt_add_iff_right]
    refine ih.imp_left fun hs before e rest he ht => ?_
    cases before with
    | nil =>
      obtain ⟨rfl, rfl⟩ := List.cons.inj ht
      cases hb : beginsTail rest with
      | false => rfl
      | true => rw [collapser_of_escape he hb] at hx; cases hx
    | cons d before => exact hs before e rest he (List.cons.inj ht).2
  | entity body rest m hx hbody ih =>
    obtain ⟨rfl, e, he, hw, -⟩ := exists_of_collapser hx
    have hlen := length_collapseOnce_le rest
    have hpos : 0 < body.length := (List.cons.inj hw).2 ▸ escapes_length_pos e he
    rw [collapseOnce_eq] at hlen
    rw [rewrite_of_some hx, List.singleton_append, List.length_cons, List.length_cons, List.length_append]
    exact Or.inr (by omega)

/-- **The rounds end in a text with nothing to collapse.** -/
theorem collapse_settled (t : Text) : Settled (collapse t) := by
  fun_induction collapse t with
  | case1 t next h ih => exact ih
  | case2 t next h => exact (settled_or_shorter t).resolve_right h

end LayeredFix.Pass.Entity
