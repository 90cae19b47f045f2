import LayeredFix.Proofs.Entity.Decoder

/-!
# Texts without entities

A text is free of entities when no spelling of the table stands in it (`EntityFree`). What the pass writes is free of
entities (`entityFree_transform`), and such a text the pass leaves alone (`EntityFree.transform_eq_self`). The first rule
looks for spellings with the rest of an entity behind them, so it finds nothing either, and these texts are the normal
forms of the pass (`transform_normalForm`).

The decoder writes an ampersand only where no entity follows, and the characters behind it stay those that were read
(`decode_takeWhile`). So no entity comes up that was not there.
-/

namespace LayeredFix.Pass.Entity

variable {t u : Text}

/-- No entity of the table stands in the text, in any of its spellings. -/
def EntityFree (t : Text) : Prop := ∀ r ∈ allRules, ∀ w ∈ r.spellings, ¬ w <:+: t

/-! ### What is found -/

theorem firstOf_eq_none_iff {rules : List Rule} :
    firstOf rules t = none ↔ ∀ r ∈ rules, ∀ w ∈ r.spellings, ¬ w <+: t := by
  simp [firstOf, Rule.spellingAt, List.findSome?_eq_none_iff, List.find?_eq_none, List.isPrefixOf_iff_prefix]

/-- In a text without entities nothing is found, wherever one looks. -/
theorem EntityFree.firstOf_eq_none (h : EntityFree t) {v : Text} (hv : v <:+ t) : firstOf allRules v = none :=
  firstOf_eq_none_iff.2 fun r hr w hw hbegins => h r hr w hw (hbegins.isInfix.trans hv.isInfix)

theorem entityFree_nil : EntityFree [] := by
  intro r hr w hw h
  have hhead := (allRules_proper r hr w hw).1
  rw [List.infix_nil.1 h] at hhead
  cases hhead

theorem EntityFree.cons (h : EntityFree t) {c : Char} (hc : firstOf allRules (c :: t) = none) : EntityFree (c :: t) := by
  intro r hr w hw hin
  rcases List.infix_cons_iff.1 hin with hbegins | hin
  · exact firstOf_eq_none_iff.1 hc r hr w hw hbegins
  · exact h r hr w hw hin

/-- A part without ampersands may be put in front. -/
theorem EntityFree.append (h : EntityFree t) (hu : '&' ∉ u) : EntityFree (u ++ t) := by
  induction u with
  | nil => exact h
  | cons c u ih =>
    rw [List.mem_cons, not_or] at hu
    exact (ih hu.2).cons ((firstOf_proper allRules_proper).hit_cons (Ne.symm hu.1) _)

/-! ### What the decoder writes -/

/-- Behind the escapes that are skipped stands no escape. -/
theorem skipEscapes_ne_escape {e rest : Text} (he : e ∈ escapes) : skipEscapes t ≠ e ++ rest := by
  induction hn : t.length using Nat.strong_induction_on generalizing t with
  | _ n ih =>
    subst hn
    rcases skipEscapes_cases t with ⟨e', he', rest', rfl⟩ | ⟨hnot, hskip⟩
    · have hpos := escapes_length_pos e' he'
      rw [skipEscapes_append he']
      exact ih rest'.length (by rw [List.length_append]; omega) rfl
    · rw [hskip]
      exact hnot e he rest

/-- The body characters with which a text begins are copied. -/
theorem decode_takeWhile (t : Text) : (decode t).takeWhile isBody = t.takeWhile isBody := by
  have hamp (t : Text) : ('&' :: t).takeWhile isBody = [] := List.takeWhile_cons_of_neg (by decide)
  induction t using decode.induct with
  | case1 => rw [decode_nil]
  | case2 t w m h ih =>
    obtain ⟨-, body, rest, rfl, -, hs⟩ := exists_of_firstOf_plain h
    obtain ⟨c, m', rfl, hc⟩ := firstOf_avoids plainRules_opaque _ _ _ h
    rw [hs] at h
    rw [decode_of_some hs h, hamp, List.cons_append, List.takeWhile_cons_of_neg (by simp [hc])]
  | case3 t h ih => rw [decode_of_none h, hamp, hamp]
  | case4 c t hc ih => rw [decode_cons hc, List.takeWhile_cons, List.takeWhile_cons, ih]

/-- **What the decoder writes is free of entities.** -/
theorem entityFree_decode (t : Text) : EntityFree (decode t) := by
  induction t using decode.induct with
  | case1 =>
    rw [decode_nil]
    exact entityFree_nil
  | case2 t w m h ih =>
    obtain ⟨-, body, rest, rfl, -, hs⟩ := exists_of_firstOf_plain h
    obtain ⟨r, hr, -, rfl⟩ := exists_of_firstOf h
    obtain ⟨hamp, -⟩ := plainRules_opaque r hr
    rw [hs] at h ih
    rw [decode_of_some hs h]
    exact EntityFree.append (by simpa using ih) hamp
  | case3 t h ih =>
    have hnone : ampersand.spellingAt ('&' :: skipEscapes t) = none := by
      refine Option.eq_none_iff_forall_ne_some.2 fun w hw => ?_
      obtain ⟨e, he, -, rest, hrest⟩ := exists_of_spellingAt_ampersand hw
      exact skipEscapes_ne_escape he hrest
    rw [decode_of_none h]
    refine ih.cons ?_
    rw [firstOf_congr allRules_proper (decode_takeWhile (skipEscapes t)), firstOf_allRules, h, Option.none_or,
      firstOf_cons_of_none hnone]
    rfl
  | case4 c t hc ih =>
    rw [decode_cons hc]
    exact ih.cons ((firstOf_proper allRules_proper).hit_cons hc _)

/-! ### The pass -/

/-- **What the pass writes is free of entities.** -/
theorem entityFree_transform (t : Text) : EntityFree (transform t) := by
  unfold transform
  split
  · rw [apply_foldl_collapse]
    exact entityFree_decode t
  · rename_i h
    simpa using entityFree_nil.append (ampersand_notMem h)

theorem EntityFree.collapse_eq_self (h : EntityFree t) : collapse t = t := by
  have honce : collapseOnce t = t := by
    rw [collapseOnce_eq]
    refine rewrite_eq_self fun v hv => ?_
    have hfirst := h.firstOf_eq_none hv
    rw [firstOf_eq_none_iff] at hfirst
    have hnone : ampersand.spellingAt v = none :=
      List.find?_eq_none.2 fun w hw hbegins =>
        hfirst ampersand (by simp [allRules]) w hw (List.isPrefixOf_iff_prefix.1 hbegins)
    rw [collapser, Rule.finder, hnone]
  rw [collapse, honce]
  exact dif_neg (Nat.lt_irrefl _)

/-- **A text without entities is left alone.** -/
theorem EntityFree.transform_eq_self (h : EntityFree t) : transform t = t := by
  unfold transform
  split
  · rw [h.collapse_eq_self, foldl_apply_eq_scan plainRules_proper ampersand_proper plainRules_opaque]
    exact rewrite_eq_self fun _ hv => h.firstOf_eq_none hv
  · rfl

/-! ### Normal forms -/

/-- The rules in the order in which the pass applies them, each with what it accepts behind a spelling. The first rule
collapses escaped ampersands, the last resolves those that are left. -/
def table : List (Rule × (Text → Bool)) := (ampersand, beginsTail) :: allRules.map fun r => (r, fun _ => true)

/-- A rule finds an entity somewhere in a text: a spelling with an accepted text behind it. -/
def Finds (r : Rule) (accept : Text → Bool) (t : Text) : Prop :=
  ∃ before w rest, w ∈ r.spellings ∧ t = before ++ (w ++ rest) ∧ accept rest = true

/-- No rule of the table finds an entity in the text. -/
def NormalForm (t : Text) : Prop := ∀ entry ∈ table, ¬ Finds entry.1 entry.2 t

/-- The normal forms are the texts without entities. -/
theorem normalForm_iff : NormalForm t ↔ EntityFree t := by
  constructor
  · intro h r hr w hw hin
    obtain ⟨before, rest, ht⟩ := hin
    have hentry : (r, fun _ => true) ∈ table := List.mem_cons_of_mem _ (List.mem_map_of_mem hr)
    exact h _ hentry ⟨before, w, rest, hw, by rw [← ht, List.append_assoc], rfl⟩
  · intro h entry hentry hfinds
    obtain ⟨before, w, rest, hw, ht, -⟩ := hfinds
    have hin : w <:+: t := ⟨before, rest, by rw [ht, List.append_assoc]⟩
    rcases List.mem_cons.1 hentry with rfl | hentry
    · exact h ampersand (by simp [allRules]) w hw hin
    · obtain ⟨r, hr, rfl⟩ := List.mem_map.1 hentry
      exact h r hr w hw hin

/-- **The pass reaches its normal form in one application**: no rule of the table finds anything in what the pass
writes, and the texts that the pass leaves alone are those in which no rule finds anything. -/
theorem transform_normalForm (t : Text) :
    NormalForm (transform t) ∧ (transform t = t ↔ NormalForm t) ∧ transform (transform t) = transform t := by
  have hfree : EntityFree (transform t) := entityFree_transform t
  refine ⟨normalForm_iff.2 hfree, ⟨fun hfixed => ?_, fun hnormal => ?_⟩, hfree.transform_eq_self⟩
  · rw [normalForm_iff, ← hfixed]
    exact hfree
  · exact (normalForm_iff.1 hnormal).transform_eq_self

end LayeredFix.Pass.Entity
