import LayeredFix.Proofs.Component.Keyed

/-!
# Lists that are rendered apart from each other

The rules for keys settle where no rendering of a list reaches into the next one (`Apart`). After a rule was applied, a
list is rendered either where the rule gave a key, or where the same list was rendered before and the rule did not
change it (`KeyRule.rendered_after`). So a rule that was applied has nothing left to do, and the ones applied later
make no work for it (`KeyRule.settled_apply`).

Renderings inside each other are different: there a rule passes over what is inside of its match.
-/

namespace LayeredFix.Pass.Component

open Pattern

/-! ### Lists that are rendered apart from each other -/

/-- A text up to where the next list is rendered. -/
def untilList : Text → Text
  | [] => []
  | c :: t => if ".map(".toList.isPrefixOf (c :: t) then [] else c :: untilList t

/-- A text up to where the next list after its first character is rendered. -/
def ownPart : Text → Text
  | [] => []
  | c :: t => c :: untilList t

/-- Each rule reads the rendering of a list in the same way whether or not another one follows: none reaches into the
next. -/
def Apart : Text → Prop
  | [] => True
  | c :: t => (∀ r ∈ keyRules, r.pattern.hit? [] (c :: t) = r.pattern.hit? [] (ownPart (c :: t))) ∧ Apart t

deriving instance DecidableEq for Hit

instance decidableApart : DecidablePred Apart
  | [] => isTrue trivial
  | _ :: t => @instDecidableAnd _ _ inferInstance (decidableApart t)

theorem Apart.right {u v : Text} (h : Apart (u ++ v)) : Apart v := by
  induction u with
  | nil => exact h
  | cons c u ih => exact ih h.2

theorem Apart.hit?_eq {u v : Text} (h : Apart (u ++ v)) {r : KeyRule} (hr : r ∈ keyRules) :
    r.pattern.hit? [] v = r.pattern.hit? [] (ownPart v) := by
  have hv := h.right
  cases v with
  | nil => rfl
  | cons c v => exact hv.1 r hr

theorem untilList_prefix (t : Text) : untilList t <+: t := by
  induction t with
  | nil => exact List.nil_prefix
  | cons c t ih =>
    rw [untilList]
    split
    · exact List.nil_prefix
    · exact List.cons_prefix_cons.2 ⟨rfl, ih⟩

theorem flat_untilList (t : Text) : Flat (untilList t) := by
  induction t with
  | nil => exact flat_of_no_dot (by simp [untilList])
  | cons c t ih =>
    rw [untilList]
    split
    · exact flat_of_no_dot (by simp)
    · rename_i hno
      intro hin
      rcases List.infix_cons_iff.1 hin with hpre | hin
      · refine hno (List.isPrefixOf_iff_prefix.2 (hpre.trans ?_))
        exact List.cons_prefix_cons.2 ⟨rfl, untilList_prefix t⟩
      · exact ih hin

/-- What a rule matches holds no other list. -/
theorem Apart.flat {u v : Text} (h : Apart (u ++ v)) {r : KeyRule} (hr : r ∈ keyRules) {hit : Hit}
    (hh : r.pattern.hit? [] v = some hit) : Flat hit.text.tail := by
  rw [h.hit?_eq hr] at hh
  obtain ⟨rest, ht⟩ := text_hit? hh
  cases v with
  | nil => 
    have hnil : hit.text = [] := (List.append_eq_nil_iff.1 ht.symm).1
    rw [hnil]
    exact flat_of_no_dot (by simp)
  | cons c v =>
    cases htext : hit.text with
    | nil => exact flat_of_no_dot (by simp)
    | cons d w =>
      rw [htext] at ht
      obtain ⟨-, hw⟩ := List.cons.inj ht
      exact (flat_untilList v).of_part (hw ▸ (List.prefix_append w rest).isInfix)

/-! ### The text after one rule -/

/-- A list is rendered in what was written only at its beginning. -/
theorem not_opening_inside {w u v rest : Text} (hflat : Flat w.tail)
    (hend : ∃ front last, w = front ++ [last] ∧ (last = ')' ∨ last = '>')) (hw : w = u ++ v) (hu : u ≠ [])
    (hv : v ≠ []) : ¬ ".map(".toList <+: v ++ rest := by
  intro hopen
  have htail : Flat v := by
    obtain ⟨c, u, rfl⟩ := List.exists_cons_of_ne_nil hu
    rw [hw] at hflat
    exact Flat.right (u := u) hflat
  rcases List.prefix_or_prefix_of_prefix hopen (List.prefix_append v rest) with hpre | hpre
  · exact htail hpre.isInfix
  · obtain ⟨front, last, hw', hlast⟩ := hend
    have hmem : last ∈ v := by
      obtain ⟨v, c, rfl⟩ := (List.eq_nil_or_concat v).resolve_left hv
      rw [List.concat_eq_append, ← List.append_assoc] at hw
      obtain ⟨-, hc⟩ := List.append_inj' (hw'.symm.trans hw) rfl
      simp [List.singleton_inj.1 hc]
    have hmap : last ∈ ".map(".toList := hpre.subset hmem
    rcases hlast with rfl | rfl
    · exact absurd hmap (by decide)
    · exact absurd hmap (by decide)

section
variable {r : KeyRule} (hr : r ∈ keyRules)
include hr

theorem KeyRule.hit?_behind (behind t : Text) : r.pattern.hit? behind t = r.pattern.hit? [] t :=
  hit?_of_isForward (r.isForward hr) behind t

theorem KeyRule.text_ne_nil {behind t : Text} {h : Hit} (hh : r.pattern.hit? behind t = some h) : h.text ≠ [] := by
  intro hnil
  have hopen := (r.answer hr hh).opening
  rw [hnil, List.prefix_nil] at hopen
  exact absurd hopen (by decide)

/-- What a rule writes begins like what it matched. -/
theorem KeyRule.opening_write {behind t : Text} {h : Hit} (hh : r.pattern.hit? behind t = some h) :
    ".map(".toList <+: r.write h := by
  have hanswer := r.answer hr hh
  rcases hanswer.fixed_or_keyed with heq | ⟨hopen, -⟩
  · rw [heq]
    exact hanswer.opening
  · exact hopen

/-- Whether a stretch without dots stands in front is the same before and after. -/
theorem KeyRule.prefix_replaceFrom_iff {z : Text} (hz : '.' ∉ z) (w behind t : Text) :
    z <+: w ++ r.pattern.replaceFrom r.write behind t ↔ z <+: w ++ t := by
  have hdot {d : Char} {z t : Text} (hd : '.' ≠ d) (ht : ".map(".toList <+: t) : ¬ d :: z <+: t := by
    obtain ⟨rest, rfl⟩ := ht
    exact fun h => hd (List.cons_prefix_cons.1 h).1.symm
  induction z generalizing w behind t with
  | nil => exact iff_of_true List.nil_prefix List.nil_prefix
  | cons d z ih =>
    rw [List.mem_cons, not_or] at hz
    cases w with
    | cons c w =>
      rw [List.cons_append, List.cons_append, List.cons_prefix_cons, List.cons_prefix_cons]
      exact and_congr_right fun _ => ih hz.2 w behind t
    | nil =>
      rw [List.nil_append, List.nil_append]
      fun_cases replaceFrom r.pattern r.write behind t with
      | case1 => rfl
      | case2 c t hn =>
        rw [List.cons_prefix_cons, List.cons_prefix_cons]
        exact and_congr_right fun _ => ih hz.2 [] (c :: behind) t
      | case3 c t h hh hempty => exact absurd (List.isEmpty_iff.1 hempty) (r.text_ne_nil hr hh)
      | case4 c t h hh hne =>
        obtain ⟨rest, ht⟩ := text_hit? hh
        have hold := hdot (z := z) hz.1 ((r.answer hr hh).opening.trans ⟨rest, ht.symm⟩)
        exact iff_of_false (hdot hz.1 ((r.opening_write hr hh).trans (List.prefix_append _ _))) hold

/-- Whether a list is rendered at the beginning is the same before and after. -/
theorem KeyRule.opening_cons_iff (c : Char) (w behind t : Text) :
    ".map(".toList <+: c :: (w ++ r.pattern.replaceFrom r.write behind t) ↔ ".map(".toList <+: c :: (w ++ t) := by
  have hmap : ".map(".toList = '.' :: "map(".toList := by decide
  rw [hmap, List.cons_prefix_cons, List.cons_prefix_cons]
  exact and_congr_right fun _ => r.prefix_replaceFrom_iff hr (by decide) w behind t

/-- Where the next list is rendered is the same before and after. -/
theorem KeyRule.untilList_replaceFrom (w behind t : Text) :
    untilList (w ++ r.pattern.replaceFrom r.write behind t) = untilList (w ++ t) := by
  have hstop {t : Text} (h : ".map(".toList <+: t) : untilList t = [] := by
    cases t with
    | nil => rfl
    | cons c t => exact if_pos (List.isPrefixOf_iff_prefix.2 h)
  have hcons {c : Char} {t t' : Text} (h : ".map(".toList <+: c :: t ↔ ".map(".toList <+: c :: t')
      (ht : untilList t = untilList t') : untilList (c :: t) = untilList (c :: t') := by
    simp only [← List.isPrefixOf_iff_prefix] at h
    rw [untilList, untilList, ht, Bool.eq_iff_iff.2 h]
  induction w with
  | nil =>
    rw [List.nil_append, List.nil_append]
    fun_induction replaceFrom r.pattern r.write behind t with
    | case1 => rfl
    | case2 behind c t hn ih => exact hcons (r.opening_cons_iff hr c [] (c :: behind) t) ih
    | case3 behind c t h hh hempty ih => exact absurd (List.isEmpty_iff.1 hempty) (r.text_ne_nil hr hh)
    | case4 behind c t h hh hne ih =>
      obtain ⟨rest, ht⟩ := text_hit? hh
      rw [hstop ((r.opening_write hr hh).trans (List.prefix_append _ _)),
        hstop ((r.answer hr hh).opening.trans ⟨rest, ht.symm⟩)]
  | cons c w ih => exact hcons (r.opening_cons_iff hr c w behind t) ih

/-- **Where a list is rendered after a rule was applied**: either the rule has given its elements a key, or there was
the same rendering before, and the rule does not change it. -/
theorem KeyRule.rendered_after {behind t : Text} (hapart : Apart t) {u v : Text}
    (ht : r.pattern.replaceFrom r.write behind t = u ++ v) (hopen : ".map(".toList <+: v) :
    (∃ w rest, Keyed w ∧ v = w ++ rest) ∨
      ∃ u' v', t = u' ++ v' ∧ ownPart v' = ownPart v ∧ ∀ h, r.pattern.hit? [] v' = some h → r.write h = h.text := by
  fun_induction replaceFrom r.pattern r.write behind t generalizing u with
  | case1 => 
    obtain ⟨-, rfl⟩ := List.append_eq_nil_iff.1 ht.symm
    exact absurd (List.prefix_nil.1 hopen) (by decide)
  | case2 behind c t hn ih =>
    cases u with
    | nil =>
      refine Or.inr ⟨[], c :: t, rfl, ?_, fun h hh => ?_⟩
      · rw [← show _ = v from ht, ownPart, ownPart]
        exact congrArg (c :: ·) (r.untilList_replaceFrom hr [] (c :: behind) t).symm
      · rw [← r.hit?_behind hr behind, hn] at hh
        cases hh
    | cons d u =>
      obtain ⟨rfl, hrest⟩ := List.cons.inj ht
      rcases ih hapart.2 hrest with hkeyed | ⟨u', v', rfl, hown, hfixed⟩
      · exact Or.inl hkeyed
      · exact Or.inr ⟨c :: u', v', rfl, hown, hfixed⟩
  | case3 behind c t h hh hempty ih => exact absurd (List.isEmpty_iff.1 hempty) (r.text_ne_nil hr hh)
  | case4 behind c t h hh hne ih =>
    have hcut : c :: t = h.text ++ t.drop (h.text.length - 1) := text_hit?_cons hh (r.text_ne_nil hr hh)
    have hh' := hh
    rw [r.hit?_behind hr] at hh'
    have hflat : Flat h.text.tail := hapart.flat (u := []) hr hh'
    have hanswer := r.answer hr hh
    have hfixed_or_keyed : r.write h = h.text ∨ Keyed (r.write h) :=
      hanswer.fixed_or_keyed.imp_right fun hk => hk.2 hflat
    have hapart' : Apart (t.drop (h.text.length - 1)) := by
      rw [hcut] at hapart
      exact hapart.right
    rcases List.append_eq_append_iff.1 ht with ⟨u', rfl, hrest⟩ | ⟨v', hw, rfl⟩
    · rcases ih hapart' hrest with hkeyed | ⟨u'', v', heq, hown, hfixed⟩
      · exact Or.inl hkeyed
      · exact Or.inr ⟨h.text ++ u'', v', by rw [hcut, heq, List.append_assoc], hown, hfixed⟩
    · by_cases hvnil : v' = []
      · -- At the end of what was written the rest begins.
        subst hvnil
        rcases ih hapart' (u := []) rfl with hkeyed | ⟨u'', v', heq, hown, hfixed⟩
        · exact Or.inl hkeyed
        · exact Or.inr ⟨h.text ++ u'', v', by rw [hcut, heq, List.append_assoc], hown, hfixed⟩
      · have hflatWrite : Flat (r.write h).tail ∧
            ∃ front last, r.write h = front ++ [last] ∧ (last = ')' ∨ last = '>') := by
          rcases hfixed_or_keyed with heq | hk
          · rw [heq]
            exact ⟨hflat, hanswer.ending⟩
          · exact ⟨hk.flat, hk.ending⟩
        by_cases hunil : u = []
        · subst hunil
          rw [List.nil_append] at hw
          subst hw
          rcases hfixed_or_keyed with heq | hk
          · refine Or.inr ⟨[], c :: t, rfl, ?_, fun h' hh'' => ?_⟩
            · obtain ⟨d, w, hdw⟩ := List.exists_cons_of_ne_nil (r.text_ne_nil hr hh)
              rw [heq, hcut, hdw]
              exact congrArg (d :: ·) (r.untilList_replaceFrom hr w _ _).symm
            · obtain rfl := Option.some.inj (hh'.symm.trans hh'')
              exact heq
          · exact Or.inl ⟨_, _, hk, rfl⟩
        · exact absurd hopen (not_opening_inside hflatWrite.1 hflatWrite.2 hw hunil hvnil)

end

/-! ### All rules -/

/-- A rule changes none of its matches in the text. -/
def KeyRule.Settled (r : KeyRule) (t : Text) : Prop :=
  ∀ u v h, t = u ++ v → r.pattern.hit? [] v = some h → r.write h = h.text

/-- **After a rule was applied it is settled**, and the others stay so. -/
theorem KeyRule.settled_apply {r r' : KeyRule} (hr : r ∈ keyRules) (hr' : r' ∈ keyRules) {t : Text} (ht : Apart t)
    (ht' : Apart (r'.apply t)) (h : r = r' ∨ r.Settled t) : r.Settled (r'.apply t) := by
  intro u v hit huv hh
  have hown := hh
  rw [huv] at ht'
  rw [ht'.hit?_eq hr] at hown
  rw [KeyRule.apply, replace_eq] at huv
  obtain ⟨rest, hrest⟩ := text_hit? hh
  have hopen : ".map(".toList <+: v := (r.answer hr hh).opening.trans ⟨rest, hrest.symm⟩
  rcases r'.rendered_after hr' ht huv hopen with ⟨w, rest, hk, rfl⟩ | ⟨u', v', rfl, hsame, hfixed⟩
  · exact hk.fixed hr hh
  · rw [← hsame, ← ht.hit?_eq hr] at hown
    rcases h with rfl | h
    · exact hfixed hit hown
    · exact h u' v' hit rfl hown

/-- The texts on the way, from the given one to the one in which all elements have their keys. -/
def keyStages (t : Text) : List Text := keyRules.scanl (fun t r => r.apply t) t

theorem settled_foldl {r : KeyRule} (hr : r ∈ keyRules) {rules : List KeyRule} (hrules : ∀ r' ∈ rules, r' ∈ keyRules)
    {t : Text} (hapart : ∀ s ∈ rules.scanl (fun t r => r.apply t) t, Apart s) (h : r ∈ rules ∨ r.Settled t) :
    r.Settled (rules.foldl (fun t r => r.apply t) t) := by
  induction rules generalizing t with
  | nil => exact h.resolve_left (List.not_mem_nil)
  | cons r' rules ih =>
    rw [List.forall_mem_cons] at hrules
    rw [List.scanl_cons, List.forall_mem_cons] at hapart
    have hnext : Apart (r'.apply t) := hapart.2 _ (by cases rules <;> simp)
    refine ih hrules.2 hapart.2 ?_
    rcases h with h | h
    · rcases List.mem_cons.1 h with rfl | h
      · exact Or.inr (KeyRule.settled_apply hr hr hapart.1 hnext (Or.inl rfl))
      · exact Or.inl h
    · exact Or.inr (KeyRule.settled_apply hr hrules.1 hapart.1 hnext (Or.inr h))

theorem KeyRule.Settled.apply_eq {r : KeyRule} (hr : r ∈ keyRules) {t : Text} (h : r.Settled t) : r.apply t = t := by
  unfold KeyRule.apply
  rw [replace_eq]
  refine replaceFrom_of_fixed fun u v hit ht hh => ?_
  rw [r.hit?_behind hr] at hh
  exact h u v hit ht hh

/-- A text in which all rules are settled is left alone. -/
theorem addMissingKeys_of_settled {t : Text} (h : ∀ r ∈ keyRules, r.Settled t) : addMissingKeys t = t := by
  have hfold (rules : List KeyRule) (hrules : ∀ r ∈ rules, r ∈ keyRules) :
      rules.foldl (fun t r => r.apply t) t = t := by
    induction rules with
    | nil => rfl
    | cons r rules ih =>
      rw [List.forall_mem_cons] at hrules
      rw [List.foldl_cons, (h r hrules.1).apply_eq hrules.1]
      exact ih hrules.2
  exact hfold keyRules fun _ h => h

/-- **The pass over lists is idempotent** where no rendering of a list reaches into the next one, at any stage. -/
theorem addMissingKeys_idempotent_of_apart {t : Text} (h : ∀ s ∈ keyStages t, Apart s) :
    addMissingKeys (addMissingKeys t) = addMissingKeys t :=
  addMissingKeys_of_settled fun _ hr => settled_foldl hr (fun _ h => h) h (Or.inl hr)

end LayeredFix.Pass.Component
