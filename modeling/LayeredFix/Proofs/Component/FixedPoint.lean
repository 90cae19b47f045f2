import LayeredFix.Proofs.Component.Apart
import LayeredFix.Proofs.Component.Image
import LayeredFix.Proofs.Component.Import

/-!
# When the pass over component code is idempotent

Each of the three repairs leaves alone what it has written, the one for keys as long as no rendering of a list reaches
into the next one. The pass as a whole is idempotent if, besides, the repairs make no work for those before them
(`transform_idempotent_of_apart`). Otherwise it is not (`transform_not_idempotent`).
-/

namespace LayeredFix.Pass.Component

open Pattern

/-! ### Texts without lists -/

theorem KeyRule.head?_of_hit? {r : KeyRule} (hr : r ∈ keyRules) {behind t : Text} {h : Hit}
    (hh : r.pattern.hit? behind t = some h) : t.head? = some '.' := by
  obtain ⟨rest, ht⟩ := text_hit? hh
  obtain ⟨rest', hopen⟩ := (r.answer hr hh).opening
  rw [ht, ← hopen]
  rfl

theorem KeyRule.settled_of_flat {r : KeyRule} (hr : r ∈ keyRules) {t : Text} (h : Flat t) : r.Settled t := by
  intro u v hit ht hh
  obtain ⟨rest, hv⟩ := text_hit? hh
  have hopen : ".map(".toList <+: v := (r.answer hr hh).opening.trans ⟨rest, hv.symm⟩
  exact absurd (hopen.isInfix.trans ⟨u, [], by rw [ht, List.append_nil]⟩) h

/-- Where no list is rendered, no key is missing. -/
theorem addMissingKeys_of_flat {t : Text} (h : Flat t) : addMissingKeys t = t :=
  addMissingKeys_of_settled fun r hr => r.settled_of_flat hr h

theorem flat_giveAlt {behind t : Text} {h : Hit} (hh : imageTag.hit? behind t = some h) (ht : Flat t) :
    Flat (giveAlt h) := by
  obtain ⟨x, rest, cut, htag, htext, hx, -⟩ := tag_of_hit? hh
  have hin : h.text <:+: t := by
    obtain ⟨rest', hrest⟩ := text_hit? hh
    exact hrest ▸ (List.prefix_append _ _).isInfix
  have hattr : Flat (h.group 1) := by
    refine ht.of_part (List.IsInfix.trans ?_ hin)
    rw [htext, hx]
    exact ⟨"<img".toList, cut ++ ['>'], by simp only [List.append_assoc]⟩
  unfold giveAlt
  split
  · exact ht.of_part hin
  · have hend : " alt=\"\" />".toList = ' ' :: "alt=\"\" />".toList := by decide
    rw [hend, List.append_assoc]
    exact flat_append (by decide) (flat_append_cons (by decide) hattr (flat_of_no_dot (by decide)))

theorem flat_replaceFrom_giveAlt {behind t : Text} (h : Flat t) : Flat (imageTag.replaceFrom giveAlt behind t) := by
  fun_induction replaceFrom imageTag giveAlt behind t with
  | case1 => exact h
  | case2 behind c t hn ih =>
    have hmap : ".map(".toList = '.' :: "map(".toList := by decide
    intro hin
    rcases List.infix_cons_iff.1 hin with hpre | hin
    · rw [hmap] at hpre
      obtain ⟨rfl, z, hz⟩ := List.cons_prefix_cons.1 hpre
      obtain ⟨y, rfl, -⟩ := exists_of_replaceFrom_giveAlt (by decide) hz.symm
      exact h ⟨[], y, by rw [hmap]; rfl⟩
    · exact ih h.tail hin
  | case3 behind c t hit hh hempty ih => exact absurd (List.isEmpty_iff.1 hempty) (text_ne_nil_of_hit? hh)
  | case4 behind c t hit hh hne ih =>
    have hcut : c :: t = hit.text ++ t.drop (hit.text.length - 1) := text_hit?_cons hh (text_ne_nil_of_hit? hh)
    have hgive := flat_giveAlt hh h
    obtain ⟨x, -, hw, -⟩ := tag_giveAlt hh []
    rw [hw, ← List.append_assoc] at hgive ⊢
    rw [List.append_assoc _ ['>']]
    refine flat_append_cons (by decide) hgive.left (ih ?_)
    rw [hcut] at h
    exact h.right

/-! ### The whole pass -/

/-- Hooks are called and not imported. -/
def NeedsImport (t : Text) : Prop := addMissingImports t ≠ t

/-- What the later repairs leave in front is found by the first one. -/
theorem addMissingImports_eq_of_front {t : Text} {f : Text → Text}
    (hf : ∀ hooks : List String, (∀ hook ∈ hooks, hook ∈ knownHooks) → ∀ t, ∃ t',
      f (hookImport hooks ++ t) = hookImport hooks ++ t')
    (h : NeedsImport (f (addMissingImports t)) → NeedsImport t) :
    addMissingImports (f (addMissingImports t)) = f (addMissingImports t) := by
  rcases addMissingImports_cases t with ht | ⟨hooks, hhooks, ht⟩
  · exact Classical.not_not.1 fun hneeds => h hneeds ht
  · obtain ⟨t', hfront⟩ := hf hooks hhooks t
    rw [ht, hfront, addMissingImports_hookImport hhooks]

theorem addMissingKeys_front {hooks : List String} (hhooks : ∀ hook ∈ hooks, hook ∈ knownHooks) :
    Text.KeepsFront (hookImport hooks) addMissingKeys := by
  have hno : '.' ∉ hookImport hooks := notMem_hookImport hhooks (by decide) (by decide) (by decide)
  have hrules : Text.KeepsFront (hookImport hooks) fun t => keyRules.foldl (fun t r => r.apply t) t :=
    Text.keepsFront_foldl fun r hr =>
      keepsFront_replace (f := r.write) (skips_of_head (fun _ _ _ hh => r.head?_of_hit? hr hh) hno [])
  exact fun t => (addMissingKeys_eq _).symm ▸ hrules t

theorem addMissingAlt_front {hooks : List String} (hhooks : ∀ hook ∈ hooks, hook ∈ knownHooks) :
    Text.KeepsFront (hookImport hooks) addMissingAlt := by
  have hno : '<' ∉ hookImport hooks := notMem_hookImport hhooks (by decide) (by decide) (by decide)
  refine keepsFront_replace (skips_of_head (fun _ t _ hh => ?_) hno [])
  obtain ⟨x, rest, -, htag, -⟩ := tag_of_hit? hh
  rw [htag.shape]
  rfl

theorem flat_addMissingImports {t : Text} (h : Flat t) : Flat (addMissingImports t) := by
  rcases addMissingImports_cases t with ht | ⟨hooks, hhooks, ht⟩
  · rwa [ht]
  · rw [ht]
    exact flat_append (notMem_hookImport hhooks (by decide) (by decide) (by decide)) h

/-- **The pass over component code is idempotent**, provided that no list is rendered, or each list apart from the next
one and all images have their alternative texts; and that the pass does not turn a text that needs no import into one
that does. -/
theorem transform_idempotent_of_apart {t : Text}
    (hlists : Flat t ∨ (∀ s ∈ keyStages (addMissingImports t), Apart s) ∧
      addMissingAlt (addMissingKeys (addMissingImports t)) = addMissingKeys (addMissingImports t))
    (himports : NeedsImport (transform t) → NeedsImport t) :
    transform (transform t) = transform t := by
  have himports' : addMissingImports (transform t) = transform t := by
    refine addMissingImports_eq_of_front (f := fun t => addMissingAlt (addMissingKeys t)) ?_ himports
    intro hooks hhooks t
    obtain ⟨t', ht'⟩ := addMissingKeys_front hhooks t
    obtain ⟨t'', ht''⟩ := addMissingAlt_front hhooks t'
    exact ⟨t'', by rw [ht', ht'']⟩
  have hkeys : addMissingKeys (transform t) = transform t := by
    rcases hlists with hflat | ⟨hapart, himages⟩
    · have hflat' := flat_addMissingImports hflat
      unfold transform
      rw [addMissingKeys_of_flat hflat', addMissingAlt, replace_eq]
      exact addMissingKeys_of_flat (flat_replaceFrom_giveAlt hflat')
    · unfold transform
      rw [himages]
      exact addMissingKeys_idempotent_of_apart hapart
  calc transform (transform t)
      = addMissingAlt (addMissingKeys (addMissingImports (transform t))) := rfl
    _ = addMissingAlt (transform t) := by rw [himports', hkeys]
    _ = transform t := addMissingAlt_idempotent _

/-- Two lists next to each other, an image with its alternative text, and a hook that is not imported. -/
def listsApart : Text :=
  "useState(0);\nas.map(a => <li>a</li>)\nbs.map(b => <p/>)<img alt=\"\">".toList

theorem transform_idempotent_listsApart : transform (transform listsApart) = transform listsApart := by
  refine transform_idempotent_of_apart (Or.inr ⟨?_, ?_⟩) ?_
  · decide +kernel
  · decide +kernel
  · intro _
    unfold NeedsImport
    decide +kernel

/-- **The pass is not idempotent in general**: of two lists, one rendered inside the other, only the outer one gets its
key at first. -/
theorem transform_not_idempotent :
    transform (transform "xs.map(x => <p>{ys.map(y => <i>y</i>)}</p>)".toList) ≠
      transform "xs.map(x => <p>{ys.map(y => <i>y</i>)}</p>)".toList := by
  decide +kernel

end LayeredFix.Pass.Component
