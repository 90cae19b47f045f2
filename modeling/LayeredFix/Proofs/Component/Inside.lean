import LayeredFix.Proofs.Component.Image
import LayeredFix.Proofs.Component.Import
import LayeredFix.Proofs.Component.Rewriting
import LayeredFix.Proofs.Json.Inside

/-!
# Component code and JSON texts

An import and an alternative text show by their marks. A key may have none, but the rendering of a list stands inside of
a string, by its brackets, and so does the key (`Opens.mild`); only an index of the callback is written twice, with all
its marks. So the pass over component code is tame (`tame_transform`).
-/

namespace LayeredFix.Pass.Component

open Pattern Json

/-- The rendering of a list stands inside of a string. -/
theorem outline_map {s : Spot} {t : Text} {r : Spot × Text} (h : outline s (".map(".toList ++ t) = some r) :
    s = .inside ∧ outline .inside t = some r := by
  cases s with
  | outside =>
    obtain ⟨s', k, k', hnone, -⟩ := outline_append_eq_some.1 h
    rw [show outline .outside ".map(".toList = none by decide] at hnone
    cases hnone
  | inside =>
    have hsilent : IsSilent ".map(".toList := by unfold IsSilent; decide
    exact ⟨rfl, by rwa [hsilent.outline] at h⟩
  | escape w => exact absurd rfl (ne_escape (by decide) h w)

theorem notMem_of_forall {ok : Char → Bool} {t : Text} (ht : ∀ c ∈ t, ok c = true) {d : Char} (hd : ok d = false) :
    d ∉ t := fun hmem => absurd ((ht d hmem).symm.trans hd) (by decide)

/-- A callback of one argument has no marks, its key stays in the string. -/
theorem mild_single {before item b₁ b₂ tag : Text} (hblanks : ∀ c ∈ before ++ b₁ ++ b₂, Text.isBlank c = true)
    (hitem : ∀ c ∈ item, isItemChar c = true) (htag : ∀ c ∈ tag, Text.isWord c = true) :
    Mild codeMarks (".map(".toList ++ (before ++ (item ++ (b₁ ++ '=' :: '>' :: (b₂ ++ '<' :: tag)))))
      (keyedOpening item "index".toList tag (itemKey item) []) := by
  simp only [List.mem_append, or_imp, forall_and] at hblanks
  obtain ⟨⟨hbefore, hb₁⟩, hb₂⟩ := hblanks
  have hno {d : Char} (hd : d ∉ "=><".toList) (hblank : Text.isBlank d = false) (hword : Text.isWord d = false)
      (hchar : isItemChar d = false) : d ∉ before ++ (item ++ (b₁ ++ '=' :: '>' :: (b₂ ++ '<' :: tag))) := by
    have hd' : d ≠ '=' ∧ d ≠ '>' ∧ d ≠ '<' := by simpa using hd
    simp only [List.mem_append, List.mem_cons, not_or]
    exact ⟨notMem_of_forall hbefore hblank, notMem_of_forall hitem hchar, notMem_of_forall hb₁ hblank, hd'.1, hd'.2.1,
      notMem_of_forall hb₂ hblank, hd'.2.2, notMem_of_forall htag hword⟩
  refine mild_of_count_eq_zero (fun d hd => List.count_eq_zero.2 fun hmem => ?_) fun _ s r h => ?_
  · have hmarks : ∀ d ∈ codeMarks, d ∉ ".map(".toList ∧ d ∉ "=><".toList ∧ Text.isBlank d = false ∧
        Text.isWord d = false ∧ isItemChar d = false := by decide
    obtain ⟨hmap, hd', hblank, hword, hchar⟩ := hmarks d hd
    exact (List.mem_append.1 hmem).elim hmap (hno hd' hblank hword hchar)
  · obtain ⟨rfl, hinside⟩ := outline_map h
    rw [← List.append_nil (before ++ _)] at hinside
    have hquote := hno (d := '"') (by decide) (by decide) (by decide) (by decide)
    have hback := hno (d := '\\') (by decide) (by decide) (by decide) (by decide)
    have hplain := plain_of_free hquote hback hinside
    obtain ⟨-, hend⟩ := outline_of_free hquote hback hinside
    simp only [List.mem_append, List.mem_cons, or_imp, forall_and] at hplain
    have hitem := isSilent_of_plain hplain.2.1
    have htag := isSilent_of_plain hplain.2.2.2.2.2.2.2
    have hsilent : IsSilent (keyedOpening item "index".toList tag (itemKey item) []) := by
      have hconst : IsSilent ".map((".toList ∧ IsSilent ", ".toList ∧ IsSilent "index".toList ∧
          IsSilent ") => <".toList ∧ IsSilent " key=\x7b".toList ∧ IsSilent ".id ?? index".toList ∧
          IsSilent "\x7d".toList ∧ IsSilent [] := by unfold IsSilent; decide
      obtain ⟨h₁, h₂, h₃, h₄, h₅, h₆, h₇, h₈⟩ := hconst
      exact ((((((((h₁.append hitem).append h₂).append h₃).append h₄).append htag).append h₅).append
        (hitem.append h₆)).append h₇).append h₈
    exact hsilent.trans hend

/-- Blanks do not count as marks. -/
theorem count_trim {d : Char} (hd : Text.isBlank d = false) (t : Text) : (Text.trim t).count d = t.count d := by
  obtain ⟨b, b', ht, hb, hb'⟩ := Text.exists_trim t
  have hcount := congrArg (List.count d) ht
  rw [List.count_append, List.count_append, List.count_eq_zero.2 (notMem_of_forall hb hd),
    List.count_eq_zero.2 (notMem_of_forall hb' hd)] at hcount
  omega

/-- An index without quotes that stands between a comma and a bracket in a string. -/
theorem silent_index {s : Spot} {b₁ index t : Text} {r : Spot × Text} (hb₁ : ∀ c ∈ b₁, Text.isBlank c = true)
    (hindex : '"' ∉ index) (h : outline s (',' :: (b₁ ++ (index ++ ')' :: t))) = some r) :
    s = .inside ∧ IsSilent (Text.trim index) ∧ outline .inside t = some r := by
  have hcomma : IsPlain ',' := by unfold IsPlain; decide
  have hclose : IsInner ')' := by unfold IsInner IsPlain; decide
  have hb₁quote : '"' ∉ b₁ := notMem_of_forall hb₁ (by decide)
  cases s with
  | outside =>
    -- Without a quote the bracket would stand outside of strings.
    obtain ⟨e, k⟩ := r
    obtain ⟨s', k', hstep, h, -⟩ := outline_cons_iff.1 h
    rw [step_outer (by decide)] at hstep
    obtain rfl := Option.some.inj hstep
    obtain ⟨s₁, k₁, k₂, hfirst, h, -⟩ := outline_append_eq_some.1 h
    obtain rfl := outline_outside_of_free hb₁quote hfirst
    obtain ⟨s₂, k₃, k₄, hfirst, h, -⟩ := outline_append_eq_some.1 h
    obtain rfl := outline_outside_of_free hindex hfirst
    exact absurd (outline_inner hclose h).1 (by simp)
  | escape w => exact absurd rfl (ne_escape (by decide) h w)
  | inside =>
    have hsilent : IsSilent [','] := isSilent_of_plain (by simpa using hcomma)
    rw [← List.singleton_append, hsilent.outline] at h
    obtain ⟨-, h⟩ := outline_of_free hb₁quote (notMem_of_forall hb₁ (by decide)) h
    obtain ⟨b, b', heq, hb, hb'⟩ := Text.exists_trim index
    rw [heq, List.append_assoc, List.append_assoc] at h
    obtain ⟨-, h⟩ := outline_of_free (notMem_of_forall hb (by decide)) (notMem_of_forall hb (by decide)) h
    have htrim : '"' ∉ Text.trim index := fun hmem => hindex ((Text.trim_infix index).subset hmem)
    obtain ⟨s₁, k₁, k₂, hfirst, h, hr⟩ := outline_append_eq_some.1 h
    obtain ⟨hne, rfl⟩ := outline_string_of_free htrim (by simp) hfirst
    -- What follows the index is no part of an escape.
    have hinside : s₁ = .inside := by
      cases b' with
      | nil => exact (outline_inner hclose h).1
      | cons c b' =>
        have hc := blank_notMem_escape (hb' c (List.mem_cons_self ..))
        cases s₁ with
        | outside => exact absurd rfl hne
        | inside => rfl
        | escape w => exact absurd rfl (ne_escape hc h w)
    subst hinside
    obtain ⟨-, h⟩ := outline_of_free (notMem_of_forall hb' (by decide)) (notMem_of_forall hb' (by decide)) h
    exact ⟨rfl, hfirst, (outline_inner hclose h).2.trans (congrArg some (Prod.ext rfl hr.symm))⟩

/-- A callback of two arguments is written once more, its index twice more. -/
theorem count_double (item index : Text) {before b₁ b₂ b₃ tag : Text}
    (hblanks : ∀ c ∈ before ++ b₁ ++ b₂ ++ b₃, Text.isBlank c = true) (htag : ∀ c ∈ tag, Text.isWord c = true)
    {d : Char} (hd : d ∈ codeMarks) :
    (".map(".toList ++ (before ++ '(' :: (item ++ ',' :: (b₁ ++ (index ++ ')' :: (b₂ ++ '=' :: '>' ::
      (b₃ ++ '<' :: tag))))))).count d = item.count d + index.count d ∧
    (keyedOpening item (Text.trim index) tag (Text.trim index) []).count d =
      item.count d + (index.count d + index.count d) := by
  simp only [List.mem_append, or_imp, forall_and] at hblanks
  obtain ⟨⟨⟨hbefore, hb₁⟩, hb₂⟩, hb₃⟩ := hblanks
  have hmarks : ∀ d ∈ codeMarks, d ∉ ".map((, ) => < key=\x7b\x7d".toList ∧ Text.isBlank d = false ∧
      Text.isWord d = false := by decide
  obtain ⟨hconst, hblank, hword⟩ := hmarks d hd
  have hzero {ok : Char → Bool} {t : Text} (ht : ∀ c ∈ t, ok c = true) (hok : ok d = false) : t.count d = 0 :=
    List.count_eq_zero.2 (notMem_of_forall ht hok)
  have hnone {w : Text} (hw : w ⊆ ".map((, ) => < key=\x7b\x7d".toList) : w.count d = 0 :=
    List.count_eq_zero.2 fun hmem => hconst (hw hmem)
  constructor
  · have hmap : ".map(".toList.count d = 0 := hnone (by decide)
    have h₁ : d ≠ '(' ∧ d ≠ ',' ∧ d ≠ ')' ∧ d ≠ '=' ∧ d ≠ '>' ∧ d ≠ '<' := by
      refine ⟨?_, ?_, ?_, ?_, ?_, ?_⟩ <;> exact fun heq => hconst (heq ▸ by decide)
    simp only [List.count_append, List.count_cons, hmap, hzero hbefore hblank, hzero hb₁ hblank, hzero hb₂ hblank,
      hzero hb₃ hblank, hzero htag hword, beq_iff_eq, h₁.1.symm, h₁.2.1.symm, h₁.2.2.1.symm, h₁.2.2.2.1.symm,
      h₁.2.2.2.2.1.symm, h₁.2.2.2.2.2.symm, if_false]
    omega
  · have h₁ : ".map((".toList.count d = 0 := hnone (by decide)
    have h₂ : ", ".toList.count d = 0 := hnone (by decide)
    have h₃ : ") => <".toList.count d = 0 := hnone (by decide)
    have h₄ : " key=\x7b".toList.count d = 0 := hnone (by decide)
    have h₅ : "\x7d".toList.count d = 0 := hnone (by decide)
    unfold keyedOpening
    simp only [List.count_append, count_trim hblank, h₁, h₂, h₃, h₄, h₅, hzero htag hword, List.count_nil]
    omega

/-- A callback of two arguments stays in the string, as far as its index has no quote. -/
theorem mild_double {before item b₁ index b₂ b₃ tag : Text}
    (hblanks : ∀ c ∈ before ++ b₁ ++ b₂ ++ b₃, Text.isBlank c = true) (htag : ∀ c ∈ tag, Text.isWord c = true) :
    Mild codeMarks (".map(".toList ++ (before ++ '(' :: (item ++ ',' :: (b₁ ++ (index ++ ')' :: (b₂ ++ '=' :: '>' ::
      (b₃ ++ '<' :: tag))))))) (keyedOpening item (Text.trim index) tag (Text.trim index) []) := by
  have hopen : IsInner '(' := by unfold IsInner IsPlain; decide
  refine ⟨fun d hd => ?_, fun hc s r h => ?_⟩
  · obtain ⟨hold, hnew⟩ := count_double item index hblanks htag hd
    omega
  · have hindex : '"' ∉ index := by
      obtain ⟨hold, hnew⟩ := count_double item index hblanks htag (d := '"') (by decide)
      have hle := hc '"' (by decide)
      exact List.count_eq_zero.1 (by omega)
    simp only [List.mem_append, or_imp, forall_and] at hblanks
    obtain ⟨⟨⟨hbefore, hb₁⟩, hb₂⟩, hb₃⟩ := hblanks
    obtain ⟨rfl, hbracket⟩ := outline_map h
    have hbeforeQuote := notMem_of_forall hbefore (d := '"') (by decide)
    obtain ⟨-, hbracket⟩ := outline_of_free hbeforeQuote (notMem_of_forall hbefore (by decide)) hbracket
    obtain ⟨-, hitems⟩ := outline_inner hopen hbracket
    obtain ⟨s, k, k', hitem, hcomma, hr⟩ := outline_append_eq_some.1 hitems
    obtain ⟨rfl, htrim, harrow⟩ := silent_index hb₁ hindex hcomma
    have hno {d : Char} (hd : d ∉ "=><".toList) (hblank : Text.isBlank d = false) (hword : Text.isWord d = false) :
        d ∉ b₂ ++ '=' :: '>' :: (b₃ ++ '<' :: tag) := by
      have hd' : d ≠ '=' ∧ d ≠ '>' ∧ d ≠ '<' := by simpa using hd
      simp only [List.mem_append, List.mem_cons, not_or]
      exact ⟨notMem_of_forall hb₂ hblank, hd'.1, hd'.2.1, notMem_of_forall hb₃ hblank, hd'.2.2,
        notMem_of_forall htag hword⟩
    rw [← List.append_nil (b₂ ++ _)] at harrow
    have hquote := hno (d := '"') (by decide) (by decide) (by decide)
    have hback := hno (d := '\\') (by decide) (by decide) (by decide)
    have hplain := plain_of_free hquote hback harrow
    obtain ⟨-, hend⟩ := outline_of_free hquote hback harrow
    simp only [List.mem_append, List.mem_cons, or_imp, forall_and] at hplain
    have htag := isSilent_of_plain hplain.2.2.2.2.2
    have hconst : IsSilent ".map((".toList ∧ IsSilent ", ".toList ∧ IsSilent ") => <".toList ∧
        IsSilent " key=\x7b".toList ∧ IsSilent "\x7d".toList ∧ IsSilent [] := by unfold IsSilent; decide
    obtain ⟨h₁, h₂, h₃, h₄, h₅, h₆⟩ := hconst
    have hbehind := h₂.append (htrim.append (h₃.append (htag.append (h₄.append (htrim.append (h₅.append h₆))))))
    unfold keyedOpening
    simp only [List.append_assoc]
    rw [h₁.outline]
    exact outline_append_eq_some.2 ⟨_, k, k', hitem, hbehind.trans hend, hr⟩

theorem Opens.mild {front front' : Text} (h : Opens front front') : Mild codeMarks front front' := by
  cases h with
  | single before item b₁ b₂ tag hfront hfront' hblanks hitem htag =>
    exact hfront ▸ hfront' ▸ mild_single hblanks hitem htag
  | double before item b₁ index b₂ b₃ tag hfront hfront' hblanks _ _ htag =>
    exact hfront ▸ hfront' ▸ mild_double hblanks htag

/-- Blanks between two brackets stand inside of a string. -/
theorem Closes.mild {back back' : Text} (h : Closes back back') : Mild codeMarks back back' := by
  cases h with
  | empty _ hback' => exact hback' ▸ Mild.refl _ _
  | content b hback hback' hb =>
    have hend : IsInner '>' ∧ IsInner ')' := by unfold IsInner IsPlain; decide
    have hmarks : ∀ d ∈ codeMarks, d ∉ [')'] ∧ d ≠ '>' ∧ Text.isBlank d = false := by decide
    have hsilent : IsSilent ['>', ')'] := by unfold IsSilent; decide
    rw [hback, hback']
    refine mild_of_count_eq_zero (fun d hd => List.count_eq_zero.2 ?_) fun _ s r h => ?_
    · obtain ⟨hclose, hne, hblank⟩ := hmarks d hd
      rw [List.mem_cons, List.mem_append, not_or, not_or]
      exact ⟨hne, notMem_of_forall hb hblank, hclose⟩
    · obtain ⟨rfl, hinside⟩ := outline_inner hend.1 h
      have hquote := notMem_of_forall hb (d := '"') (by decide)
      obtain ⟨-, hlast⟩ := outline_of_free hquote (notMem_of_forall hb (by decide)) hinside
      exact hsilent.trans (outline_inner hend.2 hlast).2

theorem Rewriting.mild {w w' : Text} (h : Rewriting w w') : Mild codeMarks w w' := by
  obtain ⟨front, front', body, back, back', rfl, hopen, hclose, rfl | rfl⟩ := h
  · exact Mild.refl _ _
  · exact hopen.mild.append ((Mild.refl _ body).append hclose.mild)

theorem tame_addMissingKeys : Tame codeMarks addMissingKeys := by
  have hrules : Tame codeMarks fun t => keyRules.foldl (fun t r => r.apply t) t :=
    tame_foldl fun r hr => tame_replace fun _ _ _ hh => (KeyRule.rewriting hr hh).mild
  exact fun t => addMissingKeys_eq t ▸ hrules t

/-- An alternative text shows by its quotes. -/
theorem mild_giveAlt {behind t : Text} {h : Hit} (hh : imageTag.hit? behind t = some h) :
    Mild codeMarks h.text (giveAlt h) := by
  obtain ⟨x, rest, cut, -, htext, rfl, hcut⟩ := tag_of_hit? hh
  unfold giveAlt
  split
  · exact Mild.refl _ _
  · have hmarks : ∀ d ∈ codeMarks, ['>'].count d = 0 ∧ ¬ (Text.isBlank d = true ∨ d = '/') := by decide
    have hcount (d : Char) (hd : d ∈ codeMarks) :
        h.text.count d + " alt=\"\" />".toList.count d = ("<img".toList ++ h.group 1 ++ " alt=\"\" />".toList).count d := by
      obtain ⟨hclose, hd⟩ := hmarks d hd
      have hnone : cut.count d = 0 := List.count_eq_zero.2 fun hmem => hd (hcut d hmem)
      rw [htext]
      simp only [List.count_append, hclose, hnone]
      omega
    have hquotes : 0 < " alt=\"\" />".toList.count '"' := by decide
    have hmore := hcount '"' (by decide)
    exact mild_of_adds (fun d hd => (Nat.le_add_right _ _).trans_eq (hcount d hd)) ⟨'"', by decide, by omega⟩

theorem tame_addMissingImports : Tame codeMarks addMissingImports := by
  intro t
  rcases addMissingImports_cases t with heq | ⟨hooks, -, heq⟩
  · rw [heq]
    exact Mild.refl _ t
  · have hstatement : ';' ∈ hookImport hooks := by rw [hookImport_eq]; simp
    have hpos := List.count_pos_iff.2 hstatement
    rw [heq]
    refine mild_of_adds (fun d _ => ?_) ⟨';', by decide, ?_⟩
    · rw [List.count_append]
      exact Nat.le_add_left _ _
    · rw [List.count_append]
      omega

/-- **The pass over component code is tame.** -/
theorem tame_transform : Tame codeMarks transform := by
  have halt : Tame codeMarks addMissingAlt := tame_replace fun _ _ _ hh => mild_giveAlt hh
  unfold transform
  exact (tame_addMissingImports.comp tame_addMissingKeys).comp halt

end LayeredFix.Pass.Component
