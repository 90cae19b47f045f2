import LayeredFix.Pass.Component
import LayeredFix.Proofs.Text.Part
import LayeredFix.Proofs.Text.Reading

/-!
# Alternative texts of images

An image tag reaches from `<img` to the first closing angle bracket (`Tag`). The pass looks only at what stands between,
so what it has written is an image tag that it leaves alone, and it makes no image tag out of what it passes over
(`addMissingAlt_idempotent`).
-/

namespace LayeredFix.Pass.Component

open Pattern

/-! ### Image tags -/

/-- A text begins with an image tag: `x` stands between `<img` and the closing bracket, `rest` after it. -/
structure Tag (x rest t : Text) : Prop where
  /-- What the text is made of. -/
  shape : t = "<img".toList ++ (x ++ '>' :: rest)
  /-- The bracket is the first one. -/
  closed : '>' ∉ x
  /-- The name of the tag ends after `<img`. -/
  named : (x ++ '>' :: rest).head?.any Text.isWord = false

/-- A match is an image tag; at most blanks and a slash stand between its first part and the bracket. -/
theorem tag_of_hit? {behind t : Text} {h : Hit} (hh : imageTag.hit? behind t = some h) :
    ∃ x rest cut, Tag x rest t ∧ h.text = "<img".toList ++ (x ++ ['>']) ∧ x = h.group 1 ++ cut ∧
      ∀ c ∈ cut, Text.isBlank c = true ∨ c = '/' := by
  obtain ⟨rest, ht, htakes⟩ := takes_of_hit? hh
  obtain ⟨_, _, _, hw, ⟨rfl, rfl⟩, _, _, _, rfl, ⟨⟨hedge, rfl⟩, rfl⟩, attributes, _, _, rfl, ⟨_, ⟨hattr, rfl⟩, rfl⟩,
    blanks, _, _, rfl, ⟨hblanks, rfl⟩, slash, _, _, rfl, hslash, rfl, hg⟩ := htakes
  have hcut : ∀ c ∈ blanks ++ slash, Text.isBlank c = true ∨ c = '/' := by
    intro c hc
    rcases List.mem_append.1 hc with hc | hc
    · exact Or.inl (hblanks c hc)
    · rcases hslash with ⟨rfl, -⟩ | ⟨rfl, -⟩
      · exact Or.inr (List.mem_singleton.1 hc)
      · cases hc
  have hgroups : h.groups = [(1, attributes)] := by
    rcases hslash with ⟨-, rfl⟩ | ⟨-, rfl⟩ <;> exact hg
  have hgroup : h.group 1 = attributes := by rw [Hit.group, hgroups]; rfl
  have htext : h.text = "<img".toList ++ (attributes ++ (blanks ++ slash) ++ ['>']) := by rw [hw]; simp
  refine ⟨attributes ++ (blanks ++ slash), rest, blanks ++ slash, ⟨?_, ?_, ?_⟩, htext, by rw [hgroup], hcut⟩
  · rw [ht, htext]
    simp
  · intro hmem
    rcases List.mem_append.1 hmem with hmem | hmem
    · exact absurd (hattr '>' hmem) (by decide)
    · exact absurd (hcut '>' hmem) (by decide)
  · have hword : ("<img".toList.reverse ++ behind).head?.any Text.isWord = true :=
      (by decide : Text.isWord 'g' = true)
    rw [hword] at hedge
    refine Bool.eq_false_iff.2 fun htrue => hedge (htrue.symm.trans ?_)
    simp

/-- Every image tag is matched. -/
theorem exists_hit?_of_tag {x rest t : Text} (h : Tag x rest t) (behind : Text) :
    ∃ hit, imageTag.hit? behind t = some hit := by
  have hclosed : ∀ c ∈ x, inTag c = true := by
    intro c hc
    have hne : c ≠ '>' := fun heq => h.closed (heq ▸ hc)
    simpa [inTag] using hne
  have hword : ("<img".toList.reverse ++ behind).head?.any Text.isWord = true :=
    (by decide : Text.isWord 'g' = true)
  have hedge : ("<img".toList.reverse ++ behind).head?.any Text.isWord ≠ (x ++ '>' :: rest).head?.any Text.isWord := by
    rw [hword, h.named]
    decide
  have htakes : imageTag.Takes behind [] ("<img".toList ++ (x ++ ['>'])) rest [(1, x)] := by
    refine ⟨_, _, _, rfl, ⟨rfl, rfl⟩, [], _, _, rfl, ⟨⟨?_, rfl⟩, rfl⟩, x, ['>'], _, rfl, ⟨_, ⟨hclosed, rfl⟩, rfl⟩,
      [], _, _, rfl, ⟨by simp, rfl⟩, [], _, _, rfl, Or.inr ⟨rfl, rfl⟩, rfl, rfl⟩
    simpa using hedge
  obtain ⟨hit, hhit⟩ := exists_hit? htakes
  exact ⟨hit, by rw [h.shape, ← hhit]; simp⟩

theorem Tag.unique {x x' rest rest' t : Text} (h : Tag x rest t) (h' : Tag x' rest' t) : x = x' ∧ rest = rest' :=
  Text.cut_unique (List.append_cancel_left (h.shape.symm.trans h'.shape)) h.closed h'.closed

/-- Whether a tag has an alternative text already is a question about all that stands in it. -/
theorem occursIn_alt {h : Hit} {x cut : Text} (hx : x = h.group 1 ++ cut)
    (hcut : ∀ c ∈ cut, Text.isBlank c = true ∨ c = '/') :
    Text.occursIn "alt=".toList (h.group 1) = Text.occursIn "alt=".toList x := by
  have hout : ∀ c ∈ cut, c ∉ "alt=".toList := by
    have hall : ∀ c ∈ "alt=".toList, ¬ (Text.isBlank c = true ∨ c = '/') := by decide
    exact fun c hc hmem => hall c hmem (hcut c hc)
  rw [Bool.eq_iff_iff, Text.occursIn_iff, Text.occursIn_iff, hx, Text.infix_append_iff_of_notMem (by decide) hout]

/-- What is written for an image tag is an image tag with an alternative text. -/
theorem tag_giveAlt {behind t : Text} {h : Hit} (hh : imageTag.hit? behind t = some h) (rest : Text) :
    ∃ x, Tag x rest (giveAlt h ++ rest) ∧ giveAlt h = "<img".toList ++ (x ++ ['>']) ∧
      Text.occursIn "alt=".toList x = true := by
  obtain ⟨x, rest', cut, htag, htext, hx, hcut⟩ := tag_of_hit? hh
  unfold giveAlt
  split
  · rename_i halt
    rw [occursIn_alt hx hcut] at halt
    refine ⟨x, ⟨by rw [htext]; simp, htag.closed, ?_⟩, htext, halt⟩
    have hnamed := htag.named
    cases x with
    | nil => exact hnamed
    | cons c x => exact hnamed
  · have hw : "<img".toList ++ h.group 1 ++ " alt=\"\" />".toList =
        "<img".toList ++ ((h.group 1 ++ " alt=\"\" /".toList) ++ ['>']) := by simp
    refine ⟨h.group 1 ++ " alt=\"\" /".toList, ⟨by rw [hw]; simp, ?_, ?_⟩, hw, ?_⟩
    · intro hmem
      rcases List.mem_append.1 hmem with hmem | hmem
      · exact htag.closed (hx ▸ List.mem_append_left _ hmem)
      · exact absurd hmem (by decide)
    · have hnamed := htag.named
      rw [hx] at hnamed
      cases hg : h.group 1 with
      | nil => rfl
      | cons c attributes =>
        rw [hg] at hnamed
        exact hnamed
    · rw [Text.occursIn_iff]
      exact ⟨h.group 1 ++ [' '], "\"\" /".toList, by simp⟩

/-! ### The pass over all tags -/

theorem text_ne_nil_of_hit? {behind t : Text} {h : Hit} (hh : imageTag.hit? behind t = some h) : h.text ≠ [] := by
  obtain ⟨x, rest, cut, -, htext, -⟩ := tag_of_hit? hh
  simp [htext]

/-- The pass changes neither the first character ... -/
theorem head?_replaceFrom_giveAlt (behind t : Text) : (imageTag.replaceFrom giveAlt behind t).head? = t.head? := by
  fun_cases replaceFrom imageTag giveAlt behind t with
  | case1 => rfl
  | case2 c t hn => rfl
  | case3 c t h hh hempty => exact absurd (List.isEmpty_iff.1 hempty) (text_ne_nil_of_hit? hh)
  | case4 c t h hh hne =>
    obtain ⟨x, rest, cut, htag, -⟩ := tag_of_hit? hh
    obtain ⟨x', htag', halt, -⟩ := tag_giveAlt hh []
    rw [htag.shape, halt]
    rfl

/-- ... nor does it close what was not closed. -/
theorem closing_mem_of_mem_replaceFrom_giveAlt {behind t : Text}
    (hmem : '>' ∈ imageTag.replaceFrom giveAlt behind t) : '>' ∈ t := by
  fun_induction replaceFrom imageTag giveAlt behind t with
  | case1 => exact hmem
  | case2 behind c t hn ih =>
    rcases List.mem_cons.1 hmem with rfl | hmem
    · exact List.mem_cons_self ..
    · exact List.mem_cons_of_mem _ (ih hmem)
  | case3 behind c t h hh hempty ih => exact absurd (List.isEmpty_iff.1 hempty) (text_ne_nil_of_hit? hh)
  | case4 behind c t h hh hne ih =>
    obtain ⟨x, rest, cut, htag, -⟩ := tag_of_hit? hh
    rw [htag.shape]
    simp

/-- What is written before the first image tag was there. -/
theorem exists_of_replaceFrom_giveAlt {w : Text} (hw : '<' ∉ w) {behind t y : Text}
    (h : imageTag.replaceFrom giveAlt behind t = w ++ y) :
    ∃ y', t = w ++ y' ∧ y = imageTag.replaceFrom giveAlt (w.reverse ++ behind) y' := by
  induction w generalizing behind t with
  | nil => exact ⟨t, rfl, h.symm⟩
  | cons d w ih =>
    rw [List.mem_cons, not_or] at hw
    have hd : (imageTag.replaceFrom giveAlt behind t).head? = some d := by rw [h]; rfl
    cases t with
    | nil => simp at h
    | cons c t =>
      rcases hn : imageTag.hit? behind (c :: t) with _ | hit
      · rw [replaceFrom_cons_of_none hn, List.cons_append] at h
        obtain ⟨rfl, hrest⟩ := List.cons.inj h
        obtain ⟨y', rfl, rfl⟩ := ih hw.2 hrest
        exact ⟨y', rfl, by simp⟩
      · obtain ⟨x, rest, cut, htag, -⟩ := tag_of_hit? hn
        rw [head?_replaceFrom_giveAlt, htag.shape] at hd
        exact absurd (Option.some.inj hd) hw.1

/-- The pass makes no image tag out of what it passes over. -/
theorem hit?_cons_replaceFrom_giveAlt {behind behind' t : Text} {c : Char}
    (hn : imageTag.hit? behind (c :: t) = none) :
    imageTag.hit? behind' (c :: imageTag.replaceFrom giveAlt (c :: behind) t) = none := by
  refine Option.eq_none_iff_forall_ne_some.2 fun hit hh => ?_
  obtain ⟨x, rest, -, htag, -⟩ := tag_of_hit? hh
  have hshape : c :: imageTag.replaceFrom giveAlt (c :: behind) t = '<' :: ("img".toList ++ (x ++ '>' :: rest)) :=
    htag.shape
  obtain ⟨rfl, hout⟩ := List.cons.inj hshape
  obtain ⟨t', rfl, hrest⟩ := exists_of_replaceFrom_giveAlt (by decide) hout
  have hmem : '>' ∈ x ++ '>' :: rest := by simp
  rw [hrest] at hmem
  have hclosed : '>' ∈ t' := closing_mem_of_mem_replaceFrom_giveAlt hmem
  obtain ⟨x', rest', rfl, hx'⟩ := List.eq_append_cons_of_mem hclosed
  have hnamed := htag.named
  rw [hrest, head?_replaceFrom_giveAlt] at hnamed
  obtain ⟨hit', hhit'⟩ := exists_hit?_of_tag (⟨rfl, hx', hnamed⟩ : Tag x' rest' _) behind
  exact absurd (hn.symm.trans hhit') (by simp)

theorem replaceFrom_giveAlt_fixed (behind behind' t : Text) :
    imageTag.replaceFrom giveAlt behind' (imageTag.replaceFrom giveAlt behind t) =
      imageTag.replaceFrom giveAlt behind t := by
  fun_induction replaceFrom imageTag giveAlt behind t generalizing behind' with
  | case1 => exact replaceFrom_nil behind'
  | case2 behind c t hn ih => rw [replaceFrom_cons_of_none (hit?_cons_replaceFrom_giveAlt hn), ih]
  | case3 behind c t h hh hempty ih => exact absurd (List.isEmpty_iff.1 hempty) (text_ne_nil_of_hit? hh)
  | case4 behind c t h hh hne ih =>
    obtain ⟨x, htag, hgive, halt⟩ := tag_giveAlt hh
      (imageTag.replaceFrom giveAlt (h.text.reverse ++ behind) (t.drop (h.text.length - 1)))
    obtain ⟨hit, hhit⟩ := exists_hit?_of_tag htag behind'
    obtain ⟨x', rest', cut, htag', htext, hx, hcut⟩ := tag_of_hit? hhit
    obtain ⟨rfl, rfl⟩ := htag'.unique htag
    -- The tag that was written is matched again, and has its alternative text.
    have hsame : hit.text = giveAlt h := by rw [htext, hgive]
    have hleft : giveAlt hit = hit.text := by rw [giveAlt, if_pos (by rw [occursIn_alt hx hcut, halt])]
    rw [← hsame] at hhit ⊢
    rw [replaceFrom_of_some hhit (text_ne_nil_of_hit? hhit), ih, hleft]

/-- **The pass over images is idempotent.** -/
theorem addMissingAlt_idempotent (t : Text) : addMissingAlt (addMissingAlt t) = addMissingAlt t := by
  unfold addMissingAlt
  rw [replace_eq, replace_eq, replaceFrom_giveAlt_fixed]

end LayeredFix.Pass.Component
