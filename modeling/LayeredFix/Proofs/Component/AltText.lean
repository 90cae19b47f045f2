import LayeredFix.Proofs.Component.Attribute
import LayeredFix.Proofs.Component.Image

/-!
# Where an alternative text is put in

The pass over images reads a tag up to the first closing angle bracket and looks for the word `alt=` there. For an
image with attributes in a row this is the right place and the right answer just if no value holds a bracket and the
word occurs where there is an attribute of that name (`addMissingAlt_eq_repaired_iff`). What the pass takes for the
attributes is as short as it can be (`group_imageTag_prefix`), so blanks and a slash at the end do not count.
-/

namespace LayeredFix.Pass.Component

open Pattern

/-- An image tag: its attributes and how it is closed. -/
structure ImageTag where
  /-- The attributes. -/
  attributes : List Attribute
  /-- The blanks in front of its end. -/
  blanks : Text
  /-- Whether it ends in a slash and a bracket. -/
  slash : Bool
  blanks_blank : ∀ c ∈ blanks, Text.isBlank c = true

namespace ImageTag

/-- What stands behind the attributes, up to the bracket. -/
def close (x : ImageTag) : Text := x.blanks ++ if x.slash then ['/'] else []

/-- An image tag as it is written. -/
def text (x : ImageTag) : Text := "<img".toList ++ (attributesText x.attributes ++ (x.close ++ ['>']))

/-- Whether one of the attributes is an alternative text. -/
def hasAlt (x : ImageTag) : Bool := x.attributes.any fun a => a.name == "alt".toList

/-- An image tag with an empty alternative text behind its attributes. -/
def withAlt (x : ImageTag) : Text := "<img".toList ++ (attributesText x.attributes ++ " alt=\"\" />".toList)

/-- What an image tag should become. -/
def repaired (x : ImageTag) : Text := if x.hasAlt then x.text else x.withAlt

/-- The attributes up to the first closing bracket in them. -/
def seen (x : ImageTag) : Text := (attributesText x.attributes).takeWhile inTag

/-- The attributes from the first closing bracket in them on. -/
def unseen (x : ImageTag) : Text := (attributesText x.attributes).dropWhile inTag

theorem seen_append_unseen (x : ImageTag) : x.seen ++ x.unseen = attributesText x.attributes :=
  List.takeWhile_append_dropWhile

theorem notMem_seen (x : ImageTag) : '>' ∉ x.seen := fun h =>
  absurd (List.all_eq_true.1 List.all_takeWhile '>' h) (by decide)

theorem unseen_cases (x : ImageTag) :
    ('>' ∉ attributesText x.attributes ∧ x.unseen = []) ∨ '>' ∈ attributesText x.attributes ∧ ∃ z, x.unseen = '>' :: z := by
  rcases hx : x.unseen with _ | ⟨c, z⟩
  · refine Or.inl ⟨?_, rfl⟩
    rw [← x.seen_append_unseen, hx, List.append_nil]
    exact x.notMem_seen
  · have hc : inTag c = false := by
      have hhead := List.head?_dropWhile_not inTag (attributesText x.attributes)
      rw [show (attributesText x.attributes).dropWhile inTag = c :: z from hx] at hhead
      simpa using hhead
    obtain rfl : c = '>' := by simpa [inTag] using hc
    refine Or.inr ⟨?_, z, rfl⟩
    rw [← x.seen_append_unseen, hx]
    simp

theorem close_cases (x : ImageTag) : ∀ c ∈ x.close, Text.isBlank c = true ∨ c = '/' := by
  intro c hc
  rcases List.mem_append.1 hc with hc | hc
  · exact Or.inl (x.blanks_blank c hc)
  · split at hc
    · exact Or.inr (List.mem_singleton.1 hc)
    · cases hc

/-- The name of the tag ends where its attributes begin. -/
theorem named (x : ImageTag) (suf : Text) :
    (attributesText x.attributes ++ (x.close ++ '>' :: suf)).head?.any Text.isWord = false := by
  have hhead {u v : Text} (hu : ∀ c, u.head? = some c → Text.isWord c = false) (hv : v.head?.any Text.isWord = false) :
      (u ++ v).head?.any Text.isWord = false := by
    cases u with
    | nil => exact hv
    | cons c u => exact hu c rfl
  refine hhead (fun c hc => Text.isWord_of_isBlank (head?_attributesText hc)) (hhead (fun c hc => ?_) rfl)
  rcases x.close_cases c (List.mem_of_mem_head? hc) with hblank | rfl
  · exact Text.isWord_of_isBlank hblank
  · decide

end ImageTag

/-! ### What is taken for the attributes -/

/-- What follows the attributes of an image. -/
def tagEnd : Pattern := .all [.blanks, .optional (.text "/"), .text ">"]

theorem exists_mem_ends_tagEnd {b s rest : Text} (hb : ∀ c ∈ b, Text.isBlank c = true) (hs : s = ['/'] ∨ s = [])
    {m : Place} (hm : m.ahead = b ++ (s ++ '>' :: rest)) : ∃ e, e ∈ tagEnd.ends m := by
  have ha : m.ahead = (b ++ (s ++ ['>'])) ++ rest := by rw [hm]; simp
  obtain ⟨e, he, -⟩ := (takes_iff (p := tagEnd) (g := m.parts) ha).1
    ⟨b, s ++ ['>'], _, rfl, ⟨hb, rfl⟩, s, ['>'], _, rfl, hs.imp (⟨·, rfl⟩) (⟨·, rfl⟩), rfl, rfl⟩
  exact ⟨e, he⟩

theorem parts_of_mem_ends_tagEnd {m e : Place} (he : e ∈ tagEnd.ends m) : e.parts = m.parts := by
  obtain ⟨w, hr⟩ := exists_reads_of_mem_ends he
  obtain ⟨_, _, _, -, ⟨-, rfl⟩, _, _, _, -, hslash, -, hg⟩ := (takes_iff hr.ahead).2 ⟨e, he, hr, rfl⟩
  rcases hslash with ⟨-, rfl⟩ | ⟨-, rfl⟩ <;> exact hg

/-- **What a match takes for the attributes is as short as it can be.** -/
theorem group_imageTag_prefix {behind u b s rest : Text} {h : Hit}
    (hh : imageTag.hit? behind ("<img".toList ++ (u ++ (b ++ (s ++ '>' :: rest)))) = some h)
    (hb : ∀ c ∈ b, Text.isBlank c = true) (hs : s = ['/'] ∨ s = []) : h.group 1 <+: u := by
  obtain ⟨e, hrun, heq⟩ := Option.map_eq_some_iff.1 hh
  -- The match is found by trying one place after the other, the nearest first.
  obtain ⟨m, hm, hmg, htry⟩ : ∃ m : Place, m.ahead = u ++ (b ++ (s ++ '>' :: rest)) ∧ m.groups = [] ∧
      Place.tryNearest inTag (fun e => tagEnd.run some { e with groups := (1, m.stretch e) :: e.groups }) m.index m.behind
        m.groups m.ahead = some e := by
    refine ⟨Place.advance "<img".toList ⟨behind.length, behind, _, []⟩, List.drop_left, rfl, ?_⟩
    unfold imageTag at hrun
    simp only [Pattern.all, Pattern.text, run] at hrun
    split at hrun
    · split at hrun
      · exact hrun
      · cases hrun
    · cases hrun
  rw [hm, hmg] at htry
  obtain ⟨w, r, hw, he, hbefore⟩ := Place.tryNearest_eq_some _ _ _ htry
  have hgroup : h.group 1 = w := by
    have hparts : h.groups = e.parts := congrArg Hit.groups heq.symm
    rw [run_eq] at he
    obtain ⟨e', hmem, he'⟩ := List.exists_of_findSome?_eq_some he
    obtain rfl := Option.some.inj he'
    rw [Hit.group, hparts, parts_of_mem_ends_tagEnd hmem]
    simp [Place.parts, Place.stretch, Stretch.text, hm, hw]
  rw [hgroup]
  rcases List.append_eq_append_iff.1 hw with ⟨k, rfl, hk⟩ | ⟨k, rfl, -⟩
  · -- A longer match passes over the end of the tag.
    rcases k with _ | ⟨c, k⟩
    · simp
    · have hnone := hbefore u (c :: k) rfl (List.cons_ne_nil c k)
      rw [run_eq, List.findSome?_eq_none_iff, ← hk] at hnone
      obtain ⟨e', he'⟩ := exists_mem_ends_tagEnd hb hs (m := ⟨_, _, _, _⟩) rfl
      exact absurd (hnone e' he') (Option.some_ne_none e')
  · exact List.prefix_append w k

/-! ### Around the image -/

/-- No image tag begins in a text without one, whatever follows that does not go on with the name. -/
theorem skips_imageTag {w t : Text} (hw : ¬ "<img".toList <:+: w) (ht : ∀ c, t.head? = some c → c ∉ "img".toList)
    (behind : Text) : imageTag.Skips behind w t := by
  intro u v huv hne
  refine Option.eq_none_iff_forall_ne_some.2 fun h hh => hw ?_
  obtain ⟨x, rest, -, htag, -⟩ := tag_of_hit? hh
  have hin : "<img".toList <+: v := by
    cases t with
    | nil =>
      rw [← List.append_nil v, htag.shape]
      exact List.prefix_append _ _
    | cons c t =>
      obtain ⟨d, v, rfl⟩ := List.exists_cons_of_ne_nil hne
      have hshape : d :: (v ++ c :: t) = '<' :: ("img".toList ++ (x ++ '>' :: rest)) := htag.shape
      obtain ⟨rfl, hname⟩ := List.cons.inj hshape
      have hnamed : "img".toList <+: v ++ c :: t := ⟨_, hname.symm⟩
      obtain ⟨v', rfl⟩ := Text.prefix_of_notMem hnamed (ht c rfl)
      exact ⟨v', rfl⟩
  rw [huv]
  exact hin.isInfix.trans (List.suffix_append u v).isInfix

/-- The only image of a text is repaired, and nothing else. -/
theorem addMissingAlt_of_hit? {pre rest : Text} {h : Hit} (hpre : ¬ "<img".toList <:+: pre)
    (hrest : ¬ "<img".toList <:+: rest) (hh : imageTag.hit? pre.reverse (h.text ++ rest) = some h) :
    addMissingAlt (pre ++ (h.text ++ rest)) = pre ++ (giveAlt h ++ rest) := by
  have hbegins : ∀ c, (h.text ++ rest).head? = some c → c ∉ "img".toList := by
    obtain ⟨x, rest', -, htag, -⟩ := tag_of_hit? hh
    rw [htag.shape]
    intro c hc
    obtain rfl : '<' = c := Option.some.inj hc
    decide
  have hleft (behind : Text) : imageTag.replaceFrom giveAlt behind rest = rest := by
    have hend : ∀ c, ([] : Text).head? = some c → c ∉ "img".toList := fun c hc => nomatch hc
    have hcopied := replaceFrom_append (f := giveAlt) (skips_imageTag hrest hend behind)
    rwa [replaceFrom_nil, List.append_nil] at hcopied
  unfold addMissingAlt
  rw [replace_eq, replaceFrom_append (skips_imageTag hpre hbegins []), List.append_nil,
    replaceFrom_of_some hh (text_ne_nil_of_hit? hh), hleft]

/-- Where an alternative text is put in, the tag does not end. -/
theorem alt_ne_close {cut : Text} (hcut : ∀ c ∈ cut, Text.isBlank c = true ∨ c = '/') (z w : Text) :
    " alt=\"\" />".toList ++ z ≠ cut ++ '>' :: w := by
  have halt : " alt=\"\" />".toList = ' ' :: 'a' :: "lt=\"\" />".toList := by decide
  rw [halt]
  intro heq
  rcases cut with _ | ⟨c, _ | ⟨d, cut⟩⟩
  · exact absurd (List.cons.inj heq).1 (by decide)
  · exact absurd (List.cons.inj (List.cons.inj heq).2).1 (by decide)
  · obtain rfl := (List.cons.inj (List.cons.inj heq).2).1
    exact absurd (hcut 'a' (by simp)) (by decide)

namespace ImageTag

variable (x : ImageTag) {pre suf : Text} (hpre : ¬ "<img".toList <:+: pre) (hsuf : ¬ "<img".toList <:+: suf)
include hpre hsuf

/-- An image without closing brackets in its attributes gets what it lacks, judged by the word. -/
theorem addMissingAlt_of_notMem (hx : '>' ∉ attributesText x.attributes) :
    addMissingAlt (pre ++ (x.text ++ suf)) =
      pre ++ ((if Text.occursIn "alt=".toList (attributesText x.attributes) then x.text else x.withAlt) ++ suf) := by
  have hshape : x.text ++ suf = "<img".toList ++ ((attributesText x.attributes ++ x.close) ++ '>' :: suf) := by
    unfold text
    simp only [List.append_assoc, List.singleton_append]
  have htag : Tag (attributesText x.attributes ++ x.close) suf (x.text ++ suf) := by
    refine ⟨hshape, ?_, ?_⟩
    · rw [List.mem_append, not_or]
      refine ⟨hx, fun hmem => ?_⟩
      rcases x.close_cases '>' hmem with hblank | hslash
      · exact absurd hblank (by decide)
      · exact absurd hslash (by decide)
    · rw [List.append_assoc]
      exact x.named suf
  obtain ⟨h, hh⟩ := exists_hit?_of_tag htag pre.reverse
  obtain ⟨y, rest, cut, htag', htext, hy, hcut⟩ := tag_of_hit? hh
  obtain ⟨rfl, rfl⟩ := htag'.unique htag
  have hgroup : h.group 1 = attributesText x.attributes := by
    have hslash : (if x.slash then ['/'] else []) = ['/'] ∨ (if x.slash then ['/'] else []) = [] := by
      split
      · exact Or.inl rfl
      · exact Or.inr rfl
    have hends : x.text ++ rest =
        "<img".toList ++ (attributesText x.attributes ++ (x.blanks ++ ((if x.slash then ['/'] else []) ++ '>' :: rest))) := by
      rw [hshape, close]
      simp only [List.append_assoc]
    rw [hends] at hh
    obtain ⟨k, hk⟩ := group_imageTag_prefix hh x.blanks_blank hslash
    -- What is left over would end in a blank or a slash.
    rcases List.eq_nil_or_concat k with rfl | ⟨k, c, rfl⟩
    · rwa [List.append_nil] at hk
    · rw [List.concat_eq_append] at hk
      have hc : c ∈ cut := by
        rw [← hk, List.append_assoc] at hy
        rw [← List.append_cancel_left hy]
        simp
      have hne : x.attributes ≠ [] := by
        intro hnil
        rw [hnil, attributesText_nil] at hk
        simp at hk
      obtain ⟨w, d, hw, hd⟩ := attributesText_last hne
      rw [hw, ← List.append_assoc] at hk
      obtain rfl := List.singleton_inj.1 (List.append_inj' hk rfl).2
      rcases hcut c hc with hblank | hslash
      · exact absurd (hblank.symm.trans hd.isBlank) (by decide)
      · exact absurd hslash hd.ne_slash
  have hwhole : h.text = x.text := by
    unfold text
    rw [htext]
    simp only [List.append_assoc]
  rw [← hwhole] at hh ⊢
  unfold withAlt
  rw [addMissingAlt_of_hit? hpre hsuf hh, giveAlt, hgroup, List.append_assoc "<img".toList]

/-- An image with a closing bracket in its attributes is taken to end there. -/
theorem addMissingAlt_of_unseen {z : Text} (hx : x.unseen = '>' :: z) (hz : ¬ "<img".toList <:+: x.unseen) :
    ∃ front cut, x.seen = front ++ cut ∧ (∀ c ∈ cut, Text.isBlank c = true ∨ c = '/') ∧
      addMissingAlt (pre ++ (x.text ++ suf)) = pre ++ (if Text.occursIn "alt=".toList x.seen then x.text ++ suf
        else "<img".toList ++ (front ++ (" alt=\"\" />".toList ++ (z ++ (x.close ++ '>' :: suf))))) := by
  have hattributes : attributesText x.attributes = x.seen ++ '>' :: z := by rw [← hx, x.seen_append_unseen]
  have hshape : x.text ++ suf = "<img".toList ++ (x.seen ++ '>' :: (z ++ (x.close ++ '>' :: suf))) := by
    unfold text
    simp only [hattributes, List.append_assoc, List.cons_append, List.nil_append]
  have hnamed := x.named suf
  rw [hattributes, List.append_assoc, List.cons_append] at hnamed
  obtain ⟨h, hh⟩ := exists_hit?_of_tag ⟨hshape, x.notMem_seen, hnamed⟩ pre.reverse
  obtain ⟨y, rest, cut, htag, htext, hy, hcut⟩ := tag_of_hit? hh
  obtain ⟨rfl, rfl⟩ := Tag.unique ⟨hshape, x.notMem_seen, hnamed⟩ htag
  refine ⟨h.group 1, cut, hy, hcut, ?_⟩
  have hrest : ¬ "<img".toList <:+: z ++ (x.close ++ '>' :: suf) := by
    have hapart : ∀ c ∈ x.close ++ ['>'], c ∉ "<img".toList := by
      have hall : ∀ c ∈ "<img".toList, ¬ (Text.isBlank c = true ∨ c = '/') ∧ c ≠ '>' := by decide
      intro c hc hmem
      rcases List.mem_append.1 hc with hc | hc
      · exact (hall c hmem).1 (x.close_cases c hc)
      · exact (hall c hmem).2 (List.mem_singleton.1 hc)
    have hsplit : z ++ (x.close ++ '>' :: suf) = z ++ ((x.close ++ ['>']) ++ suf) := by simp
    rw [hsplit, Text.infix_append_append_iff (by decide) (by simp) hapart, not_or]
    refine ⟨fun hin => hz (hin.trans ?_), hsuf⟩
    rw [hx]
    exact (List.suffix_cons '>' z).isInfix
  have hwhole : x.text ++ suf = h.text ++ (z ++ (x.close ++ '>' :: suf)) := by
    rw [hshape, htext]
    simp only [List.append_assoc, List.singleton_append]
  rw [hwhole] at hh ⊢
  rw [addMissingAlt_of_hit? hpre hrest hh, giveAlt, occursIn_alt hy hcut]
  split
  · rfl
  · simp only [List.append_assoc]

omit hpre hsuf in
theorem text_ne_withAlt : x.text ≠ x.withAlt := by
  intro heq
  have hends : x.close ++ '>' :: [] = " alt=\"\" />".toList := List.append_cancel_left (List.append_cancel_left heq)
  refine alt_ne_close x.close_cases [] [] ?_
  rw [List.append_nil, hends]

/-- **An image gets an alternative text behind its last attribute, and only if it has none, just if two things hold**: the
word occurs up to the first closing bracket among its attributes exactly when one of them has that name, and there is no
such bracket unless one has. -/
theorem addMissingAlt_eq_repaired_iff (hz : ¬ "<img".toList <:+: x.unseen) :
    addMissingAlt (pre ++ (x.text ++ suf)) = pre ++ (x.repaired ++ suf) ↔
      Text.occursIn "alt=".toList x.seen = x.hasAlt ∧ (x.hasAlt = true ∨ '>' ∉ attributesText x.attributes) := by
  unfold repaired
  rcases x.unseen_cases with ⟨hx, hnil⟩ | ⟨hx, z, hcons⟩
  · have hseen : x.seen = attributesText x.attributes := by rw [← x.seen_append_unseen, hnil, List.append_nil]
    rw [x.addMissingAlt_of_notMem hpre hsuf hx, List.append_cancel_left_eq, hseen, and_iff_left (Or.inr hx)]
    rcases Text.occursIn "alt=".toList (attributesText x.attributes) with _ | _ <;> rcases x.hasAlt with _ | _
    · simp
    · simpa using x.text_ne_withAlt.symm
    · simpa using x.text_ne_withAlt
    · simp
  · obtain ⟨front, cut, hseen, hcut, heq⟩ := x.addMissingAlt_of_unseen hpre hsuf hcons hz
    rw [heq, List.append_cancel_left_eq, or_iff_left (not_not_intro hx)]
    -- If the tag is taken to lack the text, it is put in where the tag does not end.
    have hearly (u v : Text) :
        "<img".toList ++ (front ++ (" alt=\"\" />".toList ++ u)) ≠ "<img".toList ++ (attributesText x.attributes ++ v) := by
      intro hsame
      rw [← x.seen_append_unseen, hcons, hseen, List.append_assoc, List.append_assoc, List.cons_append] at hsame
      exact alt_ne_close hcut _ _ (List.append_cancel_left (List.append_cancel_left hsame))
    rcases Text.occursIn "alt=".toList x.seen with _ | _ <;> rcases x.hasAlt with _ | _
    · unfold withAlt
      simpa using hearly _ _
    · simpa [text] using hearly _ _
    · simpa using x.text_ne_withAlt
    · simp

end ImageTag

/-- An image with a source alone. -/
def picture : ImageTag where
  attributes := [.spaced "src".toList (.quoted '"' "a.png".toList rfl (by decide)) (by decide) (by decide)]
  blanks := [' ']
  slash := true
  blanks_blank := space_blank

/-- Such an image gets an alternative text behind its source. -/
theorem addMissingAlt_picture :
    (¬ "<img".toList <:+: "<b>".toList ∧ ¬ "<img".toList <:+: "</b>".toList ∧ ¬ "<img".toList <:+: picture.unseen) ∧
      addMissingAlt ("<b>".toList ++ (picture.text ++ "</b>".toList)) =
        "<b>".toList ++ (picture.repaired ++ "</b>".toList) := by
  have hpre : ¬ "<img".toList <:+: "<b>".toList := Text.occursIn_eq_false_iff.1 (by decide)
  have hsuf : ¬ "<img".toList <:+: "</b>".toList := Text.occursIn_eq_false_iff.1 (by decide)
  have hz : ¬ "<img".toList <:+: picture.unseen := Text.occursIn_eq_false_iff.1 (by decide)
  exact ⟨⟨hpre, hsuf, hz⟩, (picture.addMissingAlt_eq_repaired_iff hpre hsuf hz).2 (by decide)⟩

/-- An image with a handler and an alternative text. -/
def handledPicture : ImageTag where
  attributes :=
    [.spaced "onLoad".toList (.braced "() => go()".toList (balanced_of_plain (by decide))) (by decide) (by decide),
      .spaced "alt".toList (.quoted '"' "a".toList rfl (by decide)) (by decide) (by decide)]
  blanks := [' ']
  slash := true
  blanks_blank := space_blank

/-- It gets a second one, in the middle of its handler. -/
theorem addMissingAlt_handledPicture :
    handledPicture.text = "<img onLoad=\x7b() => go()\x7d alt=\"a\" />".toList ∧ handledPicture.hasAlt = true ∧
      addMissingAlt handledPicture.text ≠ handledPicture.text ∧
      addMissingAlt handledPicture.text = "<img onLoad=\x7b() = alt=\"\" /> go()\x7d alt=\"a\" />".toList := by
  decide +kernel

end LayeredFix.Pass.Component
