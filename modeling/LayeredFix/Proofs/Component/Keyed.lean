import LayeredFix.Proofs.Component.Rewriting
import LayeredFix.Proofs.Text.Lines
import LayeredFix.Proofs.Text.Part

/-!
# Elements that are given a key

A rule for keys matches the rendering of a list, from `.map(` on, and answers with the match itself or with an element
that has a key (`KeyRule.answer`). No rule changes an element that has a key (`Keyed.fixed`), and no other list is
rendered in it if there was none in the match (`Keyed.flat`).
-/

namespace LayeredFix.Pass.Component

open Pattern

/-- No list is rendered in the text. -/
def Flat (t : Text) : Prop := ¬ ".map(".toList <:+: t

theorem Flat.of_part {t t' : Text} (h : Flat t') (ht : t <:+: t') : Flat t := fun hin => h (hin.trans ht)

theorem Flat.left {u v : Text} (h : Flat (u ++ v)) : Flat u := h.of_part (List.prefix_append u v).isInfix

theorem Flat.right {u v : Text} (h : Flat (u ++ v)) : Flat v := h.of_part (List.suffix_append u v).isInfix

theorem Flat.tail {c : Char} {t : Text} (h : Flat (c :: t)) : Flat t := h.of_part (List.suffix_cons c t).isInfix

theorem flat_append_cons {u v : Text} {d : Char} (hd : d ∉ ".map(".toList) (hu : Flat u) (hv : Flat v) :
    Flat (u ++ d :: v) :=
  fun h => ((Text.infix_append_cons_iff hd).1 h).elim hu hv

/-- A stretch without dots in front of a text. -/
theorem flat_append {u v : Text} (hu : '.' ∉ u) (hv : Flat v) : Flat (u ++ v) := by
  induction u with
  | nil => exact hv
  | cons c u ih =>
    rw [List.mem_cons, not_or] at hu
    intro hin
    rcases List.infix_cons_iff.1 hin with hpre | hin
    · exact hu.1 (List.cons_prefix_cons.1 hpre).1
    · exact ih hu.2 hin

theorem flat_of_no_dot {t : Text} (h : '.' ∉ t) : Flat t :=
  fun hin => h (hin.subset (List.mem_cons_self ..))

/-- What is written for an element that is given a key. -/
structure Keyed (w : Text) : Prop where
  /-- The parts of what is written. -/
  shape : ∃ item index tag key tail, w = keyedOpening item index tag key tail ∧ ',' ∉ item ∧ ')' ∉ item ∧
    ')' ∉ index ∧ ∀ c ∈ tag, Text.isWord c = true
  /-- No other list is rendered in it. -/
  flat : Flat w.tail
  /-- What it ends in. -/
  ending : ∃ front last, w = front ++ [last] ∧ (last = ')' ∨ last = '>')

theorem keyedOpening_eq (item index tag key tail : Text) :
    keyedOpening item index tag key tail = '.' :: (("map((".toList ++ item) ++ ',' :: ((' ' :: index) ++ ')' ::
      (" => ".toList ++ '<' :: (tag ++ ' ' :: ("key=\x7b".toList ++ (key ++ '\x7d' :: tail)))))) := by
  have hmap : ".map((".toList = '.' :: "map((".toList := by decide
  have hcomma : ", ".toList = [',', ' '] := by decide
  have harrow : ") => <".toList = ')' :: (" => ".toList ++ ['<']) := by decide
  have hname : " key=\x7b".toList = ' ' :: "key=\x7b".toList := by decide
  have hclose : "\x7d".toList = ['\x7d'] := by decide
  unfold keyedOpening
  rw [hmap, hcomma, harrow, hname, hclose]
  generalize "map((".toList = a, " => ".toList = b, "key=\x7b".toList = c
  simp only [List.append_assoc, List.cons_append, List.nil_append]

theorem opening_keyedOpening (item index tag key tail : Text) :
    ".map(".toList <+: keyedOpening item index tag key tail := by
  have hmap : ".map((".toList = ".map(".toList ++ ['('] := by decide
  unfold keyedOpening
  rw [hmap]
  simp only [List.append_assoc]
  exact List.prefix_append _ _

theorem Opens.written {front front' : Text} (h : Opens front front') : ".map(".toList <+: front' := by
  cases h with
  | single _ _ _ _ _ _ hfront' => exact hfront' ▸ opening_keyedOpening ..
  | double _ _ _ _ _ _ _ _ hfront' => exact hfront' ▸ opening_keyedOpening ..

theorem keyed_of_parts {item index tag key front : Text} {last : Char} (hi : ',' ∉ item) (hi' : ')' ∉ item)
    (hx : ')' ∉ index) (ht : ∀ c ∈ tag, Text.isWord c = true) (hl : last = ')' ∨ last = '>')
    (hitem : Flat item) (hindex : Flat index) (hkey : Flat key) (hfront : Flat front) :
    Keyed (keyedOpening item index tag key (front ++ [last])) := by
  have htag : Flat tag := flat_of_no_dot fun hmem => absurd (ht '.' hmem) (by decide)
  have hlast : last ∉ ".map(".toList := by
    rcases hl with rfl | rfl <;> decide
  refine ⟨⟨item, index, tag, key, front ++ [last], rfl, hi, hi', hx, ht⟩, ?_, ?_⟩
  · rw [keyedOpening_eq, List.tail_cons]
    refine flat_append_cons (by decide) (flat_append (by decide) hitem) ?_
    refine flat_append_cons (by decide) (flat_append (u := [' ']) (by decide) hindex) ?_
    refine flat_append_cons (by decide) (flat_of_no_dot (by decide)) ?_
    refine flat_append_cons (by decide) htag (flat_append (by decide) ?_)
    exact flat_append_cons (by decide) hkey (flat_append_cons hlast hfront (flat_of_no_dot (by simp)))
  · exact ⟨keyedOpening item index tag key front, last, (keyedOpening_append ..).symm, hl⟩

/-! ### What a rule writes -/

/-- What a rule writes for a match: the match itself, or an element with a key. -/
structure Answer (h : Hit) (w : Text) : Prop where
  /-- A match begins with the rendering of a list. -/
  opening : ".map(".toList <+: h.text
  /-- What a match ends in. -/
  ending : ∃ front last, h.text = front ++ [last] ∧ (last = ')' ∨ last = '>')
  /-- What is written. -/
  fixed_or_keyed : w = h.text ∨ ".map(".toList <+: w ∧ (Flat h.text.tail → Keyed w)

theorem notMem_of_isItemChar {item : Text} (h : ∀ c ∈ item, isItemChar c = true) {d : Char}
    (hd : isItemChar d = false) : d ∉ item := fun hmem => absurd ((h d hmem).symm.trans hd) (by decide)

theorem flat_itemKey {item : Text} (h : ∀ c ∈ item, isItemChar c = true) : Flat (itemKey item) := by
  refine flat_append (notMem_of_isItemChar h (by decide)) fun hin => ?_
  exact absurd ((Text.occursIn_iff _ _).2 hin) (by decide)

/-- What is written for the two ends around a middle has a key, and no other list is rendered in it. -/
theorem Opens.keyed {front front' body : Text} {last : Char} (h : Opens front front') (hflat : Flat front.tail)
    (hbody : Flat body) (hl : last = ')' ∨ last = '>') : Keyed (front' ++ (body ++ [last])) := by
  have hmap : ".map(".toList = '.' :: "map(".toList := by decide
  cases h with
  | single before item b₁ b₂ tag hfront hfront' _ hitem htag =>
    have hno := @notMem_of_isItemChar item hitem
    rw [hfront', keyedOpening_append, List.nil_append]
    exact keyed_of_parts (hno (by decide)) (hno (by decide)) (by decide) htag hl (flat_of_no_dot (hno (by decide)))
      (flat_of_no_dot (by decide)) (flat_itemKey hitem) hbody
  | double before item b₁ index b₂ b₃ tag hfront hfront' _ hitem hindex htag =>
    rw [hfront, hmap, List.cons_append, List.tail_cons] at hflat
    have hitemFlat := hflat.right.right.tail
    have hindexFlat := hitemFlat.right.tail.right.left.of_part (Text.trim_infix index)
    rw [hfront', keyedOpening_append, List.nil_append]
    exact keyed_of_parts (fun hmem => (hitem _ hmem).1 rfl) (fun hmem => (hitem _ hmem).2 rfl)
      (fun hmem => hindex ((Text.trim_infix index).subset hmem)) htag hl hitemFlat.left hindexFlat hindexFlat hbody

theorem Closes.ending {back back' : Text} (h : Closes back back') :
    ∃ z b last, back = z :: (b ++ [last]) ∧ back' = [z, last] ∧ z ∉ ".map(".toList ∧ (last = ')' ∨ last = '>') := by
  cases h with
  | empty hback hback' =>
    subst hback' hback
    exact ⟨'/', [], '>', rfl, rfl, by decide, Or.inr rfl⟩
  | content b hback hback' =>
    subst hback' hback
    exact ⟨'>', b, ')', rfl, rfl, by decide, Or.inl rfl⟩

/-- **What a rule does with a match.** -/
theorem KeyRule.answer {r : KeyRule} (hr : r ∈ keyRules) {behind t : Text} {h : Hit}
    (hh : r.pattern.hit? behind t = some h) : Answer h (r.write h) := by
  obtain ⟨front, front', body, back, back', hw, hopen, hclose, hwrite⟩ := KeyRule.rewriting hr hh
  obtain ⟨z, b, last, rfl, rfl, hz, hlast⟩ := hclose.ending
  refine ⟨?_, ⟨front ++ (body ++ z :: b), last, by rw [hw]; simp, hlast⟩, hwrite.imp_right fun hwrite => ⟨?_, ?_⟩⟩
  · rw [hw]
    exact hopen.opening.trans (List.prefix_append _ _)
  · rw [hwrite]
    exact hopen.written.trans (List.prefix_append _ _)
  · intro hflat
    obtain ⟨rest, rfl⟩ := hopen.opening
    have hmap : ".map(".toList = '.' :: "map(".toList := by decide
    rw [hw, hmap, List.cons_append, List.cons_append, List.tail_cons] at hflat
    have hbody : Flat (body ++ [z]) := flat_append_cons hz hflat.right.left (flat_of_no_dot (by simp))
    have hkeyed := hopen.keyed (by rw [hmap]; exact hflat.left) hbody hlast
    rw [hwrite]
    simpa using hkeyed

/-! ### Elements that were given a key -/

theorem KeyRule.isForward {r : KeyRule} (hr : r ∈ keyRules) : r.pattern.isForward = true := by
  have hall : ∀ r ∈ keyRules, r.pattern.isForward = true := by decide
  exact hall r hr

theorem isBlank_of_isItemChar {c : Char} (h : isItemChar c = true) : Text.isBlank c = false := by
  refine Bool.eq_false_iff.2 fun hblank => ?_
  have hword : Text.isWord c = true := Bool.or_eq_true_iff.2 (Or.inl h)
  exact absurd (hword.symm.trans (Text.isWord_of_isBlank hblank)) (by decide)

/-- Behind blanks a text goes on in one way only. -/
theorem blanks_unique {b b' u u' : Text} {c c' : Char} (hb : ∀ d ∈ b, Text.isBlank d = true)
    (hb' : ∀ d ∈ b', Text.isBlank d = true) (hc : Text.isBlank c = false) (hc' : Text.isBlank c' = false)
    (h : b ++ c :: u = b' ++ c' :: u') : b = b' ∧ c = c' ∧ u = u' := by
  have hno {b : Text} (hb : ∀ d ∈ b, Text.isBlank d = true) {c : Char} (hc : Text.isBlank c = false) : c ∉ b :=
    fun hmem => absurd ((hb c hmem).symm.trans hc) (by decide)
  obtain ⟨k, rfl, hk⟩ := Text.cut_after (u := b) h (hno hb hc')
  rcases k with _ | ⟨d, k⟩
  · obtain ⟨rfl, rfl⟩ := List.cons.inj hk
    exact ⟨(List.append_nil b).symm, rfl, rfl⟩
  · obtain ⟨rfl, -⟩ := List.cons.inj hk
    exact absurd (by simp) (hno hb' hc)

/-- An arrow function of one argument does not begin with a bracket. -/
theorem hit?_of_bracket {q : Pattern} {behind b t : Text} (hb : ∀ c ∈ b, Text.isBlank c = true) :
    (seq (text ".map(") (seq blanks (seq (group 1 (some1 isItemChar)) q))).hit? behind
      (".map(".toList ++ (b ++ '(' :: t)) = none := by
  refine Option.eq_none_iff_forall_ne_some.2 fun h hh => ?_
  obtain ⟨rest, ht, htakes⟩ := takes_of_hit? hh
  simp only [Pattern.blanks, takes_seq_text, plain_many.takes_seq, plain_some1.takes_seq_group] at htakes
  obtain ⟨_, hw, before, _, rfl, hbefore, item, v, rfl, ⟨hne, hitem⟩, -⟩ := htakes
  obtain ⟨c, item, rfl⟩ := List.exists_cons_of_ne_nil hne
  rw [hw, List.append_assoc, List.append_assoc] at ht
  have hc : isItemChar c = true := hitem c (List.mem_cons_self ..)
  obtain ⟨-, rfl, -⟩ := blanks_unique hb hbefore (by decide) (isBlank_of_isItemChar hc) (List.append_cancel_left ht)
  exact absurd hc (by decide)

theorem notMem_of_isBlank {b : Text} (hb : ∀ c ∈ b, Text.isBlank c = true) {c : Char} (hc : Text.isBlank c = false) :
    c ∉ b := fun hmem => absurd ((hb c hmem).symm.trans hc) (by decide)

/-- A tag ends where its name ends, its attributes at the first closing bracket. -/
theorem infix_attributes {tag tag' attributes k rest rest' : Text} {d : Char} (hd : Text.isWord d = false) (hd' : d ≠ '>')
    (ht : '>' ∉ tag) (ht' : ∀ c ∈ tag', Text.isWord c = true) (hk : '>' ∉ k)
    (h : tag ++ d :: (k ++ rest) = tag' ++ (attributes ++ '>' :: rest')) : k <:+: attributes := by
  have hno : '>' ∉ tag ++ d :: k := by
    rw [List.mem_append, List.mem_cons, not_or, not_or]
    exact ⟨ht, hd'.symm, hk⟩
  have hpre : tag ++ d :: k <+: tag' ++ attributes := by
    refine Text.prefix_of_notMem (d := '>') (v := rest') ?_ hno
    exact ⟨rest, by rw [List.append_assoc, List.append_assoc, ← h, List.cons_append]⟩
  obtain ⟨z, hz⟩ := hpre
  have htag : tag' <+: tag := by
    refine Text.prefix_of_notMem (d := d) (v := k ++ z) ?_ fun hmem => absurd ((ht' d hmem).symm.trans hd) (by decide)
    exact ⟨attributes, by rw [← hz, List.append_assoc, List.cons_append]⟩
  obtain ⟨s, rfl⟩ := htag
  rw [List.append_assoc, List.append_assoc] at hz
  exact ⟨s ++ [d], z, by rw [← List.append_cancel_left hz]; simp⟩

/-- The element with a key is recognised as one that has a key. -/
theorem key_in_attributes {behind item index tag key tail t : Text} {h : Hit}
    (hh : mapWithIndex.hit? behind (keyedOpening item index tag key tail ++ t) = some h) (hi : ',' ∉ item)
    (hx : ')' ∉ index) (ht : ∀ c ∈ tag, Text.isWord c = true) :
    Text.occursIn "key=".toList (h.group 4) = true := by
  obtain ⟨before, item', b₁, index', b₂, b₃, tag', attributes', content', b₄, rest, heq, hw, hg, hblanks, hitem₂,
    hindex', htag', -⟩ := shape_mapWithIndex hh
  have h4 : h.group 4 = attributes' := by rw [Hit.group, hg]; rfl
  simp only [List.mem_append, or_imp, forall_and] at hblanks
  obtain ⟨⟨⟨hbefore, hb₁⟩, hb₂⟩, hb₃⟩ := hblanks
  have hmap : ".map(".toList = '.' :: "map(".toList := by decide
  have hmap' : "map((".toList = "map(".toList ++ ['('] := by decide
  have harrow : " => ".toList = [' '] ++ '=' :: '>' :: [' '] := by decide
  have hkey : '>' ∉ "key=\x7b".toList := by decide
  have hkey' : "key=".toList <:+: "key=\x7b".toList := (Text.occursIn_iff _ _).1 (by decide)
  rw [keyedOpening_eq, hw, hmap, hmap', harrow] at heq
  rw [h4, Text.occursIn_iff]
  generalize "map(".toList = m, "key=\x7b".toList = k at heq hkey hkey'
  -- The parts of the match are found one after another.
  simp only [List.append_assoc, List.cons_append, List.nil_append] at heq
  have heq := List.append_cancel_left (List.cons.inj heq).2
  obtain ⟨-, heq⟩ := Text.cut_unique (u := []) heq (by simp) (notMem_of_isBlank hbefore (by decide))
  obtain ⟨-, heq⟩ := Text.cut_unique heq hi fun hmem => (hitem₂ ',' hmem).1 rfl
  rw [← List.cons_append, ← List.append_assoc b₁] at heq
  obtain ⟨-, heq⟩ := Text.cut_unique heq (by simpa using hx) (by
    rw [List.mem_append, not_or]
    exact ⟨notMem_of_isBlank hb₁ (by decide), hindex'⟩)
  obtain ⟨-, heq⟩ := Text.cut_unique (u := [' ']) heq (by decide) (notMem_of_isBlank hb₂ (by decide))
  obtain ⟨-, heq⟩ := Text.cut_unique (u := [' ']) (List.cons.inj heq).2 (by decide) (notMem_of_isBlank hb₃ (by decide))
  have htag : '>' ∉ tag := fun hmem => absurd (ht '>' hmem) (by decide)
  exact hkey'.trans (infix_attributes (by decide) (by decide) htag htag' hkey heq)

/-- Once an element has a key, no rule changes it. -/
theorem Keyed.fixed {w : Text} (hw : Keyed w) {r : KeyRule} (hr : r ∈ keyRules) {behind t : Text} {h : Hit}
    (hh : r.pattern.hit? behind (w ++ t) = some h) : r.write h = h.text := by
  obtain ⟨item, index, tag, key, tail, rfl, hi, -, hx, ht⟩ := hw.shape
  obtain ⟨z, hbracket⟩ : ∃ z, keyedOpening item index tag key tail ++ t = ".map(".toList ++ ([] ++ '(' :: z) := by
    unfold keyedOpening
    simp only [List.append_assoc]
    exact ⟨_, rfl⟩
  simp only [keyRules, List.mem_cons, List.not_mem_nil, or_false] at hr
  rcases hr with rfl | rfl | rfl
  · rw [hbracket] at hh
    exact absurd ((hit?_of_bracket (by simp)).symm.trans hh) (by simp)
  · rw [hbracket] at hh
    exact absurd ((hit?_of_bracket (by simp)).symm.trans hh) (by simp)
  · have hkey := key_in_attributes hh hi hx ht
    show keyWithIndex h = h.text
    rw [keyWithIndex]
    dsimp only
    rw [if_pos (by rw [skipsKey, hkey]; rfl)]

end LayeredFix.Pass.Component
