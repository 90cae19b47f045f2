import LayeredFix.Proofs.Component.Attribute
import LayeredFix.Proofs.Component.Keyed

/-!
# The head of an element that has a key

From the rendering of a list to the key of its element there is one closing bracket, that of the arrow, if the attributes
in front of the key hold none (`KeyedHead`). So a rule for keys that matches where the head begins finds the key among the
attributes and writes the match as it is (`write_eq_text`). Other matches do not begin in the head (`skips_tail`); those
that begin in front of it have their two ends in front of it or around it (`opens_apart`, `closes_apart`), if the
parameters of callbacks are closed (`Closed`).
-/

namespace LayeredFix.Pass.Component

open Pattern

/-! ### The head of an element -/

/-- The parameters of a callback. -/
inductive Params where
  /-- A name. -/
  | name (n : Text) (hne : n ≠ []) (hn : ∀ c ∈ n, Text.isWord c = true ∨ c = '$')
  /-- What stands in brackets. -/
  | bracketed (p : Text) (hp : ∀ c ∈ p, c ≠ '(' ∧ c ≠ ')' ∧ c ≠ '>')

/-- Parameters as they are written. -/
def Params.text : Params → Text
  | name n _ _ => n
  | bracketed p _ => '(' :: (p ++ [')'])

theorem Params.notMem_text (p : Params) : '>' ∉ p.text := by
  intro hmem
  cases p with
  | name n _ hn => exact absurd (hn '>' hmem) (by decide)
  | bracketed p hp =>
    simp only [text, List.mem_cons, List.mem_append, List.not_mem_nil, or_false] at hmem
    rcases hmem with h | h | h
    · exact absurd h (by decide)
    · exact (hp '>' h).2.2 rfl
    · exact absurd h (by decide)

/-- No list opens in parameters. -/
theorem Params.flat_text (p : Params) {r : Text} (hr : '.' ∉ r) : Flat (p.text ++ r) := by
  cases p with
  | name n _ hn => exact flat_append (fun hmem => absurd (hn '.' hmem) (by decide)) (flat_of_no_dot hr)
  | bracketed p hp =>
    have hflat : Flat p := fun hin => (hp '(' (hin.subset (by decide))).1 rfl
    rw [text, List.cons_append, List.append_assoc, List.singleton_append]
    exact flat_append (u := ['(']) (by decide) (flat_append_cons (by decide) hflat (flat_of_no_dot hr))

/-- The rendering of a list up to the key of its element. -/
structure KeyedHead where
  /-- Blanks in front of the parameters. -/
  before : Text
  /-- The parameters of the callback. -/
  params : Params
  /-- Blanks in front of the arrow. -/
  after : Text
  /-- What stands between the arrow and the element: blanks, an opening bracket, or the beginning of a block. -/
  lead : Text
  /-- The tag. -/
  tag : Text
  /-- The attributes in front of the key. -/
  attributes : List Attribute
  /-- The blanks in front of the key. -/
  gap : Text
  before_blank : ∀ c ∈ before, Text.isBlank c = true
  after_blank : ∀ c ∈ after, Text.isBlank c = true
  lead_chars : ∀ c ∈ lead, Text.isBlank c = true ∨ Text.isWord c = true ∨ c = '(' ∨ c = '\x7b'
  tag_chars : ∀ c ∈ tag, isNameChar c = true ∨ c = '.'
  gap_ne_nil : gap ≠ []
  gap_blank : ∀ c ∈ gap, Text.isBlank c = true

/-- Behind each opening bracket of a callback there is a closing one. -/
def Closed (a : Text) : Prop :=
  ∀ u b v, a = u ++ (".map(".toList ++ (b ++ '(' :: v)) → (∀ c ∈ b, Text.isBlank c = true) → ')' ∈ v

theorem Closed.right {u v : Text} (h : Closed (u ++ v)) : Closed v :=
  fun w b r hv => h (u ++ w) b r (by rw [hv, List.append_assoc])

/-- No callback opens where no list does. -/
theorem Flat.closed {a : Text} (h : Flat a) : Closed a := by
  intro u b v ha
  refine absurd ?_ h
  rw [ha]
  exact ⟨u, b ++ '(' :: v, by rw [List.append_assoc]⟩

/-- Closed parameters in front of a text end in front of it. -/
theorem Closed.params {a r b p tl y : Text} (ha : Closed a) (hb : ∀ c ∈ b, Text.isBlank c = true) (hp : ')' ∉ p)
    (hopen : ".map(".toList ++ (b ++ ['(']) <+: a)
    (h : ".map(".toList ++ (b ++ '(' :: (p ++ ')' :: tl)) ++ y = a ++ r) :
    ∃ w, a = ".map(".toList ++ (b ++ '(' :: (p ++ ')' :: w)) ∧ tl ++ y = w ++ r := by
  obtain ⟨w, rfl⟩ := hopen
  have hclosed : ')' ∈ w := ha [] b w (by simp) hb
  obtain ⟨w₁, w₂, rfl, hw₁⟩ := List.eq_append_cons_of_mem hclosed
  simp only [List.append_assoc, List.cons_append, List.nil_append] at h
  have hrest := (List.cons.inj (List.append_cancel_left (List.append_cancel_left h))).2
  obtain ⟨rfl, htl⟩ := Text.cut_unique hrest hp hw₁
  exact ⟨w₂, by simp, htl⟩

/-- The brackets around the parameters of a function of two arguments close behind them. -/
theorem notMem_params {item b index : Text} (hitem : ∀ c ∈ item, c ≠ ',' ∧ c ≠ ')') (hb : ∀ c ∈ b, Text.isBlank c = true)
    (hindex : ')' ∉ index) : ')' ∉ item ++ ',' :: (b ++ index) := by
  simp only [List.mem_append, List.mem_cons, not_or]
  exact ⟨fun hmem => (hitem _ hmem).2 rfl, by decide, notMem_of_isBlank hb (by decide), hindex⟩

/-- A match with the attributes of its element: they end at a closing bracket, and a key among them keeps it. -/
theorem KeyRule.exists_attributes {r : KeyRule} (hr : r ∈ keyRules) {behind t : Text} {h : Hit}
    (hh : r.pattern.hit? behind t = some h) :
    ∃ front front' attributes slash tail, h.text = front ++ (attributes ++ (slash ++ '>' :: tail)) ∧ Opens front front' ∧
      (slash = [] ∨ slash = ['/']) ∧ (Text.occursIn "key=".toList attributes = true → r.write h = h.text) := by
  simp only [keyRules, List.mem_cons, List.not_mem_nil, or_false] at hr
  rcases hr with rfl | rfl | rfl
  · obtain ⟨before, item, b₁, b₂, tag, attributes, content, b₃, rest, -, hw, hg, hblanks, hitem, htag, -⟩ :=
      shape_mapWithChildren hh
    refine ⟨_, _, attributes, [], content ++ '<' :: '/' :: (tag ++ '>' :: (b₃ ++ [')'])), ?_,
      .single before item b₁ b₂ tag rfl rfl hblanks hitem htag, Or.inl rfl, fun hkey => ?_⟩
    · rw [hw]
      simp only [List.append_assoc, List.cons_append, List.nil_append]
    · have h3 : h.group 3 = attributes := by rw [Hit.group, hg]; rfl
      show keyWithChildren h = h.text
      unfold keyWithChildren
      dsimp only
      rw [h3, skipsKey, hkey, Bool.true_or, Bool.true_or, if_pos rfl]
  · obtain ⟨before, item, b₁, b₂, tag, attributes, rest, -, hw, hg, hblanks, hitem, htag⟩ := shape_mapSelfClosing hh
    refine ⟨_, _, attributes, ['/'], [], ?_, .single before item b₁ b₂ tag rfl rfl hblanks hitem htag, Or.inr rfl,
      fun hkey => ?_⟩
    · rw [hw]
      simp only [List.append_assoc, List.cons_append, List.nil_append]
    · have h3 : h.group 3 = attributes := by rw [Hit.group, hg]; rfl
      show keySelfClosing h = h.text
      unfold keySelfClosing
      dsimp only
      rw [h3, skipsKey, hkey, Bool.true_or, Bool.true_or, if_pos rfl]
  · obtain ⟨before, item, b₁, index, b₂, b₃, tag, attributes, content, b₄, rest, -, hw, hg, hblanks, hitem, hindex,
      htag, -⟩ := shape_mapWithIndex hh
    refine ⟨_, _, attributes, [], content ++ '<' :: '/' :: (tag ++ '>' :: (b₄ ++ [')'])), ?_,
      .double before item b₁ index b₂ b₃ tag rfl rfl hblanks hitem hindex htag, Or.inl rfl, fun hkey => ?_⟩
    · rw [hw]
      simp only [List.append_assoc, List.cons_append, List.nil_append]
    · have h4 : h.group 4 = attributes := by rw [Hit.group, hg]; rfl
      show keyWithIndex h = h.text
      unfold keyWithIndex
      dsimp only
      rw [h4, skipsKey, hkey, Bool.true_or, Bool.true_or, if_pos rfl]

namespace KeyedHead

variable (o : KeyedHead)

/-- The head up to the arrow. -/
def callback : Text := ".map(".toList ++ (o.before ++ (o.params.text ++ (o.after ++ ['='])))

/-- The head behind the arrow. -/
def element : Text := o.lead ++ '<' :: (o.tag ++ (attributesText o.attributes ++ (o.gap ++ "key=".toList)))

/-- The head as it is written. -/
def text : Text := o.callback ++ '>' :: o.element

theorem text_append (z : Text) : o.text ++ z = o.callback ++ '>' :: (o.element ++ z) := by
  rw [text, List.append_assoc, List.cons_append]

theorem notMem_lead {c : Char} (hblank : Text.isBlank c = false) (hword : Text.isWord c = false) (hc : c ≠ '(')
    (hc' : c ≠ '\x7b') : c ∉ o.lead := by
  intro hmem
  rcases o.lead_chars c hmem with h | h | h | h
  · exact absurd (h.symm.trans hblank) (by decide)
  · exact absurd (h.symm.trans hword) (by decide)
  · exact hc h
  · exact hc' h

theorem notMem_tag {c : Char} (hname : isNameChar c = false) (hc : c ≠ '.') : c ∉ o.tag := by
  intro hmem
  rcases o.tag_chars c hmem with h | h
  · exact absurd (h.symm.trans hname) (by decide)
  · exact hc h

theorem notMem_gap {c : Char} (hblank : Text.isBlank c = false) : c ∉ o.gap := notMem_of_isBlank o.gap_blank hblank

/-- The bracket of the arrow is the first one. -/
theorem notMem_callback : '>' ∉ o.callback := by
  unfold callback
  simp only [List.mem_append, not_or]
  exact ⟨by decide, notMem_of_isBlank o.before_blank (by decide), o.params.notMem_text,
    notMem_of_isBlank o.after_blank (by decide), by decide⟩

/-- It is the only one, if the attributes hold none. -/
theorem notMem_element (harrow : '>' ∉ attributesText o.attributes) : '>' ∉ o.element := by
  unfold element
  simp only [List.mem_append, List.mem_cons, not_or]
  exact ⟨o.notMem_lead (by decide) (by decide) (by decide) (by decide), by decide, o.notMem_tag (by decide) (by decide),
    harrow, o.notMem_gap (by decide), by decide⟩

/-- What follows the tag is a blank, and the key stands behind it. -/
theorem exists_behind_tag : ∃ d k, attributesText o.attributes ++ (o.gap ++ "key=".toList) = d :: (k ++ "key=".toList) ∧
    Text.isBlank d = true := by
  have hne : attributesText o.attributes ++ o.gap ≠ [] := fun h => o.gap_ne_nil (List.append_eq_nil_iff.1 h).2
  obtain ⟨d, k, hd⟩ := List.exists_cons_of_ne_nil hne
  refine ⟨d, k, by rw [← List.append_assoc, hd, List.cons_append], ?_⟩
  rcases hl : attributesText o.attributes with _ | ⟨c, l⟩
  · rw [hl, List.nil_append] at hd
    exact o.gap_blank d (by rw [hd]; exact List.mem_cons_self ..)
  · rw [hl, List.cons_append] at hd
    obtain rfl := (List.cons.inj hd).1
    exact head?_attributesText (by rw [hl]; rfl)

/-- No other list opens in front of the arrow. -/
theorem flat_callback : Flat o.callback.tail := by
  have hmap : ".map(".toList = '.' :: "map(".toList := by decide
  have hafter : '.' ∉ o.after ++ ['='] := by
    rw [List.mem_append, not_or]
    exact ⟨notMem_of_isBlank o.after_blank (by decide), by decide⟩
  unfold callback
  rw [hmap, List.cons_append, List.tail_cons]
  exact flat_append (by decide) (flat_append (notMem_of_isBlank o.before_blank (by decide)) (o.params.flat_text hafter))

/-! ### Where a match may begin -/

/-- No list opens in the tag or in what stands in front of it. -/
theorem not_opening_in_tag {u k r : Text} {d : Char} (hk : o.lead ++ '<' :: o.tag = u ++ k) (hd : Text.isBlank d = true) :
    ¬ ".map(".toList <+: k ++ d :: r := by
  intro hin
  have hblank : d ∉ ".map(".toList := by
    have hall : ∀ c ∈ ".map(".toList, Text.isBlank c = false := by decide
    exact fun hmem => absurd ((hall d hmem).symm.trans hd) (by decide)
  obtain ⟨k', rfl⟩ := Text.prefix_of_notMem hin hblank
  have hdot : '.' ∉ o.lead ++ ['<'] := by
    rw [List.mem_append, not_or]
    exact ⟨o.notMem_lead (by decide) (by decide) (by decide) (by decide), by decide⟩
  have hmap : ".map(".toList ++ k' = '.' :: ("map".toList ++ '(' :: k') := rfl
  rw [hmap, ← List.singleton_append (l := o.tag), ← List.append_assoc] at hk
  obtain ⟨w, -, htag⟩ := Text.cut_after hk hdot
  exact o.notMem_tag (c := '(') (by decide) (by decide) (by rw [htag]; simp)

/-- No match begins in the attributes in front of the key. -/
theorem not_opens_in_attributes (harrow : '>' ∉ attributesText o.attributes) (hclosed : Closed (attributesText o.attributes))
    {u s front front' y t : Text} (hs : attributesText o.attributes = u ++ '.' :: s) (hopen : Opens front front')
    (h : front ++ y = ('.' :: s) ++ (o.gap ++ "key=".toList) ++ t) : False := by
  have hno : '>' ∉ ('.' :: s) ++ (o.gap ++ "key=".toList) := by
    simp only [List.mem_append, not_or]
    refine ⟨fun hmem => harrow ?_, o.notMem_gap (by decide), by decide⟩
    rw [hs]
    exact List.mem_append_right _ hmem
  cases hopen with
  | single before item b₁ b₂ tag hfront hfront' hblanks hitem htag =>
    simp only [List.mem_append, or_imp, forall_and] at hblanks
    obtain ⟨e, he, hends⟩ := attributesText_value_ends hs (by decide) (by decide)
    -- The end of the value would stand in front of the arrow.
    have hpre : ('.' :: s) ++ (o.gap ++ "key=".toList) <+: ".map(".toList ++ (before ++ (item ++ (b₁ ++ ['=']))) := by
      refine Text.prefix_of_notMem (d := '>') (v := b₂ ++ '<' :: tag ++ y) ⟨t, ?_⟩ hno
      rw [← h, hfront]
      simp only [List.append_assoc, List.cons_append, List.nil_append]
    have hmem : e ∈ ".map(".toList ++ (before ++ (item ++ (b₁ ++ ['=']))) :=
      hpre.subset (List.mem_append_left _ he)
    have hall {e : Char} (hblank : Text.isBlank e = false) (hchar : isItemChar e = false)
        (he' : e ∉ ".map(".toList ∧ e ∉ ['=']) : e ∉ ".map(".toList ++ (before ++ (item ++ (b₁ ++ ['=']))) := by
      simp only [List.mem_append, not_or]
      exact ⟨he'.1, notMem_of_isBlank hblanks.1.1 hblank, notMem_of_isItemChar hitem hchar,
        notMem_of_isBlank hblanks.1.2 hblank, he'.2⟩
    rcases hends.cases with rfl | rfl | rfl
    · exact hall (by decide) (by decide) (by decide) hmem
    · exact hall (by decide) (by decide) (by decide) hmem
    · exact hall (by decide) (by decide) (by decide) hmem
  | double before item b₁ index b₂ b₃ tag hfront hfront' hblanks hitem hindex htag =>
    simp only [List.mem_append, or_imp, forall_and] at hblanks
    obtain ⟨⟨⟨hbefore, hb₁⟩, hb₂⟩, hb₃⟩ := hblanks
    have hbracket : ".map(".toList ++ (before ++ ['(']) <+: '.' :: s := by
      have hwhole : ".map(".toList ++ (before ++ ['(']) <+: (('.' :: s) ++ (o.gap ++ "key".toList)) ++ '=' :: t := by
        refine ⟨(item ++ ',' :: (b₁ ++ (index ++ ')' :: (b₂ ++ '=' :: '>' :: (b₃ ++ '<' :: tag))))) ++ y, ?_⟩
        have hkey : "key=".toList = "key".toList ++ ['='] := by decide
        rw [hkey] at h
        rw [hfront] at h
        simpa using h
      have hend := Text.prefix_of_notMem hwhole (by
        simp only [List.mem_append, not_or]
        exact ⟨by decide, notMem_of_isBlank hbefore (by decide), by decide⟩)
      rw [← List.append_assoc] at hend ⊢
      refine Text.prefix_of_last_notMem hend ?_
      rw [List.mem_append, not_or]
      exact ⟨o.notMem_gap (by decide), by decide⟩
    have hp := notMem_params hitem hb₁ hindex
    have hcut : ".map(".toList ++ (before ++ '(' :: ((item ++ ',' :: (b₁ ++ index)) ++ ')' ::
        (b₂ ++ '=' :: '>' :: (b₃ ++ '<' :: tag)))) ++ y = ('.' :: s) ++ ((o.gap ++ "key=".toList) ++ t) := by
      rw [← List.append_assoc ('.' :: s), ← h, hfront]
      simp only [List.append_assoc, List.cons_append]
    rw [hs] at hclosed
    obtain ⟨w, hw, htl⟩ := hclosed.right.params hbefore hp hbracket hcut
    -- Behind the parameters there is the key, not the arrow.
    have hkey : w ++ (o.gap ++ "key=".toList) <+: b₂ ++ ['='] := by
      refine Text.prefix_of_notMem (d := '>') (v := b₃ ++ '<' :: tag ++ y) ⟨t, ?_⟩ fun hmem => hno ?_
      · rw [List.append_assoc, ← htl]
        simp only [List.append_assoc, List.cons_append, List.nil_append]
      · rcases List.mem_append.1 hmem with hmem | hmem
        · rw [hw]
          simp [hmem]
        · exact List.mem_append_right _ hmem
    have hmem : 'k' ∈ b₂ ++ ['='] := hkey.subset (by simp)
    rw [List.mem_append] at hmem
    exact hmem.elim (notMem_of_isBlank hb₂ (by decide)) (by decide)

/-- No match begins behind the arrow. -/
theorem not_opens_in_element (harrow : '>' ∉ attributesText o.attributes) (hclosed : Closed (attributesText o.attributes))
    {u v front front' y t : Text} (huv : o.element = u ++ v) (hopen : Opens front front') (h : front ++ y = v ++ t)
    (hne : v ≠ []) : False := by
  have hmap : ".map(".toList = '.' :: "map(".toList := by decide
  have hbegins : ".map(".toList <+: v ++ t := by
    rw [← h]
    exact hopen.opening.trans (List.prefix_append _ _)
  obtain ⟨c, v, rfl⟩ := List.exists_cons_of_ne_nil hne
  obtain rfl : '.' = c := by
    rw [hmap] at hbegins
    exact (List.cons_prefix_cons.1 hbegins).1
  have helement : o.element =
      (o.lead ++ '<' :: o.tag) ++ (attributesText o.attributes ++ (o.gap ++ "key=".toList)) := by
    unfold element
    simp only [List.append_assoc, List.cons_append]
  rw [helement] at huv
  rcases List.append_eq_append_iff.1 huv with ⟨k, -, hk⟩ | ⟨k, hk, hv⟩
  · have hdot : '.' ∉ o.gap ++ "key=".toList := by
      rw [List.mem_append, not_or]
      exact ⟨o.notMem_gap (by decide), by decide⟩
    obtain ⟨s, hs, rfl⟩ := Text.cut_before hk hdot
    exact o.not_opens_in_attributes harrow hclosed hs hopen h
  · obtain ⟨d, k', hbehind, hd⟩ := o.exists_behind_tag
    rw [hv, hbehind, List.append_assoc, List.cons_append] at hbegins
    exact o.not_opening_in_tag hk hd hbegins

/-- **No match begins in the head of an element with a key, but at its beginning.** -/
theorem skips_tail (harrow : '>' ∉ attributesText o.attributes) (hclosed : Closed (attributesText o.attributes))
    {r : KeyRule} (hr : r ∈ keyRules) (behind t : Text) : r.pattern.Skips behind o.text.tail t := by
  intro u v huv hne
  refine Option.eq_none_iff_forall_ne_some.2 fun h hh => ?_
  obtain ⟨front, front', body, back, back', htext, hopen, -⟩ := KeyRule.rewriting hr hh
  obtain ⟨rest, ht⟩ := text_hit? hh
  rw [htext, List.append_assoc] at ht
  have hin (k : Text) (hv : v = k ++ '>' :: o.element) : ".map(".toList <+: k := by
    have hbegins : ".map(".toList <+: v ++ t := by
      rw [ht]
      exact hopen.opening.trans (List.prefix_append _ _)
    rw [hv, List.append_assoc, List.cons_append] at hbegins
    exact Text.prefix_of_notMem hbegins (by decide)
  have htail : o.text.tail = o.callback.tail ++ '>' :: o.element := rfl
  rw [htail] at huv
  rcases List.append_eq_append_iff.1 huv with ⟨k, -, hk⟩ | ⟨k, hk, hv⟩
  · rcases k with _ | ⟨c, k⟩
    · exact absurd (List.prefix_nil.1 (hin [] hk.symm)) (by decide)
    · exact o.not_opens_in_element harrow hclosed (List.cons.inj hk).2 hopen ht.symm hne
  · exact o.flat_callback ((hin k hv).isInfix.trans ⟨u, [], by rw [hk, List.append_nil]⟩)

/-! ### A match at the beginning -/

/-- What a match at the beginning of a head takes for the element is its element. -/
theorem element_of_opens {front front' y z : Text} (hopen : Opens front front') (h : front ++ y = o.text ++ z) :
    ∃ b tag, (∀ c ∈ b, Text.isBlank c = true) ∧ (∀ c ∈ tag, Text.isWord c = true) ∧
      b ++ '<' :: (tag ++ y) = o.element ++ z := by
  cases hopen with
  | single before item b₁ b₂ tag hfront hfront' hblanks hitem htag =>
    simp only [List.mem_append, or_imp, forall_and] at hblanks
    obtain ⟨⟨hbefore, hb₁⟩, hb₂⟩ := hblanks
    have hno : '>' ∉ ".map(".toList ++ (before ++ (item ++ (b₁ ++ ['=']))) := by
      simp only [List.mem_append, not_or]
      exact ⟨by decide, notMem_of_isBlank hbefore (by decide), notMem_of_isItemChar hitem (by decide),
        notMem_of_isBlank hb₁ (by decide), by decide⟩
    have hcut : (".map(".toList ++ (before ++ (item ++ (b₁ ++ ['='])))) ++ '>' :: (b₂ ++ '<' :: (tag ++ y)) =
        o.callback ++ '>' :: (o.element ++ z) := by
      rw [← text_append, ← h, hfront]
      simp only [List.append_assoc, List.cons_append, List.nil_append]
    exact ⟨b₂, tag, hb₂, htag, (Text.cut_unique hcut hno o.notMem_callback).2⟩
  | double before item b₁ index b₂ b₃ tag hfront hfront' hblanks hitem hindex htag =>
    simp only [List.mem_append, or_imp, forall_and] at hblanks
    obtain ⟨⟨⟨hbefore, hb₁⟩, hb₂⟩, hb₃⟩ := hblanks
    refine ⟨b₃, tag, hb₃, htag, ?_⟩
    have hcut : before ++ '(' :: ((item ++ ',' :: (b₁ ++ index)) ++ ')' :: (b₂ ++ '=' :: '>' :: (b₃ ++ '<' :: (tag ++ y)))) =
        o.before ++ (o.params.text ++ (o.after ++ '=' :: '>' :: (o.element ++ z))) := by
      rw [hfront] at h
      replace h := h.trans (o.text_append z)
      unfold callback at h
      simp only [List.append_assoc, List.cons_append, List.nil_append] at h ⊢
      exact List.append_cancel_left h
    cases hparams : o.params with
    | name n hne hn =>
      obtain ⟨c, n, rfl⟩ := List.exists_cons_of_ne_nil hne
      rw [hparams, Params.text, List.cons_append] at hcut
      have hc : Text.isBlank c = false := by
        refine isBlank_of_isNameChar ?_
        rcases hn c (List.mem_cons_self ..) with hc | rfl
        · rw [isNameChar, hc]
          rfl
        · decide
      obtain ⟨-, rfl, -⟩ := blanks_unique hbefore o.before_blank (by decide) hc hcut
      exact absurd (hn '(' (List.mem_cons_self ..)) (by decide)
    | bracketed p hp =>
      rw [hparams, Params.text, List.cons_append, List.append_assoc p] at hcut
      obtain ⟨-, -, hcut⟩ := blanks_unique hbefore o.before_blank (by decide) (by decide) hcut
      obtain ⟨-, hcut⟩ := Text.cut_unique hcut (notMem_params hitem hb₁ hindex) fun hmem => (hp ')' hmem).2.1 rfl
      obtain ⟨-, -, hcut⟩ := blanks_unique hb₂ o.after_blank (by decide) (by decide) hcut
      exact (List.cons.inj hcut).2

/-- A match at the beginning of a head finds the key among the attributes. -/
theorem key_seen (harrow : '>' ∉ attributesText o.attributes) {front front' attributes slash tail z : Text}
    (hopen : Opens front front') (hslash : slash = [] ∨ slash = ['/'])
    (h : front ++ (attributes ++ (slash ++ '>' :: tail)) = o.text ++ z) :
    Text.occursIn "key=".toList attributes = true := by
  obtain ⟨b, tag, hb, htag, heq⟩ := o.element_of_opens hopen h
  obtain ⟨d, k, hbehind, hd⟩ := o.exists_behind_tag
  have hno := o.notMem_element harrow
  have helement : o.element ++ z = o.lead ++ '<' :: (o.tag ++ d :: ((k ++ "key=".toList) ++ z)) := by
    rw [element, hbehind]
    simp only [List.append_assoc, List.cons_append]
  have hk : '>' ∉ k ++ "key=".toList := by
    rw [element, hbehind] at hno
    simp only [List.mem_append, List.mem_cons, not_or] at hno ⊢
    exact hno.2.2.2.2
  rw [helement] at heq
  obtain ⟨-, heq⟩ := Text.cut_unique heq (notMem_of_isBlank hb (by decide))
    (o.notMem_lead (by decide) (by decide) (by decide) (by decide))
  rw [← List.append_assoc attributes] at heq
  have hne : d ≠ '>' := by
    rintro rfl
    exact absurd hd (by decide)
  have hin : "key=".toList <:+: attributes ++ slash :=
    (List.suffix_append k _).isInfix.trans
      (infix_attributes (Text.isWord_of_isBlank hd) hne (o.notMem_tag (by decide) (by decide)) htag hk heq.symm)
  rw [Text.occursIn_iff]
  have hkey : "key=".toList = "key".toList ++ ['='] := by decide
  rw [hkey] at hin ⊢
  refine Text.infix_of_last_notMem hin ?_
  rcases hslash with rfl | rfl <;> decide

/-- A match at the beginning of a head reaches behind it. -/
theorem text_prefix (harrow : '>' ∉ attributesText o.attributes) {front front' body tail t : Text}
    (hopen : Opens front front') (h : front ++ (body ++ '>' :: tail) <+: t) (ht : o.text <+: t) :
    o.text <+: front ++ (body ++ '>' :: tail) := by
  refine (List.prefix_or_prefix_of_prefix ht h).elim id fun hpre => ?_
  -- The match holds two closing brackets, the head only one.
  have hfront : 0 < front.count '>' := by
    refine List.count_pos_iff.2 ?_
    cases hopen with
    | single before item b₁ b₂ tag hfront => rw [hfront]; simp
    | double before item b₁ index b₂ b₃ tag hfront => rw [hfront]; simp
  have hone : o.text.count '>' = 1 := by
    rw [text, List.count_append, List.count_cons_self, List.count_eq_zero.2 o.notMem_callback,
      List.count_eq_zero.2 (o.notMem_element harrow)]
  have htwo := hpre.sublist.count_le '>'
  rw [hone, List.count_append, List.count_append, List.count_cons_self] at htwo
  omega

/-- **A match at the beginning of a head of an element with a key is left as it is.** -/
theorem write_eq_text (harrow : '>' ∉ attributesText o.attributes) {r : KeyRule} (hr : r ∈ keyRules) {behind z : Text}
    {h : Hit} (hh : r.pattern.hit? behind (o.text ++ z) = some h) :
    r.write h = h.text ∧ ∃ m rest, h.text = o.text ++ m ∧ z = m ++ rest := by
  obtain ⟨front, front', attributes, slash, tail, hw, hopen, hslash, hkeeps⟩ := KeyRule.exists_attributes hr hh
  obtain ⟨rest, ht⟩ := text_hit? hh
  have hmatch : front ++ (attributes ++ (slash ++ '>' :: (tail ++ rest))) = o.text ++ z := by
    rw [ht, hw]
    simp only [List.append_assoc, List.cons_append]
  have hseen := o.key_seen harrow hopen hslash hmatch
  refine ⟨hkeeps hseen, ?_⟩
  have hreaches : o.text <+: h.text := by
    rw [hw, ← List.append_assoc attributes]
    refine o.text_prefix harrow hopen (t := o.text ++ z) ⟨rest, ?_⟩ (List.prefix_append _ _)
    rw [ht, hw]
    simp only [List.append_assoc]
  obtain ⟨m, hm⟩ := hreaches
  refine ⟨m, rest, hm.symm, ?_⟩
  rw [← hm, List.append_assoc] at ht
  exact List.append_cancel_left ht

/-! ### A match that begins in front -/

theorem exists_tail : ∃ tail, o.text = '.' :: tail := ⟨o.text.tail, rfl⟩

theorem exists_init : ∃ init, o.text = init ++ ['='] := by
  have hkey : "key=".toList = "key".toList ++ ['='] := by decide
  refine ⟨o.callback ++ '>' :: (o.lead ++ '<' :: (o.tag ++ (attributesText o.attributes ++ (o.gap ++ "key".toList)))), ?_⟩
  rw [text, element, hkey]
  simp only [List.append_assoc, List.cons_append]

/-- A stretch without dots ends in front of a head. -/
theorem prefix_of_dotless {a f y z : Text} (hf : '.' ∉ f) (h : f ++ y = a ++ (o.text ++ z)) : f <+: a := by
  obtain ⟨tail, htail⟩ := o.exists_tail
  rw [htail] at h
  have hpre : f <+: a ++ '.' :: (tail ++ z) := ⟨y, h⟩
  exact Text.prefix_of_notMem hpre hf

/-- The beginning of a match that begins in front of a head ends in front of it. -/
theorem opens_apart {front front' a y z : Text} (hopen : Opens front front') (ha : Closed a) (hne : a ≠ [])
    (h : front ++ y = a ++ (o.text ++ z)) : ∃ a', a = front ++ a' ∧ y = a' ++ (o.text ++ z) := by
  have hmap : ".map(".toList = '.' :: "map(".toList := by decide
  -- Behind its first character the beginning of a match holds no dot, but in parameters.
  have hdotless {f y : Text} (hf : '.' ∉ f) (h : '.' :: (f ++ y) = a ++ (o.text ++ z)) : '.' :: f <+: a := by
    obtain ⟨c, w, rfl⟩ := List.exists_cons_of_ne_nil hne
    obtain ⟨hc, hrest⟩ := List.cons.inj h
    exact List.cons_prefix_cons.2 ⟨hc, o.prefix_of_dotless hf hrest⟩
  have hpre : front <+: a := by
    cases hopen with
    | single before item b₁ b₂ tag hfront hfront' hblanks hitem htag =>
      simp only [List.mem_append, or_imp, forall_and] at hblanks
      rw [hfront, hmap, List.cons_append] at h ⊢
      refine hdotless ?_ h
      simp only [List.mem_append, List.mem_cons, not_or]
      exact ⟨by decide, notMem_of_isBlank hblanks.1.1 (by decide), notMem_of_isItemChar hitem (by decide),
        notMem_of_isBlank hblanks.1.2 (by decide), by decide, by decide, notMem_of_isBlank hblanks.2 (by decide), by decide,
        fun hmem => absurd (htag '.' hmem) (by decide)⟩
    | double before item b₁ index b₂ b₃ tag hfront hfront' hblanks hitem hindex htag =>
      simp only [List.mem_append, or_imp, forall_and] at hblanks
      obtain ⟨⟨⟨hbefore, hb₁⟩, hb₂⟩, hb₃⟩ := hblanks
      have hcut : ".map(".toList ++ (before ++ '(' :: ((item ++ ',' :: (b₁ ++ index)) ++ ')' ::
          (b₂ ++ '=' :: '>' :: (b₃ ++ '<' :: tag)))) ++ y = a ++ (o.text ++ z) := by
        rw [← h, hfront]
        simp only [List.append_assoc, List.cons_append]
      have hbracket : ".map(".toList ++ (before ++ ['(']) <+: a := by
        rw [hmap, List.cons_append]
        refine hdotless (y := item ++ ',' :: (b₁ ++ index) ++ ')' :: (b₂ ++ '=' :: '>' :: (b₃ ++ '<' :: tag)) ++ y) ?_ ?_
        · simp only [List.mem_append, not_or]
          exact ⟨by decide, notMem_of_isBlank hbefore (by decide), by decide⟩
        · rw [← hcut, hmap]
          simp only [List.append_assoc, List.cons_append, List.nil_append]
      have hp := notMem_params hitem hb₁ hindex
      obtain ⟨w, rfl, hw⟩ := ha.params hbefore hp hbracket hcut
      have htl : b₂ ++ '=' :: '>' :: (b₃ ++ '<' :: tag) <+: w := by
        refine o.prefix_of_dotless ?_ hw
        simp only [List.mem_append, List.mem_cons, not_or]
        exact ⟨notMem_of_isBlank hb₂ (by decide), by decide, by decide, notMem_of_isBlank hb₃ (by decide), by decide,
          fun hmem => absurd (htag '.' hmem) (by decide)⟩
      obtain ⟨w, rfl⟩ := htl
      refine ⟨w, ?_⟩
      rw [hfront]
      simp only [List.append_assoc, List.cons_append]
  obtain ⟨a', rfl⟩ := hpre
  rw [List.append_assoc] at h
  exact ⟨a', rfl, List.append_cancel_left h⟩

/-- The arrow of a head stands at its only closing bracket. -/
theorem cut_arrow (harrow : '>' ∉ attributesText o.attributes) {k j : Text} (h : o.text = k ++ '>' :: j) :
    k = o.callback ∧ j = o.element := by
  obtain ⟨k', rfl, hk'⟩ := Text.cut_after h o.notMem_callback
  rcases k' with _ | ⟨c, k'⟩
  · exact ⟨List.append_nil _, (List.cons.inj hk').2.symm⟩
  · obtain ⟨-, helement⟩ := List.cons.inj hk'
    exact absurd (by rw [helement]; simp) (o.notMem_element harrow)

/-- No match ends in a head. -/
theorem not_closes_inside (harrow : '>' ∉ attributesText o.attributes) {back back' k j rest z : Text}
    (hclose : Closes back back') (hkj : o.text = k ++ j) (hne : j ≠ []) (h : back ++ rest = j ++ z) : False := by
  obtain ⟨c, j, rfl⟩ := List.exists_cons_of_ne_nil hne
  cases hclose with
  | empty hback hback' =>
    rw [hback] at h
    obtain ⟨hc, hrest⟩ := List.cons.inj h
    rcases j with _ | ⟨d, j⟩
    · -- A head ends in the sign behind the name of the key.
      obtain ⟨init, hinit⟩ := o.exists_init
      have hlast := List.singleton_inj.1 (List.append_inj' (hinit.symm.trans hkj) rfl).2
      exact absurd (hlast.trans hc.symm) (by decide)
    · -- In front of the bracket of the arrow there is the rest of the arrow.
      obtain ⟨hd, -⟩ := List.cons.inj hrest
      rw [← hc, ← hd, ← List.singleton_append, ← List.append_assoc] at hkj
      have hsign : o.callback = (".map(".toList ++ (o.before ++ (o.params.text ++ o.after))) ++ ['='] := by
        unfold callback
        simp only [List.append_assoc]
      have hlast := (List.append_inj' ((o.cut_arrow harrow hkj).1.trans hsign) rfl).2
      exact absurd (List.singleton_inj.1 hlast) (by decide)
  | content b hback hback' hb =>
    rw [hback] at h
    obtain ⟨hc, hrest⟩ := List.cons.inj h
    rw [← hc] at hkj
    obtain ⟨-, rfl⟩ := o.cut_arrow harrow hkj
    -- Behind the arrow the element comes before a closing bracket.
    have hlead : ')' ∉ o.lead ++ ['<'] := by
      rw [List.mem_append, not_or]
      exact ⟨o.notMem_lead (by decide) (by decide) (by decide) (by decide), by decide⟩
    have hcut : (o.lead ++ ['<']) ++ (o.tag ++ (attributesText o.attributes ++ (o.gap ++ "key=".toList)) ++ z) =
        b ++ ')' :: rest := by
      rw [element] at hrest
      simpa using hrest.symm
    obtain ⟨k', rfl, -⟩ := Text.cut_after hcut hlead
    exact absurd (by simp) (notMem_of_isBlank hb (by decide : Text.isBlank '<' = false))

/-- The end of a match that begins in front of a head stands in front of it or behind it. -/
theorem closes_apart (harrow : '>' ∉ attributesText o.attributes) {body back back' rest a z : Text}
    (hclose : Closes back back') (h : body ++ (back ++ rest) = a ++ (o.text ++ z)) :
    (∃ a', a = body ++ (back ++ a') ∧ rest = a' ++ (o.text ++ z)) ∨
      ∃ m, body = a ++ (o.text ++ m) ∧ z = m ++ (back ++ rest) := by
  rcases List.append_eq_append_iff.1 h with ⟨k, rfl, hk⟩ | ⟨k, rfl, hk⟩
  · left
    rcases List.append_eq_append_iff.1 hk with ⟨a', rfl, hrest⟩ | ⟨j, hj, hrest⟩
    · exact ⟨a', rfl, hrest⟩
    · rcases j with _ | ⟨c, j⟩
      · exact ⟨[], by rw [hj, List.append_nil, List.append_nil], hrest.symm⟩
      · obtain ⟨tail, htail⟩ := o.exists_tail
        rw [htail] at hrest
        obtain ⟨hc, -⟩ := List.cons.inj hrest
        have hdot : '.' ∈ back := by
          rw [hj, ← hc]
          simp
        cases hclose with
        | empty hback => exact absurd (hback ▸ hdot) (by decide)
        | content b hback _ hb =>
          rw [hback, List.mem_cons, List.mem_append] at hdot
          rcases hdot with hdot | hdot | hdot
          · exact absurd hdot (by decide)
          · exact absurd hdot (notMem_of_isBlank hb (by decide))
          · exact absurd hdot (by decide)
  · right
    rcases List.append_eq_append_iff.1 hk with ⟨m, rfl, hz⟩ | ⟨j, hj, hrest⟩
    · exact ⟨m, rfl, hz⟩
    · by_cases hne : j = []
      · subst hne
        rw [List.append_nil] at hj
        exact ⟨[], by rw [hj, List.append_nil], hrest.symm⟩
      · exact (o.not_closes_inside harrow hclose hj hne hrest).elim

end KeyedHead

end LayeredFix.Pass.Component
