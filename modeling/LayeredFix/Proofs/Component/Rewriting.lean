import LayeredFix.Pass.Component
import LayeredFix.Proofs.Text.Reading

/-!
# What the rules for keys write

Three rules give a key to the elements that are rendered from lists (`KeyRule`). A rule that changes a match keeps its
middle, from the attributes on, and writes something else for its two ends: the key goes in behind the tag (`Opens`),
and blanks before the last bracket are left out (`Closes`). `KeyRule.rewriting` says so for all rules.
-/

namespace LayeredFix.Pass.Component

open Pattern

/-! ### The rules -/

/-- A rule for keys: what it matches and what it writes instead. -/
structure KeyRule where
  /-- What it matches. -/
  pattern : Pattern
  /-- What it writes instead. -/
  write : Hit → Text

/-- The text after a rule was applied. -/
def KeyRule.apply (r : KeyRule) (t : Text) : Text := r.pattern.replace r.write t

/-- The rules in the order in which they are applied. -/
def keyRules : List KeyRule :=
  [⟨mapWithChildren, keyWithChildren⟩, ⟨mapSelfClosing, keySelfClosing⟩, ⟨mapWithIndex, keyWithIndex⟩]

theorem addMissingKeys_eq (t : Text) : addMissingKeys t = keyRules.foldl (fun t r => r.apply t) t := rfl

/-! ### The two ends of a match -/

/-- The beginning of a match, up to the tag, and what is written for it. -/
inductive Opens (front front' : Text) : Prop where
  /-- The callback has one argument. -/
  | single (before item b₁ b₂ tag : Text)
      (hfront : front = ".map(".toList ++ (before ++ (item ++ (b₁ ++ '=' :: '>' :: (b₂ ++ '<' :: tag)))))
      (hfront' : front' = keyedOpening item "index".toList tag (itemKey item) [])
      (hblanks : ∀ c ∈ before ++ b₁ ++ b₂, Text.isBlank c = true) (hitem : ∀ c ∈ item, isItemChar c = true)
      (htag : ∀ c ∈ tag, Text.isWord c = true)
  /-- The callback has two arguments. -/
  | double (before item b₁ index b₂ b₃ tag : Text)
      (hfront : front = ".map(".toList ++ (before ++ '(' :: (item ++ ',' :: (b₁ ++ (index ++ ')' :: (b₂ ++
        '=' :: '>' :: (b₃ ++ '<' :: tag)))))))
      (hfront' : front' = keyedOpening item (Text.trim index) tag (Text.trim index) [])
      (hblanks : ∀ c ∈ before ++ b₁ ++ b₂ ++ b₃, Text.isBlank c = true) (hitem : ∀ c ∈ item, c ≠ ',' ∧ c ≠ ')')
      (hindex : ')' ∉ index) (htag : ∀ c ∈ tag, Text.isWord c = true)

/-- The end of a match and what is written for it. -/
inductive Closes (back back' : Text) : Prop where
  /-- An element without content ends as it did. -/
  | empty (hback : back = ['/', '>']) (hback' : back' = back)
  /-- Blanks before the closing bracket are left out. -/
  | content (b : Text) (hback : back = '>' :: (b ++ [')'])) (hback' : back' = ['>', ')'])
      (hb : ∀ c ∈ b, Text.isBlank c = true)

/-- A match and what is written for it: the match itself, or other ends around the same middle. -/
def Rewriting (w w' : Text) : Prop :=
  ∃ front front' body back back', w = front ++ (body ++ back) ∧ Opens front front' ∧ Closes back back' ∧
    (w' = w ∨ w' = front' ++ (body ++ back'))

theorem Opens.opening {front front' : Text} (h : Opens front front') : ".map(".toList <+: front := by
  cases h with
  | single _ _ _ _ _ hfront => exact ⟨_, hfront.symm⟩
  | double _ _ _ _ _ _ _ hfront => exact ⟨_, hfront.symm⟩

theorem keyedOpening_append (item index tag key tail rest : Text) :
    keyedOpening item index tag key tail ++ rest = keyedOpening item index tag key (tail ++ rest) := by
  unfold keyedOpening
  rw [List.append_assoc]

/-- An element with content is put together from its opening, the middle and its end. -/
theorem keyedOpening_content (item index tag key attributes content : Text) :
    keyedOpening item index tag key attributes ++ ">".toList ++ content ++ "</".toList ++ tag ++ ">)".toList =
      keyedOpening item index tag key [] ++
        ((attributes ++ '>' :: (content ++ '<' :: '/' :: tag)) ++ ['>', ')']) := by
  have hopen : "</".toList = ['<', '/'] := by decide
  have hclose : ">)".toList = ['>', ')'] := by decide
  have hend : ">".toList = ['>'] := by decide
  rw [hopen, hclose, hend]
  simp only [keyedOpening_append, List.append_assoc, List.cons_append, List.nil_append]

/-! ### What the rules match -/

/-- The parts of a match of the rule for functions of two arguments. -/
theorem shape_mapWithIndex {behind t : Text} {h : Hit} (hh : mapWithIndex.hit? behind t = some h) :
    ∃ before item b₁ index b₂ b₃ tag attributes content b₄ rest, t = h.text ++ rest ∧
      h.text = ".map(".toList ++ (before ++ '(' :: (item ++ ',' :: (b₁ ++ (index ++ ')' :: (b₂ ++ '=' :: '>' ::
        (b₃ ++ '<' :: (tag ++ (attributes ++ '>' :: (content ++ '<' :: '/' :: (tag ++ '>' :: (b₄ ++ [')']))))))))))) ∧
      h.groups = [(5, content), (4, attributes), (3, tag), (2, index), (1, item)] ∧
      (∀ c ∈ before ++ b₁ ++ b₂ ++ b₃, Text.isBlank c = true) ∧ (∀ c ∈ item, c ≠ ',' ∧ c ≠ ')') ∧
      ')' ∉ index ∧ (∀ c ∈ tag, Text.isWord c = true) ∧ ∀ c ∈ b₄, Text.isBlank c = true := by
  obtain ⟨rest, ht, htakes⟩ := takes_of_hit? hh
  obtain ⟨_, hw, h₁⟩ := takes_seq_text.1 htakes
  obtain ⟨before, _, rfl, hbefore, h₂⟩ := plain_many.takes_seq.1 h₁
  obtain ⟨_, rfl, h₃⟩ := takes_seq_text.1 h₂
  obtain ⟨item, _, rfl, ⟨-, hitem⟩, h₄⟩ := plain_some1.takes_seq_group.1 h₃
  obtain ⟨_, rfl, h₅⟩ := takes_seq_text.1 h₄
  obtain ⟨b₁, _, rfl, hb₁, h₆⟩ := plain_many.takes_seq.1 h₅
  obtain ⟨index, _, rfl, ⟨-, hindex⟩, h₇⟩ := plain_some1.takes_seq_group.1 h₆
  obtain ⟨_, rfl, h₈⟩ := takes_seq_text.1 h₇
  obtain ⟨b₂, _, rfl, hb₂, h₉⟩ := plain_many.takes_seq.1 h₈
  obtain ⟨_, rfl, h₁₀⟩ := takes_seq_text.1 h₉
  obtain ⟨b₃, _, rfl, hb₃, h₁₁⟩ := plain_many.takes_seq.1 h₁₀
  obtain ⟨_, rfl, h₁₂⟩ := takes_seq_text.1 h₁₁
  obtain ⟨tag, _, rfl, ⟨-, htag⟩, h₁₃⟩ := plain_some1.takes_seq_group.1 h₁₂
  obtain ⟨attributes, _, rfl, -, h₁₄⟩ := plain_few.takes_seq_group.1 h₁₃
  obtain ⟨_, rfl, h₁₅⟩ := takes_seq_text.1 h₁₄
  obtain ⟨content, _, rfl, -, h₁₆⟩ := plain_few.takes_seq_group.1 h₁₅
  obtain ⟨_, rfl, h₁₇⟩ := takes_seq_text.1 h₁₆
  obtain ⟨tag', _, rfl, hsame, h₁₈⟩ := takes_seq_again.1 h₁₇
  obtain ⟨_, rfl, h₁₉⟩ := takes_seq_text.1 h₁₈
  obtain ⟨b₄, _, rfl, hb₄, rfl, hg⟩ := plain_many.takes_seq.1 h₁₉
  have hsame : tag = tag' := Option.some.inj hsame
  refine ⟨before, item, b₁, index, b₂, b₃, tag, attributes, content, b₄, rest, ht, ?_, hg, ?_, ?_,
    fun hmem => absurd (hindex ')' hmem) (by decide), htag, hb₄⟩
  · rw [hw, ← hsame]
    rfl
  · simp only [List.mem_append, or_imp, forall_and]
    exact ⟨⟨⟨hbefore, hb₁⟩, hb₂⟩, hb₃⟩
  · intro c hc
    simpa using hitem c hc

theorem rewriting_withIndex {behind t : Text} {h : Hit} (hh : mapWithIndex.hit? behind t = some h) :
    Rewriting h.text (keyWithIndex h) := by
  obtain ⟨before, item, b₁, index, b₂, b₃, tag, attributes, content, b₄, rest, -, hw, hg, hblanks, hitem, hindex, htag,
    hb₄⟩ := shape_mapWithIndex hh
  have h1 : h.group 1 = item := by rw [Hit.group, hg]; rfl
  have h2 : h.group 2 = index := by rw [Hit.group, hg]; rfl
  have h3 : h.group 3 = tag := by rw [Hit.group, hg]; rfl
  have h4 : h.group 4 = attributes := by rw [Hit.group, hg]; rfl
  have h5 : h.group 5 = content := by rw [Hit.group, hg]; rfl
  refine ⟨_, _, attributes ++ '>' :: (content ++ '<' :: '/' :: tag), _, _, ?_, .double _ _ _ _ _ _ _ rfl rfl hblanks hitem hindex htag,
    .content _ rfl rfl hb₄, ?_⟩
  · rw [hw]
    simp only [List.append_assoc, List.cons_append]
  · unfold keyWithIndex
    dsimp only
    rw [h1, h2, h3, h4, h5]
    split
    · exact Or.inl rfl
    · exact Or.inr (keyedOpening_content ..)

/-- The parts of a match of the rule for elements with content. -/
theorem shape_mapWithChildren {behind t : Text} {h : Hit} (hh : mapWithChildren.hit? behind t = some h) :
    ∃ before item b₁ b₂ tag attributes content b₃ rest, t = h.text ++ rest ∧
      h.text = ".map(".toList ++ (before ++ (item ++ (b₁ ++ '=' :: '>' :: (b₂ ++ '<' :: (tag ++ (attributes ++ '>' ::
        (content ++ '<' :: '/' :: (tag ++ '>' :: (b₃ ++ [')']))))))))) ∧
      h.groups = [(4, content), (3, attributes), (2, tag), (1, item)] ∧
      (∀ c ∈ before ++ b₁ ++ b₂, Text.isBlank c = true) ∧ (∀ c ∈ item, isItemChar c = true) ∧
      (∀ c ∈ tag, Text.isWord c = true) ∧ ∀ c ∈ b₃, Text.isBlank c = true := by
  obtain ⟨rest, ht, htakes⟩ := takes_of_hit? hh
  obtain ⟨_, hw, h₁⟩ := takes_seq_text.1 htakes
  obtain ⟨before, _, rfl, hbefore, h₂⟩ := plain_many.takes_seq.1 h₁
  obtain ⟨item, _, rfl, ⟨-, hitem⟩, h₃⟩ := plain_some1.takes_seq_group.1 h₂
  obtain ⟨b₁, _, rfl, hb₁, h₄⟩ := plain_many.takes_seq.1 h₃
  obtain ⟨_, rfl, h₅⟩ := takes_seq_text.1 h₄
  obtain ⟨b₂, _, rfl, hb₂, h₆⟩ := plain_many.takes_seq.1 h₅
  obtain ⟨_, rfl, h₇⟩ := takes_seq_text.1 h₆
  obtain ⟨tag, _, rfl, ⟨-, htag⟩, h₈⟩ := plain_some1.takes_seq_group.1 h₇
  obtain ⟨attributes, _, rfl, -, h₉⟩ := plain_few.takes_seq_group.1 h₈
  obtain ⟨_, rfl, h₁₀⟩ := takes_seq_text.1 h₉
  obtain ⟨content, _, rfl, -, h₁₁⟩ := plain_few.takes_seq_group.1 h₁₀
  obtain ⟨_, rfl, h₁₂⟩ := takes_seq_text.1 h₁₁
  obtain ⟨tag', _, rfl, hsame, h₁₃⟩ := takes_seq_again.1 h₁₂
  obtain ⟨_, rfl, h₁₄⟩ := takes_seq_text.1 h₁₃
  obtain ⟨b₃, _, rfl, hb₃, rfl, hg⟩ := plain_many.takes_seq.1 h₁₄
  have hsame : tag = tag' := Option.some.inj hsame
  refine ⟨before, item, b₁, b₂, tag, attributes, content, b₃, rest, ht, ?_, hg, ?_, hitem, htag, hb₃⟩
  · rw [hw, ← hsame]
    rfl
  · simp only [List.mem_append, or_imp, forall_and]
    exact ⟨⟨hbefore, hb₁⟩, hb₂⟩

theorem rewriting_withChildren {behind t : Text} {h : Hit} (hh : mapWithChildren.hit? behind t = some h) :
    Rewriting h.text (keyWithChildren h) := by
  obtain ⟨before, item, b₁, b₂, tag, attributes, content, b₃, rest, -, hw, hg, hblanks, hitem, htag, hb₃⟩ :=
    shape_mapWithChildren hh
  have h1 : h.group 1 = item := by rw [Hit.group, hg]; rfl
  have h2 : h.group 2 = tag := by rw [Hit.group, hg]; rfl
  have h3 : h.group 3 = attributes := by rw [Hit.group, hg]; rfl
  have h4 : h.group 4 = content := by rw [Hit.group, hg]; rfl
  refine ⟨_, _, attributes ++ '>' :: (content ++ '<' :: '/' :: tag), _, _, ?_,
    .single before item b₁ b₂ tag rfl rfl hblanks hitem htag, .content _ rfl rfl hb₃, ?_⟩
  · rw [hw]
    simp only [List.append_assoc, List.cons_append]
  · unfold keyWithChildren
    dsimp only
    rw [h1, h2, h3, h4]
    split
    · exact Or.inl rfl
    · exact Or.inr (keyedOpening_content ..)

/-- The parts of a match of the rule for elements without content. -/
theorem shape_mapSelfClosing {behind t : Text} {h : Hit} (hh : mapSelfClosing.hit? behind t = some h) :
    ∃ before item b₁ b₂ tag attributes rest, t = h.text ++ rest ∧
      h.text = ".map(".toList ++ (before ++ (item ++ (b₁ ++ '=' :: '>' :: (b₂ ++ '<' :: (tag ++ (attributes ++
        ['/', '>'])))))) ∧
      h.groups = [(3, attributes), (2, tag), (1, item)] ∧
      (∀ c ∈ before ++ b₁ ++ b₂, Text.isBlank c = true) ∧ (∀ c ∈ item, isItemChar c = true) ∧
      ∀ c ∈ tag, Text.isWord c = true := by
  obtain ⟨rest, ht, htakes⟩ := takes_of_hit? hh
  simp only [mapSelfClosing, Pattern.all, Pattern.blanks, Pattern.word, takes_seq_text, takes_text,
    plain_many.takes_seq, plain_some1.takes_seq_group, plain_few.takes_seq_group] at htakes
  obtain ⟨_, hw, before, _, rfl, hbefore, item, _, rfl, ⟨-, hitem⟩, b₁, _, rfl, hb₁, _, rfl, b₂, _, rfl, hb₂, _, rfl,
    tag, _, rfl, ⟨-, htag⟩, attributes, _, rfl, -, rfl, hg⟩ := htakes
  refine ⟨before, item, b₁, b₂, tag, attributes, rest, ht, ?_, hg, ?_, hitem, htag⟩
  · rw [hw]
    rfl
  · simp only [List.mem_append, or_imp, forall_and]
    exact ⟨⟨hbefore, hb₁⟩, hb₂⟩

theorem rewriting_selfClosing {behind t : Text} {h : Hit} (hh : mapSelfClosing.hit? behind t = some h) :
    Rewriting h.text (keySelfClosing h) := by
  obtain ⟨before, item, b₁, b₂, tag, attributes, rest, -, hw, hg, hblanks, hitem, htag⟩ := shape_mapSelfClosing hh
  have h1 : h.group 1 = item := by rw [Hit.group, hg]; rfl
  have h2 : h.group 2 = tag := by rw [Hit.group, hg]; rfl
  have h3 : h.group 3 = attributes := by rw [Hit.group, hg]; rfl
  have hend : "/>".toList = ['/', '>'] := by decide
  refine ⟨_, _, attributes, _, _, ?_, .single before item b₁ b₂ tag rfl rfl hblanks hitem htag, .empty rfl rfl, ?_⟩
  · rw [hw]
    simp only [List.append_assoc, List.cons_append]
  · unfold keySelfClosing
    dsimp only
    rw [h1, h2, h3]
    split
    · exact Or.inl rfl
    · rw [hend, keyedOpening_append, keyedOpening_append, List.nil_append]
      exact Or.inr rfl

/-- **What a rule writes for a match**: the match itself, or an element with a key. -/
theorem KeyRule.rewriting {r : KeyRule} (hr : r ∈ keyRules) {behind t : Text} {h : Hit}
    (hh : r.pattern.hit? behind t = some h) : Rewriting h.text (r.write h) := by
  simp only [keyRules, List.mem_cons, List.not_mem_nil, or_false] at hr
  rcases hr with rfl | rfl | rfl
  · exact rewriting_withChildren hh
  · exact rewriting_selfClosing hh
  · exact rewriting_withIndex hh

end LayeredFix.Pass.Component
