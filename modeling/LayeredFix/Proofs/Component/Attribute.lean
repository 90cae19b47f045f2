import LayeredFix.Pass.Component
import LayeredFix.Proofs.Text.Lines
import LayeredFix.Proofs.Text.Part

/-!
# Attributes of elements

An attribute is a name, alone or with a string or an expression in braces as its value. The passes over component code
know nothing of this: they take a tag to end at the first closing angle bracket, which may stand in a value. Attributes
in a row begin with a blank (`head?_attributesText`) and end in a character of a name or the end of a value
(`attributesText_last`); what belongs to no name has the end of a value behind it (`attributesText_value_ends`).
-/

namespace LayeredFix.Pass.Component

/-- Characters of the name of an attribute. -/
def isNameChar (c : Char) : Bool := Text.isWord c || c == '-' || c == ':' || c == '$'

/-- A quotation mark of an expression. -/
def isExpressionQuote (c : Char) : Bool := isQuote c || c == '`'

/-- An expression whose braces are balanced, up to those in strings. -/
inductive Balanced : Text → Prop where
  | nil : Balanced []
  | char {c : Char} {e : Text} (hc : c ≠ '\x7b' ∧ c ≠ '\x7d') (he : Balanced e) : Balanced (c :: e)
  | quoted {q : Char} {s e : Text} (hq : isExpressionQuote q = true) (hs : q ∉ s) (he : Balanced e) :
    Balanced (q :: (s ++ q :: e))
  | braced {e e' : Text} (he : Balanced e) (he' : Balanced e') : Balanced ('\x7b' :: (e ++ '\x7d' :: e'))

theorem balanced_of_plain {e : Text} (he : ∀ c ∈ e, c ≠ '\x7b' ∧ c ≠ '\x7d') : Balanced e := by
  induction e with
  | nil => exact .nil
  | cons c e ih =>
    rw [List.forall_mem_cons] at he
    exact .char he.1 (ih he.2)

/-- The value of an attribute. -/
inductive Value where
  /-- There is none. -/
  | absent
  /-- A string. -/
  | quoted (q : Char) (s : Text) (hq : isQuote q = true) (hs : q ∉ s)
  /-- An expression in braces. -/
  | braced (e : Text) (he : Balanced e)

/-- A value with the sign in front of it. -/
def Value.text : Value → Text
  | absent => []
  | quoted q s _ _ => '=' :: q :: (s ++ [q])
  | braced e _ => '=' :: '\x7b' :: (e ++ ['\x7d'])

/-- An attribute of an element, with the blanks in front of it. -/
structure Attribute where
  /-- The blanks in front. -/
  gap : Text
  /-- The name. -/
  name : Text
  /-- The value. -/
  value : Value
  gap_ne_nil : gap ≠ []
  gap_blank : ∀ c ∈ gap, Text.isBlank c = true
  name_ne_nil : name ≠ []
  name_chars : ∀ c ∈ name, isNameChar c = true

theorem space_blank : ∀ c ∈ [' '], Text.isBlank c = true := by decide

theorem space_ne_nil : [' '] ≠ [] := List.cons_ne_nil ' ' []

/-- An attribute with a single blank in front of it. -/
def Attribute.spaced (name : Text) (value : Value) (hne : name ≠ []) (hchars : ∀ c ∈ name, isNameChar c = true) : Attribute :=
  ⟨[' '], name, value, space_ne_nil, space_blank, hne, hchars⟩

/-- An attribute as it is written. -/
def Attribute.text (x : Attribute) : Text := x.gap ++ (x.name ++ x.value.text)

/-- Attributes in a row. -/
def attributesText (l : List Attribute) : Text := l.flatMap Attribute.text

@[simp] theorem attributesText_nil : attributesText [] = [] := rfl

@[simp] theorem attributesText_cons (x : Attribute) (l : List Attribute) :
    attributesText (x :: l) = x.text ++ attributesText l := rfl

@[simp] theorem attributesText_append (l l' : List Attribute) :
    attributesText (l ++ l') = attributesText l ++ attributesText l' := List.flatMap_append

/-! ### Where attributes begin and end -/

theorem isBlank_of_isNameChar {c : Char} (h : isNameChar c = true) : Text.isBlank c = false := by
  refine Bool.eq_false_iff.2 fun hblank => ?_
  have hword := Text.isWord_of_isBlank hblank
  simp only [isNameChar, hword, Bool.false_or, Bool.or_eq_true, beq_iff_eq] at h
  rcases h with (rfl | rfl) | rfl <;> exact absurd hblank (by decide)

/-- Attributes begin with a blank. -/
theorem head?_attributesText {l : List Attribute} {c : Char} (h : (attributesText l).head? = some c) :
    Text.isBlank c = true := by
  cases l with
  | nil => cases h
  | cons x l =>
    obtain ⟨d, gap, hgap⟩ := List.exists_cons_of_ne_nil x.gap_ne_nil
    have hd : d = c := by
      rw [attributesText_cons, Attribute.text, hgap] at h
      exact Option.some.inj h
    exact x.gap_blank c (by rw [hgap, hd]; exact List.mem_cons_self ..)

/-- A character that a value ends in. -/
def EndsValue (c : Char) : Prop := isQuote c = true ∨ c = '\x7d'

/-- A character that an attribute ends in. -/
def EndsAttribute (c : Char) : Prop := isNameChar c = true ∨ EndsValue c

theorem EndsValue.cases {c : Char} (h : EndsValue c) : c = '\'' ∨ c = '"' ∨ c = '\x7d' := by
  rcases h with h | h
  · simp only [isQuote, Bool.or_eq_true, beq_iff_eq] at h
    exact h.imp_right Or.inl
  · exact Or.inr (Or.inr h)

theorem EndsAttribute.isBlank {c : Char} (h : EndsAttribute c) : Text.isBlank c = false := by
  rcases h with h | h
  · exact isBlank_of_isNameChar h
  · rcases h.cases with rfl | rfl | rfl <;> decide

theorem EndsAttribute.ne_slash {c : Char} (h : EndsAttribute c) : c ≠ '/' := by
  rintro rfl
  rcases h with h | h
  · exact absurd h (by decide)
  · rcases h.cases with h | h | h <;> exact absurd h (by decide)

theorem Value.text_last (v : Value) : v.text = [] ∨ ∃ w c, v.text = w ++ [c] ∧ EndsValue c := by
  cases v with
  | absent => exact Or.inl rfl
  | quoted q s hq _ => exact Or.inr ⟨'=' :: q :: s, q, rfl, Or.inl hq⟩
  | braced e _ => exact Or.inr ⟨'=' :: '\x7b' :: e, '\x7d', rfl, Or.inr rfl⟩

theorem Attribute.text_last (x : Attribute) : ∃ w c, x.text = w ++ [c] ∧ EndsAttribute c := by
  unfold Attribute.text
  rcases x.value.text_last with hv | ⟨w, c, hv, hc⟩
  · obtain ⟨name, c, hname⟩ := (List.eq_nil_or_concat x.name).resolve_left x.name_ne_nil
    rw [List.concat_eq_append] at hname
    exact ⟨x.gap ++ name, c, by rw [hv, hname]; simp, Or.inl (x.name_chars c (by simp [hname]))⟩
  · exact ⟨x.gap ++ (x.name ++ w), c, by rw [hv]; simp, Or.inr hc⟩

/-- Attributes end in a character that an attribute ends in. -/
theorem attributesText_last {l : List Attribute} (hl : l ≠ []) :
    ∃ w c, attributesText l = w ++ [c] ∧ EndsAttribute c := by
  obtain ⟨l, x, rfl⟩ := (List.eq_nil_or_concat l).resolve_left hl
  obtain ⟨w, c, hw, hc⟩ := x.text_last
  refine ⟨attributesText l ++ w, c, ?_, hc⟩
  rw [List.concat_eq_append, attributesText_append, attributesText_cons, attributesText_nil, List.append_nil, hw,
    List.append_assoc]

/-- A character that belongs to no name stands in a value, which ends behind it. -/
theorem Attribute.value_ends {x : Attribute} {u s : Text} {c : Char} (h : x.text = u ++ c :: s)
    (hname : isNameChar c = false) (hblank : Text.isBlank c = false) : ∃ e ∈ c :: s, EndsValue e := by
  have hno : c ∉ x.gap ++ x.name := by
    intro hmem
    rcases List.mem_append.1 hmem with hmem | hmem
    · exact absurd ((x.gap_blank c hmem).symm.trans hblank) (by decide)
    · exact absurd ((x.name_chars c hmem).symm.trans hname) (by decide)
  rw [Attribute.text, ← List.append_assoc] at h
  obtain ⟨k, -, hv⟩ := Text.cut_after h hno
  rcases x.value.text_last with hnil | ⟨w, e, hlast, he⟩
  · rw [hnil] at hv
    simp at hv
  · obtain ⟨s', d, hs⟩ := (List.eq_nil_or_concat (c :: s)).resolve_left (List.cons_ne_nil c s)
    rw [List.concat_eq_append] at hs
    rw [hlast, hs, ← List.append_assoc] at hv
    obtain rfl := List.singleton_inj.1 (List.append_inj' hv rfl).2
    exact ⟨e, by rw [hs]; simp, he⟩

theorem attributesText_value_ends {l : List Attribute} {u s : Text} {c : Char} (h : attributesText l = u ++ c :: s)
    (hname : isNameChar c = false) (hblank : Text.isBlank c = false) : ∃ e ∈ c :: s, EndsValue e := by
  induction l generalizing u with
  | nil => simp at h
  | cons x l ih =>
    rw [attributesText_cons] at h
    rcases List.append_eq_append_iff.1 h with ⟨k, -, hrest⟩ | ⟨k, hk, hrest⟩
    · exact ih hrest
    · rcases k with _ | ⟨d, k⟩
      · exact ih (u := []) hrest.symm
      · obtain ⟨rfl, rfl⟩ := List.cons.inj hrest
        obtain ⟨e, he, hends⟩ := x.value_ends hk hname hblank
        exact ⟨e, List.mem_append_left (attributesText l) he, hends⟩

end LayeredFix.Pass.Component
