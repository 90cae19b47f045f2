import LayeredFix.Proofs.Text.Lines
import LayeredFix.Proofs.Text.Replacing
import Mathlib.Data.List.Forall2

/-!
# Words spelled in another way

What a replacement leaves of a text is the text with some of its words spelled in another way (`respelled_replaceFrom`).
If no spelling holds a newline, lines stay lines (`Respelled.lines`). What the spellings cannot hold is found again where it
stood before (`Respelled.split`).
-/

namespace LayeredFix.Text

/-- A text, and the text with some of its words spelled in another way. -/
inductive Respelled (P : Text → Text → Prop) : Text → Text → Prop where
  /-- The end. -/
  | nil : Respelled P [] []
  /-- A character stays. -/
  | keep (c : Char) {t t' : Text} (h : Respelled P t t') : Respelled P (c :: t) (c :: t')
  /-- A word is spelled in another way. -/
  | word {w w' t t' : Text} (hw : P w w') (h : Respelled P t t') : Respelled P (w ++ t) (w' ++ t')

variable {P Q : Text → Text → Prop} {t t' : Text}

theorem Respelled.refl (t : Text) : Respelled P t t := by
  induction t with
  | nil => exact .nil
  | cons c t ih => exact .keep c ih

theorem Respelled.mono (hPQ : ∀ w w', P w w' → Q w w') (h : Respelled P t t') : Respelled Q t t' := by
  induction h with
  | nil => exact .nil
  | keep c _ ih => exact .keep c ih
  | word hw _ ih => exact .word (hPQ _ _ hw) ih

/-- The other way round, the words are spelled as they were. -/
theorem Respelled.flip (h : Respelled P t t') : Respelled (flip P) t' t := by
  induction h with
  | nil => exact .nil
  | keep c _ ih => exact .keep c ih
  | word hw _ ih => exact .word hw ih

/-- **Replacing spells words in another way.** -/
theorem respelled_replaceFrom {p : Pattern} {f : Hit → Text} {behind : Text}
    (hf : ∀ behind t h, p.hit? behind t = some h → P h.text (f h)) :
    Respelled P t (p.replaceFrom f behind t) := by
  fun_induction Pattern.replaceFrom p f behind t with
  | case1 => exact .nil
  | case2 behind c t hn ih => exact .keep c ih
  | case3 behind c t h hh hempty ih => exact .keep c ih
  | case4 behind c t h hh hne ih =>
    have hcut : c :: t = h.text ++ t.drop (h.text.length - 1) :=
      Pattern.text_hit?_cons hh fun hnil => hne (List.isEmpty_iff.2 hnil)
    rw [hcut]
    exact .word (hf _ _ _ hh) ih

/-- **Lines stay lines.** -/
theorem Respelled.lines (hline : ∀ w w', P w w' → '\n' ∉ w ∧ '\n' ∉ w') (h : Respelled P t t') :
    List.Forall₂ (Respelled P) (lines t) (lines t') := by
  induction h with
  | nil => exact .cons .nil .nil
  | @keep c t t' h ih =>
    by_cases hc : c = '\n'
    · rw [hc, lines_newline, lines_newline]
      exact .cons .nil ih
    · rw [lines_cons_of_ne hc, lines_cons_of_ne hc]
      obtain ⟨l, ls, hl⟩ := List.exists_cons_of_ne_nil (lines_ne_nil t)
      obtain ⟨l', ls', hl'⟩ := List.exists_cons_of_ne_nil (lines_ne_nil t')
      rw [hl, hl', List.forall₂_cons] at ih
      rw [hl, hl']
      exact .cons (.keep c ih.1) ih.2
  | @word w w' t t' hw h ih =>
    obtain ⟨l, ls, ht, hwt⟩ := lines_append_of_notMem (hline _ _ hw).1 t
    obtain ⟨l', ls', ht', hwt'⟩ := lines_append_of_notMem (hline _ _ hw).2 t'
    rw [ht, ht', List.forall₂_cons] at ih
    rw [hwt, hwt']
    exact .cons (.word hw ih.1) ih.2

/-- Characters that begin no word stay in front. -/
theorem Respelled.front {u s : Text} (hu : ∀ w w', P w w' → ∃ c v, w = c :: v ∧ c ∉ u) (h : Respelled P (u ++ t) s) :
    ∃ s', s = u ++ s' ∧ Respelled P t s' := by
  induction u generalizing s with
  | nil => exact ⟨s, rfl, h⟩
  | cons c u ih =>
    have hu' : ∀ w w', P w w' → ∃ c v, w = c :: v ∧ c ∉ u := fun w w' hw => by
      obtain ⟨d, v, hv, hd⟩ := hu w w' hw
      exact ⟨d, v, hv, fun hmem => hd (List.mem_cons_of_mem c hmem)⟩
    generalize hs : c :: u ++ t = t₀ at h
    cases h with
    | nil => cases hs
    | keep d h =>
      obtain ⟨rfl, rfl⟩ := List.cons.inj hs
      obtain ⟨s', rfl, hs'⟩ := ih hu' h
      exact ⟨s', rfl, hs'⟩
    | word hw h =>
      obtain ⟨d, v, rfl, hd⟩ := hu _ _ hw
      exact absurd (List.mem_cons.2 (Or.inl (List.cons.inj hs).1.symm)) hd

/-- A text without characters that all words hold stays as it is. -/
theorem Respelled.eq_of_quiet {K : Text} (hK : ∀ w w', P w w' → ∃ c ∈ K, c ∈ w) (h : Respelled P t t') (ht : ∀ c ∈ K, c ∉ t) :
    t' = t := by
  induction h with
  | nil => rfl
  | keep c _ ih => rw [ih fun d hd hmem => ht d hd (List.mem_cons_of_mem c hmem)]
  | word hw _ _ =>
    obtain ⟨c, hc, hmem⟩ := hK _ _ hw
    exact absurd (List.mem_append_left _ hmem) (ht c hc)

section
variable {x z' : Text} {d : Char} (hP : ∀ w w', P w w' → d ∉ w' ∧ ∃ v e, w' = v ++ [e] ∧ e ∉ x)
include hP

/-- What the spellings cannot hold stood in front. -/
theorem Respelled.begins (h : Respelled P t (x ++ d :: z')) : ∃ z, t = x ++ d :: z := by
  generalize hs : x ++ d :: z' = s at h
  induction h generalizing x with
  | nil => simp at hs
  | keep c h ih =>
    rcases x with _ | ⟨c', x⟩
    · obtain ⟨rfl, -⟩ := List.cons.inj hs
      exact ⟨_, rfl⟩
    · obtain ⟨rfl, htail⟩ := List.cons.inj hs
      have hP' : ∀ w w', P w w' → d ∉ w' ∧ ∃ v e, w' = v ++ [e] ∧ e ∉ x := fun w w' hw => by
        obtain ⟨hd, v, e, hv, he⟩ := hP w w' hw
        exact ⟨hd, v, e, hv, fun hmem => he (List.mem_cons_of_mem _ hmem)⟩
      obtain ⟨z, rfl⟩ := ih hP' htail
      exact ⟨z, rfl⟩
  | word hw h ih =>
    obtain ⟨hd, v, e, rfl, he⟩ := hP _ _ hw
    obtain ⟨k, rfl, -⟩ := cut_after hs.symm hd
    simp at he

/-- **What the spellings cannot hold is found again where it stood.** -/
theorem Respelled.split {u : Text} (h : Respelled P t (u ++ (x ++ d :: z'))) :
    ∃ a z, t = a ++ (x ++ d :: z) ∧ Respelled P a u := by
  generalize hs : u ++ (x ++ d :: z') = s at h
  induction h generalizing u with
  | nil => simp at hs
  | keep c h ih =>
    rcases u with _ | ⟨c', u⟩
    · obtain ⟨z, hz⟩ := Respelled.begins hP (hs ▸ h.keep c)
      exact ⟨[], z, hz, .nil⟩
    · obtain ⟨rfl, htail⟩ := List.cons.inj hs
      obtain ⟨a, z, rfl, ha⟩ := ih htail
      exact ⟨_ :: a, z, rfl, ha.keep _⟩
  | word hw h ih =>
    rcases List.append_eq_append_iff.1 hs with ⟨k, rfl, hk⟩ | ⟨k, rfl, hk⟩
    · rcases List.eq_nil_or_concat k with rfl | ⟨k, e', rfl⟩
      · obtain ⟨a, z, rfl, ha⟩ := ih (u := []) hk
        have hlast := ha.word hw
        rw [List.append_nil, List.append_nil] at hlast
        exact ⟨_, z, by rw [List.append_assoc], hlast⟩
      · -- A spelling that goes on behind `u` ends inside of what it cannot hold, or holds its last character.
        obtain ⟨hd, v, e, hv, he⟩ := hP _ _ hw
        rw [List.concat_eq_append, ← List.append_assoc] at hv
        obtain ⟨-, hlast⟩ := List.append_inj' hv rfl
        obtain rfl := List.singleton_inj.1 hlast
        obtain ⟨k', rfl, -⟩ := cut_after hk.symm fun hmem => hd (List.mem_append_right _ hmem)
        simp at he
    · obtain ⟨a, z, rfl, ha⟩ := ih hk.symm
      exact ⟨_ ++ a, z, by rw [List.append_assoc], .word hw ha⟩

end

end LayeredFix.Text
