import LayeredFix.Proofs.Entity.Decoder
import LayeredFix.Proofs.Json.Inside

/-!
# Entities inside of strings

In a JSON text an ampersand stands inside of a string, and with it the entity it begins. What is written for an entity
stays in the string unless it is a quote, so the pass over entities is tame for quotes (`tame_transform`).
-/

namespace LayeredFix.Pass.Entity

open Json

theorem isInner_ampersand : IsInner '&' := ⟨⟨by decide, by decide, by decide⟩, by decide⟩

/-- What the table writes may stand inside of a string, apart from quotes. -/
theorem meaning_plain : ∀ r ∈ plainRules, ∀ c ∈ r.meaning, c ≠ '"' → IsPlain c := by
  have hall : ∀ r ∈ plainRules, ∀ c ∈ r.meaning, c ≠ '\\' ∧ 0x20 ≤ c.toNat := by decide
  exact fun r hr c hc hquote => ⟨hquote, hall r hr c hc⟩

theorem exists_skipped (t : Text) : ∃ w, t = w ++ skipEscapes t ∧ ∀ c ∈ w, isBody c = true := by
  fun_induction skipEscapes t with
  | case1 t ih =>
    obtain ⟨w, ht, hw⟩ := ih
    exact ⟨"amp;".toList ++ w, congrArg ("amp;".toList ++ ·) ht, List.forall_mem_append.2 ⟨by decide, hw⟩⟩
  | case2 t ih =>
    obtain ⟨w, ht, hw⟩ := ih
    exact ⟨"#38;".toList ++ w, congrArg ("#38;".toList ++ ·) ht, List.forall_mem_append.2 ⟨by decide, hw⟩⟩
  | case3 t ih =>
    obtain ⟨w, ht, hw⟩ := ih
    exact ⟨"#x26;".toList ++ w, congrArg ("#x26;".toList ++ ·) ht, List.forall_mem_append.2 ⟨by decide, hw⟩⟩
  | case4 t => exact ⟨[], rfl, by simp⟩

/-- At an ampersand the decoder passes over body characters, and writes an ampersand or what the table has in their
place. -/
theorem decode_ampersand (t : Text) : ∃ w rest m, t = w ++ rest ∧ (∀ c ∈ w, isBody c = true) ∧
    (m = ['&'] ∨ ∃ r ∈ plainRules, m = r.meaning) ∧ decode ('&' :: t) = m ++ decode rest := by
  obtain ⟨w, ht, hw⟩ := exists_skipped t
  rcases hx : firstOf plainRules ('&' :: skipEscapes t) with _ | ⟨x, m⟩
  · exact ⟨w, skipEscapes t, ['&'], ht, hw, Or.inl rfl, decode_of_none hx⟩
  · obtain ⟨-, body, rest, rfl, hbody, hs⟩ := exists_of_firstOf_plain hx
    obtain ⟨r, hr, -, rfl⟩ := exists_of_firstOf hx
    rw [hs] at hx
    refine ⟨w ++ body, rest, r.meaning, ?_, ?_, Or.inr ⟨r, hr, rfl⟩, decode_of_some hs hx⟩
    · rw [List.append_assoc, ← hs]
      exact ht
    · exact List.forall_mem_append.2 ⟨hw, hbody⟩

theorem notMem_of_isBody {w : Text} (hw : ∀ c ∈ w, isBody c = true) {d : Char} (hd : isBody d = false) : d ∉ w :=
  fun hmem => absurd ((hw d hmem).symm.trans hd) (by decide)

/-- What is written at an ampersand stays in the string, if it has no quote. -/
theorem mild_entity {w m : Text} (hw : ∀ c ∈ w, isBody c = true) (hm : ∀ c ∈ m, c ≠ '"' → IsPlain c) :
    Mild ['"'] ('&' :: w) m := by
  have hquote : '"' ∉ w := notMem_of_isBody hw (by decide)
  have hzero : ∀ d ∈ ['"'], ('&' :: w).count d = 0 :=
    List.forall_mem_singleton.2 (List.count_eq_zero.2 (List.not_mem_cons_of_ne_of_not_mem (by decide) hquote))
  refine mild_of_count_eq_zero hzero fun hnone s r h => ?_
  have hsilent : IsSilent m :=
    isSilent_of_plain fun c hc => hm c hc (ne_of_mem_of_not_mem hc (hnone '"' (by simp)))
  obtain ⟨rfl, hstring⟩ := outline_inner isInner_ampersand h
  rw [← List.append_nil w] at hstring
  obtain ⟨-, hbehind⟩ := outline_of_free hquote (notMem_of_isBody hw (by decide)) hstring
  exact hsilent.trans hbehind

theorem tame_decode : Tame ['"'] decode := by
  intro t
  induction hn : t.length using Nat.strong_induction_on generalizing t with
  | _ n ih =>
    subst hn
    cases t with
    | nil =>
      rw [decode_nil]
      exact Mild.refl _ []
    | cons c t =>
      by_cases hamp : c = '&'
      · subst hamp
        obtain ⟨w, rest, m, rfl, hw, hm, hdecode⟩ := decode_ampersand t
        have hplain : ∀ c ∈ m, c ≠ '"' → IsPlain c := by
          rcases hm with rfl | ⟨r, hr, rfl⟩
          · simpa using isInner_ampersand.1
          · exact meaning_plain r hr
        rw [hdecode]
        exact (mild_entity hw hplain).append (ih rest.length (by simp only [List.length_cons, List.length_append]; omega) rest rfl)
      · rw [decode_cons hamp]
        exact (Mild.refl _ [c]).append (ih t.length (by simp) t rfl)

/-- **The pass over entities is tame for quotes.** -/
theorem tame_transform : Tame ['"'] transform := by
  intro t
  unfold transform
  split
  · rw [apply_foldl_collapse]
    exact tame_decode t
  · exact Mild.refl _ t

end LayeredFix.Pass.Entity
