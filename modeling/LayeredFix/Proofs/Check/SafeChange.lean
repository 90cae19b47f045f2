import LayeredFix.Check.Decision
import Mathlib.Tactic.Common

/-!
# What the checks let pass

A change is safe if it does not make the text corrupt, does not add too many decisions and leaves a valid text
valid (`Validator.Safe`). The standard check takes back every change that is not safe, and the advanced check
takes back whatever the standard one does. The lenient check gives no such guarantee.
-/

namespace LayeredFix

/-- A change that makes nothing worse. -/
structure Validator.Safe (v : Validator) (before after : Text) : Prop where
  /-- It does not make the text corrupt. -/
  corrupt : (v.report before).corrupt = false → (v.report after).corrupt = false
  /-- If it changes anything, it adds no more decisions than allowed. -/
  complexity : after ≠ before →
    (Check.decisionCount after : Int) ≤ Check.decisionCount before + v.maxComplexityIncrease
  /-- It leaves a valid text valid. -/
  valid : (v.report before).valid = true → (v.report after).valid = true

/-- No change is safe. -/
theorem Validator.Safe.refl (v : Validator) (t : Text) : v.Safe t t := ⟨id, fun h => absurd rfl h, id⟩

namespace Check

variable {v : Validator} {before after : Text}

/-- A change gives no reason to take it back just if it breaks none of the four rules. -/
theorem standardReason_eq_none_iff :
    standardReason v before after = none ↔
      ((v.report before).corrupt = false → (v.report after).corrupt = false) ∧
      ((v.report before).valid = true → (v.report after).valid = true) ∧
      (measure v before after).errorCount ≤ maxNewErrors ∧
      (measure v before after).complexityDelta ≤ v.maxComplexityIncrease := by
  unfold standardReason
  dsimp only
  split_ifs with hcorrupt hvalid herrors hcomplexity <;> rw [Bool.and_eq_true, Bool.not_eq_true'] at hcorrupt
  · exact iff_of_false (by simp) fun h => by simp [h.1 hcorrupt.2] at hcorrupt
  · rw [Bool.and_eq_true] at hvalid
    exact iff_of_false (by simp) fun h => by simp [h.2.1 hvalid.1] at hvalid
  · exact iff_of_false (by simp) fun h => by omega
  · exact iff_of_false (by simp) fun h => by omega
  · rw [Bool.and_eq_true, Bool.not_eq_true'] at hvalid
    refine iff_of_true rfl ⟨fun h => ?_, fun h => ?_, by omega, by omega⟩
    · exact Bool.eq_false_iff.2 fun hc => hcorrupt ⟨hc, h⟩
    · exact Bool.not_eq_false _ ▸ fun hc => hvalid ⟨h, hc⟩

/-- The standard check lets only safe changes pass. -/
theorem standard_safe (h : (standard v before after).shouldRevert = false) : v.Safe before after := by
  unfold standard at h
  split at h
  · rename_i heq
    rw [eq_of_beq heq]
    exact .refl v after
  · dsimp only at h
    rcases hr : standardReason v before after with _ | r
    · obtain ⟨hcorrupt, hvalid, -, hcomplexity⟩ := standardReason_eq_none_iff.1 hr
      refine ⟨hcorrupt, fun _ => ?_, hvalid⟩
      unfold measure at hcomplexity
      dsimp only at hcomplexity
      omega
    · rw [hr] at h
      cases h

/-- The advanced check takes back whatever the standard check takes back. -/
theorem standard_of_advanced (h : (advanced v before after).shouldRevert = false) :
    (standard v before after).shouldRevert = false := by
  unfold advanced at h
  dsimp only at h
  split at h
  · exact h
  · rename_i hs
    exact Bool.eq_false_iff.2 hs

end Check

/-- The check of a layer lets only safe changes pass, unless it is lenient. -/
theorem CheckKind.decide_safe {v : Validator} {before after : Text} {id : Int} (hid : id ≠ 4 ∧ id ≠ 5)
    (h : ((ofLayer id).decide v before after).shouldRevert = false) : v.Safe before after := by
  unfold ofLayer at h
  rw [if_neg (by simpa using hid)] at h
  split at h
  · exact Check.standard_safe (Check.standard_of_advanced h)
  · exact Check.standard_safe h

end LayeredFix
