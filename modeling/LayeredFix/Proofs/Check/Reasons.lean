import LayeredFix.Check.Decision

/-!
# Changes are taken back for a reason

Whatever check advises to take a change back, it names a reason, and the wording of a reason is never empty
(`CheckKind.exists_reason`). The lenient check never gives this advice.
-/

namespace LayeredFix

namespace Check

theorem Reason.message_ne_nil (r : Reason) : r.message ≠ [] := by
  have hworded {s t : String} (hs : s.toList ≠ []) : (s ++ t).toList ≠ [] := by
    rw [String.toList_append]
    exact List.append_ne_nil_of_left_ne_nil hs _
  cases r with
  | corruption => decide
  | brokeValid errors => exact List.append_ne_nil_of_left_ne_nil (by decide) _
  | newErrors n => exact hworded (hworded (by decide))
  | complexity n => exact hworded (by decide)
  | conflict c => cases c <;> decide

variable {v : Validator} {before after : Text}

theorem exists_reason_standard (h : (standard v before after).shouldRevert = true) :
    ∃ r m, standard v before after = revert r m := by
  unfold standard at h ⊢
  split at h
  · cases h
  · rename_i hne
    rw [if_neg hne]
    dsimp only at h ⊢
    rcases hr : standardReason v before after with _ | r
    · rw [hr] at h
      cases h
    · exact ⟨r, _, rfl⟩

theorem exists_reason_advanced (h : (advanced v before after).shouldRevert = true) :
    ∃ r m, advanced v before after = revert r m := by
  unfold advanced at h ⊢
  dsimp only at h ⊢
  split at h
  · rename_i hstandard
    rw [if_pos hstandard]
    exact exists_reason_standard hstandard
  · rename_i hstandard
    rw [if_neg hstandard]
    rcases hc : conflictIn before after with _ | c
    · rw [hc] at h
      exact absurd h hstandard
    · exact ⟨.conflict c, _, rfl⟩

theorem not_shouldRevert_lenient (before after : Text) : (lenient before after).shouldRevert = false := by
  unfold lenient
  split <;> rfl

end Check

/-- **A check that advises to take a change back says why.** -/
theorem CheckKind.exists_reason {v : Validator} {before after : Text} (kind : CheckKind)
    (h : (kind.decide v before after).shouldRevert = true) :
    ∃ r m, kind.decide v before after = Check.revert r m := by
  cases kind with
  | standard => exact Check.exists_reason_standard h
  | lenient =>
    have hnot := Check.not_shouldRevert_lenient before after
    exact absurd (h.symm.trans hnot) (by decide)
  | advanced => exact Check.exists_reason_advanced h

end LayeredFix
