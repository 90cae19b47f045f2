import LayeredFix.Proofs.Guard.FixedPoint
import LayeredFix.Proofs.Json.Inside

/-!
# Host guards and JSON texts

Whatever the pass that inserts host guards does to a text shows: a guard has quotes, the flag and the mark of client
code have semicolons. So the pass is tame (`tame_transform`): it leaves a text alone to which it adds neither.
-/

namespace LayeredFix.Pass.Guard

open Pattern Json

/-- A reference has no marks, its guard has quotes. -/
theorem tame_apply {r : HostRule} (hr : r ∈ hostRules) : Tame codeMarks r.apply := by
  have hquote : ∀ r ∈ hostRules, 0 < r.guarded.count '"' := by decide
  have hmarks : ∀ r ∈ hostRules, ∀ d ∈ codeMarks, r.reference.toList.count d = 0 := by decide +kernel
  refine tame_replace fun behind t h hh => mild_of_adds (fun d hd => ?_) ⟨'"', by decide, ?_⟩
  · rw [HostRule.text_of_hit? hr hh, hmarks r hr d hd]
    exact Nat.zero_le _
  · rw [HostRule.text_of_hit? hr hh, hmarks r hr _ (by decide)]
    exact hquote r hr

theorem tame_addEnvironmentGuards : Tame codeMarks addEnvironmentGuards := tame_foldl fun _ hr => tame_apply hr

/-- The test of the flag takes no marks away. -/
theorem count_le_mountedRender {d : Char} (hd : d ∈ codeMarks) (t : Text) :
    t.count d ≤ (renderReturn.replaceFirst mountedRender t).count d := by
  rcases replaceFirst_mountedRender t with heq | ⟨a, blanks, z, rfl, hblanks, heq⟩
  · rw [heq]
  · have hword : ∀ d ∈ codeMarks, "return".toList.count d = 0 ∧ ['('].count d = 0 ∧ Text.isBlank d = false := by decide
    obtain ⟨hreturn, hbracket, hblank⟩ := hword d hd
    have hnone : blanks.count d = 0 :=
      List.count_eq_zero.2 fun hmem => absurd ((hblanks d hmem).symm.trans hblank) (by decide)
    rw [heq]
    simp only [List.count_append]
    omega

theorem tame_addMountedState : Tame codeMarks addMountedState := by
  intro t
  by_cases ht : Idle t
  · rw [addMountedState_of_idle ht]
    exact Mild.refl _ t
  · obtain ⟨a, z, rfl, heq⟩ := addMountedState_of_not_idle ht
    have hadds (d : Char) (hd : d ∈ codeMarks) : (a ++ ("const [".toList ++ z)).count d + mountedState.count d ≤
        (addMountedState (a ++ ("const [".toList ++ z))).count d := by
      have hle := count_le_mountedRender hd (a ++ (mountedState ++ "const [".toList ++ z))
      rw [heq]
      simp only [List.count_append] at hle ⊢
      omega
    have hstatement : 0 < mountedState.count ';' := by decide
    have hmore := hadds ';' (by decide)
    exact mild_of_adds (fun d hd => (Nat.le_add_right _ _).trans (hadds d hd)) ⟨';', by decide, by omega⟩

theorem tame_addClientDirective : Tame codeMarks addClientDirective := by
  intro t
  rcases addClientDirective_eq t with heq | heq
  · rw [heq]
    exact Mild.refl _ t
  · have hstatement : 0 < (clientDirective ++ "\n\n").toList.count ';' := by decide
    rw [heq, markClient]
    refine mild_of_adds (fun d _ => ?_) ⟨';', by decide, ?_⟩
    · rw [List.count_append]
      exact Nat.le_add_left _ _
    · rw [List.count_append]
      omega

/-- **The pass that inserts host guards is tame.** -/
theorem tame_transform : Tame codeMarks transform := by
  unfold transform
  exact (tame_addEnvironmentGuards.comp tame_addMountedState).comp tame_addClientDirective

end LayeredFix.Pass.Guard
