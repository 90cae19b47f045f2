import LayeredFix.Proofs.Check.Reasons
import LayeredFix.Proofs.Check.SafeChange

/-!
# The verdict of the standard limits

A validator that follows from limits reports at most five errors on a text: one about its size and one for each kind of
damage (`length_errors_le`). So no change adds more than five, and the rule about new errors is never the one that is broken. What
is left are three rules, and a change is taken back just if it breaks one of them (`standard_verdict`).
-/

namespace LayeredFix.Check

variable {v : Validator} {before after : Text}

/-! ### Errors -/

/-- The most errors that a report can hold: one about the size, and one for each kind of damage. -/
def mostErrors : Nat := Damage.all.length + 1

theorem length_damageIn_le (t : Text) : (damageIn t).length ≤ Damage.all.length := List.length_filter_le _ _

theorem length_faultsOf_le (limits : Limits) (scan : Bool) (t : Text) : (faultsOf limits scan t).length ≤ mostErrors := by
  have hsize : (if limits.maxLines < Text.lineCount t then [Fault.tooManyLines (Text.lineCount t) limits.maxLines]
      else []).length ≤ 1 := by
    split
    · exact Nat.le_refl 1
    · exact Nat.zero_le 1
  have hdamage : (if scan then (damageIn t).map Fault.damaged else []).length ≤ Damage.all.length := by
    split
    · rw [List.length_map]
      exact length_damageIn_le t
    · exact Nat.zero_le _
  rw [faultsOf, List.length_append, mostErrors]
  omega

/-- **A report holds five errors at most.** -/
theorem length_errors_le (limits : Limits) (t : Text) :
    ((Validator.ofLimits limits).report t).errors.length ≤ mostErrors := by
  show (limits.inspect true t).errors.length ≤ mostErrors
  unfold Limits.inspect
  split
  · decide
  · rw [List.length_map]
    exact length_faultsOf_le limits true t

theorem errorCount_bounds (limits : Limits) (before after : Text) :
    -5 ≤ (measure (Validator.ofLimits limits) before after).errorCount ∧
      (measure (Validator.ofLimits limits) before after).errorCount ≤ 5 := by
  have hbefore := length_errors_le limits before
  have hafter := length_errors_le limits after
  have hfive : mostErrors = 5 := rfl
  rw [hfive] at hbefore hafter
  unfold measure
  dsimp only
  omega

/-! ### Reasons -/

theorem standardReason_ne_newErrors (limits : Limits) (before after : Text) (n : Int) :
    standardReason (Validator.ofLimits limits) before after ≠ some (.newErrors n) := by
  have hcount := (errorCount_bounds limits before after).2
  unfold standardReason
  dsimp only
  split_ifs with hcorrupt hvalid herrors hcomplexity
  · simp
  · simp
  · exact absurd herrors (by unfold maxNewErrors; omega)
  · simp
  · simp

/-- What makes a change one to take back. -/
theorem standardReason_isSome_iff (limits : Limits) (before after : Text) :
    (standardReason (Validator.ofLimits limits) before after).isSome = true ↔
      (((Validator.ofLimits limits).report after).corrupt = true ∧
        ((Validator.ofLimits limits).report before).corrupt = false) ∨
      (((Validator.ofLimits limits).report before).valid = true ∧
        ((Validator.ofLimits limits).report after).valid = false) ∨
      limits.maxComplexityIncrease < (measure (Validator.ofLimits limits) before after).complexityDelta := by
  have hcount : (measure (Validator.ofLimits limits) before after).errorCount ≤ maxNewErrors :=
    Int.le_trans (errorCount_bounds limits before after).2 (by decide)
  rw [← Option.ne_none_iff_isSome, ne_eq, standardReason_eq_none_iff]
  constructor
  · intro h
    by_contra hno
    rw [not_or, not_or] at hno
    obtain ⟨hcorrupt, hvalid, hcomplexity⟩ := hno
    refine h ⟨fun hb => Bool.eq_false_iff.2 fun ha => hcorrupt ⟨ha, hb⟩, fun hb => ?_, hcount, Int.not_lt.1 hcomplexity⟩
    exact (Bool.eq_false_or_eq_true _).resolve_right fun ha => hvalid ⟨hb, ha⟩
  · rintro (⟨ha, hb⟩ | ⟨hb, ha⟩ | hcomplexity) ⟨hcorrupt, hvalid, -, hle⟩
    · exact absurd (ha.symm.trans (hcorrupt hb)) (by decide)
    · exact absurd (ha.symm.trans (hvalid hb)) (by decide)
    · exact absurd hcomplexity (Int.not_lt.2 hle)

/-! ### Decisions -/

/-- A decision on a change is what its reason makes of it. -/
theorem standard_of_ne (v : Validator) (hne : before ≠ after) :
    (standard v before after).shouldRevert = (standardReason v before after).isSome ∧
      (standard v before after).reason = (standardReason v before after).map Reason.message ∧
      (standard v before after).metrics = measure v before after := by
  unfold standard
  rw [if_neg (by simpa using hne)]
  dsimp only
  cases standardReason v before after with
  | none => exact ⟨rfl, rfl, rfl⟩
  | some r => exact ⟨rfl, rfl, rfl⟩

/-- The advanced check adds nothing to a change that is taken back anyway, and else the first conflict counts. -/
theorem advanced_cases (v : Validator) (before after : Text) :
    advanced v before after = standard v before after ∨
      (standard v before after).shouldRevert = false ∧ ∃ c, conflictIn before after = some c ∧
        advanced v before after = revert (.conflict c) (standard v before after).metrics := by
  unfold advanced
  dsimp only
  split
  · exact Or.inl rfl
  · rename_i hkeep
    rcases conflictIn before after with _ | c
    · exact Or.inl rfl
    · exact Or.inr ⟨by simpa using hkeep, c, rfl, rfl⟩

/-- **The verdict on a change**, by a validator that follows from limits. A change adds between -5 and 5 errors, so the rule
about new errors is never broken. It is taken back just if it makes the text corrupt, makes a valid text invalid or adds more
decisions than allowed; and there is a reason just if it is taken back. The advanced check takes back what is taken back
anyway, with the same decision; of the rest it either thinks the same or takes it back at high risk, with a reason and with the
same measures. The lenient check takes nothing back. -/
theorem standard_verdict (limits : Limits) {before after : Text} (hne : before ≠ after) :
    let v := Validator.ofLimits limits
    let d := standard v before after
    d.metrics = measure v before after ∧
    (-5 ≤ d.metrics.errorCount ∧ d.metrics.errorCount ≤ 5) ∧
    (∀ n, standardReason v before after ≠ some (.newErrors n)) ∧
    (d.shouldRevert = true ↔
      ((v.report after).corrupt = true ∧ (v.report before).corrupt = false) ∨
      ((v.report before).valid = true ∧ (v.report after).valid = false) ∨
      limits.maxComplexityIncrease < d.metrics.complexityDelta) ∧
    (d.reason.isSome = true ↔ d.shouldRevert = true) ∧
    (d.shouldRevert = true → advanced v before after = d) ∧
    (d.shouldRevert = false → advanced v before after = d ∨
      ∃ r, r ≠ [] ∧ advanced v before after = ⟨true, .high, some r, d.metrics⟩) ∧
    ∀ t t', (lenient t t').shouldRevert = false := by
  intro v d
  obtain ⟨hrevert, hreason, hmetrics⟩ := standard_of_ne v hne
  refine ⟨hmetrics, ?_, standardReason_ne_newErrors limits before after, ?_, ?_, fun htaken => ?_, fun _ => ?_,
    not_shouldRevert_lenient⟩
  · rw [hmetrics]
    exact errorCount_bounds limits before after
  · rw [hrevert, hmetrics]
    exact standardReason_isSome_iff limits before after
  · rw [hreason, hrevert, Option.isSome_map]
  · rcases advanced_cases v before after with h | ⟨hkeep, -⟩
    · exact h
    · exact absurd (htaken.symm.trans hkeep) (by decide)
  · rcases advanced_cases v before after with h | ⟨-, c, -, h⟩
    · exact Or.inl h
    · exact Or.inr ⟨_, (Reason.conflict c).message_ne_nil, h⟩

/-- A function declared among the parameters of another makes the text corrupt, so the change is taken back, and the advanced
check says the same. -/
theorem standard_verdict_nestedFunction :
    "f()".toList ≠ "function f(function g".toList ∧
    (standard (.ofLimits {}) "f()".toList "function f(function g".toList).shouldRevert = true ∧
    advanced (.ofLimits {}) "f()".toList "function f(function g".toList =
      standard (.ofLimits {}) "f()".toList "function f(function g".toList := by
  have hne : "f()".toList ≠ "function f(function g".toList := by decide
  obtain ⟨-, -, -, hiff, -, hsame, -⟩ := standard_verdict {} hne
  have htaken := hiff.2 (Or.inl ⟨by decide +kernel, by decide +kernel⟩)
  exact ⟨hne, htaken, hsame htaken⟩

end LayeredFix.Check
