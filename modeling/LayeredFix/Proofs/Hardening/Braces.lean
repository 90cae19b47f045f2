import LayeredFix.Proofs.Hardening.Handling

/-!
# Counting braces

The braces of a text add up to a number, one for each that is opened and minus one for each that is closed (`rise`). The level
behind a text is that sum, and there is one as long as no front part of the text closes more braces than are open
(`level_eq_some_iff`).
-/

namespace LayeredFix.Pass.Hardening

variable {t : Text} {c : Char}

/-! ### Sums -/

/-- The number of braces that a text opens less the number of those that it closes. -/
def rise (t : Text) : Int := t.count '\x7b' - t.count '\x7d'

theorem rise_nil : rise [] = 0 := rfl

theorem rise_open (t : Text) : rise ('\x7b' :: t) = 1 + rise t := by
  simp [rise]
  omega

theorem rise_close (t : Text) : rise ('\x7d' :: t) = -1 + rise t := by
  simp [rise]
  omega

theorem rise_cons (ho : c ≠ '\x7b') (hc : c ≠ '\x7d') (t : Text) : rise (c :: t) = 0 + rise t := by
  simp [rise, ho, hc]

theorem rise_append (t t' : Text) : rise (t ++ t') = rise t + rise t' := by
  simp [rise]
  omega

/-! ### Front parts -/

/-- No front part of a text closes more braces than are open. -/
def NeverBelow (depth : Int) (t : Text) : Prop := ∀ q, q <+: t → 0 ≤ depth + rise q

theorem neverBelow_nil {depth : Int} (hdepth : 0 ≤ depth) : NeverBelow depth [] := by
  intro q hq
  rwa [List.prefix_nil.1 hq, rise_nil, Int.add_zero]

theorem not_neverBelow {depth : Int} (hdepth : depth < 0) (t : Text) : ¬ NeverBelow depth t := by
  intro hfront
  have hempty := hfront [] List.nil_prefix
  rw [rise_nil] at hempty
  omega

theorem neverBelow_cons {depth e : Int} (hdepth : 0 ≤ depth) (hrise : ∀ t, rise (c :: t) = e + rise t) :
    NeverBelow depth (c :: t) ↔ NeverBelow (depth + e) t := by
  constructor
  · intro h q hq
    have hfront := h (c :: q) (List.cons_prefix_cons.2 ⟨rfl, hq⟩)
    rw [hrise] at hfront
    omega
  · intro h q hq
    rcases List.prefix_cons_iff.1 hq with rfl | ⟨q', rfl, hq'⟩
    · rwa [rise_nil, Int.add_zero]
    · have hfront := h q' hq'
      rw [hrise]
      omega

/-- The level behind a text is what its braces add up to, if no front part of it closes too many. -/
theorem level_eq_some_iff {depth n : Nat} : level depth t = some n ↔ NeverBelow depth t ∧ depth + rise t = n := by
  induction t generalizing depth with
  | nil =>
    have hfront : NeverBelow depth [] := neverBelow_nil (Int.natCast_nonneg depth)
    rw [level, Option.some.injEq, and_iff_right hfront, rise_nil, Int.add_zero, Int.ofNat_inj]
  | cons c t ih =>
    have hdepth : (0 : Int) ≤ depth := Int.natCast_nonneg depth
    rw [level]
    split
    · rename_i hopen
      rw [ih, hopen, neverBelow_cons hdepth rise_open, rise_open, Int.natCast_add_one, Int.add_assoc]
    · rename_i hopen
      split
      · rename_i hclose
        rw [hclose, neverBelow_cons hdepth rise_close, rise_close]
        split
        · rename_i hzero
          subst hzero
          have hno : ¬ NeverBelow (((0 : Nat) : Int) + -1) t := not_neverBelow (by decide) t
          exact iff_of_false (Option.some_ne_none n).symm fun h => hno h.1
        · rename_i hzero
          have hpred : ((depth - 1 : Nat) : Int) = depth + -1 := by omega
          rw [ih, hpred, Int.add_assoc]
      · rename_i hclose
        rw [ih, neverBelow_cons hdepth (rise_cons hopen hclose), rise_cons hopen hclose, Int.add_zero, Int.zero_add]

end LayeredFix.Pass.Hardening
