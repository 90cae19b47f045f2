import LayeredFix.Number.Shortest
import LayeredFix.Proofs.Number.Rounding

/-!
# The shortest decimal reads back

`Decimal.shortest` finds a decimal in the interval of the numbers that round to the one it is asked for
(`near_shortest`), so it is read back as that number. Seventeen digits always suffice (`holds_above`): the grid of the
seventeenth digit is finer than half a unit of the last bit.
-/

namespace LayeredFix.Decimal

open Binary64 (pow2 pow10 pow2_pos Normal Near margin)

/-- The value of a decimal. -/
def value (d : Decimal) : ℚ := d.digits * 10 ^ d.exponent

/-! ### Powers as fractions -/

theorem cast_toNat_div {b : Nat} (hb : 0 < b) (e : Int) :
    ((b ^ e.toNat : Nat) : ℚ) / (b ^ (-e).toNat : Nat) = (b : ℚ) ^ e := by
  have hb' : (b : ℚ) ≠ 0 := by exact_mod_cast hb.ne'
  rw [Nat.cast_pow, Nat.cast_pow, ← zpow_natCast, ← zpow_natCast, ← zpow_sub₀ hb']
  congr 1
  omega

theorem pow2_div (e : Int) : (pow2 e.toNat : ℚ) / pow2 (-e).toNat = 2 ^ e := cast_toNat_div (b := 2) (by decide) e

theorem pow10_div (e : Int) : (pow10 e.toNat : ℚ) / pow10 (-e).toNat = 10 ^ e := cast_toNat_div (b := 10) (by decide) e

theorem pow10_pos (n : Nat) : (0 : ℚ) < pow10 n := by
  have : 0 < pow10 n := Nat.pow_pos (by decide)
  exact_mod_cast this

namespace Interval

variable {i : Interval}

/-- Comparing with a point of a grid is comparing fractions. -/
theorem le_point_iff (hd : 0 < i.denominator) (n digits : Nat) (exponent : Int) :
    n * pow10 (-exponent).toNat ≤ digits * pow10 exponent.toNat * i.denominator ↔
      (n : ℚ) / i.denominator ≤ digits * 10 ^ exponent := by
  have hd' : (0 : ℚ) < i.denominator := by exact_mod_cast hd
  rw [← pow10_div, mul_div_assoc', div_le_div_iff₀ hd' (pow10_pos _)]
  norm_cast

theorem lt_point_iff (hd : 0 < i.denominator) (n digits : Nat) (exponent : Int) :
    n * pow10 (-exponent).toNat < digits * pow10 exponent.toNat * i.denominator ↔
      (n : ℚ) / i.denominator < digits * 10 ^ exponent := by
  have hd' : (0 : ℚ) < i.denominator := by exact_mod_cast hd
  rw [← pow10_div, mul_div_assoc', div_lt_div_iff₀ hd' (pow10_pos _)]
  norm_cast

theorem point_le_iff (hd : 0 < i.denominator) (n digits : Nat) (exponent : Int) :
    digits * pow10 exponent.toNat * i.denominator ≤ n * pow10 (-exponent).toNat ↔
      (digits : ℚ) * 10 ^ exponent ≤ n / i.denominator := by
  rw [← not_lt, ← not_lt, lt_point_iff hd]

theorem point_lt_iff (hd : 0 < i.denominator) (n digits : Nat) (exponent : Int) :
    digits * pow10 exponent.toNat * i.denominator < n * pow10 (-exponent).toNat ↔
      (digits : ℚ) * 10 ^ exponent < n / i.denominator := by
  rw [← not_le, ← not_le, le_point_iff hd]

/-- What the interval holds, over the fractions. -/
theorem holds_iff (hd : 0 < i.denominator) (digits : Nat) (exponent : Int) :
    i.holds digits exponent = true ↔
      if i.closed then (i.low : ℚ) / i.denominator ≤ digits * 10 ^ exponent ∧
        (digits : ℚ) * 10 ^ exponent ≤ i.high / i.denominator
      else (i.low : ℚ) / i.denominator < digits * 10 ^ exponent ∧
        (digits : ℚ) * 10 ^ exponent < i.high / i.denominator := by
  unfold holds
  dsimp only
  split
  · rw [Bool.and_eq_true, decide_eq_true_iff, decide_eq_true_iff, le_point_iff hd, point_le_iff hd]
  · rw [Bool.and_eq_true, decide_eq_true_iff, decide_eq_true_iff, lt_point_iff hd, point_lt_iff hd]

/-- A point between the ends is held, whether the ends are or not. -/
theorem holds_of_lt (hd : 0 < i.denominator) {digits : Nat} {exponent : Int}
    (hlow : (i.low : ℚ) / i.denominator < digits * 10 ^ exponent)
    (hhigh : (digits : ℚ) * 10 ^ exponent < i.high / i.denominator) : i.holds digits exponent = true := by
  rw [holds_iff hd]
  split
  · exact ⟨hlow.le, hhigh.le⟩
  · exact ⟨hlow, hhigh⟩

/-! ### The grids -/

theorem gridFloor_le (hd : 0 < i.denominator) (exponent : Int) :
    (i.gridFloor exponent : ℚ) * 10 ^ exponent ≤ i.value / i.denominator := by
  rw [← point_le_iff hd]
  unfold gridFloor
  rw [mul_assoc, mul_comm (pow10 exponent.toNat)]
  exact Nat.div_mul_le_self ..

theorem lt_gridFloor (hd : 0 < i.denominator) (exponent : Int) :
    (i.value : ℚ) / i.denominator < (i.gridFloor exponent + 1 : Nat) * 10 ^ exponent := by
  have hpos : 0 < i.denominator * pow10 exponent.toNat := Nat.mul_pos hd (Nat.pow_pos (by decide))
  rw [← lt_point_iff hd]
  unfold gridFloor
  rw [mul_assoc, mul_comm (pow10 exponent.toNat), mul_comm (_ + 1)]
  exact Nat.lt_mul_div_succ _ hpos

/-- The exponent of the first digit is not too large. -/
theorem floorLog10_le (hd : 0 < i.denominator) (hv : 0 < i.value) :
    (10 : ℚ) ^ i.floorLog10 ≤ i.value / i.denominator := by
  have hd' : (0 : ℚ) < i.denominator := by exact_mod_cast hd
  unfold floorLog10
  dsimp only
  generalize hg : (Binary64.digitCount i.value : Int) - (Binary64.digitCount i.denominator : Int) = guess
  have hten : (0 : ℚ) < 10 ^ guess := by positivity
  split
  · have hlow : ((10 ^ (Binary64.digitCount i.value - 1) : Nat) : ℚ) ≤ i.value := by
      exact_mod_cast Binary64.pow_digitCount_le hv
    have hhigh : (i.denominator : ℚ) ≤ (10 ^ Binary64.digitCount i.denominator : Nat) := by
      exact_mod_cast (Binary64.lt_pow_digitCount i.denominator).le
    have hexp : guess - 1 + Binary64.digitCount i.denominator = ((Binary64.digitCount i.value - 1 : Nat) : Int) := by
      have := Binary64.digitCount_pos i.value
      omega
    rw [le_div_iff₀ hd']
    calc (10 : ℚ) ^ (guess - 1) * i.denominator
        ≤ 10 ^ (guess - 1) * (10 ^ Binary64.digitCount i.denominator : Nat) := by gcongr
      _ = (10 ^ (Binary64.digitCount i.value - 1) : Nat) := by
        rw [Nat.cast_pow, Nat.cast_pow, ← zpow_natCast, ← zpow_natCast, ← hexp, zpow_add₀ (by norm_num)]
        norm_num
      _ ≤ i.value := hlow
  · rename_i hfloor
    have hone : (1 : ℚ) ≤ i.gridFloor guess := by
      have : 0 < i.gridFloor guess := Nat.pos_of_ne_zero (by simpa using hfloor)
      exact_mod_cast this
    calc (10 : ℚ) ^ guess = 1 * 10 ^ guess := (one_mul _).symm
      _ ≤ i.gridFloor guess * 10 ^ guess := by gcongr
      _ ≤ i.value / i.denominator := i.gridFloor_le hd guess

/-- A hit lies in the interval. -/
theorem holds_of_nearestOnGrid? {exponent : Int} {digits : Nat} (h : i.nearestOnGrid? exponent = some digits) :
    i.holds digits exponent = true := by
  unfold nearestOnGrid? at h
  dsimp only at h
  split at h
  · cases h
  · rename_i hbelow _
    exact Option.some.inj h ▸ hbelow
  · rename_i _ habove
    exact Option.some.inj h ▸ habove
  · rename_i hbelow habove
    split at h
    · exact Option.some.inj h ▸ hbelow
    · split at h
      · exact Option.some.inj h ▸ habove
      · split at h
        · exact Option.some.inj h ▸ hbelow
        · exact Option.some.inj h ▸ habove

/-- Where the neighbour above is in the interval, there is a hit. -/
theorem exists_nearestOnGrid? {exponent : Int} (h : i.holds (i.gridFloor exponent + 1) exponent = true) :
    ∃ digits, i.nearestOnGrid? exponent = some digits := by
  unfold nearestOnGrid?
  dsimp only
  rw [h]
  split
  · rename_i h
    cases h
  · exact ⟨_, rfl⟩
  · exact ⟨_, rfl⟩
  · split
    · exact ⟨_, rfl⟩
    · split
      · exact ⟨_, rfl⟩
      · split <;> exact ⟨_, rfl⟩

/-- If one of the grids has a hit, what is found is a hit. -/
theorem holds_search {count : Nat} {exponent : Int} {k : Nat} (hk : k < count)
    (h : ∃ digits, i.nearestOnGrid? (exponent - k) = some digits) :
    i.holds (i.search count exponent).digits (i.search count exponent).exponent = true := by
  induction count generalizing exponent k with
  | zero => omega
  | succ count ih =>
    rw [search]
    split
    · rename_i digits hdigits
      exact holds_of_nearestOnGrid? hdigits
    · rename_i hnone
      cases k with
      | zero =>
        obtain ⟨digits, hdigits⟩ := h
        rw [Nat.cast_zero, sub_zero, hnone] at hdigits
        cases hdigits
      | succ k =>
        refine ih (k := k) (by omega) ?_
        rwa [show exponent - 1 - (k : Int) = exponent - ((k + 1 : Nat) : Int) by omega]

/-! ### The interval around a number -/

section
variable {m : Nat} {e : Int}

theorem around_denominator_pos : 0 < (around m e).denominator := Nat.mul_pos (by decide) (pow2_pos _)

theorem around_fraction (n : Nat) : ((n * pow2 e.toNat : Nat) : ℚ) / (around m e).denominator = n / 4 * 2 ^ e := by
  rw [← pow2_div]
  show ((n * pow2 e.toNat : Nat) : ℚ) / ((4 * pow2 (-e).toNat : Nat) : ℚ) = _
  have := pow2_pos (-e).toNat
  have hpos : (0 : ℚ) < pow2 (-e).toNat := by exact_mod_cast this
  push_cast
  field_simp

theorem around_value : ((around m e).value : ℚ) / (around m e).denominator = m * 2 ^ e := by
  have h := around_fraction (m := m) (e := e) (4 * m)
  rw [show (around m e).value = 4 * m * pow2 e.toNat from rfl, h]
  push_cast
  ring

theorem around_high : ((around m e).high : ℚ) / (around m e).denominator = (m + 1 / 2) * 2 ^ e := by
  have h := around_fraction (m := m) (e := e) (4 * m + 2)
  rw [show (around m e).high = (4 * m + 2) * pow2 e.toNat from rfl, h]
  push_cast
  ring

theorem around_low (hm : 0 < m) : ((around m e).low : ℚ) / (around m e).denominator = (m - margin m e) * 2 ^ e := by
  unfold margin
  by_cases hnarrow : m = 2 ^ 52 ∧ -1074 < e
  · have hlow : (around m e).low = (4 * m - 1) * pow2 e.toNat := by
      have hb : (m == pow2 52 && decide (-1074 < e)) = true := by
        rw [Bool.and_eq_true, beq_iff_eq, decide_eq_true_iff]
        exact hnarrow
      unfold around
      simp only [hb, if_true]
    rw [hlow, around_fraction, if_pos hnarrow, Nat.cast_sub (by omega)]
    push_cast
    ring
  · have hlow : (around m e).low = (4 * m - 2) * pow2 e.toNat := by
      have hb : (m == pow2 52 && decide (-1074 < e)) = false := by
        rw [← Bool.not_eq_true, Bool.and_eq_true, beq_iff_eq, decide_eq_true_iff]
        exact hnarrow
      unfold around
      simp only [hb, Bool.false_eq_true, if_false]
    rw [hlow, around_fraction, if_neg hnarrow, Nat.cast_sub (by omega)]
    push_cast
    ring

/-- **What the interval holds rounds to the number.** -/
theorem near_of_holds (hm : 0 < m) {digits : Nat} {exponent : Int} (h : (around m e).holds digits exponent = true) :
    Near m e (digits * 10 ^ exponent) := by
  have htwo : (0 : ℚ) < 2 ^ e := by positivity
  rw [holds_iff around_denominator_pos, around_low hm, around_high] at h
  rw [show (around m e).closed = (m % 2 == 0) from rfl] at h
  split at h
  · rename_i heven
    rw [beq_iff_eq] at heven
    exact ⟨(le_div_iff₀ htwo).2 h.1, (div_le_iff₀ htwo).2 h.2, fun hodd => by omega⟩
  · have hl := (lt_div_iff₀ htwo).2 h.1
    have hh := (div_lt_iff₀ htwo).2 h.2
    exact ⟨hl.le, hh.le, fun _ => ⟨hl, hh⟩⟩

/-- **Seventeen digits suffice**: on the grid of the eighteenth, the neighbour above is in the interval. -/
theorem holds_above (hm : 0 < m) (hlt : m < 2 ^ 53) :
    (around m e).holds ((around m e).gridFloor ((around m e).floorLog10 - 17) + 1) ((around m e).floorLog10 - 17) =
      true := by
  have hd := around_denominator_pos (m := m) (e := e)
  have hvalue := around_value (m := m) (e := e)
  have htwo : (0 : ℚ) < 2 ^ e := by positivity
  have hv : 0 < (around m e).value := Nat.mul_pos (by omega) (pow2_pos _)
  have hfirst := floorLog10_le hd hv
  have hbelow := gridFloor_le hd ((around m e).floorLog10 - 17)
  have habove := lt_gridFloor hd ((around m e).floorLog10 - 17)
  have hgrid : (10 : ℚ) ^ ((around m e).floorLog10 - 17) * 10 ^ 17 = 10 ^ (around m e).floorLog10 := by
    rw [← zpow_natCast, ← zpow_add₀ (by norm_num)]
    congr 1
    omega
  have hm' : (m : ℚ) < 2 ^ 53 := by exact_mod_cast hlt
  rw [hvalue] at hfirst hbelow habove
  generalize (around m e).floorLog10 = k at *
  have hfine : (10 : ℚ) ^ (k - 17) < 1 / 2 * 2 ^ e := by
    nlinarith
  have hmargin : (0 : ℚ) < margin m e := by
    unfold margin
    split <;> norm_num
  push_cast at habove
  refine holds_of_lt hd ?_ ?_
  · rw [around_low hm]
    push_cast
    nlinarith
  · rw [around_high]
    push_cast
    linarith

end

end Interval

/-! ### The shortest decimal -/

theorem value_trimZeros (fuel : Nat) (d : Decimal) : (trimZeros fuel d).value = d.value := by
  induction fuel generalizing d with
  | zero => rfl
  | succ fuel ih =>
    rw [trimZeros]
    split
    · rename_i h
      rw [Bool.and_eq_true, beq_iff_eq] at h
      have hdigits : d.digits = 10 * (d.digits / 10) := by omega
      have hcast : (d.digits : ℚ) = 10 * (d.digits / 10 : Nat) := by exact_mod_cast hdigits
      rw [ih]
      unfold value
      rw [hcast, zpow_add_one₀ (by norm_num)]
      ring
    · rfl

/-- **The shortest decimal rounds to the number.** -/
theorem near_shortest {m : Nat} {e : Int} (hm : Normal m e) (hpos : 0 < m) : Near m e (shortest m e).value := by
  unfold shortest
  rw [if_neg (by simpa using hpos.ne')]
  dsimp only
  rw [value_trimZeros]
  refine Interval.near_of_holds hpos (Interval.holds_search (k := 17) (by decide) ?_)
  exact Interval.exists_nearestOnGrid? (Interval.holds_above hpos hm.lt)

/-- The shortest decimal of a positive number has digits. -/
theorem digits_shortest_pos {m : Nat} {e : Int} (hm : Normal m e) (hpos : 0 < m) : 0 < (shortest m e).digits := by
  rcases Nat.eq_zero_or_pos (shortest m e).digits with hzero | hdigits
  · have hnear := (near_shortest hm hpos).bounds hm hpos
    unfold value at hnear
    rw [hzero, Nat.cast_zero, zero_mul] at hnear
    have hten : (0 : ℚ) < 10 ^ (-331 : Int) := by positivity
    linarith [hnear.1]
  · exact hdigits

/-- A decimal of the same value as the shortest one is read as the number. -/
theorem ofDecimal_of_value_eq {negative : Bool} {m : Nat} {e : Int} (hm : Normal m e) (hpos : 0 < m) {digits : Nat}
    {exponent : Int} (h : (digits : ℚ) * 10 ^ exponent = (shortest m e).value) :
    Binary64.ofDecimal negative digits exponent = .finite negative m e :=
  Binary64.ofDecimal_of_near hm hpos (h ▸ near_shortest hm hpos)

end LayeredFix.Decimal
