import LayeredFix.Number.Binary64
import Mathlib.Algebra.Order.Field.Power
import Mathlib.Data.Rat.Cast.Order
import Mathlib.Tactic.FieldSimp
import Mathlib.Tactic.Linarith
import Mathlib.Tactic.Positivity
import Mathlib.Tactic.Ring
import Mathlib.Tactic.NormNum

/-!
# Rounding

A positive fraction becomes the floating-point number that it rounds to (`ofRatio_of_near`), and so does a decimal
(`ofDecimal_of_near`). The numbers that round to `m * 2 ^ e` are those at most half a unit of the last bit away
(`Near`), but only a quarter below a power of two, where the bits get finer.
-/

namespace LayeredFix.Binary64

/-! ### Scaling -/

theorem pow2_eq (n : Nat) : pow2 n = 2 ^ n := rfl

theorem pow10_eq (n : Nat) : pow10 n = 10 ^ n := rfl

theorem pow2_pos (n : Nat) : 0 < pow2 n := Nat.two_pow_pos n

theorem cast_pow2_toNat {e : Int} (he : 0 ≤ e) : (pow2 e.toNat : ℚ) = 2 ^ e := by
  rw [pow2_eq, Nat.cast_pow, ← zpow_natCast, Int.toNat_of_nonneg he]
  rfl

theorem scaleDown_pos (num : Nat) {den : Nat} (hden : 0 < den) (e : Int) : 0 < (scaleDown num den e).2 := by
  unfold scaleDown
  split
  · exact Nat.mul_pos hden (pow2_pos _)
  · exact hden

/-- Scaling a fraction divides it by a power of two. -/
theorem scaleDown_eq (num den : Nat) (e : Int) :
    ((scaleDown num den e).1 : ℚ) / (scaleDown num den e).2 = num / den / 2 ^ e := by
  unfold scaleDown
  split
  · rename_i he
    rw [Nat.cast_mul, cast_pow2_toNat he, div_div]
  · rename_i he
    have hneg : 0 ≤ -e := by omega
    rw [Nat.cast_mul, cast_pow2_toNat hneg, zpow_neg, div_eq_mul_inv _ ((2 : ℚ) ^ e), mul_div_right_comm]

/-! ### Rounding to an integer -/

/-- The nearest integer, a half going to the even neighbour. -/
theorem roundHalfEven_eq {n d m : Nat} (hd : 0 < d) (hlow : (2 * m) * d ≤ 2 * n + d) (hhigh : 2 * n ≤ (2 * m + 1) * d)
    (htie : (2 * m) * d = 2 * n + d ∨ 2 * n = (2 * m + 1) * d → m % 2 = 0) : roundHalfEven n d = m := by
  unfold roundHalfEven
  dsimp only
  have hn := Nat.div_add_mod n d
  have hr := Nat.mod_lt n hd
  generalize n / d = q at hn ⊢
  generalize n % d = r at hn hr ⊢
  subst hn
  have hle : m ≤ q + 1 := by
    by_contra h
    have : (2 * (q + 2)) * d ≤ (2 * m) * d := Nat.mul_le_mul_right d (by omega)
    nlinarith
  have hge : q ≤ m := by
    by_contra h
    have : (2 * m + 1) * d + d ≤ (2 * q) * d := by
      rw [← Nat.succ_mul]
      exact Nat.mul_le_mul_right d (by omega)
    nlinarith
  obtain rfl | rfl : m = q ∨ m = q + 1 := by omega
  · have hup : 2 * r ≤ d := by nlinarith
    have heven : 2 * r = d → m % 2 = 0 := fun h => htie (Or.inr (by nlinarith))
    rw [if_neg (by omega)]
    split
    · rfl
    · rw [if_pos (by simpa using heven (by omega))]
  · have hdown : d ≤ 2 * r := by nlinarith
    have heven : 2 * r = d → (q + 1) % 2 = 0 := fun h => htie (Or.inl (by nlinarith))
    split
    · rfl
    · rw [if_neg (by omega), if_neg]
      have := heven (by omega)
      simp only [beq_iff_eq]
      omega

/-! ### The exponent of the first binary digit -/

theorem floorLog2_spec {num den : Nat} (hnum : 0 < num) (hden : 0 < den) :
    (2 : ℚ) ^ floorLog2 num den ≤ num / den ∧ (num : ℚ) / den < 2 ^ (floorLog2 num den + 1) := by
  have hnum' : (0 : ℚ) < num := by exact_mod_cast hnum
  have hden' : (0 : ℚ) < den := by exact_mod_cast hden
  have hlow : (2 : ℚ) ^ (Nat.log2 num : Int) ≤ num := by
    rw [zpow_natCast]
    exact_mod_cast Nat.log2_self_le hnum.ne'
  have hhigh : (num : ℚ) < 2 ^ ((Nat.log2 num : Int) + 1) := by
    rw [← Nat.cast_succ, zpow_natCast]
    exact_mod_cast Nat.lt_log2_self
  have hlow' : (2 : ℚ) ^ (Nat.log2 den : Int) ≤ den := by
    rw [zpow_natCast]
    exact_mod_cast Nat.log2_self_le hden.ne'
  have hhigh' : (den : ℚ) < 2 ^ ((Nat.log2 den : Int) + 1) := by
    rw [← Nat.cast_succ, zpow_natCast]
    exact_mod_cast Nat.lt_log2_self
  -- The guess is right or one too large.
  generalize hg : (Nat.log2 num : Int) - (Nat.log2 den : Int) = guess
  have habove : (num : ℚ) / den < 2 ^ (guess + 1) := by
    rw [div_lt_iff₀ hden']
    calc (num : ℚ) < 2 ^ ((Nat.log2 num : Int) + 1) := hhigh
      _ = 2 ^ (guess + 1) * 2 ^ (Nat.log2 den : Int) := by rw [← zpow_add₀ two_ne_zero]; congr 1; omega
      _ ≤ 2 ^ (guess + 1) * den := by gcongr
  have hbelow : (2 : ℚ) ^ (guess - 1) ≤ num / den := by
    rw [le_div_iff₀ hden']
    calc (2 : ℚ) ^ (guess - 1) * den ≤ 2 ^ (guess - 1) * 2 ^ ((Nat.log2 den : Int) + 1) := by gcongr
      _ = 2 ^ (Nat.log2 num : Int) := by rw [← zpow_add₀ two_ne_zero]; congr 1; omega
      _ ≤ num := hlow
  have hscale := scaleDown_eq num den guess
  have hpos := scaleDown_pos num hden guess
  have hpos' : (0 : ℚ) < (scaleDown num den guess).2 := by exact_mod_cast hpos
  have htwo : (0 : ℚ) < 2 ^ guess := by positivity
  unfold floorLog2
  simp only [hg]
  split
  · rename_i hle
    refine ⟨?_, habove⟩
    have hone : (1 : ℚ) ≤ num / den / 2 ^ guess := by
      rw [← hscale, le_div_iff₀ hpos', one_mul]
      exact_mod_cast hle
    rwa [le_div_iff₀ htwo, one_mul] at hone
  · rename_i hlt
    refine ⟨hbelow, ?_⟩
    have hone : (num : ℚ) / den / 2 ^ guess < 1 := by
      rw [← hscale, div_lt_iff₀ hpos', one_mul]
      exact_mod_cast not_le.1 hlt
    rw [div_lt_iff₀ htwo, one_mul] at hone
    rwa [sub_add_cancel]

/-- The exponent is the only one between whose powers of two the fraction lies. -/
theorem floorLog2_eq {num den : Nat} (hnum : 0 < num) (hden : 0 < den) {k : Int} (hlow : (2 : ℚ) ^ k ≤ num / den)
    (hhigh : (num : ℚ) / den < 2 ^ (k + 1)) : floorLog2 num den = k := by
  obtain ⟨hl, hh⟩ := floorLog2_spec hnum hden
  have h₁ := (zpow_lt_zpow_iff_right₀ (one_lt_two (α := ℚ))).1 (hl.trans_lt hhigh)
  have h₂ := (zpow_lt_zpow_iff_right₀ (one_lt_two (α := ℚ))).1 (hlow.trans_lt hh)
  omega

/-! ### Rounding to a floating-point number -/

/-- A mantissa and an exponent in normal form. -/
structure Normal (m : Nat) (e : Int) : Prop where
  /-- The mantissa has at most 53 bits. -/
  lt : m < 2 ^ 53
  /-- The least exponent. -/
  least : -1074 ≤ e
  /-- The greatest exponent. -/
  greatest : e ≤ 971
  /-- The mantissa has 53 bits, or the exponent is the least one. -/
  leading : 2 ^ 52 ≤ m ∨ e = -1074

/-- How far below `m`, in units of `2 ^ e`, the numbers reach that round to `m * 2 ^ e`. -/
def margin (m : Nat) (e : Int) : ℚ := if m = 2 ^ 52 ∧ -1074 < e then 1 / 4 else 1 / 2

/-- The number `x` rounds to `m * 2 ^ e`. -/
structure Near (m : Nat) (e : Int) (x : ℚ) : Prop where
  /-- It is not too small. -/
  low : (m : ℚ) - margin m e ≤ x / 2 ^ e
  /-- It is not too large. -/
  high : x / 2 ^ e ≤ m + 1 / 2
  /-- The ends belong to an even mantissa. -/
  strict : m % 2 = 1 → (m : ℚ) - margin m e < x / 2 ^ e ∧ x / 2 ^ e < m + 1 / 2

theorem margin_le (m : Nat) (e : Int) : margin m e ≤ 1 / 2 := by
  unfold margin
  split <;> norm_num

theorem roundHalfEven_of_near {n d m : Nat} (hd : 0 < d) (hlow : (m : ℚ) - 1 / 2 ≤ n / d)
    (hhigh : (n : ℚ) / d ≤ m + 1 / 2)
    (hstrict : m % 2 = 1 → (m : ℚ) - 1 / 2 < n / d ∧ (n : ℚ) / d < m + 1 / 2) : roundHalfEven n d = m := by
  have hd' : (0 : ℚ) < d := by exact_mod_cast hd
  rw [le_div_iff₀ hd'] at hlow
  rw [div_le_iff₀ hd'] at hhigh
  rw [lt_div_iff₀ hd', div_lt_iff₀ hd'] at hstrict
  have hlow' : ((2 * m * d : Nat) : ℚ) ≤ (2 * n + d : Nat) := by
    push_cast
    linarith
  have hhigh' : ((2 * n : Nat) : ℚ) ≤ ((2 * m + 1) * d : Nat) := by
    push_cast
    linarith
  refine roundHalfEven_eq hd (by exact_mod_cast hlow') (by exact_mod_cast hhigh') ?_
  intro htie
  by_contra hodd
  obtain ⟨hl, hh⟩ := hstrict (by omega)
  rcases htie with htie | htie
  · have htie' : ((2 * m * d : Nat) : ℚ) = (2 * n + d : Nat) := by exact_mod_cast htie
    push_cast at htie'
    linarith
  · have htie' : ((2 * n : Nat) : ℚ) = ((2 * m + 1) * d : Nat) := by exact_mod_cast htie
    push_cast at htie'
    linarith

/-- What is written when the exponent of the last bit is known. -/
theorem ofRatio_eq {negative : Bool} {num den : Nat} (hnum : 0 < num) {e : Int}
    (he : max (floorLog2 num den - 52) (-1074) = e) :
    ofRatio negative num den =
      let m := roundHalfEven (scaleDown num den e).1 (scaleDown num den e).2
      let (m, e) := if m == pow2 53 then (pow2 52, e + 1) else (m, e)
      if 971 < e then infinity negative else finite negative m e := by
  unfold ofRatio
  rw [if_neg (by simpa using hnum.ne'), he]

/-- **A fraction that rounds to a number becomes this number.** -/
theorem ofRatio_of_near {negative : Bool} {num den m : Nat} {e : Int} (hnum : 0 < num) (hden : 0 < den)
    (hm : Normal m e) (h : Near m e (num / den)) : ofRatio negative num den = finite negative m e := by
  have htwo : (0 : ℚ) < 2 ^ e := by positivity
  have hscale (e : Int) := scaleDown_eq num den e
  have hpos (e : Int) := scaleDown_pos num hden e
  have hmlt : (m : ℚ) ≤ 2 ^ 53 - 1 := by
    have : m + 1 ≤ 2 ^ 53 := hm.lt
    have : ((m + 1 : Nat) : ℚ) ≤ (2 ^ 53 : Nat) := by exact_mod_cast this
    push_cast at this
    linarith
  -- The fraction in units of the last bit.
  have hunit (k : Nat) : (2 : ℚ) ^ (e + k) = 2 ^ k * 2 ^ e := by
    rw [zpow_add₀ two_ne_zero, zpow_natCast, mul_comm]
  by_cases hshort : (num : ℚ) / den / 2 ^ e < 2 ^ 52 ∧ -1074 < e
  · -- Below a power of two the bits are finer, and the fraction is rounded up to the power.
    obtain ⟨hy, he⟩ := hshort
    have hm' : m = 2 ^ 52 := by
      have hle : (m : ℚ) < 2 ^ 52 + 1 := by linarith [h.low, margin_le m e]
      have hle' : m < 2 ^ 52 + 1 := by exact_mod_cast hle
      have hge := hm.leading.resolve_right (by omega)
      omega
    have hlow : (2 : ℚ) ^ 52 - 1 / 4 ≤ num / den / 2 ^ e := by
      have hlow := h.low
      rw [margin, if_pos ⟨hm', he⟩, hm'] at hlow
      exact_mod_cast hlow
    rw [le_div_iff₀ htwo] at hlow
    rw [div_lt_iff₀ htwo] at hy
    have hfloor : floorLog2 num den = e + 51 := by
      have h51 := hunit 51
      have h52 := hunit 52
      push_cast at h51 h52
      refine floorLog2_eq hnum hden ?_ ?_
      · rw [h51]
        nlinarith
      · rw [show e + 51 + 1 = e + 52 by omega, h52]
        exact hy
    have hhalf : (2 : ℚ) ^ e = 2 * 2 ^ (e - 1) := by
      rw [← zpow_one_add₀ two_ne_zero]
      congr 1
      omega
    have htwo' : (0 : ℚ) < 2 ^ (e - 1) := by positivity
    rw [ofRatio_eq hnum (e := e - 1) (by rw [hfloor]; omega)]
    have hround : roundHalfEven (scaleDown num den (e - 1)).1 (scaleDown num den (e - 1)).2 = 2 ^ 53 := by
      refine roundHalfEven_of_near (hpos _) ?_ ?_ (by norm_num)
      · rw [hscale, le_div_iff₀ htwo']
        rw [hhalf] at hlow
        push_cast
        linarith
      · rw [hscale, div_le_iff₀ htwo']
        rw [hhalf] at hy
        push_cast
        linarith
    have heq : ((2 ^ 53 : Nat) == pow2 53) = true := by decide
    simp only [hround, heq, if_true, sub_add_cancel, hm']
    exact if_neg (not_lt.2 hm.greatest)
  · have he : max (floorLog2 num den - 52) (-1074) = e := by
      by_cases hlead : (2 : ℚ) ^ 52 ≤ num / den / 2 ^ e
      · have hlt : (num : ℚ) / den / 2 ^ e < 2 ^ 53 := by linarith [h.high]
        rw [le_div_iff₀ htwo] at hlead
        rw [div_lt_iff₀ htwo] at hlt
        have h52 := hunit 52
        have h53 := hunit 53
        push_cast at h52 h53
        have hfloor : floorLog2 num den = e + 52 := by
          refine floorLog2_eq hnum hden ?_ ?_
          · rwa [h52]
          · rwa [show e + 52 + 1 = e + 53 by omega, h53]
        have := hm.least
        omega
      · have hy := not_le.1 hlead
        have hleast : e = -1074 := by
          have := hm.least
          by_contra hne
          exact hshort ⟨hy, by omega⟩
        rw [div_lt_iff₀ htwo] at hy
        have h52 := hunit 52
        push_cast at h52
        rw [← h52] at hy
        have hlt := (zpow_lt_zpow_iff_right₀ (one_lt_two (α := ℚ))).1 ((floorLog2_spec hnum hden).1.trans_lt hy)
        omega
    rw [ofRatio_eq hnum he]
    have hround : roundHalfEven (scaleDown num den e).1 (scaleDown num den e).2 = m := by
      have hmargin := margin_le m e
      refine roundHalfEven_of_near (hpos e) ?_ ?_ ?_
      · rw [hscale]
        linarith [h.low]
      · rw [hscale]
        exact h.high
      · intro hodd
        rw [hscale]
        exact ⟨by linarith [(h.strict hodd).1], (h.strict hodd).2⟩
    have hne : (m == pow2 53) = false := by
      rw [beq_eq_false_iff_ne, pow2_eq]
      exact hm.lt.ne
    simp only [hround, hne]
    exact if_neg (not_lt.2 hm.greatest)

/-! ### Decimals -/

theorem cast_pow10_toNat {e : Int} (he : 0 ≤ e) : (pow10 e.toNat : ℚ) = 10 ^ e := by
  rw [pow10_eq, Nat.cast_pow, ← zpow_natCast, Int.toNat_of_nonneg he]
  rfl

theorem digitCount_pos (n : Nat) : 0 < digitCount n := List.length_pos_of_ne_nil Nat.toDigits_ne_nil

theorem lt_pow_digitCount (n : Nat) : n < 10 ^ digitCount n :=
  (Nat.length_toDigits_le_iff (by decide) (digitCount_pos n)).1 le_rfl

theorem pow_digitCount_le {n : Nat} (hn : 0 < n) : 10 ^ (digitCount n - 1) ≤ n := by
  by_contra hlt
  rcases Nat.eq_zero_or_pos (digitCount n - 1) with hz | hpos
  · rw [hz] at hlt
    omega
  · have := (Nat.length_toDigits_le_iff (b := 10) (by decide) hpos).2 (not_le.1 hlt)
    have hc : digitCount n ≤ digitCount n - 1 := this
    omega

/-- The size of a decimal is read off its digits and its exponent. -/
theorem size_spec {digits : Nat} (hdigits : 0 < digits) (exponent : Int) :
    (10 : ℚ) ^ (exponent + digitCount digits - 1) ≤ digits * 10 ^ exponent ∧
      (digits : ℚ) * 10 ^ exponent < 10 ^ (exponent + digitCount digits) := by
  have hten : (0 : ℚ) < 10 ^ exponent := by positivity
  have hlow : ((10 ^ (digitCount digits - 1) : Nat) : ℚ) ≤ digits := by exact_mod_cast pow_digitCount_le hdigits
  have hhigh : (digits : ℚ) < (10 ^ digitCount digits : Nat) := by exact_mod_cast lt_pow_digitCount digits
  constructor
  · have hexp : exponent + digitCount digits - 1 = ((digitCount digits - 1 : Nat) : Int) + exponent := by
      have := digitCount_pos digits
      omega
    rw [hexp, zpow_add₀ (by norm_num), zpow_natCast]
    push_cast at hlow
    gcongr
  · rw [add_comm, zpow_add₀ (by norm_num), zpow_natCast]
    push_cast at hhigh
    gcongr

/-- A number that rounds to one in normal form is neither too small nor too large for the format. -/
theorem Near.bounds {m : Nat} {e : Int} {x : ℚ} (h : Near m e x) (hm : Normal m e) (hpos : 0 < m) :
    (10 : ℚ) ^ (-331 : Int) < x ∧ x < 10 ^ (309 : Int) := by
  have htwo : (0 : ℚ) < 2 ^ e := by positivity
  have hone : (1 : ℚ) ≤ m := by exact_mod_cast hpos
  have hlt : (m : ℚ) + 1 ≤ 2 ^ 53 := by exact_mod_cast hm.lt
  have hlow : (1 / 2 : ℚ) ≤ x / 2 ^ e := by linarith [h.low, margin_le m e]
  have hhigh : x / 2 ^ e ≤ (2 : ℚ) ^ 53 := by linarith [h.high]
  rw [le_div_iff₀ htwo] at hlow
  rw [div_le_iff₀ htwo] at hhigh
  have hleast : (2 : ℚ) ^ (-1074 : Int) ≤ 2 ^ e := zpow_le_zpow_right₀ one_le_two hm.least
  have hgreatest : (2 : ℚ) ^ e ≤ 2 ^ (971 : Int) := zpow_le_zpow_right₀ one_le_two hm.greatest
  constructor
  · have hpow : 2 * 2 ^ 1074 < 10 ^ 331 := by decide +kernel
    have hsmall : (10 : ℚ) ^ (-331 : Int) < 1 / 2 * 2 ^ (-1074 : Int) := by
      rw [zpow_neg, zpow_neg, one_div, ← mul_inv]
      exact inv_strictAnti₀ (by positivity) (by exact_mod_cast hpow)
    calc (10 : ℚ) ^ (-331 : Int) < 1 / 2 * 2 ^ (-1074 : Int) := hsmall
      _ ≤ 1 / 2 * 2 ^ e := by gcongr
      _ ≤ x := hlow
  · have hpow : 2 ^ 53 * 2 ^ 971 < 10 ^ 309 := by decide +kernel
    calc x ≤ 2 ^ 53 * 2 ^ e := hhigh
      _ ≤ 2 ^ 53 * 2 ^ (971 : Int) := by gcongr
      _ < 10 ^ (309 : Int) := by exact_mod_cast hpow

/-- **A decimal that rounds to a number is read as this number.** -/
theorem ofDecimal_of_near {negative : Bool} {digits m : Nat} {exponent e : Int} (hm : Normal m e) (hpos : 0 < m)
    (h : Near m e (digits * 10 ^ exponent)) : ofDecimal negative digits exponent = finite negative m e := by
  obtain ⟨hsmall, hlarge⟩ := h.bounds hm hpos
  have hdigits : 0 < digits := by
    rcases Nat.eq_zero_or_pos digits with rfl | hdigits
    · have hzero : (0 : ℚ) < 10 ^ (-331 : Int) := by positivity
      rw [Nat.cast_zero, zero_mul] at hsmall
      linarith
    · exact hdigits
  obtain ⟨hlow, hhigh⟩ := size_spec hdigits exponent
  have hten : (1 : ℚ) < 10 := by norm_num
  have hleast := (zpow_lt_zpow_iff_right₀ hten).1 (hsmall.trans hhigh)
  have hgreatest := (zpow_lt_zpow_iff_right₀ hten).1 (hlow.trans_lt hlarge)
  unfold ofDecimal
  have hfirst : (digits == 0 || exponent + (digitCount digits : Int) < -330) = false := by
    rw [Bool.or_eq_false_iff, beq_eq_false_iff_ne, decide_eq_false_iff_not]
    omega
  dsimp only
  rw [hfirst, if_neg (by decide), if_neg (by omega)]
  split
  · rename_i hexp
    refine ofRatio_of_near (Nat.mul_pos hdigits (Nat.pow_pos (by decide))) one_pos hm ?_
    rwa [Nat.cast_mul, cast_pow10_toNat hexp, Nat.cast_one, div_one]
  · rename_i hexp
    refine ofRatio_of_near hdigits (Nat.pow_pos (by decide)) hm ?_
    rwa [cast_pow10_toNat (by omega), zpow_neg, div_inv_eq_mul]

/-- Zero is read as zero. -/
theorem ofDecimal_zero (negative : Bool) (exponent : Int) :
    ofDecimal negative 0 exponent = finite negative 0 (-1074) := by
  rw [ofDecimal]
  exact if_pos (by simp)

/-! ### Everything made here is in normal form -/

/-- A finite number is in normal form. -/
def IsNormal : Binary64 → Prop
  | finite _ m e => Normal m e
  | infinity _ | nan => True

theorem isNormal_zero (negative : Bool) : IsNormal (finite negative 0 (-1074)) :=
  ⟨by decide, by decide, by decide, Or.inr rfl⟩

theorem roundHalfEven_bounds (n d : Nat) : n / d ≤ roundHalfEven n d ∧ roundHalfEven n d ≤ n / d + 1 := by
  unfold roundHalfEven
  dsimp only
  split
  · omega
  · split
    · omega
    · split <;> omega

/-- The first bits of a fraction, over the exponent of the last of them. -/
theorem scaleDown_bounds {num den : Nat} (hnum : 0 < num) (hden : 0 < den) {e : Int}
    (he : max (floorLog2 num den - 52) (-1074) = e) :
    (scaleDown num den e).1 / (scaleDown num den e).2 < 2 ^ 53 ∧
      (-1074 < e → 2 ^ 52 ≤ (scaleDown num den e).1 / (scaleDown num den e).2) := by
  have hd := scaleDown_pos num hden e
  have hd' : (0 : ℚ) < (scaleDown num den e).2 := by exact_mod_cast hd
  have htwo : (0 : ℚ) < 2 ^ e := by positivity
  have hscale := scaleDown_eq num den e
  obtain ⟨hlow, hhigh⟩ := floorLog2_spec hnum hden
  have hunit (k : Nat) : (2 : ℚ) ^ (e + k) = 2 ^ k * 2 ^ e := by
    rw [zpow_add₀ two_ne_zero, zpow_natCast, mul_comm]
  have h52 := hunit 52
  have h53 := hunit 53
  push_cast at h52 h53
  constructor
  · rw [Nat.div_lt_iff_lt_mul hd]
    have hlt : (num : ℚ) / den < 2 ^ (e + 53) :=
      hhigh.trans_le (zpow_le_zpow_right₀ one_le_two (by omega))
    rw [h53, ← div_lt_iff₀ htwo, ← hscale, div_lt_iff₀ hd'] at hlt
    exact_mod_cast hlt
  · intro hleast
    rw [Nat.le_div_iff_mul_le hd]
    have hle : (2 : ℚ) ^ (e + 52) ≤ num / den := by
      rwa [show e + 52 = floorLog2 num den by omega]
    rw [h52, ← le_div_iff₀ htwo, ← hscale, le_div_iff₀ hd'] at hle
    exact_mod_cast hle

theorem ofRatio_isNormal (negative : Bool) (num : Nat) {den : Nat} (hden : 0 < den) :
    IsNormal (ofRatio negative num den) := by
  rcases Nat.eq_zero_or_pos num with rfl | hnum
  · exact isNormal_zero negative
  · generalize he : max (floorLog2 num den - 52) (-1074) = e
    rw [ofRatio_eq hnum he]
    obtain ⟨hlt, hle⟩ := scaleDown_bounds hnum hden he
    obtain ⟨hlow, hhigh⟩ := roundHalfEven_bounds (scaleDown num den e).1 (scaleDown num den e).2
    generalize roundHalfEven (scaleDown num den e).1 (scaleDown num den e).2 = m at hlow hhigh
    by_cases hm : m = 2 ^ 53
    · have hb : (m == pow2 53) = true := by rw [hm]; decide
      simp only [hb, if_true]
      split
      · trivial
      · exact ⟨by decide, by omega, by omega, Or.inl (le_refl _)⟩
    · have hb : (m == pow2 53) = false := by rw [beq_eq_false_iff_ne]; exact hm
      simp only [hb, Bool.false_eq_true, if_false]
      split
      · trivial
      · refine ⟨by omega, by omega, by omega, ?_⟩
        rcases eq_or_ne e (-1074) with h | h
        · exact Or.inr h
        · exact Or.inl ((hle (by omega)).trans hlow)

theorem ofDecimal_isNormal (negative : Bool) (digits : Nat) (exponent : Int) :
    IsNormal (ofDecimal negative digits exponent) := by
  unfold ofDecimal
  dsimp only
  split
  · exact isNormal_zero negative
  · split
    · trivial
    · split
      · exact ofRatio_isNormal _ _ one_pos
      · exact ofRatio_isNormal _ _ (Nat.pow_pos (by decide))

end LayeredFix.Binary64
