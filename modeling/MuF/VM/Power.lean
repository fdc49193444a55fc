import MuF.VM.Arith
import Mathlib.Algebra.Order.Field.Power
import Mathlib.Data.Rat.Floor
import Mathlib.Tactic.Linarith

/-!
# Exact integer powers

* `truncate`: a rational without its fraction;
* `PowerExact`: what `power` should give for a base and an exponent;
* **`powerExact_iff`**: it does unless the base is one or minus one and the exponent is negative.
-/

namespace MuF

/-! ## truncation -/

/-- a rational, rounded toward zero -/
def truncate (q : ℚ) : Int := if 0 ≤ q then ⌊q⌋ else ⌈q⌉

theorem truncate_fraction {q : ℚ} (h1 : -1 < q) (h2 : q < 1) : truncate q = 0 := by
  unfold truncate
  split
  · next h => exact Int.floor_eq_zero_iff.2 ⟨h, h2⟩
  · next h => exact Int.ceil_eq_zero_iff.2 ⟨h1, (not_le.1 h).le⟩

theorem truncate_one : truncate 1 = 1 := by
  unfold truncate
  rw [if_pos zero_le_one, Int.floor_one]

theorem truncate_neg_one : truncate (-1) = -1 := by
  unfold truncate
  rw [if_neg (by norm_num)]
  exact Int.ceil_eq_iff.2 ⟨by norm_num, by norm_num⟩

/-- the absolute value of a power with a negative exponent -/
theorem abs_zpow_lt_one {b e : Int} (h0 : b ≠ 0) (h1 : b ≠ 1) (h2 : b ≠ -1) (he : e < 0) :
    |(b : ℚ) ^ e| < 1 := by
  have hb : 1 < |b| := by
    rw [lt_abs]
    omega
  have hb' : (1 : ℚ) < |(b : ℚ)| := by
    rw [← Int.cast_abs]
    exact_mod_cast hb
  rw [abs_zpow]
  exact zpow_lt_one_of_neg₀ hb' he

theorem truncate_zpow {b e : Int} (h0 : b ≠ 0) (h1 : b ≠ 1) (h2 : b ≠ -1) (he : e < 0) :
    truncate ((b : ℚ) ^ e) = 0 := by
  obtain ⟨hl, hr⟩ := abs_lt.1 (abs_zpow_lt_one h0 h1 h2 he)
  exact truncate_fraction hl hr

/-- the powers of one and minus one are not truncated -/
theorem truncate_unit {b e : Int} (hb : b = 1 ∨ b = -1) : truncate ((b : ℚ) ^ e) ≠ 0 := by
  rcases hb with rfl | rfl
  · rw [Int.cast_one, one_zpow, truncate_one]
    exact one_ne_zero
  · rw [Int.cast_neg, Int.cast_one]
    rcases Int.even_or_odd e with he | he
    · rw [he.neg_one_zpow, truncate_one]
      exact one_ne_zero
    · rw [he.neg_one_zpow, truncate_neg_one]
      exact neg_ne_zero.2 one_ne_zero

/-! ## powers -/

/-- the power of a base and an exponent: exact modulo `2 ^ 64` if the exponent is not negative, with
the law for sums of exponents, and the truncated rational if it is negative -/
structure PowerExact (b e : Int64) : Prop where
  nonneg : 0 ≤ e.toInt → intPower b e = Int64.ofInt (b.toInt ^ e.toInt.toNat)
  sum : ∀ e1 e2 : Int64, 0 ≤ e1.toInt → 0 ≤ e2.toInt → e1.toInt + e2.toInt = e.toInt →
    intPower b e = intPower b e1 * intPower b e2
  neg : e.toInt < 0 → b ≠ 0 → (intPower b e).toInt = truncate ((b.toInt : ℚ) ^ e.toInt)

theorem intPower_add {b e e1 e2 : Int64} (h1 : 0 ≤ e1.toInt) (h2 : 0 ≤ e2.toInt)
    (h : e1.toInt + e2.toInt = e.toInt) : intPower b e = intPower b e1 * intPower b e2 := by
  have he : 0 ≤ e.toInt := h ▸ add_nonneg h1 h2
  have hn : e.toInt.toNat = e1.toInt.toNat + e2.toInt.toNat := by
    rw [← h]
    exact Int.toNat_add h1 h2
  rw [intPower_eq he, intPower_eq h1, intPower_eq h2, hn, pow_add, Int64.ofInt_mul]

/-- **Integer power** is exact unless the base is one or minus one and the exponent is negative. -/
theorem powerExact_iff (b e : Int64) :
    PowerExact b e ↔ ¬ (e.toInt < 0 ∧ (b = 1 ∨ b = -1)) := by
  have e1 : b = 1 ↔ b.toInt = 1 := Int64.toInt_inj.symm
  have e2 : b = -1 ↔ b.toInt = -1 := Int64.toInt_inj.symm
  have e0 : b = 0 ↔ b.toInt = 0 := Int64.toInt_inj.symm
  constructor
  · rintro h ⟨hneg, hb⟩
    have h0 : b ≠ 0 := by
      rcases hb with rfl | rfl <;> decide
    have hz : (intPower b e).toInt = 0 := by
      rw [intPower_neg hneg]
      rfl
    rw [e1, e2] at hb
    exact truncate_unit hb ((h.neg hneg h0).symm.trans hz)
  · intro h
    refine ⟨fun hp => intPower_eq hp, fun e1 e2 h1 h2 hs => intPower_add h1 h2 hs, ?_⟩
    intro hneg h0
    have h1 : b ≠ 1 := fun hb => h ⟨hneg, Or.inl hb⟩
    have h2 : b ≠ -1 := fun hb => h ⟨hneg, Or.inr hb⟩
    rw [Ne, e0] at h0
    rw [Ne, e1] at h1
    rw [Ne, e2] at h2
    rw [intPower_neg hneg, truncate_zpow h0 h1 h2 hneg]
    rfl

/-- one to the power of minus one -/
theorem not_powerExact_one : ¬ PowerExact 1 (-1) := by
  intro h
  have hn := h.neg (by decide) (by decide)
  rw [intPower_neg (by decide)] at hn
  exact truncate_unit (Or.inl rfl) hn.symm

end MuF
