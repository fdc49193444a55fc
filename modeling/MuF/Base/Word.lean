import Mathlib.Tactic.Ring

/-!
# Machine words and the integers they stand for

Sums and differences of 32-bit words agree with the integers as long as they stay in range.  The
lemmas take the amount as a natural number, which is how sizes come.
-/

set_option linter.unusedVariables false

namespace Word

theorem bmod_of_range {x : Int} (h1 : -2^31 ≤ x) (h2 : x < 2^31) : x.bmod (2^32) = x :=
  Int.bmod_eq_of_le (by simp only [Nat.reducePow] at *; omega) (by simp only [Nat.reducePow] at *; omega)

theorem toInt_add {a b : Int32} (h1 : -2^31 ≤ a.toInt + b.toInt) (h2 : a.toInt + b.toInt < 2^31) :
    (a + b).toInt = a.toInt + b.toInt := by
  rw [Int32.toInt_add, bmod_of_range h1 h2]

theorem toInt_sub {a b : Int32} (h1 : -2^31 ≤ a.toInt - b.toInt) (h2 : a.toInt - b.toInt < 2^31) :
    (a - b).toInt = a.toInt - b.toInt := by
  rw [Int32.toInt_sub, bmod_of_range h1 h2]

theorem toInt_ofInt {x : Int} (h1 : -2^31 ≤ x) (h2 : x < 2^31) : (Int32.ofInt x).toInt = x :=
  Int32.toInt_ofInt_of_le h1 h2

theorem toInt_ofNat {n : Nat} (h : n < 2^31) : (Int32.ofNat n).toInt = n :=
  Int32.toInt_ofNat_of_lt h

theorem add_ofNat_eq (a : Int32) (n : Nat) : a + Int32.ofNat n = Int32.ofInt (a.toInt + n) := by
  rw [Int32.ofInt_add, Int32.ofInt_toInt, Int32.ofInt_eq_ofNat]

theorem sub_ofNat_eq (a : Int32) (n : Nat) : a - Int32.ofNat n = Int32.ofInt (a.toInt - n) := by
  rw [Int32.ofInt_sub, Int32.ofInt_toInt, Int32.ofInt_eq_ofNat]

theorem toInt_add_nat {a : Int32} {n : Nat} (h : a.toInt + n < 2^31) :
    (a + Int32.ofNat n).toInt = a.toInt + n := by
  have h0 := a.le_toInt
  rw [add_ofNat_eq, toInt_ofInt (by omega) h]

theorem toInt_sub_nat {a : Int32} {n : Nat} (h : -2^31 ≤ a.toInt - n) :
    (a - Int32.ofNat n).toInt = a.toInt - n := by
  have h0 := a.toInt_lt
  rw [sub_ofNat_eq, toInt_ofInt h (by omega)]

/-- a sum that leaves the range comes back at its other end -/
theorem toInt_add_wrap {a : Int32} {n : Nat} (hn : n < 2^31) (h : 2^31 ≤ a.toInt + n) :
    (a + Int32.ofNat n).toInt = a.toInt + n - 2^32 := by
  have ha := a.toInt_lt
  have e : (a.toInt + n - 2^32 + ((2^32 : Nat) : Int)).bmod (2^32) =
      (a.toInt + n - 2^32).bmod (2^32) := Int.add_bmod_right _ _
  have e1 : a.toInt + n - 2^32 + ((2^32 : Nat) : Int) = a.toInt + n := by
    simp only [Nat.reducePow]; omega
  rw [e1] at e
  rw [Int32.toInt_add, toInt_ofNat hn, e, bmod_of_range (by omega) (by omega)]

theorem add_add_nat (a : Int32) (m n : Nat) :
    a + Int32.ofNat m + Int32.ofNat n = a + Int32.ofNat (m + n) := by
  rw [Int32.ofNat_add, Int32.add_assoc]

theorem sub_sub_nat (a : Int32) (m n : Nat) :
    a - Int32.ofNat m - Int32.ofNat n = a - Int32.ofNat (m + n) := by
  rw [Int32.ofNat_add, Int32.sub_sub]

end Word
