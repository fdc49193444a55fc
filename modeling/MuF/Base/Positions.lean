import Mathlib.Algebra.BigOperators.Group.List.Basic
import Mathlib.Algebra.GroupWithZero.Nat
import Mathlib.Data.List.Forall2

/-!
# Row-major positions

The position of a tuple of indices in an array with several dimensions, where the last index varies
fastest.

* `position_lt`: indices below the dimensions give positions below their product;
* `position_inj`: different ones give different positions.
-/

namespace Positions

/-- the sum of the indices, each multiplied with the dimensions behind its own -/
def position (dims idx : List Nat) : Nat :=
  ((List.range idx.length).map fun k => idx.getD k 0 * (dims.drop (k + 1)).prod).sum

/-- every index is below its dimension -/
abbrev Inside (idx dims : List Nat) : Prop := List.Forall₂ (· < ·) idx dims

variable {d i : Nat} {dims idx idx' : List Nat}

@[simp] theorem position_nil (dims : List Nat) : position dims [] = 0 := rfl

@[simp] theorem position_cons (d i : Nat) (dims idx : List Nat) :
    position (d :: dims) (i :: idx) = i * dims.prod + position dims idx := by
  unfold position
  rw [List.length_cons, List.range_succ_eq_map, List.map_cons, List.sum_cons, List.map_map]
  rfl

theorem position_lt (h : Inside idx dims) : position dims idx < dims.prod := by
  induction h with
  | nil => simp
  | @cons i d idx dims hi _ ih =>
    rw [position_cons, List.prod_cons]
    calc i * dims.prod + position dims idx < i * dims.prod + dims.prod := Nat.add_lt_add_left ih _
      _ = (i + 1) * dims.prod := (Nat.succ_mul i dims.prod).symm
      _ ≤ d * dims.prod := Nat.mul_le_mul_right _ hi

theorem position_inj (h : Inside idx dims) (h' : Inside idx' dims)
    (e : position dims idx = position dims idx') : idx = idx' := by
  induction h generalizing idx' with
  | nil =>
    cases h'
    rfl
  | @cons i d idx dims hi ht ih =>
    cases h' with
    | @cons i' _ idx' _ hi' ht' =>
      rw [position_cons, position_cons] at e
      have h1 := position_lt ht
      have h2 := position_lt ht'
      have hpos : 0 < dims.prod := by omega
      -- the quotient is the first index, the remainder the position of the others
      have hdiv := congrArg (· / dims.prod) e
      have hmod := congrArg (· % dims.prod) e
      simp only [Nat.add_comm (_ * _), Nat.add_mul_div_right _ _ hpos, Nat.div_eq_of_lt h1,
        Nat.div_eq_of_lt h2, Nat.zero_add, Nat.add_mul_mod_self_right, Nat.mod_eq_of_lt h1,
        Nat.mod_eq_of_lt h2] at hdiv hmod
      rw [hdiv, ih ht' hmod]

end Positions
