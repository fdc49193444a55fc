import Mathlib.Algebra.Order.BigOperators.Group.List
import Mathlib.Algebra.Order.Group.Nat
import Mathlib.Algebra.Order.Monoid.Canonical.Defs
import Mathlib.Algebra.GroupWithZero.Nat
import Mathlib.Data.List.Nodup

/-!
# Things that are put below each other

* `total`: the size of things together;
* `depth`: how deep a thing begins if each one is put below those before it;
* `depth_some`, `depth_apart`: all of them are inside of the total size, and apart from each other;
* `total_le_sum`: different entries of a table are not larger than the table.
-/

set_option linter.unusedVariables false

namespace Stacked

variable {α : Type} (size : α → Nat)

/-- the size of things together -/
def total (xs : List α) : Nat := (xs.map size).sum

/-- how deep a thing begins, the last one first -/
def depth [DecidableEq α] : List α → α → Option Nat
  | [], _ => none
  | x :: xs, y => if y = x then some (total size (x :: xs)) else depth xs y

section
variable {size} {xs : List α} {x y : α} {d e : Nat}

theorem total_cons (x : α) (xs : List α) : total size (x :: xs) = size x + total size xs := by
  unfold total
  rw [List.map_cons, List.sum_cons]

variable [DecidableEq α]

theorem depth_cons (x : α) (xs : List α) (y : α) : depth size (x :: xs) y =
    if y = x then some (total size (x :: xs)) else depth size xs y := rfl

/-- a thing is inside of the total size -/
theorem depth_some (h : depth size xs x = some d) : x ∈ xs ∧ size x ≤ d ∧ d ≤ total size xs := by
  induction xs with
  | nil => cases h
  | cons z xs ih =>
    have ht : total size (z :: xs) = size z + total size xs := total_cons z xs
    rw [depth_cons] at h
    split at h
    · next e =>
      cases h
      subst e
      exact ⟨List.mem_cons_self, by omega, Nat.le_refl _⟩
    · obtain ⟨h1, h2, h3⟩ := ih h
      exact ⟨List.mem_cons_of_mem _ h1, h2, by omega⟩

theorem depth_eq_none : depth size xs x = none ↔ x ∉ xs := by
  induction xs with
  | nil => simp [depth]
  | cons z xs ih =>
    rw [depth_cons]
    by_cases e : x = z
    · simp [e]
    · simp [e, ih]

/-- different things are apart -/
theorem depth_apart (hne : x ≠ y) (hx : depth size xs x = some d) (hy : depth size xs y = some e) :
    e + size x ≤ d ∨ d + size y ≤ e := by
  induction xs with
  | nil => cases hx
  | cons z xs ih =>
    have ht : total size (z :: xs) = size z + total size xs := total_cons z xs
    rw [depth_cons] at hx hy
    split at hx <;> split at hy
    · next e1 e2 => exact absurd (e1.trans e2.symm) hne
    · next e1 e2 =>
      subst e1
      cases hx
      obtain ⟨-, -, h3⟩ := depth_some hy
      exact Or.inl (by omega)
    · next e1 e2 =>
      subst e2
      cases hy
      obtain ⟨-, -, h3⟩ := depth_some hx
      exact Or.inr (by omega)
    · exact ih hx hy

end

variable {size} in
/-- different entries of a table are not larger than the table -/
theorem total_le_sum {β : Type} {xs : List α} {table : List β} {weight : β → Nat} (entry : α → β)
    (hd : xs.Nodup) (hinj : ∀ x ∈ xs, ∀ y ∈ xs, entry x = entry y → x = y)
    (h : ∀ x ∈ xs, entry x ∈ table ∧ size x = weight (entry x)) :
    total size xs ≤ (table.map weight).sum := by
  have hnd : (xs.map entry).Nodup := List.Nodup.map_on hinj hd
  have hsub : xs.map entry ⊆ table := by
    intro b hb
    obtain ⟨x, hx, rfl⟩ := List.mem_map.1 hb
    exact (h x hx).1
  obtain ⟨l, hl, hsl⟩ := List.subperm_of_subset hnd hsub
  have e : total size xs = ((xs.map entry).map weight).sum := by
    unfold total
    rw [List.map_map]
    exact congrArg List.sum (List.map_congr_left fun x hx => (h x hx).2)
  rw [e, ← (hl.map _).sum_eq]
  exact (hsl.map _).sum_le_sum fun _ _ => Nat.zero_le _

end Stacked
