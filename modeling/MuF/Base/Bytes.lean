import Mathlib.Tactic.Common
import Mathlib.Tactic.Ring
import Mathlib.Data.List.GetD

/-!
# Little-endian words and byte-addressed memory

* `toLE`, `ofLE`: a number as `n` little-endian bytes and back, `ofLE_toLE`;
* `Mem`: memory as a function on addresses, with `read`, `write`;
* `At m a bs`: the bytes `bs` stand in `m` from address `a` on, with the rules for appending
  and for writes inside and outside the range.
-/

set_option linter.unusedVariables false

namespace Bytes

/-! ## little-endian words -/

/-- the lowest `n` base-256 digits of `x`, lowest first -/
def toLE : Nat → Nat → List UInt8
  | 0, _ => []
  | n+1, x => UInt8.ofNat (x % 256) :: toLE n (x / 256)

/-- the number with the given base-256 digits, lowest first -/
def ofLE : List UInt8 → Nat
  | [] => 0
  | b :: bs => b.toNat + 256 * ofLE bs

@[simp] theorem length_toLE (n x : Nat) : (toLE n x).length = n := by
  induction n generalizing x with
  | zero => rfl
  | succ n ih => simp [toLE, ih]

theorem ofLE_toLE (n x : Nat) (h : x < 256^n) : ofLE (toLE n x) = x := by
  induction n generalizing x with
  | zero => simp only [Nat.pow_zero] at h; simp [toLE, ofLE]; omega
  | succ n ih =>
    have h1 : x / 256 < 256^n := by
      rw [Nat.div_lt_iff_lt_mul (by decide), ← Nat.pow_succ]
      exact h
    have h2 : (UInt8.ofNat (x % 256)).toNat = x % 256 := by simp
    rw [toLE, ofLE, ih _ h1, h2]
    omega

/-! ## memory -/

/-- byte-addressed memory -/
abbrev Mem := Int → UInt8

/-- the `n` bytes from address `a` on -/
def read (m : Mem) (a : Int) : Nat → List UInt8
  | 0 => []
  | n+1 => m a :: read m (a + 1) n

/-- memory with the bytes `bs` put at address `a` -/
def write (m : Mem) (a : Int) (bs : List UInt8) : Mem :=
  fun i => if a ≤ i ∧ i < a + bs.length then bs.getD (i - a).toNat 0 else m i

/-- the bytes `bs` stand at address `a` -/
def At (m : Mem) (a : Int) (bs : List UInt8) : Prop := read m a bs.length = bs

instance (m : Mem) (a : Int) (bs : List UInt8) : Decidable (At m a bs) :=
  inferInstanceAs (Decidable (read m a bs.length = bs))

@[simp] theorem length_read (m : Mem) (a : Int) (n : Nat) : (read m a n).length = n := by
  induction n generalizing a with
  | zero => rfl
  | succ n ih => simp [read, ih]

theorem getElem_read (m : Mem) (a : Int) (n i : Nat) (h : i < (read m a n).length) :
    (read m a n)[i] = m (a + i) := by
  induction n generalizing a i with
  | zero => simp at h
  | succ n ih =>
    cases i with
    | zero => simp [read]
    | succ i =>
      simp only [read, List.getElem_cons_succ, ih]
      congr 1
      omega

theorem read_add (m : Mem) (a : Int) (n k : Nat) :
    read m a (n + k) = read m a n ++ read m (a + n) k := by
  induction n generalizing a with
  | zero => simp [read]
  | succ n ih =>
    rw [Nat.succ_add, read, read, ih, List.cons_append]
    congr 3
    omega

theorem read_congr {m m' : Mem} {a : Int} {n : Nat}
    (h : ∀ i, a ≤ i → i < a + n → m i = m' i) : read m a n = read m' a n := by
  induction n generalizing a with
  | zero => rfl
  | succ n ih =>
    rw [read, read, h a (by omega) (by omega), ih]
    intro i h1 h2
    exact h i (by omega) (by omega)

/-! ## writes -/

@[simp] theorem write_nil (m : Mem) (a : Int) : write m a [] = m := by
  funext i
  have h : ¬ (a ≤ i ∧ i < a + (([] : List UInt8).length : Int)) := by simp
  rw [write, if_neg h]

theorem write_outside (m : Mem) (a : Int) (bs : List UInt8) (i : Int)
    (h : i < a ∨ a + bs.length ≤ i) : write m a bs i = m i := by
  rw [write, if_neg]
  omega

theorem write_inside (m : Mem) (a : Int) (bs : List UInt8) (i : Nat) (h : i < bs.length) :
    write m a bs (a + i) = bs[i] := by
  have e : (a + i - a).toNat = i := by omega
  rw [write, if_pos (by omega), e]
  simp [h]

theorem write_append (m : Mem) (a : Int) (xs ys : List UInt8) :
    write (write m (a + xs.length) ys) a xs = write m a (xs ++ ys) := by
  funext i
  simp only [write, List.length_append]
  by_cases h1 : a ≤ i ∧ i < a + xs.length
  · rw [if_pos h1, if_pos (by push_cast; omega), List.getD_append _ _ _ _ (by omega)]
  · rw [if_neg h1]
    by_cases h2 : a + xs.length ≤ i ∧ i < a + xs.length + ys.length
    · rw [if_pos h2, if_pos (by push_cast; omega), List.getD_append_right _ _ _ _ (by omega)]
      congr 1
      omega
    · rw [if_neg h2, if_neg (by push_cast; omega)]

theorem write_comm (m : Mem) (a b : Int) (xs ys : List UInt8)
    (h : a + xs.length ≤ b ∨ b + ys.length ≤ a) :
    write (write m a xs) b ys = write (write m b ys) a xs := by
  funext i
  simp only [write]
  by_cases h1 : b ≤ i ∧ i < b + ys.length
  · rw [if_pos h1, if_neg (by omega : ¬ (a ≤ i ∧ i < a + xs.length)), if_pos h1]
  · rw [if_neg h1]
    by_cases h2 : a ≤ i ∧ i < a + xs.length
    · rw [if_pos h2, if_pos h2]
    · rw [if_neg h2, if_neg h2, if_neg h1]

/-- writing right behind a written range extends it -/
theorem write_append' (m : Mem) (a : Int) (xs ys : List UInt8) :
    write (write m a xs) (a + xs.length) ys = write m a (xs ++ ys) := by
  rw [write_comm _ _ _ _ _ (Or.inl (le_refl _)), write_append]

/-! ## contents -/

/-- a write over all of an earlier one -/
theorem write_over (m : Mem) (a b : Int) (xs ys : List UInt8) (h1 : a ≤ b)
    (h2 : b + ys.length ≤ a + xs.length) : write (write m b ys) a xs = write m a xs := by
  funext i
  by_cases hi : i < a ∨ a + xs.length ≤ i
  · rw [write_outside _ _ _ _ hi, write_outside _ _ _ _ hi, write_outside _ _ _ _ (by omega)]
  · obtain ⟨k, rfl⟩ : ∃ k : Nat, i = a + k := ⟨(i - a).toNat, by omega⟩
    rw [write_inside _ _ _ k (by omega), write_inside _ _ _ k (by omega)]

theorem read_write_self (m : Mem) (a : Int) (bs : List UInt8) :
    read (write m a bs) a bs.length = bs := by
  apply List.ext_getElem
  · simp
  · intro i h1 h2
    rw [getElem_read, write_inside _ _ _ _ h2]

theorem read_write_outside (m : Mem) (a b : Int) (n : Nat) (bs : List UInt8)
    (h : b + bs.length ≤ a ∨ a + n ≤ b) : read (write m b bs) a n = read m a n := by
  apply read_congr
  intro i h1 h2
  apply write_outside
  omega

theorem At.read_eq {m : Mem} {a : Int} {bs : List UInt8} (h : At m a bs) :
    read m a bs.length = bs := h

theorem At.read_eq' {m : Mem} {a : Int} {bs : List UInt8} {n : Nat} (h : At m a bs)
    (hn : n = bs.length) : read m a n = bs := by
  subst hn
  exact h

@[simp] theorem at_nil (m : Mem) (a : Int) : At m a [] := rfl

theorem at_append {m : Mem} {a : Int} {xs ys : List UInt8} :
    At m a (xs ++ ys) ↔ At m a xs ∧ At m (a + xs.length) ys := by
  simp only [At, List.length_append, read_add]
  constructor
  · intro h
    exact List.append_inj h (by simp)
  · rintro ⟨h1, h2⟩
    rw [h1, h2]

theorem at_cons {m : Mem} {a : Int} {x : UInt8} {xs : List UInt8} :
    At m a (x :: xs) ↔ m a = x ∧ At m (a + 1) xs := by
  simp [At, read]

theorem At.get {m : Mem} {a : Int} {bs : List UInt8} (h : At m a bs) (i : Nat)
    (hi : i < bs.length) : m (a + i) = bs[i] := by
  have e := getElem_read m a bs.length i (by simpa using hi)
  rw [← e]
  simp [h.read_eq]

theorem at_of_get {m : Mem} {a : Int} {bs : List UInt8}
    (h : ∀ i (hi : i < bs.length), m (a + i) = bs[i]) : At m a bs := by
  apply List.ext_getElem
  · simp
  · intro i h1 h2
    rw [getElem_read, h i h2]

theorem at_write_self (m : Mem) (a : Int) (bs : List UInt8) : At (write m a bs) a bs :=
  read_write_self m a bs

theorem at_write_outside {m : Mem} {a b : Int} {xs ys : List UInt8}
    (h : b + ys.length ≤ a ∨ a + xs.length ≤ b) : At (write m b ys) a xs ↔ At m a xs := by
  rw [At, read_write_outside _ _ _ _ _ h, At]

theorem At.congr {m m' : Mem} {a : Int} {bs : List UInt8} (h : At m a bs)
    (e : ∀ i, a ≤ i → i < a + bs.length → m' i = m i) : At m' a bs := by
  rw [At, read_congr e]
  exact h

/-! ## bytes in a list -/

/-- the bytes `bs` stand at position `p` of `l` -/
def Sits (l : List UInt8) (p : Nat) (bs : List UInt8) : Prop :=
  ∀ i < bs.length, l[p + i]? = bs[i]?

section
variable {l : List UInt8} {p : Nat} {as bs : List UInt8}

theorem Sits.le (h : Sits l p bs) (hn : bs ≠ []) : p + bs.length ≤ l.length := by
  have hl : 0 < bs.length := List.length_pos_iff.2 hn
  have e := h (bs.length - 1) (by omega)
  rw [List.getElem?_eq_getElem (by omega : bs.length - 1 < bs.length)] at e
  obtain ⟨hlt, -⟩ := List.getElem?_eq_some_iff.1 e
  omega

theorem Sits.congr {l' : List UInt8} (h : Sits l p bs)
    (e : ∀ i, p ≤ i → i < p + bs.length → l'[i]? = l[i]?) : Sits l' p bs := by
  intro i hi
  rw [e (p + i) (by omega) (by omega), h i hi]

theorem sits_append : Sits l p (as ++ bs) ↔ Sits l p as ∧ Sits l (p + as.length) bs := by
  constructor
  · intro h
    refine ⟨?_, ?_⟩
    · intro i hi
      rw [h i (by rw [List.length_append]; omega), List.getElem?_append_left hi]
    · intro i hi
      have e := h (as.length + i) (by rw [List.length_append]; omega)
      rw [← Nat.add_assoc, List.getElem?_append_right (by omega), Nat.add_sub_cancel_left] at e
      exact e
  · rintro ⟨h1, h2⟩ i hi
    rw [List.length_append] at hi
    by_cases hc : i < as.length
    · rw [h1 i hc, List.getElem?_append_left hc]
    · have e := h2 (i - as.length) (by omega)
      rw [show p + as.length + (i - as.length) = p + i by omega] at e
      rw [e, List.getElem?_append_right (by omega)]

theorem sits_cons {b : UInt8} : Sits l p (b :: bs) ↔ l[p]? = some b ∧ Sits l (p + 1) bs := by
  rw [← List.singleton_append, sits_append]
  refine and_congr_left fun _ => ?_
  constructor
  · intro h
    exact h 0 (by simp)
  · intro h i hi
    obtain rfl : i = 0 := by simpa using hi
    exact h

theorem sits_middle (as bs cs : List UInt8) : Sits (as ++ bs ++ cs) as.length bs := by
  intro i hi
  rw [List.append_assoc, List.getElem?_append_right (by omega), Nat.add_sub_cancel_left,
    List.getElem?_append_left hi]

/-- bytes of a list that stands at the beginning of a memory -/
theorem Sits.at {m : Mem} (h : Sits l p bs) (hm : At m 0 l) : At m p bs := by
  refine at_of_get fun i hi => ?_
  have e := h i hi
  rw [List.getElem?_eq_getElem hi] at e
  obtain ⟨hl, e⟩ := List.getElem?_eq_some_iff.1 e
  rw [← e, ← hm.get (p + i) hl]
  congr 1
  push_cast
  omega

end

end Bytes
