import Mathlib.Tactic.Common

/-!
# Layout of things of different sizes one behind the other

A list of things, each with a positive size, laid out from position 0 on:

* `Has size is p i`: the thing `i` starts at position `p`;
* `Boundary size is t`: `t` is the start of a thing or the end;
* `has_append`, `has_replace`, `boundary_replace`: what appending and replacing a thing by one of
  the same size changes;
* `has_map`, `has_flatMap`: what renaming the things and laying out their parts changes.
-/

set_option linter.unusedVariables false

namespace Layout

section
variable {ι : Type*} (size : ι → Nat)

/-- size of all things -/
def total : List ι → Nat
  | [] => 0
  | i :: is => size i + total is

/-- the thing that starts at a position -/
def Has : List ι → Nat → ι → Prop
  | [], _, _ => False
  | j :: is, p, i => (p = 0 ∧ i = j) ∨ (size j ≤ p ∧ Has is (p - size j) i)

/-- the start of a thing or the end -/
def Boundary : List ι → Nat → Prop
  | [], t => t = 0
  | j :: is, t => t = 0 ∨ (size j ≤ t ∧ Boundary is (t - size j))

@[simp] theorem total_nil : total size [] = 0 := rfl

@[simp] theorem total_cons (i : ι) (is : List ι) :
    total size (i :: is) = size i + total size is := rfl

@[simp] theorem total_append (is js : List ι) :
    total size (is ++ js) = total size is + total size js := by
  induction is with
  | nil => simp
  | cons i is ih => rw [List.cons_append, total_cons, total_cons, ih, Nat.add_assoc]

/-- size of things made of parts of size one -/
theorem total_length {κ : Type*} (f : ι → List κ) (is : List ι) :
    total (fun i => (f i).length) is = (is.flatMap f).length := by
  induction is with
  | nil => rfl
  | cons i is ih => rw [total_cons, ih, List.flatMap_cons, List.length_append]

variable {size} {is js l r : List ι} {i j k : ι} {p q t : Nat}

theorem boundary_zero : Boundary size is 0 := by
  cases is with
  | nil => rfl
  | cons j is => exact Or.inl rfl

theorem boundary_iff : Boundary size is t ↔ ∃ l r, is = l ++ r ∧ total size l = t := by
  constructor
  · intro h
    induction is generalizing t with
    | nil => exact ⟨[], [], rfl, h.symm⟩
    | cons j is ih =>
      rcases h with rfl | ⟨h1, h2⟩
      · exact ⟨[], j :: is, rfl, rfl⟩
      · obtain ⟨l, r, rfl, e⟩ := ih h2
        exact ⟨j :: l, r, rfl, by rw [total_cons, e]; omega⟩
  · rintro ⟨l, r, rfl, rfl⟩
    induction l with
    | nil => exact boundary_zero
    | cons j l ih => exact Or.inr ⟨by simp, by simpa using ih⟩

theorem has_iff : Has size is p i ↔ ∃ l r, is = l ++ i :: r ∧ total size l = p := by
  constructor
  · intro h
    induction is generalizing p with
    | nil => exact h.elim
    | cons j is ih =>
      rcases h with ⟨rfl, rfl⟩ | ⟨h1, h2⟩
      · exact ⟨[], is, rfl, rfl⟩
      · obtain ⟨l, r, rfl, e⟩ := ih h2
        exact ⟨j :: l, r, rfl, by rw [total_cons, e]; omega⟩
  · rintro ⟨l, r, rfl, rfl⟩
    induction l with
    | nil => exact Or.inl ⟨rfl, rfl⟩
    | cons j l ih => exact Or.inr ⟨by simp, by simpa using ih⟩

theorem boundary_total : Boundary size is (total size is) :=
  boundary_iff.2 ⟨is, [], (List.append_nil is).symm, rfl⟩

theorem Boundary.append (h : Boundary size is t) : Boundary size (is ++ js) t := by
  obtain ⟨l, r, rfl, rfl⟩ := boundary_iff.1 h
  exact boundary_iff.2 ⟨l, r ++ js, List.append_assoc _ _ _, rfl⟩

theorem Boundary.le (h : Boundary size is t) : t ≤ total size is := by
  obtain ⟨l, r, rfl, rfl⟩ := boundary_iff.1 h
  rw [total_append]
  exact Nat.le_add_right _ _

theorem Has.mem (h : Has size is p i) : i ∈ is := by
  obtain ⟨l, r, rfl, -⟩ := has_iff.1 h
  simp

theorem Has.le (h : Has size is p i) : p + size i ≤ total size is := by
  obtain ⟨l, r, rfl, rfl⟩ := has_iff.1 h
  simp only [total_append, total_cons]
  omega

/-- different pieces do not overlap -/
theorem Has.apart {q : Nat} {j : ι} (h1 : Has size is p i) (h2 : Has size is q j) (hne : i ≠ j) :
    p + size i ≤ q ∨ q + size j ≤ p := by
  induction is generalizing p q with
  | nil => exact h1.elim
  | cons k is ih =>
    rcases h1 with ⟨e1, rfl⟩ | ⟨e1, h1⟩ <;> rcases h2 with ⟨e2, rfl⟩ | ⟨e2, h2⟩
    · exact absurd rfl hne
    · omega
    · omega
    · have := ih h1 h2
      omega

theorem has_append : Has size (is ++ js) p i ↔
    Has size is p i ∨ (total size is ≤ p ∧ Has size js (p - total size is) i) := by
  induction is generalizing p with
  | nil => simp [Has]
  | cons j is ih =>
    simp only [List.cons_append, Has, ih, total_cons]
    constructor
    · rintro (h | ⟨h1, h2 | ⟨h2, h3⟩⟩)
      · exact Or.inl (Or.inl h)
      · exact Or.inl (Or.inr ⟨h1, h2⟩)
      · exact Or.inr ⟨by omega, by rwa [Nat.sub_add_eq]⟩
    · rintro ((h | ⟨h1, h2⟩) | ⟨h1, h2⟩)
      · exact Or.inl h
      · exact Or.inr ⟨h1, Or.inl h2⟩
      · exact Or.inr ⟨by omega, Or.inr ⟨by omega, by rwa [Nat.sub_add_eq] at h2⟩⟩

theorem Has.append (h : Has size is p i) : Has size (is ++ js) p i := has_append.2 (Or.inl h)

theorem has_total : Has size (is ++ i :: js) (total size is) i :=
  has_iff.2 ⟨is, js, rfl, rfl⟩

theorem boundary_replace (h : size j = size i) :
    Boundary size (l ++ j :: r) t ↔ Boundary size (l ++ i :: r) t := by
  induction l generalizing t with
  | nil => simp only [List.nil_append, Boundary, h]
  | cons k l ih => simp only [List.cons_append, Boundary, ih]

section map
variable {κ : Type*} {size' : κ → Nat}

theorem has_map {f : κ → ι} (h : ∀ k, size (f k) = size' k) {ks : List κ} :
    Has size (ks.map f) p i ↔ ∃ k, f k = i ∧ Has size' ks p k := by
  induction ks generalizing p with
  | nil => simp [Has]
  | cons k ks ih =>
    simp only [List.map_cons, Has, ih, h]
    constructor
    · rintro (⟨rfl, rfl⟩ | ⟨h1, k', rfl, h2⟩)
      · exact ⟨k, rfl, Or.inl ⟨rfl, rfl⟩⟩
      · exact ⟨k', rfl, Or.inr ⟨h1, h2⟩⟩
    · rintro ⟨k', rfl, ⟨rfl, rfl⟩ | ⟨h1, h2⟩⟩
      · exact Or.inl ⟨rfl, rfl⟩
      · exact Or.inr ⟨h1, k', rfl, h2⟩

theorem boundary_map {f : κ → ι} (h : ∀ k, size (f k) = size' k) {ks : List κ} :
    Boundary size (ks.map f) t ↔ Boundary size' ks t := by
  induction ks generalizing t with
  | nil => rfl
  | cons k ks ih => simp only [List.map_cons, Boundary, ih, h]

theorem total_map {f : κ → ι} (h : ∀ k, size (f k) = size' k) (ks : List κ) :
    total size (ks.map f) = total size' ks := by
  induction ks with
  | nil => rfl
  | cons k ks ih => rw [List.map_cons, total_cons, h, ih, total_cons]

variable {f : ι → List κ} (hf : ∀ i, total size' (f i) = size i)
include hf

theorem total_flatMap (is : List ι) : total size' (is.flatMap f) = total size is := by
  induction is with
  | nil => rfl
  | cons i is ih => rw [List.flatMap_cons, total_append, ih, hf, total_cons]

/-- things that are laid out in parts: where the parts are -/
theorem has_flatMap {k : κ} : Has size' (is.flatMap f) q k ↔
    ∃ p i, Has size is p i ∧ p ≤ q ∧ Has size' (f i) (q - p) k := by
  constructor
  · intro h
    induction is generalizing q with
    | nil => exact h.elim
    | cons j is ih =>
      rw [List.flatMap_cons, has_append, hf] at h
      rcases h with h | ⟨h1, h2⟩
      · exact ⟨0, j, Or.inl ⟨rfl, rfl⟩, by omega, h⟩
      · obtain ⟨p, i, h3, h4, h5⟩ := ih h2
        refine ⟨p + size j, i, Or.inr ⟨by omega, by rwa [Nat.add_sub_cancel]⟩, by omega, ?_⟩
        rwa [Nat.sub_sub, Nat.add_comm] at h5
  · rintro ⟨p, i, h1, h2, h3⟩
    obtain ⟨l, r, rfl, rfl⟩ := has_iff.1 h1
    rw [List.flatMap_append, List.flatMap_cons, has_append, total_flatMap hf]
    exact Or.inr ⟨h2, Has.append h3⟩

theorem Boundary.flatMap (h : Boundary size is t) : Boundary size' (is.flatMap f) t := by
  obtain ⟨l, r, rfl, rfl⟩ := boundary_iff.1 h
  exact boundary_iff.2 ⟨l.flatMap f, r.flatMap f, List.flatMap_append, total_flatMap hf l⟩

end map

/-- a boundary in front of a last thing is the start of a thing -/
theorem Boundary.has_concat (h : Boundary size is t) (i : ι) : ∃ j, Has size (is ++ [i]) t j := by
  obtain ⟨l, r, rfl, rfl⟩ := boundary_iff.1 h
  cases r with
  | nil => exact ⟨i, has_iff.2 ⟨l, [], by simp, rfl⟩⟩
  | cons j r => exact ⟨j, has_iff.2 ⟨l, r ++ [i], by simp, rfl⟩⟩

variable (hp : ∀ i, 0 < size i)
include hp

theorem Has.unique (h1 : Has size is p i) (h2 : Has size is p j) : i = j := by
  induction is generalizing p with
  | nil => exact h1.elim
  | cons k is ih =>
    have := hp k
    rcases h1 with ⟨e1, rfl⟩ | ⟨e1, h1⟩ <;> rcases h2 with ⟨e2, rfl⟩ | ⟨e2, h2⟩
    · rfl
    · omega
    · omega
    · exact ih h1 h2

theorem has_replace (h : size j = size i) : Has size (l ++ j :: r) q k ↔
    (q = total size l ∧ k = j) ∨ (q ≠ total size l ∧ Has size (l ++ i :: r) q k) := by
  have := hp j
  induction l generalizing q with
  | nil =>
    simp only [List.nil_append, Has, total_nil, h]
    constructor
    · rintro (h1 | ⟨h1, h2⟩)
      · exact Or.inl h1
      · exact Or.inr ⟨by omega, Or.inr ⟨h1, h2⟩⟩
    · rintro (h1 | ⟨h1, h2 | h2⟩)
      · exact Or.inl h1
      · exact absurd h2.1 h1
      · exact Or.inr h2
  | cons m l ih =>
    have := hp m
    simp only [List.cons_append, Has, total_cons, ih]
    constructor
    · rintro (h1 | ⟨h1, h2 | h2⟩)
      · exact Or.inr ⟨by omega, Or.inl h1⟩
      · exact Or.inl ⟨by omega, h2.2⟩
      · exact Or.inr ⟨by omega, Or.inr ⟨h1, h2.2⟩⟩
    · rintro (⟨h1, h2⟩ | ⟨h1, h2 | h2⟩)
      · exact Or.inr ⟨by omega, Or.inl ⟨by omega, h2⟩⟩
      · exact Or.inl h2
      · exact Or.inr ⟨h2.1, Or.inr ⟨by omega, h2.2⟩⟩

end

end Layout
