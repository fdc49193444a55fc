import MuF.Base.Exec

/-!
# Runs that fail with a given error

* `Fails e x s`: the run of `x` from `s` fails with `e`;
* `Never e x`: no run of `x` does;
* `Says x s`: a test of the state that finishes with `true`;
* `Fares o P x`: every run of `x` fails as `o` says, or has a result with `P`.
-/

set_option linter.unusedVariables false

namespace Exec

variable {ε σ α β : Type} {e : ε} {x : EStateM ε σ α} {f : α → EStateM ε σ β} {s : σ}

/-! ## failures -/

/-- the run of `x` from `s` fails with `e` -/
def Fails (e : ε) (x : EStateM ε σ α) (s : σ) : Prop := ∃ s', x.run s = .error e s'

/-- no run of `x` fails with `e` -/
def Never (e : ε) (x : EStateM ε σ α) : Prop := ∀ s, ¬ Fails e x s

theorem fails_throw {e' : ε} : Fails e (throw e' : EStateM ε σ α) s ↔ e' = e := by
  constructor
  · rintro ⟨s', h⟩
    rw [run_throw] at h
    cases h
    rfl
  · rintro rfl
    exact ⟨s, run_throw _ _⟩

theorem fails_bind : Fails e (x >>= f) s ↔
    Fails e x s ∨ ∃ a s', x.run s = .ok a s' ∧ Fails e (f a) s' := by
  constructor
  · rintro ⟨t, h⟩
    rcases bind_eq_error.1 h with h | ⟨a, s', h1, h2⟩
    · exact Or.inl ⟨t, h⟩
    · exact Or.inr ⟨a, s', h1, t, h2⟩
  · rintro (⟨t, h⟩ | ⟨a, s', h1, t, h2⟩)
    · exact ⟨t, bind_error h⟩
    · exact ⟨t, bind_eq_error.2 (Or.inr ⟨a, s', h1, h2⟩)⟩

theorem fails_bind_ok {s' : σ} {a : α} (h : x.run s = .ok a s') :
    Fails e (x >>= f) s ↔ Fails e (f a) s' := by
  simp only [Fails, bind_ok h]

/-- only the first part fails -/
theorem fails_bind_left (hf : ∀ a, Never e (f a)) : Fails e (x >>= f) s ↔ Fails e x s := by
  rw [fails_bind]
  constructor
  · rintro (h | ⟨a, s', h1, h2⟩)
    · exact h
    · exact absurd h2 (hf a s')
  · exact Or.inl

@[simp] theorem Never.pure (a : α) : Never e (pure a : EStateM ε σ α) := by
  rintro s ⟨s', h⟩
  rw [run_pure] at h
  cases h

theorem Never.throw {e' : ε} (h : e' ≠ e) : Never e (throw e' : EStateM ε σ α) :=
  fun s hs => h (fails_throw.1 hs)

@[simp] theorem Never.get : Never e (get : EStateM ε σ σ) := by
  rintro s ⟨s', h⟩
  rw [run_get] at h
  cases h

@[simp] theorem Never.set (t : σ) : Never e (set t : EStateM ε σ PUnit) := by
  rintro s ⟨s', h⟩
  rw [run_set] at h
  cases h

@[simp] theorem Never.modify (g : σ → σ) : Never e (modify g : EStateM ε σ PUnit) := by
  rintro s ⟨s', h⟩
  rw [run_modify] at h
  cases h

@[simp] theorem Never.bind (hx : Never e x) (hf : ∀ a, Never e (f a)) : Never e (x >>= f) := by
  intro s h
  exact hx s ((fails_bind_left hf).1 h)

@[simp] theorem Never.map {g : α → β} (hx : Never e x) : Never e (g <$> x) := by
  rw [map_eq_pure_bind]
  exact hx.bind fun a => Never.pure _

theorem Never.ite {c : Prop} [Decidable c] {y : EStateM ε σ α} (hx : Never e x)
    (hy : Never e y) : Never e (if c then x else y) := by
  split
  · exact hx
  · exact hy

@[simp] theorem Never.onlyIf {c : Bool} {x : EStateM ε σ PUnit} (hx : Never e x) :
    Never e (onlyIf c x) := Never.ite hx (Never.pure _)

/-- the run fails with `e` -/
def failsBy [DecidableEq ε] (e : ε) (x : EStateM ε σ α) (s : σ) : Bool :=
  match x.run s with
  | .error e' _ => decide (e' = e)
  | .ok _ _ => false

theorem fails_of [DecidableEq ε] (h : failsBy e x s = true) : Fails e x s := by
  unfold failsBy at h
  split at h
  · next e' s' hr => exact ⟨s', by rw [hr, of_decide_eq_true h]⟩
  · cases h

/-! ## tests of the state -/

/-- the test finishes with `true` -/
def Says (x : EStateM ε σ Bool) (s : σ) : Prop := ∃ s', x.run s = .ok true s'

theorem says_pure {b : Bool} : Says (pure b : EStateM ε σ Bool) s ↔ b = true := by
  constructor
  · rintro ⟨s', h⟩
    rw [run_pure] at h
    cases h
    rfl
  · rintro rfl
    exact ⟨s, run_pure _ _⟩

theorem says_bind {g : α → EStateM ε σ Bool} :
    Says (x >>= g) s ↔ ∃ a s', x.run s = .ok a s' ∧ Says (g a) s' := by
  constructor
  · rintro ⟨t, h⟩
    obtain ⟨a, s', h1, h2⟩ := bind_eq_ok.1 h
    exact ⟨a, s', h1, t, h2⟩
  · rintro ⟨a, s', h1, t, h2⟩
    exact ⟨t, bind_eq_ok.2 ⟨a, s', h1, h2⟩⟩

/-- **A failure behind a first part**, and the test for it. -/
theorem fails_bind_says {g : α → EStateM ε σ Bool} (hx : Never e x)
    (h : ∀ a s', Fails e (f a) s' ↔ Says (g a) s') : Fails e (x >>= f) s ↔ Says (x >>= g) s := by
  rw [fails_bind, says_bind]
  constructor
  · rintro (h1 | ⟨a, s', h1, h2⟩)
    · exact absurd h1 (hx s)
    · exact ⟨a, s', h1, (h a s').1 h2⟩
  · rintro ⟨a, s', h1, h2⟩
    exact Or.inr ⟨a, s', h1, (h a s').2 h2⟩

theorem fails_says_false {g : EStateM ε σ Bool} (hx : Never e x) (hg : g = pure false) :
    Fails e x s ↔ Says g s := by
  rw [hg, says_pure]
  exact iff_of_false (hx s) Bool.false_ne_true

/-! ## computations with a given failure -/

/-- every run of `x` fails with `e` if `o` is `some e`, and has a result with `P` if it is `none` -/
def Fares (o : Option ε) (P : α → Prop) (x : EStateM ε σ α) : Prop :=
  ∀ s, match o with
    | some e => Fails e x s
    | none => ∃ a s', x.run s = .ok a s' ∧ P a

section
variable {o o' : Option ε} {P Q : α → Prop} {R : β → Prop}

theorem Fares.pure {a : α} (h : P a) : Fares none P (pure a : EStateM ε σ α) :=
  fun s => ⟨a, s, run_pure a s, h⟩

theorem Fares.throw (e : ε) : Fares (some e) P (throw e : EStateM ε σ α) :=
  fun s => ⟨s, run_throw e s⟩

theorem Fares.bind (hx : Fares o P x) (hf : ∀ a, P a → Fares o' R (f a)) :
    Fares (o.or o') R (x >>= f) := by
  intro s
  cases o with
  | some e => exact fails_bind.2 (Or.inl (hx s))
  | none =>
    obtain ⟨a, s', h, ha⟩ := hx s
    have h2 := hf a ha s'
    cases o' with
    | some e => exact (fails_bind_ok h).2 h2
    | none =>
      obtain ⟨b, t, hb, hR⟩ := h2
      exact ⟨b, t, by rw [bind_ok h]; exact hb, hR⟩

/-- a map at the end -/
theorem Fares.bind_pure {g : α → β} (hx : Fares o P x) (h : ∀ a, P a → R (g a)) :
    Fares o R (x >>= fun a => Pure.pure (g a)) := by
  have h1 := hx.bind fun a ha => Fares.pure (h a ha)
  rwa [Option.or_none] at h1

/-- what the results of all runs have -/
theorem Fares.and (hx : Fares o P x) (h : ∀ s a s', x.run s = .ok a s' → Q a) :
    Fares o (fun a => Q a ∧ P a) x := by
  intro s
  have h1 := hx s
  cases o with
  | some e => exact h1
  | none =>
    obtain ⟨a, s', hr, ha⟩ := h1
    exact ⟨a, s', hr, h s a s' hr, ha⟩

theorem Fares.fails_iff (hx : Fares o P x) {e : ε} : Fails e x s ↔ o = some e := by
  have h1 := hx s
  cases o with
  | some e' =>
    obtain ⟨t, ht⟩ := h1
    rw [Fails, ht]
    constructor
    · rintro ⟨t', h⟩
      cases h
      rfl
    · rintro h
      cases h
      exact ⟨t, rfl⟩
  | none =>
    obtain ⟨a, s', hr, ha⟩ := h1
    refine iff_of_false ?_ nofun
    rintro ⟨t, ht⟩
    rw [hr] at ht
    cases ht

end

end Exec
