import Mathlib.Order.Defs.Unbundled
import Mathlib.Tactic.Common

/-!
# Runs of stateful computations that can fail

`EStateM ε σ α` is a state transformer that keeps the state when it fails.  This file has the
rules by which a run of a `do` block is taken apart and put together:

* `bind_ok`, `bind_error`: the run of a sequence from the run of its first part;
* `bind_eq_ok`, `bind_eq_error`: what a finished sequence says about its parts;
* `Keeps`: a preorder that holds between the states before and after a computation, with the rules
  for sequences, lists and conditions.
-/

set_option linter.unusedVariables false

namespace Exec

variable {ε σ α β : Type}

/-! ## running

The equations are kept from holding by unfolding (`(rfl)`): a proof that uses them then never
makes the kernel evaluate the condition of an `if` in a block. -/

theorem run_pure (a : α) (s : σ) : EStateM.run (pure a : EStateM ε σ α) s = .ok a s := (rfl)

theorem run_throw (e : ε) (s : σ) :
    EStateM.run (throw e : EStateM ε σ α) s = .error e s := (rfl)

theorem run_get (s : σ) : EStateM.run (get : EStateM ε σ σ) s = .ok s s := (rfl)

theorem run_set (s s' : σ) : EStateM.run (set s' : EStateM ε σ PUnit) s = .ok ⟨⟩ s' := (rfl)

theorem run_modify (g : σ → σ) (s : σ) :
    EStateM.run (modify g : EStateM ε σ PUnit) s = .ok ⟨⟩ (g s) := (rfl)

theorem run_get_bind (f : σ → EStateM ε σ β) (s : σ) : (get >>= f).run s = (f s).run s := (rfl)

theorem run_pure_bind (a : α) (f : α → EStateM ε σ β) (s : σ) :
    (pure a >>= f).run s = (f a).run s := (rfl)

theorem run_modify_bind (g : σ → σ) (f : PUnit → EStateM ε σ β) (s : σ) :
    (modify g >>= f).run s = (f ⟨⟩).run (g s) := (rfl)

theorem run_if_pos {c : Prop} [Decidable c] (h : c) (x y : EStateM ε σ α) (s : σ) :
    EStateM.run (if c then x else y) s = x.run s := by
  rw [if_pos h]

theorem run_if_neg {c : Prop} [Decidable c] (h : ¬ c) (x y : EStateM ε σ α) (s : σ) :
    EStateM.run (if c then x else y) s = y.run s := by
  rw [if_neg h]

/-- run `x` under a condition -/
def onlyIf (c : Bool) (x : EStateM ε σ PUnit) : EStateM ε σ PUnit := if c then x else pure ⟨⟩

theorem run_onlyIf_true (x : EStateM ε σ PUnit) (s : σ) : (onlyIf true x).run s = x.run s := (rfl)

theorem run_onlyIf_false (x : EStateM ε σ PUnit) (s : σ) :
    (onlyIf false x).run s = .ok ⟨⟩ s := (rfl)

theorem run_onlyIf_false_bind (x : EStateM ε σ PUnit) (f : PUnit → EStateM ε σ β) (s : σ) :
    (onlyIf false x >>= f).run s = (f ⟨⟩).run s := (rfl)

theorem bind_ok {x : EStateM ε σ α} {f : α → EStateM ε σ β} {s s' : σ} {a : α}
    (h : x.run s = .ok a s') : (x >>= f).run s = (f a).run s' := by
  rw [EStateM.run_bind, h]

theorem bind_error {x : EStateM ε σ α} {f : α → EStateM ε σ β} {s s' : σ} {e : ε}
    (h : x.run s = .error e s') : (x >>= f).run s = .error e s' := by
  rw [EStateM.run_bind, h]

theorem map_ok {x : EStateM ε σ α} {f : α → β} {s s' : σ} {a : α}
    (h : x.run s = .ok a s') : (f <$> x).run s = .ok (f a) s' := by
  rw [map_eq_pure_bind]
  exact bind_ok h

theorem bind_eq_ok {x : EStateM ε σ α} {f : α → EStateM ε σ β} {s s'' : σ} {b : β} :
    (x >>= f).run s = .ok b s'' ↔ ∃ a s', x.run s = .ok a s' ∧ (f a).run s' = .ok b s'' := by
  rw [EStateM.run_bind]
  cases h : x.run s with
  | ok a s' => simp
  | error e s' => simp

theorem bind_eq_error {x : EStateM ε σ α} {f : α → EStateM ε σ β} {s s'' : σ} {e : ε} :
    (x >>= f).run s = .error e s'' ↔
      x.run s = .error e s'' ∨ ∃ a s', x.run s = .ok a s' ∧ (f a).run s' = .error e s'' := by
  rw [EStateM.run_bind]
  cases h : x.run s with
  | ok a s' => simp
  | error e s' => simp

/-! ## relations between the states before and after -/

/-- every run of `x` that finishes goes along `R` -/
def Keeps (R : σ → σ → Prop) (x : EStateM ε σ α) : Prop :=
  ∀ s a s', x.run s = .ok a s' → R s s'

variable {R : σ → σ → Prop} {x : EStateM ε σ α} {f : α → EStateM ε σ β}

theorem Keeps.throw (e : ε) : Keeps R (throw e : EStateM ε σ α) := by
  intro s a s' h
  rw [run_throw] at h
  cases h

theorem Keeps.mono {Q : σ → σ → Prop} (hx : Keeps R x) (h : ∀ s s', R s s' → Q s s') :
    Keeps Q x := fun s a s' hr => h s s' (hx s a s' hr)

theorem Keeps.ite {c : Prop} [Decidable c] {y : EStateM ε σ α} (hx : Keeps R x)
    (hy : Keeps R y) : Keeps R (if c then x else y) := by
  split
  · exact hx
  · exact hy

section
variable [Std.Refl R]

theorem Keeps.pure (a : α) : Keeps R (pure a : EStateM ε σ α) := by
  intro s b s' h
  rw [run_pure] at h
  cases h
  exact Std.Refl.refl s

theorem Keeps.get : Keeps (ε := ε) R (get : EStateM ε σ σ) := by
  intro s b s' h
  rw [run_get] at h
  cases h
  exact Std.Refl.refl s

theorem Keeps.onlyIf {c : Bool} {x : EStateM ε σ PUnit} (hx : Keeps R x) :
    Keeps R (onlyIf c x) := Keeps.ite hx (Keeps.pure _)

/-- a computation that leaves the state alone goes along every reflexive relation -/
theorem Keeps.of_eq (hx : Keeps Eq x) : Keeps R x := by
  intro s a s' h
  cases hx s a s' h
  exact Std.Refl.refl s

variable [IsTrans σ R]

omit [Std.Refl R] in
theorem Keeps.bind (hx : Keeps R x) (hf : ∀ a, Keeps R (f a)) : Keeps R (x >>= f) := by
  intro s b s'' h
  obtain ⟨a, s', h1, h2⟩ := bind_eq_ok.1 h
  exact IsTrans.trans s s' s'' (hx s a s' h1) (hf a s' b s'' h2)

theorem Keeps.mapM : ∀ (l : List α), (∀ a ∈ l, Keeps R (f a)) → Keeps R (l.mapM f)
  | [], _ => Keeps.pure _
  | a :: l, h => by
    rw [List.mapM_cons]
    apply Keeps.bind (h a List.mem_cons_self)
    intro b
    apply Keeps.bind (Keeps.mapM l fun a ha => h a (List.mem_cons_of_mem _ ha))
    exact fun bs => Keeps.pure _

theorem Keeps.forM {f : α → EStateM ε σ PUnit} :
    ∀ (l : List α), (∀ a ∈ l, Keeps R (f a)) → Keeps R (l.forM f)
  | [], _ => Keeps.pure _
  | a :: l, h =>
    Keeps.bind (h a List.mem_cons_self) fun _ =>
      Keeps.forM l fun a ha => h a (List.mem_cons_of_mem _ ha)

end

end Exec
