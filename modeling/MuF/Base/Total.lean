import MuF.Base.Exec

/-!
# Computations that finish

* `Finishes`: from every state that satisfies a condition the computation returns something, in a
  state that satisfies another one;
* `Finishes.bind`, `Finishes.forM`: its rules.
-/

set_option linter.unusedVariables false

namespace Exec

universe u

variable {ε σ α β : Type} {P P' : σ → Prop} {Q Q' : α → σ → Prop} {R : β → σ → Prop}
  {x : EStateM ε σ α} {f : α → EStateM ε σ β}

/-- from every state that satisfies `P` the computation returns, with `Q` for the result and the
state -/
def Finishes (P : σ → Prop) (x : EStateM ε σ α) (Q : α → σ → Prop) : Prop :=
  ∀ s, P s → ∃ a s', x.run s = .ok a s' ∧ Q a s'

theorem Finishes.pure (a : α) (h : ∀ s, P s → Q a s) : Finishes P (pure a : EStateM ε σ α) Q :=
  fun s hs => ⟨a, s, run_pure a s, h s hs⟩

theorem Finishes.bind (hx : Finishes P x Q) (hf : ∀ a, Finishes (Q a) (f a) R) :
    Finishes P (x >>= f) R := by
  intro s hs
  obtain ⟨a, s1, h1, hq⟩ := hx s hs
  obtain ⟨b, s2, h2, hr⟩ := hf a s1 hq
  exact ⟨b, s2, by rw [bind_ok h1, h2], hr⟩

theorem Finishes.mono (hx : Finishes P x Q) (hP : ∀ s, P' s → P s) (hQ : ∀ a s, Q a s → Q' a s) :
    Finishes P' x Q' := by
  intro s hs
  obtain ⟨a, s', h, hq⟩ := hx s (hP s hs)
  exact ⟨a, s', h, hQ a s' hq⟩

theorem Finishes.modify {g : σ → σ} {Q : Unit → σ → Prop} (h : ∀ s, P s → Q ⟨⟩ (g s)) :
    Finishes P (modify g : EStateM ε σ PUnit) Q := fun s hs => ⟨⟨⟩, g s, run_modify g s, h s hs⟩

/-- the state is read first -/
theorem Finishes.get {g : σ → EStateM ε σ β} (h : ∀ s, P s → Finishes (fun t => t = s) (g s) R) :
    Finishes P (get >>= g) R := by
  intro s hs
  obtain ⟨b, s', hb, hr⟩ := h s hs s rfl
  exact ⟨b, s', by rw [run_get_bind, hb], hr⟩

theorem Finishes.onlyIf {c : Bool} {x : EStateM ε σ PUnit} (hx : Finishes P x fun _ => P) :
    Finishes P (onlyIf c x) fun _ => P := by
  cases c with
  | true => exact hx
  | false => exact Finishes.pure _ fun _ h => h

theorem Finishes.forM {g : α → EStateM ε σ PUnit} : ∀ l : List α,
    (∀ a ∈ l, Finishes P (g a) fun _ => P) → Finishes P (l.forM g) fun _ => P
  | [], _ => Finishes.pure _ fun _ h => h
  | a :: l, h => Finishes.bind (h a List.mem_cons_self) fun _ =>
      Finishes.forM l fun b hb => h b (List.mem_cons_of_mem _ hb)

end Exec
