import Mathlib.Logic.Relation

/-!
# Structured programs and machines that run them

* `Outcome`, `Prog`: programs over states that may fail, that loop while there is fuel, and that
  may leave what is around them with an exit;
* `Refines`: a program that may stand in place of another one;
* `Far`: a machine makes at least a number of steps;
* `Sim`: a machine does what a program does, with one rule for each kind of program;
* `Sim.finishes`, `Sim.runs_on`: the machine comes to an end if the program does, and it does not
  stop if the program does not.
-/

set_option linter.unusedVariables false

namespace Flow

universe u v w

/-- what a program does with its fuel; `left` is an exit from what is around it -/
inductive Outcome (E : Type w) (σ : Type u)
  | done (s : σ)
  | left (e : E) (s : σ)
  | stuck
  | timeout
  deriving DecidableEq, Repr

/-- programs, which are given fuel -/
abbrev Prog (E : Type w) (σ : Type u) := Nat → σ → Outcome E σ

/-- what an exit from the body of a loop means for the loop -/
inductive Turn (E : Type w)
  | stop
  | again
  | out (e : E)

section
variable {E : Type w} {σ : Type u}

/-- what is done goes on -/
def Outcome.bind (o : Outcome E σ) (f : σ → Outcome E σ) : Outcome E σ :=
  match o with
  | .done s => f s
  | .left e s => .left e s
  | .stuck => .stuck
  | .timeout => .timeout

/-- behind the body of a loop -/
def Outcome.turn (o : Outcome E σ) (exits : E → Turn E) (f : σ → Outcome E σ) : Outcome E σ :=
  match o with
  | .done s => f s
  | .left e s =>
    match exits e with
    | .stop => .done s
    | .again => f s
    | .out e' => .left e' s
  | .stuck => .stuck
  | .timeout => .timeout

/-- nothing -/
def skip : Prog E σ := fun _ s => .done s

/-- an action that may be undefined -/
def act (f : σ → Option σ) : Prog E σ := fun _ s => ((f s).map .done).getD .stuck

/-- an exit -/
def leave (e : E) : Prog E σ := fun _ s => .left e s

/-- one program after the other -/
def seq (p q : Prog E σ) : Prog E σ := fun n s => (p n s).bind (q n)

/-- two branches -/
def cond (test : σ → Option Bool) (p q : Prog E σ) : Prog E σ := fun n s =>
  match test s with
  | none => .stuck
  | some true => p n s
  | some false => q n s

/-- a loop, one piece of fuel for each turn -/
def loop (test : σ → Option Bool) (exits : E → Turn E) (body : Prog E σ) : Prog E σ
  | 0, s =>
    match test s with
    | none => .stuck
    | some true => .timeout
    | some false => .done s
  | n + 1, s =>
    match test s with
    | none => .stuck
    | some true => (body n s).turn exits (loop test exits body n)
    | some false => .done s

theorem seq_assoc (p q r : Prog E σ) : seq (seq p q) r = seq p (seq q r) := by
  funext n s
  unfold seq
  cases p n s <;> rfl

/-- the program ends in a state, with some fuel -/
def Ends (p : Prog E σ) (s s' : σ) : Prop := ∃ n, p n s = .done s'

/-- no fuel is enough -/
def Diverges (p : Prog E σ) (s : σ) : Prop := ∀ n, p n s = .timeout

variable {p q body : Prog E σ} {test : σ → Option Bool} {exits : E → Turn E} {s s' s'' : σ}
  {o o' : Outcome E σ} {f f' : σ → Outcome E σ}

/-! ## programs in place of others -/

/-- the second program does what the first one does, unless the first one gets stuck -/
def Refines (p p' : Prog E σ) : Prop := ∀ n s, p n s ≠ .stuck → p' n s = p n s

theorem Refines.refl (p : Prog E σ) : Refines p p := fun _ _ _ => rfl

theorem Refines.trans {p' p'' : Prog E σ} (h : Refines p p') (h' : Refines p' p'') : Refines p p'' := by
  intro n s hn
  rw [h' n s (by rw [h n s hn]; exact hn), h n s hn]

/-- a program that always gets stuck -/
theorem Refines.stuck {p : Prog E σ} (h : ∀ n s, p n s = .stuck) (p' : Prog E σ) : Refines p p' :=
  fun n s hn => absurd (h n s) hn

theorem Refines.act {f f' : σ → Option σ} (h : ∀ s s', f s = some s' → f' s = some s') :
    Refines (act f : Prog E σ) (act f') := by
  intro n s hn
  unfold Flow.act at hn ⊢
  cases e : f s with
  | none =>
    rw [e] at hn
    exact absurd rfl hn
  | some s' => rw [h s s' e]

theorem Refines.seq {p' q' : Prog E σ} (hp : Refines p p') (hq : Refines q q') :
    Refines (seq p q) (seq p' q') := by
  intro n s hn
  unfold Flow.seq at hn ⊢
  have hp' : p n s ≠ .stuck := by
    intro e
    rw [e] at hn
    exact hn rfl
  rw [hp n s hp']
  cases e : p n s with
  | done s' =>
    rw [e] at hn
    exact hq n s' hn
  | left e s' => rfl
  | stuck => exact absurd e hp'
  | timeout => rfl

theorem Refines.cond {test' : σ → Option Bool} {p' q' : Prog E σ}
    (ht : ∀ s b, test s = some b → test' s = some b) (hp : Refines p p') (hq : Refines q q') :
    Refines (cond test p q) (cond test' p' q') := by
  intro n s hn
  unfold Flow.cond at hn ⊢
  cases e : test s with
  | none =>
    rw [e] at hn
    exact absurd rfl hn
  | some b =>
    rw [e] at hn
    rw [ht s b e]
    cases b with
    | true => exact hp n s hn
    | false => exact hq n s hn

theorem Refines.turn {f f' : σ → Outcome E σ} {o : Outcome E σ}
    (hf : ∀ s, f s ≠ .stuck → f' s = f s) (hn : o.turn exits f ≠ .stuck) :
    o.turn exits f' = o.turn exits f := by
  cases o with
  | done s => exact hf s hn
  | left e s =>
    cases he : exits e with
    | stop => simp only [Outcome.turn, he]
    | again =>
      simp only [Outcome.turn, he] at hn ⊢
      exact hf s hn
    | out e' => simp only [Outcome.turn, he]
  | stuck => rfl
  | timeout => rfl

theorem Refines.loop {test' : σ → Option Bool} {body' : Prog E σ}
    (ht : ∀ s b, test s = some b → test' s = some b) (hb : Refines body body') :
    Refines (loop test exits body) (loop test' exits body') := by
  intro n
  induction n with
  | zero =>
    intro s hn
    unfold Flow.loop at hn ⊢
    cases e : test s with
    | none =>
      rw [e] at hn
      exact absurd rfl hn
    | some b => rw [ht s b e]
  | succ n ih =>
    intro s hn
    unfold Flow.loop at hn ⊢
    cases e : test s with
    | none =>
      rw [e] at hn
      exact absurd rfl hn
    | some b =>
      rw [e] at hn
      rw [ht s b e]
      cases b with
      | true =>
        have hbody : body n s ≠ .stuck := by
          intro e
          dsimp only at hn
          rw [e] at hn
          exact hn rfl
        dsimp only
        rw [hb n s hbody]
        exact Refines.turn ih hn
      | false => rfl

theorem Refines.ends {p' : Prog E σ} (h : Refines p p') (he : Ends p s s') : Ends p' s s' := by
  obtain ⟨n, e⟩ := he
  exact ⟨n, by rw [h n s (by rw [e]; intro hc; cases hc), e]⟩

theorem Refines.diverges {p' : Prog E σ} (h : Refines p p') (hd : Diverges p s) : Diverges p' s :=
  fun n => by rw [h n s (by rw [hd n]; intro hc; cases hc), hd n]

/-! ## conditions on what a program does -/

/-- conditions on what is done, on the exits, and for running out of fuel -/
def Outcome.Meets (o : Outcome E σ) (Q : σ → Prop) (X : E → σ → Prop) (T : Prop) : Prop :=
  match o with
  | .done s => Q s
  | .left e s => X e s
  | .stuck => True
  | .timeout => T

variable {Q Q' : σ → Prop} {X X' : E → σ → Prop} {T T' : Prop}

theorem Outcome.Meets.mono (h : o.Meets Q X T) (hq : ∀ s, Q s → Q' s) (hx : ∀ e s, X e s → X' e s)
    (ht : T → T') : o.Meets Q' X' T' := by
  cases o with
  | done s => exact hq s h
  | left e s => exact hx e s h
  | stuck => trivial
  | timeout => exact ht h

theorem Outcome.Meets.bind (h : o.Meets Q X T) (hf : ∀ s, Q s → (f s).Meets Q' X T) :
    (o.bind f).Meets Q' X T := by
  cases o with
  | done s => exact hf s h
  | left e s => exact h
  | stuck => trivial
  | timeout => exact h

/-- where an exit from the body of a loop leads -/
def Turn.place {α : Type v} (t : Turn E) (R Q : α) (X : E → α) : α :=
  match t with
  | .stop => Q
  | .again => R
  | .out e => X e

theorem Outcome.Meets.turn {R : σ → Prop} (h : o.Meets R (fun e => (exits e).place R Q X) T)
    (hf : ∀ s, R s → (f s).Meets Q X T) : (o.turn exits f).Meets Q X T := by
  cases o with
  | done s => exact hf s h
  | left e s =>
    have h' : (exits e).place R Q X s := h
    cases he : exits e with
    | stop =>
      rw [he] at h'
      simp only [Outcome.turn, he]
      exact h'
    | again =>
      rw [he] at h'
      simp only [Outcome.turn, he]
      exact hf s h'
    | out e' =>
      rw [he] at h'
      simp only [Outcome.turn, he]
      exact h'
  | stuck => trivial
  | timeout => exact h

end

/-! ## machines -/

section
variable {E : Type w} {σ : Type u} {M : Type v} {step : M → M → Prop}

/-- the machine makes at least `n` steps -/
def Far (step : M → M → Prop) : Nat → M → Prop
  | 0, _ => True
  | n + 1, m => ∃ m', step m m' ∧ Far step n m'

theorem Far.mono {n : Nat} {m : M} (h : Far step (n + 1) m) : Far step n m := by
  induction n generalizing m with
  | zero => trivial
  | succ n ih =>
    obtain ⟨m', hm, h'⟩ := h
    exact ⟨m', hm, ih h'⟩

theorem Far.before {n : Nat} {m m' : M} (hm : Relation.ReflTransGen step m m')
    (h : Far step n m') : Far step n m := by
  induction hm using Relation.ReflTransGen.head_induction_on with
  | refl => exact h
  | head h1 _ ih => exact Far.mono ⟨_, h1, ih⟩

theorem Far.after_turn {n : Nat} {m m' : M} (hm : Relation.TransGen step m m')
    (h : Far step n m') : Far step (n + 1) m := by
  obtain ⟨m1, h1, h2⟩ := Relation.TransGen.head'_iff.1 hm
  exact ⟨m1, h1, Far.before h2 h⟩

/-- the machine comes to a place -/
def Comes (step : M → M → Prop) (m : M) (Q : M → Prop) : Prop :=
  ∃ m', Relation.ReflTransGen step m m' ∧ Q m'

theorem Comes.before {m m' : M} {Q : M → Prop} (hm : Relation.ReflTransGen step m m')
    (h : Comes step m' Q) : Comes step m Q := by
  obtain ⟨m'', h1, h2⟩ := h
  exact ⟨m'', hm.trans h1, h2⟩

/-- From states that are related by `R` the machine does what the program does: if the program
ends the machine comes to a state related by `Q`, if it is left by an exit to one related by `X`,
and it makes as many steps as there is fuel. -/
def Sim (step : M → M → Prop) (R : σ → M → Prop) (p : Prog E σ) (Q : σ → M → Prop)
    (X : E → σ → M → Prop) : Prop :=
  ∀ n s m, R s m → (p n s).Meets (fun s' => Comes step m (Q s')) (fun e s' => Comes step m (X e s'))
    (Far step n m)

variable {R Q Q' B C : σ → M → Prop} {X X' : E → σ → M → Prop} {p q body : Prog E σ}
  {test : σ → Option Bool} {exits : E → Turn E}

/-- the machine comes from one place to another in the same state -/
def Moves (step : M → M → Prop) (R Q : σ → M → Prop) : Prop := ∀ s m, R s m → Comes step m (Q s)

theorem Outcome.Meets.before {o : Outcome E σ} {n : Nat} {m m' : M}
    (hm : Relation.ReflTransGen step m m')
    (h : o.Meets (fun s' => Comes step m' (Q s')) (fun e s' => Comes step m' (X e s'))
      (Far step n m')) :
    o.Meets (fun s' => Comes step m (Q s')) (fun e s' => Comes step m (X e s')) (Far step n m) :=
  h.mono (fun _ => Comes.before hm) (fun _ _ => Comes.before hm) (Far.before hm)

theorem Sim.skip (h : Moves step R Q) : Sim step R skip Q X := fun _ s m hm => h s m hm

/-- **An action.** -/
theorem Sim.act {f : σ → Option σ} (h : ∀ s s' m, R s m → f s = some s' → Comes step m (Q s')) :
    Sim step R (act f) Q X := by
  intro n s m hm
  unfold Flow.act
  cases e : f s with
  | none => trivial
  | some s' => exact h s s' m hm e

/-- **An exit.** -/
theorem Sim.leave {e : E} (h : Moves step R (X e)) : Sim step R (leave e) Q X := fun _ s m hm =>
  h s m hm

/-- **One program after the other.** -/
theorem Sim.seq (hp : Sim step R p Q X) (hq : Sim step Q q C X) : Sim step R (seq p q) C X := by
  intro n s m hm
  refine (hp n s m hm).bind ?_
  rintro s' ⟨m', h1, h2⟩
  exact (hq n s' m' h2).before h1

theorem Sim.after (hp : Sim step R p Q X) (h : Moves step Q C) : Sim step R p C X := by
  intro n s m hm
  refine (hp n s m hm).mono ?_ (fun _ _ hx => hx) id
  rintro s' ⟨m', h1, h2⟩
  exact (h s' m' h2).before h1

/-- the test of a branch or a loop leads to one of two places -/
def Branches (step : M → M → Prop) (R : σ → M → Prop) (test : σ → Option Bool)
    (B C : σ → M → Prop) : Prop :=
  ∀ s m b, R s m → test s = some b →
    ∃ m', Relation.TransGen step m m' ∧ (b = true → B s m') ∧ (b = false → C s m')

/-- **Two branches.** -/
theorem Sim.cond (ht : Branches step R test B C) (hp : Sim step B p Q X) (hq : Sim step C q Q X) :
    Sim step R (cond test p q) Q X := by
  intro n s m hm
  unfold Flow.cond
  cases h : test s with
  | none => trivial
  | some b =>
    obtain ⟨m', h1, h2, h3⟩ := ht s m b hm h
    cases b with
    | true => exact (hp n s m' (h2 rfl)).before h1.to_reflTransGen
    | false => exact (hq n s m' (h3 rfl)).before h1.to_reflTransGen

/-- **Loops.**  A turn makes at least one step, so that the steps are as many as the turns. -/
theorem Sim.loop (ht : Branches step R test B Q)
    (hb : Sim step B body R fun e => (exits e).place R Q X) :
    Sim step R (loop test exits body) Q X := by
  intro n
  induction n with
  | zero =>
    intro s m hm
    unfold Flow.loop
    cases h : test s with
    | none => trivial
    | some b =>
      cases b with
      | true => trivial
      | false =>
        obtain ⟨m', h1, -, h3⟩ := ht s m false hm h
        exact ⟨m', h1.to_reflTransGen, h3 rfl⟩
  | succ n ih =>
    intro s m hm
    unfold Flow.loop
    cases h : test s with
    | none => trivial
    | some b =>
      obtain ⟨m', h1, h2, h3⟩ := ht s m b hm h
      cases b with
      | true =>
        have hplace : ∀ e s', Comes step m' ((exits e).place R Q X s') →
            (exits e).place (fun s' => Comes step m' (R s')) (fun s' => Comes step m' (Q s'))
              (fun e s' => Comes step m' (X e s')) s' := by
          intro e s' hx
          cases he : exits e <;> rw [he] at hx <;> exact hx
        have hbody := (hb n s m' (h2 rfl)).mono (fun _ hs => hs) hplace id
        have hall : ((body n s).turn exits (Flow.loop test exits body n)).Meets
            (fun s' => Comes step m' (Q s')) (fun e s' => Comes step m' (X e s'))
            (Far step n m') := by
          refine hbody.turn ?_
          rintro s' ⟨m1, h4, h5⟩
          exact (ih s' m1 h5).before h4
        have hfirst := h1.to_reflTransGen
        exact hall.mono (fun _ => Comes.before hfirst) (fun _ _ => Comes.before hfirst)
          (Far.after_turn h1)
      | false => exact ⟨m', h1.to_reflTransGen, h3 rfl⟩

/-- if the program ends the machine comes to the end -/
theorem Sim.finishes (h : Sim step R p Q X) {s s' : σ} {m : M} (hm : R s m) (he : Ends p s s') :
    Comes step m (Q s') := by
  obtain ⟨n, e⟩ := he
  have := h n s m hm
  rw [e] at this
  exact this

/-- if the program does not end the machine does not stop -/
theorem Sim.runs_on (h : Sim step R p Q X) {s : σ} {m : M} (hm : R s m) (hd : Diverges p s)
    (n : Nat) : Far step n m := by
  have := h n s m hm
  rw [hd n] at this
  exact this

end

end Flow
