import MuF.Lang.Expressions

/-!
# The code of statements on the machine

* `Place`: the machine is at a place of the code, with the variables in their slots;
* `Fragment`: a part of the code does what a program does, from every place at its beginning;
* `branch_code`, `Fragment.assign`, `Fragment.seq`, `Fragment.cond_else`, `Fragment.loop`: how fragments
  are put together.
-/

set_option linter.unusedVariables false

namespace MuF

open Bytes Exec

/-! ## places -/

/-- only the memory, the instruction pointer and the stack pointer change -/
def OnlyRuns (s t : VM) : Prop := t = { s with ip := t.ip, sp := t.sp, mem := t.mem }

theorem OnlyRuns.trans {s t u : VM} (h : OnlyRuns s t) (h' : OnlyRuns t u) : OnlyRuns s u := by
  unfold OnlyRuns at h h' ⊢
  rw [h'.trans (congrArg (fun v : VM => { v with ip := u.ip, sp := u.sp, mem := u.mem }) h)]

/-- a machine that comes from `e` is at `p` with nothing on the stack, and the variables have their
values -/
structure Place (F : VarSlots) (code : List UInt8) (base : Int) (e : VM) (p : Nat) (σ : Store)
    (s : VM) : Prop where
  here : s.Here code base p []
  values : s.InSlots F base σ
  rest : OnlyRuns e s

/-- where the exits lead; `ctx` are the beginnings and the ends of the loops, the innermost first -/
def exitPlace (F : VarSlots) (code : List UInt8) (base : Int) (e : VM) (ctx : List (Nat × Nat)) :
    Exit → Store → VM → Prop
  | .brk n, σ, s => ∃ c, ctx[n]? = some c ∧ Place F code base e c.2 σ s
  | .nxt n, σ, s => ∃ c, ctx[n]? = some c ∧ Place F code base e c.1 σ s

section
variable [MathLib TReal]

/-- the code from `b` to `m` does what the program does, with `need` bytes of stack -/
def Fragment (F : VarSlots) (p : Flow.Prog Exit Store) (need : Nat) (code : List UInt8)
    (ctx : List (Nat × Nat)) (b m : Nat) : Prop :=
  ∀ (base : Int) (e : VM), (code.length : Int) + need ≤ base →
    Flow.Sim VM.Turn (Place F code base e b) p (Place F code base e m) (exitPlace F code base e ctx)

variable {F : VarSlots} {code : List UInt8} {base : Int} {e : VM} {b m m1 m2 q need need' : Nat}
  {ctx : List (Nat × Nat)} {p p' : Flow.Prog Exit Store} {cond expr : AST}

theorem Fragment.mono (h : Fragment F p need code ctx b m) (hn : need ≤ need') :
    Fragment F p need' code ctx b m := fun base e hb => h base e (by omega)

theorem Fragment.skip (b : Nat) : Fragment F Flow.skip need code ctx b b := fun base e hb =>
  Flow.Sim.skip fun σ s h => ⟨s, .refl, h⟩

theorem Fragment.seq (h : Fragment F p need code ctx b m1) (h' : Fragment F p' need' code ctx m1 m) :
    Fragment F (Flow.seq p p') (need + need') code ctx b m := fun base e hb =>
  (h base e (by omega)).seq (h' base e (by omega))

omit [MathLib TReal] in
/-- with the variables and what is around them as they were -/
theorem Place.moved {σ : Store} {s t : VM} (h : Place F code base e b σ s) (hh : t.Here code base m [])
    (hsame : SameAbove base s t) : Place F code base e m σ t :=
  ⟨hh, hsame.inSlots h.values, h.rest.trans hsame.rest⟩

/-- an expression on an empty stack -/
theorem Place.eval {σ : Store} {s : VM} {v : Val} (h : Place F code base e b σ s)
    (he : Evals F expr code b m) (hb : (code.length : Int) + expr.need ≤ base)
    (hv : eval σ expr = some v) : ∃ t, Relation.TransGen VM.Turn s t ∧
      t.Here code base m [v.item] ∧ SameAbove base s t :=
  he base s [] σ v (by rw [sizes_nil]; omega) h.here h.values hv

/-- **A jump.** -/
theorem moves_jump (hc : Sits code b (skipCode (toSkip q (b + 2)) .jmp)) (hq : q ≤ code.length)
    (hb : (code.length : Int) + 5 ≤ base) :
    Flow.Moves VM.Turn (Place F code base e b) (Place F code base e q) := by
  intro σ s h
  obtain ⟨t, u, h1, h2, hu, hsame⟩ := h.here.jump hc (toSkip_add q b) hq (by rw [sizes_nil]; omega)
  exact ⟨u, .tail (.single h1) h2, h.moved hu hsame⟩

/-- **The code of a condition** goes on behind it, or at `q` if it is false. -/
theorem branch_code (he : Evals F cond code b m) (hnot : code[m]? = some OpCode.not.code)
    (hskip : Sits code (m + 1) (skipCode (toSkip q (m + 3)) .jmpcnd)) (hq : q ≤ code.length)
    (hb : (code.length : Int) + cond.need + 7 ≤ base) :
    Flow.Branches VM.Turn (Place F code base e b) (testOf cond) (Place F code base e (m + 8))
      (Place F code base e q) := by
  intro σ s c h hc
  obtain ⟨t1, ht1, h1, a1⟩ := h.eval he (by omega) (testOf_some hc)
  obtain ⟨t2, ht2, h2, a2⟩ := VM.Here.not (b := c) h1 hnot
  obtain ⟨t3, t4, ht3, ht4, h4, a4⟩ := h2.jumpCond hskip (toSkip_add q (m + 1)) hq
    (by rw [sizes_nil]; omega)
  have hall := (a1.trans a2).trans a4
  refine ⟨t4, ((ht1.tail ht2).tail ht3).tail ht4, fun e => ?_, fun e => ?_⟩
  · subst e
    exact h.moved h4 hall
  · subst e
    exact h.moved h4 hall

/-- a cast of a value to its own type, or no cast -/
def OwnCast (code : List UInt8) (t : ValTy) (m q : Nat) : Prop :=
  q = m ∨ q = m + 1 ∧ code[m]? = some (castOp t.sym true).1.code

theorem OwnCast.run {v : Val} {s : VM} (hc : OwnCast code v.ty m q) (h : s.Here code base m [v.item]) :
    ∃ t, Relation.ReflTransGen VM.Turn s t ∧ t.Here code base q [v.item] ∧ SameAbove base s t := by
  rcases hc with rfl | ⟨rfl, hop⟩
  · exact ⟨s, .refl, h, SameAbove.refl base s⟩
  · have hroom := room_replaced h (Nat.le_refl _)
    cases v with
    | int i =>
      obtain ⟨t, ht, hh, hsame⟩ := VM.Here.cast .toi h hop rfl (Or.inl ⟨rfl, rfl, rfl⟩) rfl hroom
      exact ⟨t, .single ht, hh, hsame⟩
    | bool c =>
      obtain ⟨t, ht, hh, hsame⟩ := VM.Here.cast .tob h hop rfl (Or.inl ⟨rfl, rfl, rfl⟩) rfl hroom
      exact ⟨t, .single ht, hh, hsame⟩

/-- **An assignment.** -/
theorem Fragment.assign {x : Str} {slot : VarSlot} (hx : F x = some slot)
    (hty : exprTy F.types expr = some slot.ty) (he : Evals F expr code b m)
    (hcast : OwnCast code slot.ty m q)
    (hpush : Sits code q (OpCode.push.code :: (Data.addr slot.addr : TData).bytes slot.reg))
    (hop : code[q + 6]? = some OpCode.wrmem.code) :
    Fragment F (assignTo x expr) (expr.need + 14) code ctx b (q + 7) := by
  intro base e hb
  refine Flow.Sim.act fun σ σ' s h hset => ?_
  obtain ⟨v, hv, rfl⟩ := Option.map_eq_some_iff.1 hset
  have htv : v.ty = slot.ty := eval_ty h.values.typed expr hty hv
  obtain ⟨t1, ht1, h1, a1⟩ := h.eval he (by omega) hv
  rw [← htv] at hcast
  obtain ⟨t2, ht2, h2, a2⟩ := hcast.run h1
  have hsz := v.size_le
  have hreg : slot.reg = .addrBp ∨ slot.reg = .addrGbp := by
    unfold VarSlot.reg
    cases slot.isGlobal
    · exact Or.inl rfl
    · exact Or.inr rfl
  obtain ⟨t3, ht3, h3, a3⟩ := h2.push (d := .addr slot.addr) hpush rfl
    (by rcases hreg with e | e <;> rw [e] <;> rfl)
    (by
      have e : sizes [v.item] = v.data.size := rfl
      show (code.length : Int) + (5 : Nat) + sizes [v.item] ≤ base
      rw [e]
      push_cast at hb ⊢
      omega)
  have hall := (a1.trans a2).trans a3
  have i3 := hall.inSlots h.values
  have hroom := i3.room x slot hx
  rw [← htv, ← Val.size_data] at hroom
  obtain ⟨t4, ht4, h4, hr4, hat, hrest⟩ := h3.wrmem hop hreg (t3.base_reg slot) rfl v.wf_data hroom
    (i3.above x slot hx)
  refine ⟨t4, ?_, h4, i3.written hx htv.symm hr4 hat hrest, (h.rest.trans hall.rest).trans hr4⟩
  exact ((ht1.to_reflTransGen.trans ht2).tail ht3).tail ht4

/-- **Two branches** with a jump behind the first one. -/
theorem Fragment.cond_else (he : Evals F cond code b m) (hnot : code[m]? = some OpCode.not.code)
    (hskip : Sits code (m + 1) (skipCode (toSkip (m1 + 7) (m + 3)) .jmpcnd))
    (hp : Fragment F p need code ctx (m + 8) m1)
    (hjmp : Sits code m1 (skipCode (toSkip q (m1 + 2)) .jmp)) (hq : q ≤ code.length)
    (hp' : Fragment F p' need' code ctx (m1 + 7) q) :
    Fragment F (Flow.cond (testOf cond) p p') (cond.need + need + need' + 7) code ctx b q := by
  intro base e hb
  have hle := hjmp.le (by simp [skipCode])
  rw [length_skipCode] at hle
  refine Flow.Sim.cond (branch_code he hnot hskip hle (by omega)) ?_ (hp' base e (by omega))
  exact (hp base e (by omega)).after (moves_jump hjmp hq (by omega))

/-- **One branch.** -/
theorem Fragment.cond_only (he : Evals F cond code b m) (hnot : code[m]? = some OpCode.not.code)
    (hskip : Sits code (m + 1) (skipCode (toSkip q (m + 3)) .jmpcnd)) (hq : q ≤ code.length)
    (hp : Fragment F p need code ctx (m + 8) q) :
    Fragment F (Flow.cond (testOf cond) p Flow.skip) (cond.need + need + 7) code ctx b q := by
  intro base e hb
  refine Flow.Sim.cond (branch_code he hnot hskip hq (by omega)) (hp base e (by omega)) ?_
  have hskip' : Fragment F Flow.skip 0 code ctx q q := Fragment.skip q
  exact hskip' base e (by omega)

omit [MathLib TReal] in
/-- the exits of the body of a loop lead to its beginning, to its end, or out of it -/
theorem exitPlace_turn {exit : Exit} {σ : Store} {s : VM}
    (h : exitPlace F code base e ((b, q) :: ctx) exit σ s) :
    exit.turn.place (Place F code base e b) (Place F code base e q) (exitPlace F code base e ctx) σ s := by
  cases exit with
  | brk n =>
    obtain ⟨c, hc, hs⟩ := h
    cases n with
    | zero =>
      cases hc
      exact hs
    | succ n => exact ⟨c, hc, hs⟩
  | nxt n =>
    obtain ⟨c, hc, hs⟩ := h
    cases n with
    | zero =>
      cases hc
      exact hs
    | succ n => exact ⟨c, hc, hs⟩

/-- **A loop** with a jump back. -/
theorem Fragment.loop (he : Evals F cond code b m) (hnot : code[m]? = some OpCode.not.code)
    (hskip : Sits code (m + 1) (skipCode (toSkip (m1 + 7) (m + 3)) .jmpcnd)) (hb : b ≤ code.length)
    (hp : Fragment F p need code ((b, m1 + 7) :: ctx) (m + 8) m1)
    (hjmp : Sits code m1 (skipCode (toSkip b (m1 + 2)) .jmp)) :
    Fragment F (Flow.loop (testOf cond) Exit.turn p) (cond.need + need + 7) code ctx b (m1 + 7) := by
  intro base e hroom
  have hle := hjmp.le (by simp [skipCode])
  rw [length_skipCode] at hle
  refine Flow.Sim.loop (branch_code he hnot hskip hle (by omega)) ?_
  refine Flow.Sim.after ?_ (moves_jump hjmp hb (by omega))
  intro n σ s h
  refine (hp base e (by omega) n σ s h).mono (fun _ hs => hs) (fun exit σ' he => ?_) id
  obtain ⟨t, ht, hx⟩ := he
  exact ⟨t, ht, exitPlace_turn hx⟩

/-- **A jump out of a loop** or to its beginning. -/
theorem Fragment.leave {exit : Exit} (hc : Sits code b (skipCode (toSkip q (b + 2)) .jmp))
    (hq : q ≤ code.length)
    (hx : ∀ base e σ s, Place F code base e q σ s → exitPlace F code base e ctx exit σ s) :
    Fragment F (Flow.leave exit) 5 code ctx b m := by
  intro base e hb
  refine Flow.Sim.leave fun σ s h => ?_
  obtain ⟨t, ht, hh⟩ := moves_jump hc hq (by omega) σ s h
  exact ⟨t, ht, hx base e σ t hh⟩

end

end MuF
