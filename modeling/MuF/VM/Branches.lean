import MuF.VM.Compare
import MuF.VM.Fragments

/-!
# Comparisons and jumps in loaded code

* `VM.Here.compare`, `VM.Here.not`: the condition of a branch;
* `VM.Here.jump`, `VM.Here.jumpCond`: jumps to a place of the code;
* `Leaves m s t`: the code at `s` is left at `m`, in `t`, for the first time.
-/

set_option linter.unusedVariables false

namespace MuF

open Bytes Exec

section
variable {s t u : VM} {base : Int} {code : List UInt8} {p q : Nat} {ds : List Item} {off : Int32}

/-- a jump, with the instruction that uses the address -/
def skipCode (off : Int32) (op : OpCode) : List UInt8 :=
  (OpCode.push.code :: (Data.addr off : TData).bytes .addrIp) ++ [op.code]

theorem length_skipCode (off : Int32) (op : OpCode) : (skipCode off op).length = 7 := by
  rw [skipCode, List.length_append, List.length_cons, Data.length_bytes]
  rfl

/-- a truth value on the stack -/
def boolItem (b : Bool) : Item := (.bool (if b then 1 else 0), .unknown)

variable [MathLib TReal]

/-- **A comparison** that is defined. -/
theorem VM.Here.compare (op : OpCode) (c : CompOp) {val1 val2 : TData} {ty1 ty2 : VMType}
    {b : Bool} (h : s.Here code base p ((val2, ty2) :: (val1, ty1) :: ds))
    (hop : code[p]? = some op.code) (hx : execOp (some op) = andGoOn (opComparison c))
    (hb : comparison s.eps c val1 val2 = .ok b) :
    ∃ t, step.run s = .ok .running t ∧ t.Here code base (p + 1) (boolItem b :: ds) ∧
      SameAbove base s t := by
  have h' : s.Here code base p ([(val2, ty2), (val1, ty1)] ++ ds) := h
  have hr := h.room
  have hsz : sizes ((val2, ty2) :: (val1, ty1) :: ds) = val2.size + (val1.size + sizes ds) := rfl
  rw [hsz] at hr
  have hs1 := val1.size_pos
  have hs2 := val2.size_pos
  obtain ⟨hp, hh, hsame⟩ := h'.replaced (d := .bool (if b then 1 else 0)) rfl
    (by show (code.length : Int) + (2 : Nat) + sizes ds ≤ base; push_cast at hr ⊢; omega)
  have hroom : VM.Room { s with ip := Int32.ofNat (p + 1) } s.sp.toInt
      (val2.size + val1.size + 8) := by
    have h1 := h.holds.room.left
    have h2 := h.sp
    have h3 := h.top
    have h4 := h.ready.sp_ge
    rw [hsz] at h2
    refine ⟨by omega, ?_⟩
    show _ ≤ s.memsize.toInt
    push_cast at h2 ⊢
    omega
  have hrun := opComparison_ok (h'.withIp (p + 1)).holds.left hroom hb
  refine ⟨_, h.turn hop ?_ hh (lt_length hop), hh, hsame⟩
  rw [hx]
  exact run_andGoOn hrun

/-- a comparison that is not defined stops the machine -/
theorem VM.Here.compareStop (op : OpCode) (c : CompOp) {val1 val2 : TData} {ty1 ty2 : VMType}
    {e : Err} (h : s.Here code base p ((val2, ty2) :: (val1, ty1) :: ds))
    (hop : code[p]? = some op.code) (hx : execOp (some op) = andGoOn (opComparison c))
    (he : comparison s.eps c val1 val2 = .error e) : ∃ t, step.run s = .error e t := by
  have h' : s.Here code base p ([(val2, ty2), (val1, ty1)] ++ ds) := h
  have hrun := opComparison_error (h'.withIp (p + 1)).holds.left he
  have hgo := congrArg (fun x => x.run { s with ip := Int32.ofNat (p + 1) }) hx
  rw [andGoOn] at hgo
  exact ⟨_, h.stop hop (hgo.trans (bind_error hrun))⟩

/-- **A negation.** -/
theorem VM.Here.not {b : Bool} (h : s.Here code base p (boolItem b :: ds))
    (hop : code[p]? = some OpCode.not.code) :
    ∃ t, step.run s = .ok .running t ∧ t.Here code base (p + 1) (boolItem (!b) :: ds) ∧
      SameAbove base s t := by
  have h' : s.Here code base p ([boolItem b] ++ ds) := h
  have hr := h.room
  have hsz : sizes (boolItem b :: ds) = 2 + sizes ds := rfl
  rw [hsz] at hr
  obtain ⟨hp, hh, hsame⟩ := h'.replaced (d := .bool (if !b then 1 else 0)) rfl
    (by show (code.length : Int) + (2 : Nat) + sizes ds ≤ base; push_cast at hr ⊢; omega)
  refine ⟨_, h.turn hop ?_ hh (lt_length hop), hh, hsame⟩
  refine run_andGoOn ?_
  have hpop := popBool_run (h'.withIp (p + 1)).holds (Or.inl rfl)
  rw [opNot, bind_ok hpop]
  exact push_run _ .unknown true rfl hp

/-- the address of a jump on the stack -/
theorem VM.Here.skip {op : OpCode} (h : s.Here code base p ds) (hc : Sits code p (skipCode off op))
    (hroom : (code.length : Int) + 5 + sizes ds ≤ base) :
    ∃ t, step.run s = .ok .running t ∧ t.Here code base (p + 6) ((.addr off, .addrIp) :: ds) ∧
      SameAbove base s t ∧ code[p + 6]? = some op.code := by
  obtain ⟨hc1, hc2⟩ := sits_append.1 hc
  obtain ⟨t, ht, hh, hsame⟩ := h.push (d := .addr off) hc1 rfl rfl hroom
  exact ⟨t, ht, hh, hsame, (sits_cons.1 hc2).1⟩

omit [MathLib TReal] in
/-- the address of a jump is popped -/
theorem VM.Here.popSkip (h : s.Here code base p ((.addr off, .addrIp) :: ds)) (n : Nat) :
    popAddress.run { s with ip := Int32.ofNat n } =
      .ok (off + Int32.ofNat n) (VM.popped { s with ip := Int32.ofNat n } 5) :=
  popAddress_run (h.withIp n).holds rfl

/-- **A jump** to the code at `q`. -/
theorem VM.Here.jump (h : s.Here code base p ds) (hc : Sits code p (skipCode off .jmp))
    (hq : off + Int32.ofNat (p + 7) = Int32.ofNat q) (hle : q ≤ code.length)
    (hroom : (code.length : Int) + 5 + sizes ds ≤ base) :
    ∃ t u, step.run s = .ok .running t ∧ step.run t = .ok .running u ∧ u.Here code base q ds ∧
      SameAbove base s u := by
  obtain ⟨t, ht, hh, hsame, hop⟩ := h.skip hc hroom
  have hh' : t.Here code base (p + 6) ([((.addr off : TData), .addrIp)] ++ ds) := hh
  obtain ⟨hu, hsame'⟩ := (hh'.withIp (p + 7)).popped
  refine ⟨t, _, ht, hh.turn hop ?_ (hu.withIp q) hle, hu.withIp q, ?_⟩
  · refine run_andGoOn ?_
    rw [opJmp, bind_ok (hh.popSkip (p + 7)), hq]
    rfl
  · exact hsame.trans ((((SameAbove.refl base t).withIp _).trans hsame').withIp _)

/-- **A conditional jump** to the code at `q`. -/
theorem VM.Here.jumpCond {b : Bool} (h : s.Here code base p (boolItem b :: ds))
    (hc : Sits code p (skipCode off .jmpcnd)) (hq : off + Int32.ofNat (p + 7) = Int32.ofNat q)
    (hle : q ≤ code.length) (hroom : (code.length : Int) + 7 + sizes ds ≤ base) :
    ∃ t u, step.run s = .ok .running t ∧ step.run t = .ok .running u ∧
      u.Here code base (if b then q else p + 7) ds ∧ SameAbove base s u := by
  have hsz : sizes (boolItem b :: ds) = 2 + sizes ds := rfl
  obtain ⟨t, ht, hh, hsame, hop⟩ := h.skip hc (by rw [hsz]; push_cast; omega)
  have hh' : t.Here code base (p + 6) ([((.addr off : TData), .addrIp)] ++ (boolItem b :: ds)) := hh
  obtain ⟨h1, a1⟩ := (hh'.withIp (p + 7)).popped
  have h1' : VM.Here (VM.popped { t with ip := Int32.ofNat (p + 7) } 5) code base (p + 7)
      ([boolItem b] ++ ds) := h1
  obtain ⟨h2, a2⟩ := h1'.popped
  have hpop : popBool.run (VM.popped { t with ip := Int32.ofNat (p + 7) } 5) =
      .ok b (VM.popped (VM.popped { t with ip := Int32.ofNat (p + 7) } 5) 2) :=
    popBool_run h1.holds (Or.inl rfl)
  have hall := (((SameAbove.refl base t).withIp _).trans a1).trans a2
  have hrun (u : VM) (hx : (onlyIf b (modify fun s => { s with ip := Int32.ofNat q }) :
      VMM Unit).run (VM.popped (VM.popped { t with ip := Int32.ofNat (p + 7) } 5) 2) = .ok () u) :
      (execOp (some .jmpcnd)).run { t with ip := Int32.ofNat (p + 7) } = .ok .running u := by
    refine run_andGoOn ?_
    rw [opJmpcnd, bind_ok (hh.popSkip (p + 7)), hq, bind_ok hpop]
    exact hx
  cases b with
  | true =>
    refine ⟨t, _, ht, hh.turn hop (hrun _ rfl) (h2.withIp q) hle, h2.withIp q, ?_⟩
    exact hsame.trans (hall.withIp _)
  | false =>
    exact ⟨t, _, ht, hh.turn hop (hrun _ rfl) h2 (lt_length hop), h2, hsame.trans hall⟩

/-! ## where a part of the code is left -/

/-- the machine is at `m` in the frame of `s` -/
def VM.Back (s : VM) (m : Nat) (t : VM) : Prop := t.ip = Int32.ofNat m ∧ t.bp = s.bp

/-- the run from `t` is at `m` in the frame of `s` in the state `u` for the first time -/
inductive Comes (s : VM) (m : Nat) : VM → VM → Prop
  | done {t : VM} (h : s.Back m t) : Comes s m t t
  | turn {t t' u : VM} (h : ¬ s.Back m t) (ht : step.run t = .ok .running t')
    (hu : Comes s m t' u) : Comes s m t u

/-- the code that `s` is at is left at `m`, in the state `t` -/
def Leaves (m : Nat) (s t : VM) : Prop := Comes s m s t

theorem Comes.unique {m : Nat} {u' : VM} (h : Comes s m t u) (h' : Comes s m t u') : u = u' := by
  induction h with
  | done h =>
    cases h' with
    | done => rfl
    | turn hn => exact absurd h hn
  | turn hn ht hu ih =>
    cases h' with
    | done h => exact absurd h hn
    | turn _ ht' hu' =>
      rw [ht] at ht'
      cases ht'
      exact ih hu'

theorem Leaves.unique {m : Nat} (h : Leaves m s t) (h' : Leaves m s u) : t = u :=
  Comes.unique h h'

end

end MuF
