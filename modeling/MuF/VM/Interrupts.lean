import MuF.VM.Stack

/-!
# Interrupts

The main loop answers an interrupt request with a `CALL` that it makes up itself: it pushes the
address of the service routine, but no frame size, so that `CALL` takes the datum that the
interrupted program has on top of its stack.

* `Shifted n s t`: a stack operation that moves the stack pointer by `n` bytes;
* `dispatch_shift`: the base pointer at the entry of a service routine;
* `serviceReturn_shift`: the stack pointer after its `RET`;
* `Transparent`: an interrupt that leaves no trace;
* **`interrupt_never_transparent`**: there is none.
-/

set_option linter.unusedVariables false
set_option linter.unusedSectionVars false

namespace MuF

open Bytes Exec

/-! ## stack operations -/

/-- the stack pointer moves by `n` bytes and no register else -/
structure Shifted (n : Int32) (s t : VM) : Prop where
  sp : t.sp = s.sp + n
  bp : t.bp = s.bp
  ip : t.ip = s.ip

section
variable {s t u : VM} {m n : Int32}

theorem Shifted.refl (s : VM) : Shifted 0 s s := ⟨(Int32.add_zero _).symm, rfl, rfl⟩

theorem Shifted.trans (h1 : Shifted m s t) (h2 : Shifted n t u) : Shifted (m + n) s u where
  sp := by rw [h2.sp, h1.sp, Int32.add_assoc]
  bp := h2.bp.trans h1.bp
  ip := h2.ip.trans h1.ip

theorem checkMemoryBounds_same {a b : Int32} : Keeps Eq (checkMemoryBounds a b) := by
  refine Keeps.bind Keeps.get fun s => ?_
  exact Keeps.ite (Keeps.throw _) (Keeps.pure _)

theorem checkPointerBounds_same : Keeps Eq checkPointerBounds := by
  have h : ∀ name reg data, Keeps Eq (checkPointer name reg data) := by
    intro name reg data
    refine Keeps.bind Keeps.get fun s => ?_
    exact Keeps.ite (Keeps.throw _) (Keeps.pure _)
  refine Keeps.bind Keeps.get fun s => Keeps.onlyIf ?_
  exact Keeps.bind (h _ _ _) fun _ => Keeps.bind (h _ _ _) fun _ =>
    Keeps.bind (h _ _ _) fun _ => h _ _ _

theorem readBytes_same {a : Int} {k : Nat} : Keeps Eq (readBytes a k) := by
  refine Keeps.bind Keeps.get fun s => ?_
  exact Keeps.ite (Keeps.pure _) (Keeps.throw _)

theorem writeBytes_shift {a : Int} {bs : List UInt8} (h : (writeBytes a bs).run s = .ok () t) :
    Shifted 0 s t := by
  rw [writeBytes, run_get_bind] at h
  by_cases hc : s.allocated a bs.length = true
  · rw [run_if_pos hc, run_set] at h
    cases h
    exact ⟨(Int32.add_zero _).symm, rfl, rfl⟩
  · rw [run_if_neg hc, run_throw] at h
    cases h

variable {α : Type} [Raw α]

theorem pushRaw_shift {x : α} (h : (pushRaw x).run s = .ok () t) :
    Shifted (-sizeOf32 α) s t := by
  rw [pushRaw, run_get_bind] at h
  obtain ⟨_, s1, h1, h⟩ := bind_eq_ok.1 h
  cases checkMemoryBounds_same _ _ _ h1
  rw [moveSp, run_modify_bind] at h
  have h2 := writeBytes_shift h
  exact ⟨h2.sp.trans (Int32.add_zero _), h2.bp, h2.ip⟩

theorem popRaw_shift {x : α} (h : (popRaw α).run s = .ok x t) : Shifted (sizeOf32 α) s t := by
  rw [popRaw, run_get_bind] at h
  obtain ⟨_, s1, h1, h⟩ := bind_eq_ok.1 h
  cases checkMemoryBounds_same _ _ _ h1
  obtain ⟨_, s2, h2, h⟩ := bind_eq_ok.1 h
  cases readBytes_same _ _ _ h2
  obtain ⟨_, s3, h3, h⟩ := bind_eq_ok.1 h
  have hs : Shifted 0 s s3 := by
    cases hz : s.zeropoppedvals with
    | true =>
      rw [hz, run_onlyIf_true] at h3
      exact writeBytes_shift h3
    | false =>
      rw [hz, run_onlyIf_false] at h3
      cases h3
      exact Shifted.refl s
  rw [moveSp, run_modify_bind, run_pure] at h
  cases h
  exact ⟨by rw [hs.sp, Int32.add_zero], hs.bp, hs.ip⟩

theorem popAddress_shift {a : Int32} (h : popAddress.run s = .ok a t) : Shifted 5 s t := by
  rw [popAddress] at h
  obtain ⟨_, s1, h1, h⟩ := bind_eq_ok.1 h
  obtain ⟨_, s2, h2, h⟩ := bind_eq_ok.1 h
  have e : s2 = t := by
    rw [run_get_bind] at h
    cases hb : (VMType.ofCode _).bind s2.base with
    | none =>
      rw [hb, run_throw] at h
      cases h
    | some reg =>
      rw [hb, run_pure] at h
      cases h
      rfl
  subst e
  exact (popRaw_shift h1).trans (popRaw_shift h2)

theorem pushAddress_shift {a : Int32} {ty : VMType} (h : (pushAddress a ty).run s = .ok () t) :
    Shifted (-5) s t := by
  obtain ⟨_, s1, h1, h⟩ := bind_eq_ok.1 h
  exact (pushRaw_shift h1).trans (pushRaw_shift h)

/-- only the descriptor of integers gives one -/
theorem dataOf_int {raw : (α : Type) → [Raw α] → VMM α}
    {seq : (E : Type) → [Raw E] → (pod : Bool) → VMM (List E)} {what : String} {tyval : UInt8}
    {x : Int64} (h : (dataOf raw seq what tyval).run s = .ok (.int x) t) :
    (raw Int64).run s = .ok x t := by
  rw [dataOf] at h
  cases hty : VMType.ofCode tyval with
  | none =>
    rw [hty, run_throw] at h
    cases h
  | some ty =>
    rw [hty] at h
    cases ty
    case unknown =>
      rw [run_throw] at h
      cases h
    all_goals
      obtain ⟨y, s1, h1, h⟩ := bind_eq_ok.1 h
      rw [run_pure] at h
      cases h
    exact h1

theorem popInt_shift {x : Int64} (h : popInt.run s = .ok x t) : Shifted 9 s t := by
  rw [popInt] at h
  obtain ⟨d, s2, h2, h⟩ := bind_eq_ok.1 h
  cases d <;> first | (rw [run_throw] at h; cases h) | skip
  rw [run_pure] at h
  cases h
  obtain ⟨_, s1, h1, h2⟩ := bind_eq_ok.1 h2
  exact (popRaw_shift h1).trans (popRaw_shift (dataOf_int h2))

theorem pushInt_shift {x : Int64} (h : (pushVal (.int x)).run s = .ok () t) :
    Shifted (-9) s t := by
  obtain ⟨_, s1, h1, h⟩ := bind_eq_ok.1 h
  exact (pushRaw_shift h1).trans (pushRaw_shift h)

end

/-! ## the entry of a service routine -/

section
variable [MathLib TReal] {s t : VM}

theorem opCall_bp (h : opCall.run s = .ok () t) :
    t.bp = s.sp + 4 ∧ ∃ f : Int64, t.sp = Int32.ofInt (t.bp.toInt - f.toInt) := by
  rw [opCall] at h
  obtain ⟨addr, s1, h1, h⟩ := bind_eq_ok.1 h
  obtain ⟨f, s2, h2, h⟩ := bind_eq_ok.1 h
  rw [run_get_bind] at h
  obtain ⟨_, s3, h3, h⟩ := bind_eq_ok.1 h
  obtain ⟨_, s4, h4, h⟩ := bind_eq_ok.1 h
  rw [run_modify] at h
  cases h
  have e := (((popAddress_shift h1).trans (popInt_shift h2)).trans
    (pushAddress_shift h3)).trans (pushAddress_shift h4)
  exact ⟨e.sp, f, rfl⟩

theorem wrapIp_bp (h : wrapIp.run s = .ok () t) : t.bp = s.bp ∧ t.sp = s.sp := by
  rw [wrapIp, run_get_bind] at h
  by_cases h1 : s.ip ≥ s.memsize
  · rw [run_if_pos h1] at h
    by_cases h2 : s.memsize = 0
    · rw [run_if_pos h2, run_throw] at h
      cases h
    · rw [run_if_neg h2, run_set] at h
      cases h
      exact ⟨rfl, rfl⟩
  · rw [run_if_neg h1, run_pure] at h
    cases h
    exact ⟨rfl, rfl⟩

/-- the service routine of the first pending interrupt that has one -/
def VM.pendingISR (s : VM) : Option Int32 := (VM.takeIrq (List.finRange numInterrupts) s).1

omit [MathLib TReal] in
/-- a fetch clears requests -/
theorem takeIrq_irqs (l : List (Fin numInterrupts)) (s : VM) :
    ∃ irqs, (VM.takeIrq l s).2 = { s with irqs := irqs } := by
  induction l generalizing s with
  | nil => exact ⟨s.irqs, rfl⟩
  | cons i is ih =>
    unfold VM.takeIrq
    split
    · dsimp only
      split
      · exact ⟨_, rfl⟩
      · obtain ⟨irqs, h⟩ := ih { s with irqs := fun j => if j = i then false else s.irqs j }
        exact ⟨irqs, h⟩
    · exact ih s

theorem takeIrq_regs (l : List (Fin numInterrupts)) (s : VM) :
    (VM.takeIrq l s).2.sp = s.sp ∧ (VM.takeIrq l s).2.bp = s.bp := by
  obtain ⟨irqs, h⟩ := takeIrq_irqs l s
  rw [h]
  exact ⟨rfl, rfl⟩

/-- **The base pointer of a service routine.**  It lies one byte below the interrupted stack
pointer, since an integer of nine bytes was taken from the interrupted stack before the two
registers were saved. -/
theorem dispatch_shift {status : Status} (hp : s.pendingISR.isSome)
    (h : step.run s = .ok status t) :
    t.bp = s.sp - 1 ∧ ∃ f : Int64, t.sp = Int32.ofInt (t.bp.toInt - f.toInt) := by
  rw [step] at h
  obtain ⟨_, s0, h0, h⟩ := bind_eq_ok.1 h
  cases checkPointerBounds_same _ _ _ h0
  obtain ⟨op, s1, h1, h⟩ := bind_eq_ok.1 h
  obtain ⟨isr, hisr⟩ := Option.isSome_iff_exists.1 hp
  obtain ⟨hsp, -⟩ := takeIrq_regs (List.finRange numInterrupts) s
  have hfetch : op = some .call ∧ s1.sp = s.sp + -5 := by
    rw [fetch, run_get_bind] at h1
    rw [VM.pendingISR] at hisr
    generalize VM.takeIrq (List.finRange numInterrupts) s = r at h1 hisr hsp
    obtain ⟨r1, r2⟩ := r
    dsimp only at hisr hsp h1
    subst hisr
    obtain ⟨_, s3, h3, h1⟩ := bind_eq_ok.1 h1
    rw [run_set] at h3
    cases h3
    obtain ⟨_, s4, h4, h1⟩ := bind_eq_ok.1 h1
    rw [run_pure] at h1
    cases h1
    exact ⟨rfl, by rw [(pushAddress_shift h4).sp, hsp]⟩
  obtain ⟨rfl, hs1⟩ := hfetch
  obtain ⟨st, s2, h2, h⟩ := bind_eq_ok.1 h
  obtain ⟨_, s3, h3, h2⟩ := bind_eq_ok.1 h2
  rw [run_pure] at h2
  cases h2
  obtain ⟨hbp, f, hf⟩ := opCall_bp h3
  rw [run_if_neg (by decide)] at h
  obtain ⟨_, s4, h4, h⟩ := bind_eq_ok.1 h
  rw [run_pure] at h
  cases h
  obtain ⟨e1, e2⟩ := wrapIp_bp h4
  refine ⟨?_, f, by rw [e2, hf, e1]⟩
  rw [e1, hbp, hs1, Int32.add_assoc, Int32.sub_eq_add_neg]
  rfl

end

/-! ## the end of a service routine -/

/-- the end of a service routine: no results, its frame size, no arguments, `RET` -/
def serviceReturn (framesize : Int64) : VMM Unit := do
  pushVal (.int framesize)
  pushVal (.int 0)
  opRet

/-- without values above the frame none are popped -/
theorem popRetvals_none {s t : VM} {f : Int64} {fuel : Nat} {vs : List TData}
    (hb : ¬ s.sp.toInt64 + f < s.bp.toInt64) (h : (popRetvals f fuel []).run s = .ok vs t) :
    vs = [] ∧ t = s := by
  cases fuel with
  | zero =>
    rw [popRetvals, run_throw] at h
    cases h
  | succ fuel =>
    rw [popRetvals, run_get_bind, run_if_neg hb, run_pure] at h
    cases h
    exact ⟨rfl, rfl⟩

/-- a push that succeeds had room -/
theorem pushRaw_fits {α : Type} [Raw α] {s t : VM} {x : α} (h1 : 1 ≤ Raw.size α)
    (h : (pushRaw x).run s = .ok () t) :
    s.Fits (Raw.size α) ∧ t = s.pushed (Raw.enc x) := by
  rw [pushRaw, run_get_bind] at h
  obtain ⟨_, s1, hc, h⟩ := bind_eq_ok.1 h
  cases checkMemoryBounds_same _ _ _ hc
  rw [moveSp, run_modify_bind, writeBytes, run_get_bind, Raw.length_enc] at h
  by_cases ha : VM.allocated { s with sp := s.sp + -sizeOf32 α } (s.sp - sizeOf32 α).toInt
      (Raw.size α) = true
  · rw [run_if_pos ha, run_set] at h
    have hr : 0 ≤ (s.sp - sizeOf32 α).toInt ∧
        (s.sp - sizeOf32 α).toInt + Raw.size α ≤ s.memsize.toInt := by
      simpa [VM.allocated, Nat.ne_of_gt h1] using ha
    have hm := s.memsize.toInt_lt
    have e := Word.toInt_add_nat (a := s.sp - sizeOf32 α) (n := Raw.size α) (by omega)
    rw [Int32.sub_add_cancel] at e
    refine ⟨⟨by omega, by omega⟩, ?_⟩
    have hf : s.Fits (Raw.size α) := ⟨by omega, by omega⟩
    cases h
    rw [VM.pushed, Raw.length_enc, ← hf.toInt, Int32.sub_eq_add_neg]
  · rw [run_if_neg ha, run_throw] at h
    cases h

theorem pushInt_fits {s t : VM} {x : Int64} (h : (pushVal (.int x)).run s = .ok () t) :
    s.Fits 9 ∧ t = s.pushed ((Data.int x : TData).bytes .unknown) := by
  obtain ⟨_, s1, h1, h⟩ := bind_eq_ok.1 h
  obtain ⟨f1, rfl⟩ := pushRaw_fits (by decide) h1
  obtain ⟨f2, rfl⟩ := pushRaw_fits (by decide) h
  have e := VM.pushed_sp (b := Raw.enc x) f1
  have hf : s.Fits (8 + 1) := by
    have h1 := f2.1
    rw [e] at h1
    have h2 : (Raw.enc x).length = 8 := Raw.length_enc x
    rw [h2] at h1
    exact ⟨by rw [size_uint8] at h1; push_cast at h1 ⊢; omega, f1.2⟩
  exact ⟨hf, VM.pushed_pushed hf⟩

/-- the frame is removed and the two registers are taken back -/
theorem unwind_shift {s t : VM} {n : Int}
    (h : (do
      onlyIf s.zeropoppedvals (memset s.sp.toInt n)
      modify fun s => { s with sp := s.bp }
      let bp ← popAddress
      modify fun s => { s with bp := bp }
      let ip ← popAddress
      modify fun s => { s with ip := ip }
      popDatas 0
      pushDatas [] : VMM Unit).run s = .ok () t) : t.sp = s.bp + 10 := by
  obtain ⟨_, s1, h1, h⟩ := bind_eq_ok.1 h
  have hs1 : s1.bp = s.bp := by
    cases hz : s.zeropoppedvals with
    | true =>
      rw [hz, run_onlyIf_true, memset] at h1
      by_cases hn : n < 0
      · rw [run_if_pos hn, run_throw] at h1
        cases h1
      · rw [run_if_neg hn] at h1
        exact (writeBytes_shift h1).bp
    | false =>
      rw [hz, run_onlyIf_false] at h1
      cases h1
      rfl
  rw [run_modify_bind] at h
  obtain ⟨bp, s2, h2, h⟩ := bind_eq_ok.1 h
  rw [run_modify_bind] at h
  obtain ⟨ip, s3, h3, h⟩ := bind_eq_ok.1 h
  rw [run_modify_bind, popDatas, run_pure_bind, pushDatas, run_pure] at h
  cases h
  have e1 := (popAddress_shift h2).sp
  have e2 := (popAddress_shift h3).sp
  show s3.sp = s.bp + 10
  rw [e2]
  show s2.sp + 5 = s.bp + 10
  rw [e1, hs1, Int32.add_assoc]
  rfl

theorem pushInts_holds {s s1 s2 : VM} {x y : Int64} (h1 : (pushVal (.int x)).run s = .ok () s1)
    (h2 : (pushVal (.int y)).run s1 = .ok () s2) :
    s2.Holds [(.int y, .unknown), (.int x, .unknown)] := by
  obtain ⟨f1, rfl⟩ := pushInt_fits h1
  obtain ⟨f2, rfl⟩ := pushInt_fits h2
  have h0 := VM.pushed_sp (b := (Data.int x : TData).bytes .unknown) f1
  rw [Data.length_bytes] at h0
  have h18 : s.Fits (9 + 9) := by
    have := f2.1
    rw [h0] at this
    exact ⟨by simp only [Data.size] at this; push_cast at this ⊢; omega, f1.2⟩
  have hI : Items [(.int y, .unknown), (.int x, .unknown)] := by
    intro p hp
    rcases List.mem_cons.1 hp with rfl | hp
    · rfl
    · rcases List.mem_singleton.1 hp with rfl
      rfl
  have hh := VM.pushed_holds hI h18
  rwa [encs_cons, encs_cons, encs_nil, List.append_nil, ← VM.pushed_pushed h18] at hh

/-- **The stack pointer after a service routine** is ten bytes above its base pointer. -/
theorem serviceReturn_shift {s t : VM} {f : Int64} (hf : s.sp.toInt64 + f = s.bp.toInt64)
    (h : (serviceReturn f).run s = .ok () t) : t.sp = s.bp + 10 := by
  rw [serviceReturn] at h
  obtain ⟨_, s1, h1, h⟩ := bind_eq_ok.1 h
  obtain ⟨_, s2, h2, h⟩ := bind_eq_ok.1 h
  -- both numbers are popped again
  have hh := pushInts_holds h1 h2
  have h3 : popInt.run s2 = .ok 0 (s2.popped 9) := popInt_run hh
  have h4 : popInt.run (s2.popped 9) = .ok f ((s2.popped 9).popped 9) := popInt_run hh.tail
  have e1 := pushInt_shift h1
  have e2 := pushInt_shift h2
  have e3 := popInt_shift h3
  have e4 := popInt_shift h4
  clear h1 h2 hh
  generalize (s2.popped 9) = s3 at h3 h4 e3 e4
  generalize (s3.popped 9) = s4 at h4 e4
  have hsp : s4.sp = s.sp := by
    rw [e4.sp, e3.sp, e2.sp, e1.sp]
    simp only [Int32.add_assoc]
    exact Int32.add_zero _
  have hbp : s4.bp = s.bp := by rw [e4.bp, e3.bp, e2.bp, e1.bp]
  rw [opRet, bind_ok h3, bind_ok h4, run_get_bind] at h
  -- no results are above the frame
  obtain ⟨vs, s5, h5, h⟩ := bind_eq_ok.1 h
  have hb : ¬ s4.sp.toInt64 + f < s4.bp.toInt64 := by
    rw [hsp, hbp, hf]
    exact Int64.lt_irrefl
  obtain ⟨evs, es⟩ := popRetvals_none hb h5
  rw [run_get_bind, evs, es] at h
  rw [← hbp]
  exact unwind_shift h

/-! ## interrupts leave a trace -/

/-- what a service routine may do before its `RET`: its stack is balanced, and nothing changes from
its base pointer upwards -/
structure Serviced (e t : VM) : Prop where
  sp : t.sp = e.sp
  bp : t.bp = e.bp
  gbp : t.gbp = e.gbp
  memsize : t.memsize = e.memsize
  above : ∀ i, e.bp.toInt ≤ i → t.mem i = e.mem i

/-- the interrupted program finds its registers and its stack -/
structure Restored (s u : VM) : Prop where
  ip : u.ip = s.ip
  sp : u.sp = s.sp
  bp : u.bp = s.bp
  gbp : u.gbp = s.gbp
  above : ∀ i, s.sp.toInt ≤ i → u.mem i = s.mem i

section
variable [MathLib TReal]

/-- the interrupt is answered, and whatever its service routine does the interrupted program goes
on as if nothing had happened -/
def Transparent (s : VM) : Prop :=
  ∃ e, step.run s = .ok .running e ∧
    ∀ t (f : Int64), Serviced e t → e.sp.toInt64 + f = e.bp.toInt64 →
      ∃ u, (serviceReturn f).run t = .ok () u ∧ Restored s u

/-- **No interrupt is transparent**, in any state with any service routine: if its dispatch and its
`RET` succeed at all then the stack pointer ends nine bytes too high. -/
theorem interrupt_never_transparent (s : VM) (h : s.pendingISR.isSome) : ¬ Transparent s := by
  rintro ⟨e, he, hserv⟩
  obtain ⟨hbp, -⟩ := dispatch_shift h he
  obtain ⟨u, hu, hr⟩ := hserv e (e.bp.toInt64 - e.sp.toInt64) ⟨rfl, rfl, rfl, rfl, fun _ _ => rfl⟩
    (by rw [Int64.add_comm, Int64.sub_add_cancel])
  have hsp := serviceReturn_shift (by rw [Int64.add_comm, Int64.sub_add_cancel]) hu
  rw [hr.sp, hbp] at hsp
  have h9 : s.sp + 0 = s.sp + 9 := by
    rw [Int32.add_zero]
    refine hsp.trans ?_
    rw [Int32.sub_eq_add_neg, Int32.add_assoc]
    rfl
  exact absurd ((Int32.add_right_inj _).1 h9) (by decide)

end

/-- a machine with an integer on its stack and a pending interrupt -/
def vmPending : VM :=
  let s := @VM.init Platform.packed 256 ⟨0⟩ []
  let irq : Fin numInterrupts := ⟨3, by decide⟩
  { (s.pushed ((Data.int 7 : TData).bytes .unknown)).requestInterrupt irq with
    isrs := fun i => if i = irq then some 100 else none }

theorem vmPending_not_transparent : ¬ @Transparent (MathLib.absent ⟨0⟩) vmPending :=
  @interrupt_never_transparent (MathLib.absent ⟨0⟩) vmPending (by decide)

/-- the state in which a computation ends -/
def after {α : Type} (x : VMM α) (s : VM) : VM :=
  match x.run s with
  | .ok _ t => t
  | .error _ t => t

/-- the computation returns the given value -/
def returns {α : Type} [DecidableEq α] (x : VMM α) (s : VM) (a : α) : Bool :=
  match x.run s with
  | .ok b _ => b = a
  | .error _ _ => false

theorem run_eq_after {α : Type} [DecidableEq α] {x : VMM α} {a : α} {s : VM}
    (h : returns x s a = true) : x.run s = .ok a (after x s) := by
  unfold returns at h
  unfold after
  generalize x.run s = r at h
  cases r with
  | error e t => cases h
  | ok b t => rw [of_decide_eq_true h]

/-- the service routine, which does nothing, takes the integer for its frame size -/
theorem interrupt_takes_operand : vmPending.pendingISR = some 100 ∧
    ∃ e u, (@step (MathLib.absent ⟨0⟩)).run vmPending = .ok .running e ∧ Serviced e e ∧
      e.sp.toInt64 + 7 = e.bp.toInt64 ∧ (serviceReturn 7).run e = .ok () u ∧
      ¬ Restored vmPending u := by
  refine ⟨by decide, _, _, run_eq_after (by decide +kernel), ⟨rfl, rfl, rfl, rfl, fun _ _ => rfl⟩,
    by decide +kernel, run_eq_after (by decide +kernel), fun h => ?_⟩
  exact absurd h.sp (by decide +kernel)

end MuF
