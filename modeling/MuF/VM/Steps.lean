import MuF.VM.Stack

/-!
# Steps of loaded code

* `VM.Ready s code n`: code at the beginning of the memory, registers that the checks accept, and
  `n` free bytes between the code and the stack;
* `step_op`: a turn of the main loop from the run of its instruction;
* `opPush_run`, `opRdmem_run`: the instructions that push constants and variables;
* `step_push`, `step_rdmem`: their turns.
-/

set_option linter.unusedVariables false

namespace MuF

open Bytes Exec

/-- code at the beginning of the memory, registers above it, and free bytes for the stack -/
structure VM.Ready (s : VM) (code : List UInt8) (n : Nat) : Prop where
  mem : At s.mem 0 code
  range : s.codeRange = (0, Int32.ofNat code.length)
  quiet : ∀ i, s.irqs i = false
  sp_ge : (code.length : Int) + n ≤ s.sp.toInt
  sp_le : s.sp.toInt + 8 ≤ s.memsize.toInt
  bp : (code.length : Int) ≤ s.bp.toInt ∧ s.bp.toInt ≤ s.memsize.toInt
  gbp : (code.length : Int) ≤ s.gbp.toInt ∧ s.gbp.toInt ≤ s.memsize.toInt

section
variable {s t : VM} {code : List UInt8} {n m : Nat}

theorem VM.Ready.length_lt (h : s.Ready code n) : (code.length : Int) < 2^31 := by
  have := h.sp_ge
  have := s.sp.toInt_lt
  omega

theorem VM.Ready.pushable (h : s.Ready code n) : s.Pushable n := by
  have h1 := h.sp_ge
  have h2 := h.sp_le
  exact ⟨⟨by omega, by omega⟩, h2⟩

theorem VM.Ready.mono (h : s.Ready code n) (hm : m ≤ n) : s.Ready code m :=
  { h with sp_ge := by have := h.sp_ge; omega }

theorem VM.Ready.withIp (h : s.Ready code n) (ip : Int32) : VM.Ready { s with ip := ip } code n :=
  ⟨h.mem, h.range, h.quiet, h.sp_ge, h.sp_le, h.bp, h.gbp⟩

/-- a push keeps the code -/
theorem VM.Ready.pushed {bs : List UInt8} (h : s.Ready code (bs.length + n)) :
    (s.pushed bs).Ready code n := by
  have e := VM.pushed_sp (h.pushable.1.mono (Nat.le_add_right bs.length n))
  have h1 := h.sp_ge
  have h2 := h.sp_le
  refine ⟨?_, h.range, h.quiet, ?_, ?_, h.bp, h.gbp⟩
  · show At (write s.mem (s.sp.toInt - bs.length) bs) 0 code
    refine (at_write_outside ?_).2 h.mem
    push_cast at h1
    omega
  · rw [e]
    push_cast at h1
    omega
  · show (s.pushed bs).sp.toInt + 8 ≤ s.memsize.toInt
    rw [e]
    omega

/-- a pop keeps the code -/
theorem VM.Ready.popped (h : s.Ready code n) {k : Nat} (hk : s.sp.toInt + k + 8 ≤ s.memsize.toInt) :
    (s.popped k).Ready code (n + k) := by
  have h1 := h.sp_ge
  have h2 := h.sp_le
  have e : (s.popped k).sp.toInt = s.sp.toInt + k := VM.popped_sp ⟨by omega, by omega⟩
  refine ⟨?_, h.range, h.quiet, ?_, ?_, h.bp, h.gbp⟩
  · exact VM.at_cleared h.mem (Or.inr (by omega))
  · rw [e]
    push_cast
    omega
  · show (s.popped k).sp.toInt + 8 ≤ s.memsize.toInt
    rw [e]
    omega

/-! ## the main loop -/

theorem VM.Ready.not_bad (h : s.Ready code n) {reg : Int32} (h1 : (code.length : Int) ≤ reg.toInt)
    (h2 : reg.toInt ≤ s.memsize.toInt) : s.badPointer reg true = false := by
  have hl := h.length_lt
  have hr : (Int32.ofNat code.length).toInt = code.length := Word.toInt_ofNat (by omega)
  simp only [VM.badPointer, h.range, Bool.or_eq_false_iff, decide_eq_false_iff_not,
    Bool.and_eq_false_iff]
  refine ⟨⟨?_, ?_⟩, Or.inr ?_⟩
  · rw [gt_iff_lt, Int32.lt_iff_toInt_lt]
    omega
  · rw [Int32.lt_iff_toInt_lt]
    show ¬ reg.toInt < 0
    omega
  · rw [beq_eq_false_iff_ne]
    intro e
    rw [Bool.and_eq_true, decide_eq_true_eq, decide_eq_true_eq, Int32.lt_iff_toInt_lt, hr] at e
    omega

theorem VM.Ready.ip_ok (h : s.Ready code n) {p : Nat} (hip : s.ip.toInt = p)
    (hp : p < code.length) : s.badPointer s.ip false = false := by
  have hl := h.length_lt
  have h1 := h.sp_ge
  have h2 := h.sp_le
  have hr : (Int32.ofNat code.length).toInt = code.length := Word.toInt_ofNat (by omega)
  simp only [VM.badPointer, h.range, Bool.or_eq_false_iff, decide_eq_false_iff_not,
    Bool.and_eq_false_iff]
  refine ⟨⟨?_, ?_⟩, Or.inr ?_⟩
  · rw [gt_iff_lt, Int32.lt_iff_toInt_lt]
    omega
  · rw [Int32.lt_iff_toInt_lt]
    show ¬ s.ip.toInt < 0
    omega
  · rw [beq_eq_false_iff_ne]
    intro e
    rw [Bool.and_eq_false_iff, decide_eq_false_iff_not, decide_eq_false_iff_not,
      Int32.le_iff_toInt_le, Int32.lt_iff_toInt_lt, hr] at e
    rcases e with e | e
    · exact e (by show (0 : Int) ≤ s.ip.toInt; omega)
    · omega

theorem checkPointer_run {name : String} {reg : Int32} {data : Bool}
    (h : s.badPointer reg data = false) : (checkPointer name reg data).run s = .ok () s := by
  rw [checkPointer, run_get_bind, run_if_neg (by rw [h]; simp), run_pure]

theorem VM.Ready.checkPointerBounds (h : s.Ready code n) {p : Nat} (hip : s.ip.toInt = p)
    (hp : p < code.length) : checkPointerBounds.run s = .ok () s := by
  have h1 := h.sp_ge
  have h2 := h.sp_le
  rw [MuF.checkPointerBounds, run_get_bind]
  cases s.checks with
  | false => rfl
  | true =>
    rw [run_onlyIf_true, bind_ok (checkPointer_run (h.ip_ok hip hp)),
      bind_ok (checkPointer_run (h.not_bad (by omega) (by omega))),
      bind_ok (checkPointer_run (h.not_bad h.bp.1 h.bp.2)),
      checkPointer_run (h.not_bad h.gbp.1 h.gbp.2)]

theorem takeIrq_quiet (hq : ∀ i, s.irqs i = false) (l : List (Fin numInterrupts)) :
    VM.takeIrq l s = (none, s) := by
  induction l with
  | nil => rfl
  | cons i l ih =>
    rw [VM.takeIrq, hq i]
    exact ih

theorem VM.Ready.fetch (h : s.Ready code n) {p : Nat} (hip : s.ip.toInt = p) {op : OpCode}
    (hop : code[p]? = some op.code) :
    fetch.run s = .ok (some op) { s with ip := s.ip + 1 } := by
  obtain ⟨hp, hc⟩ := List.getElem?_eq_some_iff.1 hop
  have h1 := h.sp_ge
  have h2 := h.sp_le
  have hroom : s.Room s.ip.toInt 1 := ⟨by omega, by omega⟩
  have hb : s.mem s.ip.toInt = op.code := by
    rw [hip, ← hc, ← h.mem.get p hp]
    simp
  rw [MuF.fetch, run_get_bind, takeIrq_quiet h.quiet]
  dsimp only
  rw [bind_ok (run_set s s), bind_ok (readBytes_run hroom), run_modify_bind, run_pure]
  simp only [Bytes.read, List.headD_cons, hb, OpCode.ofCode_code]

theorem wrapIp_run (h : s.ip.toInt < s.memsize.toInt) : wrapIp.run s = .ok () s := by
  have hn : ¬ s.ip ≥ s.memsize := by
    rw [ge_iff_le, Int32.le_iff_toInt_le]
    omega
  rw [wrapIp, run_get_bind, run_if_neg hn, run_pure]

/-- **A turn of the main loop** whose instruction goes on inside the memory. -/
theorem step_op (h : s.Ready code n) {p : Nat} (hip : s.ip.toInt = p) {op : OpCode}
    (hop : code[p]? = some op.code) [MathLib TReal]
    (hx : (execOp (some op)).run { s with ip := s.ip + 1 } = .ok .running t)
    (ht : t.ip.toInt < t.memsize.toInt) : step.run s = .ok .running t := by
  obtain ⟨hp, -⟩ := List.getElem?_eq_some_iff.1 hop
  rw [step, bind_ok (h.checkPointerBounds hip hp), bind_ok (h.fetch hip hop), bind_ok hx,
    run_if_neg (by simp), bind_ok (wrapIp_run ht), run_pure]

theorem run_andGoOn {x : VMM Unit} (h : x.run s = .ok () t) :
    (andGoOn x).run s = .ok .running t := by
  rw [andGoOn, bind_ok h, run_pure]

/-! ## constants and variables -/

/-- data that may be operands of `PUSH` -/
def Data.isOperand : TData → Bool
  | .real _ | .int _ | .cplx _ | .quat _ | .bool _ | .addr _ | .str _ => true
  | _ => false

theorem getDataSize_run {d : TData} (hd : d.isOperand = true) (s : VM) :
    (getDataSize d).run s = .ok (Int32.ofNat (d.size - 1)) s := by
  cases d with
  | none | realArr | intArr | cplxArr | quatArr => cases hd
  | real | int | cplx | quat | bool | addr => rfl
  | str x =>
    rw [getDataSize, run_pure, Data.size, Nat.add_comm 4]
    rfl

/-- **`PUSH`** pushes the operand behind it and skips it. -/
theorem opPush_run {d : TData} {ty : VMType} (hd : d.isOperand = true) (hw : d.wf ty = true)
    (hr : s.Room s.ip.toInt d.size) (hat : At s.mem s.ip.toInt (d.bytes ty))
    (hp : s.Pushable d.size) :
    opPush.run s = .ok () (VM.pushed { s with ip := s.ip + Int32.ofNat d.size } (d.bytes ty)) := by
  have hw' : d.wf (d.ty ty) = true := by cases d <;> first | rfl | exact hw
  have hty : d.bytes (d.ty ty) = d.bytes ty := by cases d <;> rfl
  have hsz : Int32.ofNat (d.size - 1) + 1 = Int32.ofNat d.size := by
    have := d.size_pos
    conv_rhs => rw [← Nat.sub_add_cancel this]
    rw [Int32.ofNat_add]
    rfl
  have hp' : VM.Pushable { s with ip := s.ip + Int32.ofNat d.size } d.size := hp
  rw [opPush, run_get_bind, bind_ok (readMemData_run hw hr hat)]
  dsimp only
  rw [bind_ok (getDataSize_run hd s), run_modify_bind, hsz, push_run _ _ _ hw' hp', hty]

/-- **`RDMEM`** replaces the address on the stack by the datum there. -/
theorem opRdmem_run {a r : Int32} {rty ty : VMType} {ds : List Item} {d : TData}
    (h : s.Holds ((.addr a, rty) :: ds)) (hr : (s.popped 5).base rty = some r)
    (hw : d.wf ty = true) (hroom : s.Room (a + r).toInt d.size)
    (hat : At (s.popped 5).mem (a + r).toInt (d.bytes ty)) (hp : (s.popped 5).Pushable d.size) :
    opRdmem.run s = .ok () ((s.popped 5).pushed (d.bytes ty)) := by
  have hw' : d.wf (d.ty ty) = true := by cases d <;> first | rfl | exact hw
  have hty : d.bytes (d.ty ty) = d.bytes ty := by cases d <;> rfl
  rw [opRdmem, bind_ok (popAddress_run h hr),
    bind_ok (readMemData_run hw (show (s.popped 5).Room _ _ from hroom) hat),
    push_run _ _ _ hw' hp, hty]

/-- a push over bytes that were pushed and popped -/
theorem VM.pushed_popped_pushed {as bs : List UInt8} (hl : as.length ≤ bs.length)
    (h : s.Fits bs.length) : ((s.pushed as).popped as.length).pushed bs = s.pushed bs := by
  have h1 := h.1
  have h2 := h.2
  have e := VM.pushed_sp (h.mono hl)
  have hr : (s.pushed as).Room (s.pushed as).sp.toInt as.length := by
    rw [e]
    exact ⟨by omega, by show _ ≤ s.memsize.toInt; omega⟩
  have esp : ((s.pushed as).popped as.length).sp = s.sp := by
    rw [← Int32.toInt_inj, VM.popped_sp hr, e]
    omega
  have emem : write ((s.pushed as).popped as.length).mem (s.sp.toInt - bs.length) bs =
      write s.mem (s.sp.toInt - bs.length) bs := by
    show write ((s.pushed as).cleared (s.pushed as).sp.toInt as.length) _ _ = _
    rw [VM.cleared, e]
    have ho : write (s.pushed as).mem (s.sp.toInt - bs.length) bs =
        write s.mem (s.sp.toInt - bs.length) bs := write_over _ _ _ _ _ (by omega) (by omega)
    split
    · rw [write_over _ _ _ _ _ (by omega) (by rw [List.length_replicate]; omega), ho]
    · exact ho
  show ({ s with
    mem := write ((s.pushed as).popped as.length).mem
      (((s.pushed as).popped as.length).sp.toInt - bs.length) bs
    sp := ((s.pushed as).popped as.length).sp - Int32.ofNat bs.length } : VM) = s.pushed bs
  rw [esp, emem]
  rfl

/-! ## turns of the main loop -/

theorem VM.Ready.sits {p : Nat} {bs : List UInt8} (h : s.Ready code n) (hb : Sits code p bs) :
    At s.mem p bs := hb.at h.mem

theorem ofNat_add_ofNat (p k : Nat) : Int32.ofNat p + Int32.ofNat k = Int32.ofNat (p + k) :=
  (Int32.ofNat_add p k).symm

section
variable [MathLib TReal] {p : Nat} {d : TData} {ty : VMType}

/-- **A turn with `PUSH`.** -/
theorem step_push (h : s.Ready code (d.size + n)) (hip : s.ip = Int32.ofNat p)
    (hc : Sits code p (OpCode.push.code :: d.bytes ty)) (hd : d.isOperand = true)
    (hw : d.wf ty = true) :
    let t := VM.pushed { s with ip := Int32.ofNat (p + (1 + d.size)) } (d.bytes ty)
    step.run s = .ok .running t ∧ t.Ready code n := by
  intro t
  obtain ⟨hop, hb⟩ := sits_cons.1 hc
  have hle := hc.le (by simp)
  rw [List.length_cons, Data.length_bytes] at hle
  have h1 := h.sp_ge
  have h2 := h.sp_le
  have hl := h.length_lt
  have ep : s.ip.toInt = p := by rw [hip, Word.toInt_ofNat (by omega)]
  have e1 : s.ip + 1 = Int32.ofNat (p + 1) := by
    rw [hip]
    exact ofNat_add_ofNat p 1
  have e1i : (Int32.ofNat (p + 1)).toInt = ((p + 1 : Nat) : Int) := Word.toInt_ofNat (by omega)
  have hready : VM.Ready { s with ip := Int32.ofNat (p + (1 + d.size)) } code
      ((d.bytes ty).length + n) := by
    rw [Data.length_bytes]
    exact h.withIp _
  refine ⟨step_op h ep hop ?_ ?_, hready.pushed⟩
  · refine run_andGoOn ?_
    rw [e1]
    have hroom : VM.Room { s with ip := Int32.ofNat (p + 1) } (Int32.ofNat (p + 1)).toInt d.size :=
      ⟨by rw [e1i]; omega, by rw [e1i]; show _ ≤ s.memsize.toInt; push_cast; omega⟩
    have hat : At s.mem (Int32.ofNat (p + 1)).toInt (d.bytes ty) := by
      rw [e1i]
      exact h.sits hb
    have hp : VM.Pushable { s with ip := Int32.ofNat (p + 1) } d.size :=
      (h.withIp _).pushable.mono (Nat.le_add_right _ _)
    have hx := opPush_run hd hw hroom hat hp
    dsimp only at hx
    rw [ofNat_add_ofNat, Nat.add_assoc] at hx
    exact hx
  · show (Int32.ofNat (p + (1 + d.size))).toInt < s.memsize.toInt
    rw [Word.toInt_ofNat (by omega)]
    push_cast
    omega

/-- **A turn with `RDMEM`** of a datum in the code or the stack. -/
theorem step_rdmem (h : s.Ready code n) (hn : n + 5 = d.size + m) (hip : s.ip = Int32.ofNat p)
    (hop : code[p]? = some OpCode.rdmem.code) {a r : Int32} {rty : VMType} {ds : List Item}
    (hh : s.Holds ((.addr a, rty) :: ds)) (hs : s.sp.toInt + 13 ≤ s.memsize.toInt)
    (hr : VM.base { s.popped 5 with ip := Int32.ofNat (p + 1) } rty = some r)
    (hw : d.wf ty = true) (hroom : s.Room (a + r).toInt d.size)
    (hat : At (s.popped 5).mem (a + r).toInt (d.bytes ty)) :
    let t := VM.pushed { s.popped 5 with ip := Int32.ofNat (p + 1) } (d.bytes ty)
    step.run s = .ok .running t ∧ t.Ready code m := by
  intro t
  obtain ⟨hp, -⟩ := List.getElem?_eq_some_iff.1 hop
  have h1 := h.sp_ge
  have h2 := h.sp_le
  have hl := h.length_lt
  have ep : s.ip.toInt = p := by rw [hip, Word.toInt_ofNat (by omega)]
  have e1 : s.ip + 1 = Int32.ofNat (p + 1) := by
    rw [hip]
    exact ofNat_add_ofNat p 1
  have hready : VM.Ready { s.popped 5 with ip := Int32.ofNat (p + 1) } code (d.size + m) :=
    hn ▸ (h.popped (by push_cast; omega)).withIp _
  refine ⟨step_op h ep hop ?_ ?_, VM.Ready.pushed ?_⟩
  · refine run_andGoOn ?_
    rw [e1]
    have hh' : VM.Holds { s with ip := Int32.ofNat (p + 1) } ((.addr a, rty) :: ds) :=
      ⟨hh.items, hh.room, hh.contents⟩
    exact opRdmem_run hh' hr hw hroom hat (hready.pushable.mono (by omega))
  · show (Int32.ofNat (p + 1)).toInt < s.memsize.toInt
    rw [Word.toInt_ofNat (by omega)]
    push_cast
    omega
  · rw [Data.length_bytes]
    exact hready

/-- **An address relative to the instruction pointer and `RDMEM`** push the datum there. -/
theorem step_constRef {q : Nat} {off : Int32} (h : s.Ready code n) (hn : d.size ≤ n)
    (h5 : 5 ≤ d.size) (hip : s.ip = Int32.ofNat p)
    (hc : Sits code p (OpCode.push.code :: (VMType.addrIp.code :: Raw.enc off) ++
      [OpCode.rdmem.code]))
    (hq : off + Int32.ofNat (p + 7) = Int32.ofNat q) (hw : d.wf ty = true)
    (hd : Sits code q (d.bytes ty)) :
    (step >>= fun _ => step).run s =
      .ok .running (VM.pushed { s with ip := Int32.ofNat (p + 7) } (d.bytes ty)) := by
  obtain ⟨hc1, hc2⟩ := sits_append.1 hc
  rw [List.length_cons, List.length_cons, Raw.length_enc] at hc2
  have hop : code[p + 6]? = some OpCode.rdmem.code := (sits_cons.1 hc2).1
  have hle := hd.le (by simp [Data.bytes])
  rw [Data.length_bytes] at hle
  have h1 := h.sp_ge
  have h2 := h.sp_le
  have hl := h.length_lt
  have hb : ((Data.addr off : TData).bytes .addrIp) = VMType.addrIp.code :: Raw.enc off := rfl
  have hn5 : n = (Data.addr off : TData).size + (n - 5) := by
    show n = 5 + (n - 5)
    omega
  rw [← hb] at hc1
  obtain ⟨hs1, hr1⟩ := step_push (hn5 ▸ h) hip hc1 rfl rfl
  generalize ht : VM.pushed { s with ip := Int32.ofNat (p + (1 + (Data.addr off : TData).size)) }
    ((Data.addr off : TData).bytes .addrIp) = t at hs1 hr1
  have hip1 : t.ip = Int32.ofNat (p + 6) := by
    rw [← ht]
    rfl
  have hsp1 : t.sp.toInt = s.sp.toInt - 5 := by
    rw [← ht]
    exact VM.pushed_sp (h.pushable.1.mono (by rw [Data.length_bytes]; show 5 ≤ n; omega))
  have hm1 : t.memsize = s.memsize := by
    rw [← ht]
    rfl
  have hh : t.Holds [(.addr off, .addrIp)] := by
    rw [← ht]
    have hi : Items [(.addr off, .addrIp)] := by
      intro x hx
      rw [List.mem_singleton.1 hx]
      rfl
    have hf : s.Fits (sizes [(.addr off, .addrIp)]) := h.pushable.1.mono (by show 5 ≤ n; omega)
    exact VM.pushed_holds (s := { s with ip := _ }) hi hf
  have hready : (t.popped 5).Ready code (n - 5 + 5) := hr1.popped (by rw [hm1]; push_cast; omega)
  have hqi : (Int32.ofNat q).toInt = q := Word.toInt_ofNat (by omega)
  have hroom : t.Room (off + Int32.ofNat (p + 7)).toInt d.size := by
    rw [hq, hqi, VM.Room, hm1]
    omega
  have hat : At (t.popped 5).mem (off + Int32.ofNat (p + 7)).toInt (d.bytes ty) := by
    rw [hq, hqi]
    exact hready.sits hd
  obtain ⟨hs2, -⟩ := step_rdmem hr1 (show n - 5 + 5 = d.size + (n - d.size) by omega) hip1 hop hh
    (by rw [hsp1, hm1]; omega) rfl hw hroom hat
  have hle : ((Data.addr off : TData).bytes .addrIp).length ≤ (d.bytes ty).length := by
    rw [Data.length_bytes, Data.length_bytes]
    exact h5
  have e := VM.pushed_popped_pushed (s := s) hle
    (by rw [Data.length_bytes]; exact h.pushable.1.mono hn)
  rw [bind_ok hs1, hs2, ← ht]
  show EStateM.Result.ok Status.running ({ ((s.pushed ((Data.addr off : TData).bytes .addrIp)).popped
    5).pushed (d.bytes ty) with ip := Int32.ofNat (p + 7) } : VM) = _
  rw [Data.length_bytes] at e
  rw [show 5 = (Data.addr off : TData).size from rfl, e]
  rfl

end

end

end MuF
