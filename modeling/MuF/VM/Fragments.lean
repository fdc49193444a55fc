import MuF.VM.Arith
import MuF.VM.Steps
import Mathlib.Logic.Relation

/-!
# Runs of fragments of loaded code

* `VM.Turns`: turns of the main loop;
* `VM.Here`: the machine is at a place of the code, with data on the stack below an address `base`;
* `SameAbove`: everything from `base` on stays;
* `Computes`: a fragment of the code leaves a datum on the stack;
* `VM.Here.push`, `VM.Here.binary`, `VM.Here.cast`, `VM.Here.wrmem`: fragments of one instruction.
-/

set_option linter.unusedVariables false

namespace MuF

open Bytes Exec

/-! ## what stays -/

/-- the memory from `base` on and the registers other than `ip` and `sp` stay -/
structure SameAbove (base : Int) (s t : VM) : Prop where
  rest : t = { s with ip := t.ip, sp := t.sp, mem := t.mem }
  mem : ∀ a, base ≤ a → t.mem a = s.mem a

/-- what a fragment relies on does not depend on the stack below `base` -/
def Stable (base : Int) (E : VM → Prop) : Prop := ∀ s t, SameAbove base s t → E s → E t

section
variable {s t u : VM} {base : Int} {code : List UInt8} {p : Nat} {ds : List Item} {d : TData}
  {ty : VMType}

theorem SameAbove.refl (base : Int) (s : VM) : SameAbove base s s := ⟨rfl, fun _ _ => rfl⟩

theorem SameAbove.trans (h : SameAbove base s t) (h' : SameAbove base t u) :
    SameAbove base s u := by
  refine ⟨?_, fun a ha => (h'.mem a ha).trans (h.mem a ha)⟩
  rw [h'.rest, h.rest]

theorem SameAbove.withIp (h : SameAbove base s t) (ip : Int32) :
    SameAbove base s { t with ip := ip } := by
  refine ⟨?_, h.mem⟩
  rw [h.rest]

theorem SameAbove.pushed {bs : List UInt8} (h : SameAbove base s t) (hb : t.sp.toInt ≤ base) :
    SameAbove base s (t.pushed bs) := by
  refine ⟨?_, fun a ha => (write_outside _ _ _ _ (Or.inr (by omega))).trans (h.mem a ha)⟩
  rw [h.rest]
  rfl

theorem SameAbove.popped {n : Nat} (h : SameAbove base s t) (hb : t.sp.toInt + n ≤ base) :
    SameAbove base s (t.popped n) := by
  refine ⟨?_, fun a ha => (t.cleared_outside _ _ _ (Or.inr (by omega))).trans (h.mem a ha)⟩
  rw [h.rest]
  rfl

/-! ## data on the stack -/

theorem VM.Holds.left {es : List Item} (h : s.Holds (ds ++ es)) : s.Holds ds := by
  have hr := h.room
  have hc := h.contents
  rw [sizes_append] at hr
  rw [encs_append] at hc
  exact ⟨fun x hx => h.items x (List.mem_append_left _ hx), hr.left, (at_append.1 hc).1⟩

theorem VM.Holds.pushed (h : s.Holds ds) (hw : d.wf ty = true) (hf : s.Fits d.size) :
    (s.pushed (d.bytes ty)).Holds ((d, ty) :: ds) := by
  have hl : (d.bytes ty).length = d.size := Data.length_bytes _ _
  have hsp := VM.pushed_sp (s := s) (b := d.bytes ty) (by rw [hl]; exact hf)
  rw [hl] at hsp
  refine ⟨h.items.cons hw, ?_, ?_⟩
  · have h1 := h.room
    have h2 := hf.1
    rw [hsp, sizes_cons]
    exact ⟨by omega, by have := h1.2; push_cast; show _ ≤ s.memsize.toInt; omega⟩
  · rw [hsp, encs_cons]
    refine at_append.2 ⟨?_, ?_⟩
    · rw [← hl]
      exact at_write_self _ _ _
    · refine (at_write_outside ?_).2 ?_
      · rw [hl]
        omega
      · rw [hl, show s.sp.toInt - d.size + d.size = s.sp.toInt by omega]
        exact h.contents

/-- the machine is at `p` in the code, with the data `ds` on the stack below `base` -/
structure VM.Here (s : VM) (code : List UInt8) (base : Int) (p : Nat) (ds : List Item) : Prop where
  ready : s.Ready code 0
  ip : s.ip = Int32.ofNat p
  holds : s.Holds ds
  sp : s.sp.toInt + sizes ds = base
  top : base + 8 ≤ s.memsize.toInt

theorem VM.Here.ready' {n : Nat} (h : s.Here code base p ds)
    (hn : (code.length : Int) + n + sizes ds ≤ base) : s.Ready code n := by
  have e := h.sp
  exact { h.ready with sp_ge := by omega }

/-- the data are above the code -/
theorem VM.Here.room (h : s.Here code base p ds) : (code.length : Int) + sizes ds ≤ base := by
  have h1 := h.ready.sp_ge
  have h2 := h.sp
  omega

theorem VM.Here.withIp (h : s.Here code base p ds) (q : Nat) :
    VM.Here { s with ip := Int32.ofNat q } code base q ds :=
  ⟨h.ready.withIp _, rfl, ⟨h.holds.items, h.holds.room, h.holds.contents⟩, h.sp, h.top⟩

/-- a datum is pushed -/
theorem VM.Here.pushed (h : s.Here code base p ds) (hw : d.wf ty = true)
    (hroom : (code.length : Int) + d.size + sizes ds ≤ base) :
    (s.pushed (d.bytes ty)).Here code base p ((d, ty) :: ds) ∧
      SameAbove base s (s.pushed (d.bytes ty)) := by
  have hr : s.Ready code d.size := h.ready' hroom
  have hsp := h.sp
  have hl : (d.bytes ty).length = d.size := Data.length_bytes _ _
  have hf : s.Fits d.size := hr.pushable.1
  have hsp' := VM.pushed_sp (s := s) (b := d.bytes ty) (by rw [hl]; exact hf)
  rw [hl] at hsp'
  refine ⟨⟨VM.Ready.pushed ?_, h.ip, h.holds.pushed hw hf, ?_, h.top⟩,
    (SameAbove.refl base s).pushed (by omega)⟩
  · rw [hl]
    exact hr
  · rw [hsp', sizes_cons]
    push_cast
    omega

/-- data are popped -/
theorem VM.Here.popped {xs : List Item} (h : s.Here code base p (xs ++ ds)) :
    (s.popped (sizes xs)).Here code base p ds ∧ SameAbove base s (s.popped (sizes xs)) := by
  have hsp := h.sp
  have htop := h.top
  have hr := h.ready
  have h1 := hr.sp_ge
  rw [sizes_append] at hsp
  push_cast at hsp
  have hpop : (s.popped (sizes xs)).sp.toInt = s.sp.toInt + (sizes xs : Nat) :=
    VM.popped_sp ⟨by omega, by omega⟩
  have hready := hr.popped (k := sizes xs) (by omega)
  refine ⟨⟨hready.mono (Nat.zero_le _), h.ip, h.holds.drop, ?_, htop⟩,
    (SameAbove.refl base s).popped (by omega)⟩
  rw [hpop]
  omega

section
variable [MathLib TReal]

/-- turns of the main loop -/
def VM.Turns (s t : VM) : Prop :=
  Relation.ReflTransGen (fun s t : VM => step.run s = .ok .running t) s t

theorem VM.Turns.single (h : step.run s = .ok .running t) : s.Turns t :=
  Relation.ReflTransGen.single h

/-- from everywhere at `b` with `E` the machine comes to `m` with `E'` and one more datum on the
stack, where it needs `need` bytes -/
def Computes (base : Int) (E E' : VM → Prop) (code : List UInt8) (b m : Nat) (x : Item)
    (need : Nat) : Prop :=
  ∀ s ds, (code.length : Int) + need + sizes ds ≤ base → s.Here code base b ds → E s →
    ∃ t, s.Turns t ∧ t.Here code base m (x :: ds) ∧ E' t

/-- **A turn** with the instruction at the place of the machine. -/
theorem VM.Here.turn {op : OpCode} {q : Nat} {es : List Item} (h : s.Here code base p ds)
    (hop : code[p]? = some op.code)
    (hx : (execOp (some op)).run { s with ip := Int32.ofNat (p + 1) } = .ok .running t)
    (ht : t.Here code base q es) (hq : q ≤ code.length) : step.run s = .ok .running t := by
  obtain ⟨hp, -⟩ := List.getElem?_eq_some_iff.1 hop
  have hr := h.ready
  have hlen := hr.length_lt
  have h1 := ht.ready.sp_ge
  have h2 := ht.ready.sp_le
  have ep : s.ip.toInt = p := by rw [h.ip, Word.toInt_ofNat (by omega)]
  refine step_op hr ep hop ?_ ?_
  · rw [h.ip]
    exact (ofNat_add_ofNat p 1) ▸ hx
  · rw [ht.ip, Word.toInt_ofNat (by omega)]
    omega

omit [MathLib TReal] in
/-- the place behind an instruction is in the code or at its end -/
theorem lt_length {op : OpCode} (hop : code[p]? = some op.code) : p + 1 ≤ code.length :=
  (List.getElem?_eq_some_iff.1 hop).1

/-- a turn that stops the machine -/
theorem VM.Here.stop {op : OpCode} {e : Err} (h : s.Here code base p ds)
    (hop : code[p]? = some op.code)
    (hx : (execOp (some op)).run { s with ip := Int32.ofNat (p + 1) } = .error e t) :
    step.run s = .error e t := by
  obtain ⟨hp, -⟩ := List.getElem?_eq_some_iff.1 hop
  have hr := h.ready
  have hlen := hr.length_lt
  have ep : s.ip.toInt = p := by rw [h.ip, Word.toInt_ofNat (by omega)]
  have e1 : s.ip + 1 = Int32.ofNat (p + 1) := by
    rw [h.ip]
    exact ofNat_add_ofNat p 1
  rw [step, bind_ok (hr.checkPointerBounds ep hp), bind_ok (hr.fetch ep hop), e1, bind_error hx]

/-- **A fragment with `PUSH`.** -/
theorem VM.Here.push (h : s.Here code base p ds)
    (hc : Sits code p (OpCode.push.code :: d.bytes ty)) (hd : d.isOperand = true)
    (hw : d.wf ty = true) (hroom : (code.length : Int) + d.size + sizes ds ≤ base) :
    ∃ t, step.run s = .ok .running t ∧ t.Here code base (p + (1 + d.size)) ((d, ty) :: ds) ∧
      SameAbove base s t := by
  have hr : s.Ready code (d.size + 0) := h.ready' (by push_cast; omega)
  obtain ⟨hh, hsame⟩ := (h.withIp (p + (1 + d.size))).pushed hw hroom
  exact ⟨_, (step_push hr h.ip hc hd hw).1, hh, ((SameAbove.refl base s).withIp _).trans hsame⟩

omit [MathLib TReal] in
/-- an instruction that replaces data on the stack by one -/
theorem VM.Here.replaced {xs : List Item} (h : s.Here code base p (xs ++ ds))
    (hw : d.wf .unknown = true) (hroom : (code.length : Int) + d.size + sizes ds ≤ base) :
    let u := VM.popped { s with ip := Int32.ofNat (p + 1) } (sizes xs)
    u.Pushable d.size ∧
      (u.pushed (d.bytes .unknown)).Here code base (p + 1) ((d, .unknown) :: ds) ∧
      SameAbove base s (u.pushed (d.bytes .unknown)) := by
  intro u
  obtain ⟨h1, s1⟩ := (h.withIp (p + 1)).popped
  obtain ⟨h2, s2⟩ := h1.pushed hw hroom
  exact ⟨(h1.ready' hroom).pushable, h2, (((SameAbove.refl base s).withIp _).trans s1).trans s2⟩

/-- **A fragment with an operator on two operands.** -/
theorem VM.Here.binary {val1 val2 : TData} {ty1 ty2 : VMType} {f : TData → TData → Res TData}
    (op : OpCode) (h : s.Here code base p ((val2, ty2) :: (val1, ty1) :: ds))
    (hop : code[p]? = some op.code) (hx : execOp (some op) = andGoOn (opBinary f))
    (hd : f val1 val2 = .ok d) (hw : d.wf .unknown = true)
    (hroom : (code.length : Int) + d.size + sizes ds ≤ base) :
    ∃ t, step.run s = .ok .running t ∧ t.Here code base (p + 1) ((d, .unknown) :: ds) ∧
      SameAbove base s t := by
  have h' : s.Here code base p ([(val2, ty2), (val1, ty1)] ++ ds) := h
  obtain ⟨hp, hh, hsame⟩ := h'.replaced hw hroom
  have hrun := opBinary_ok (h'.withIp (p + 1)).holds.left hp hd hw
  refine ⟨_, h.turn hop ?_ hh (lt_length hop), hh, hsame⟩
  rw [hx]
  exact run_andGoOn hrun

/-- **A cast** of the datum on top of the stack. -/
theorem VM.Here.cast {tgt : VMType} {x y : TData} {ty' : VMType} (op : OpCode)
    (h : s.Here code base p ((x, ty) :: ds)) (hop : code[p]? = some op.code)
    (hx : execOp (some op) = andGoOn (opCast tgt))
    (hy : castData s.eps s.prec tgt x = .ok none ∧ y = x ∧ ty' = ty ∨
      castData s.eps s.prec tgt x = .ok (some y) ∧ ty' = .unknown)
    (hw : y.wf .unknown = true) (hroom : (code.length : Int) + y.size + sizes ds ≤ base) :
    ∃ t, step.run s = .ok .running t ∧ t.Here code base (p + 1) ((y, ty') :: ds) ∧
      SameAbove base s t := by
  have h1 := h.withIp (p + 1)
  have htop : topData.run { s with ip := Int32.ofNat (p + 1) } = .ok x
      { s with ip := Int32.ofNat (p + 1) } :=
    topData_run h1.holds.items.head h1.holds.room.left (at_append.1 h1.holds.contents).1
  rcases hy with ⟨hc, rfl, rfl⟩ | ⟨hc, rfl⟩
  · refine ⟨_, h.turn hop ?_ h1 (lt_length hop), h1, (SameAbove.refl base s).withIp _⟩
    rw [hx]
    refine run_andGoOn ?_
    rw [opCast, bind_ok htop, run_get_bind]
    dsimp only
    rw [hc]
    rfl
  · have h' : s.Here code base p ([(x, ty)] ++ ds) := h
    obtain ⟨hp, hh, hsame⟩ := h'.replaced hw hroom
    refine ⟨_, h.turn hop ?_ hh (lt_length hop), hh, hsame⟩
    rw [hx]
    refine run_andGoOn ?_
    have hpop : popData.run { s with ip := Int32.ofNat (p + 1) } =
        .ok x (VM.popped { s with ip := Int32.ofNat (p + 1) } x.size) := h1.holds.head
    rw [opCast, bind_ok htop, run_get_bind]
    dsimp only
    rw [hc]
    show (popData >>= fun _ => pushVal y).run _ = _
    rw [bind_ok hpop]
    exact push_run y .unknown true hw hp

/-- **A turn with `WRMEM`** to an address above the stack. -/
theorem VM.Here.wrmem {a off r : Int32} {rty ty' : VMType}
    (h : s.Here code base p ((.addr off, rty) :: (d, ty') :: ds))
    (hop : code[p]? = some OpCode.wrmem.code) (hty : rty = .addrBp ∨ rty = .addrGbp)
    (hb : s.base rty = some r) (ha : off + r = a) (hw : d.wf .unknown = true)
    (hroom : s.Room a.toInt d.size) (habove : base ≤ a.toInt) :
    ∃ t, step.run s = .ok .running t ∧ t.Here code base (p + 1) ds ∧
      t = { s with ip := t.ip, sp := t.sp, mem := t.mem } ∧
      At t.mem a.toInt (d.bytes .unknown) ∧
      ∀ i, base ≤ i → i < a.toInt ∨ a.toInt + d.size ≤ i → t.mem i = s.mem i := by
  have h' : s.Here code base p ([(.addr off, rty), (d, ty')] ++ ds) := h
  have h1 := h'.withIp (p + 1)
  obtain ⟨hh, hsame⟩ := h1.popped
  have hsz : sizes [((.addr off : TData), rty), (d, ty')] = 5 + d.size := rfl
  rw [hsz] at hh hsame
  generalize hu : VM.popped { s with ip := Int32.ofNat (p + 1) } (5 + d.size) = u at hh hsame
  have hub : u.base rty = some r := by
    rw [← hu]
    rcases hty with rfl | rfl
    · exact hb
    · exact hb
  have hadr : popAddress.run { s with ip := Int32.ofNat (p + 1) } =
      .ok a (VM.popped { s with ip := Int32.ofNat (p + 1) } 5) := by
    rw [← ha]
    refine popAddress_run h1.holds ?_
    rcases hty with rfl | rfl
    · exact hb
    · exact hb
  have hval : popData.run (VM.popped { s with ip := Int32.ofNat (p + 1) } 5) = .ok d u := by
    have hr : VM.Room { s with ip := Int32.ofNat (p + 1) } s.sp.toInt (5 + d.size) :=
      h1.holds.left.room
    rw [← hu, ← VM.popped_popped hr]
    exact h1.holds.tail.head
  have hur : u.Room a.toInt d.size := by
    rw [hsame.rest]
    exact hroom
  have hlen : (d.bytes .unknown).length = d.size := Data.length_bytes _ _
  have hsp := hh.sp
  have hgo : (execOp (some .wrmem)).run { s with ip := Int32.ofNat (p + 1) } =
      .ok .running { u with mem := write u.mem a.toInt (d.bytes .unknown) } := by
    refine run_andGoOn ?_
    rw [opWrmem, bind_ok hadr, bind_ok hval]
    exact writeMemData_run hw hur
  have ht : VM.Here { u with mem := write u.mem a.toInt (d.bytes .unknown) } code base (p + 1) ds := by
    have hr := hh.ready
    have h2 := hr.sp_ge
    refine ⟨⟨(at_write_outside ?_).2 hr.mem, hr.range, hr.quiet, hr.sp_ge, hr.sp_le, hr.bp, hr.gbp⟩,
      hh.ip, ⟨hh.holds.items, hh.holds.room, (at_write_outside ?_).2 hh.holds.contents⟩, hh.sp, hh.top⟩
    · omega
    · rw [length_encs]
      right
      show u.sp.toInt + sizes ds ≤ a.toInt
      omega
  refine ⟨_, h.turn hop hgo ht (lt_length hop), ht, ?_, at_write_self _ _ _, fun i hi hout => ?_⟩
  · show ({ u with mem := write u.mem a.toInt (d.bytes .unknown) } : VM) = _
    rw [hsame.rest]
  · have := hsame.mem i hi
    show write u.mem a.toInt (d.bytes .unknown) i = s.mem i
    rw [write_outside _ _ _ _ (by rw [hlen]; exact hout)]
    exact this

end

end

end MuF
