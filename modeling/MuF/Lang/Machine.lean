import MuF.Lang.Programs
import MuF.VM.Branches
import MuF.VM.Arith

/-!
# Values on the machine

* `VarSlot`, `InSlots`: where the variables are, and that the machine has their values there;
* `VM.Turn`: the turns of the main loop, as the steps of a machine;
* `VM.Here.nop`, `VM.Here.rdmem`, `VM.Here.usub`, `VM.Here.logic`: fragments of one instruction;
* `VM.Here.arith`, `VM.Here.comp`: the operations on integers give what the language means.
-/

set_option linter.unusedVariables false

namespace MuF

open Bytes Exec

/-! ## variables in the memory -/

/-- where a variable is: its type, the frame, and the address in the frame -/
structure VarSlot where
  ty : ValTy
  isGlobal : Bool
  addr : Int32
  deriving DecidableEq, Repr

def Val.data : Val → TData
  | .int i => .int i
  | .bool b => .bool (if b then 1 else 0)

/-- a value on the stack -/
def Val.item (v : Val) : Item := (v.data, .unknown)

def ValTy.size : ValTy → Nat
  | .int => 9
  | .bool => 2

theorem Val.size_data (v : Val) : v.data.size = v.ty.size := by
  cases v <;> rfl

theorem Val.size_le (v : Val) : v.data.size ≤ 9 := by
  rw [Val.size_data]
  cases v.ty <;> decide

theorem Val.wf_data (v : Val) : v.data.wf .unknown = true := by
  cases v <;> rfl

theorem sizes_item (v : Val) (ds : List Item) : sizes (v.item :: ds) = v.data.size + sizes ds := rfl

def VarSlot.reg (slot : VarSlot) : VMType := if slot.isGlobal then .addrGbp else .addrBp

/-- the register that the address of a variable is relative to -/
def VM.frame (s : VM) (slot : VarSlot) : Int32 := if slot.isGlobal then s.gbp else s.bp

def VM.slotAddr (s : VM) (slot : VarSlot) : Int32 := slot.addr + s.frame slot

theorem VM.base_reg (s : VM) (slot : VarSlot) : s.base slot.reg = some (s.frame slot) := by
  unfold VarSlot.reg VM.frame
  cases slot.isGlobal <;> rfl

/-- places of variables -/
abbrev VarSlots := Str → Option VarSlot

/-- the types of the variables -/
def VarSlots.types (F : VarSlots) (x : Str) : Option ValTy := (F x).map VarSlot.ty

/-- the slots are above the stack and apart from each other -/
structure VM.Laid (s : VM) (F : VarSlots) (base : Int) : Prop where
  above : ∀ x slot, F x = some slot → base ≤ (s.slotAddr slot).toInt
  room : ∀ x slot, F x = some slot → s.Room (s.slotAddr slot).toInt slot.ty.size
  apart : ∀ x y slot slot', x ≠ y → F x = some slot → F y = some slot' →
    (s.slotAddr slot).toInt + slot.ty.size ≤ (s.slotAddr slot').toInt ∨
      (s.slotAddr slot').toInt + slot'.ty.size ≤ (s.slotAddr slot).toInt

/-- the slots have the values of the variables -/
structure VM.InSlots (s : VM) (F : VarSlots) (base : Int) (σ : Store) : Prop extends s.Laid F base where
  typed : σ.Typed F.types
  value : ∀ x slot v, F x = some slot → σ x = some v →
    At s.mem (s.slotAddr slot).toInt (v.data.bytes .unknown)

section
variable {s t : VM} {base : Int} {F : VarSlots} {σ : Store} {x : Str} {v : Val}

theorem SameAbove.slotAddr (h : SameAbove base s t) (slot : VarSlot) : t.slotAddr slot = s.slotAddr slot := by
  rw [h.rest]
  rfl

theorem SameAbove.laid (h : SameAbove base s t) (hl : s.Laid F base) : t.Laid F base := by
  have hm : t.memsize = s.memsize := by rw [h.rest]
  have hr (slot : VarSlot) : s.Room (s.slotAddr slot).toInt slot.ty.size →
      t.Room (t.slotAddr slot).toInt slot.ty.size := by
    intro hroom
    rw [h.slotAddr, VM.Room, hm]
    exact hroom
  refine ⟨fun x slot hx => ?_, fun x slot hx => hr slot (hl.room x slot hx),
    fun x y slot slot' hxy hx hy => ?_⟩
  · rw [h.slotAddr]
    exact hl.above x slot hx
  · rw [h.slotAddr, h.slotAddr]
    exact hl.apart x y slot slot' hxy hx hy

/-- the variables are above what changes on the stack -/
theorem SameAbove.inSlots (h : SameAbove base s t) (hi : s.InSlots F base σ) : t.InSlots F base σ := by
  refine ⟨h.laid hi.toLaid, hi.typed, fun x slot v hx hv => ?_⟩
  rw [h.slotAddr]
  have habove := hi.above x slot hx
  exact (hi.value x slot v hx hv).congr fun i h1 h2 => h.mem i (by omega)

theorem VM.InSlots.slot (hi : s.InSlots F base σ) (hv : σ x = some v) :
    ∃ slot, F x = some slot ∧ slot.ty = v.ty := by
  obtain ⟨slot, hx, ht⟩ := Option.map_eq_some_iff.1 (hi.typed x v hv)
  exact ⟨slot, hx, ht⟩

/-- **A variable is written.** -/
theorem VM.InSlots.written {slot : VarSlot} (hi : s.InSlots F base σ) (hx : F x = some slot) (hv : slot.ty = v.ty)
    (hreg : t = { s with ip := t.ip, sp := t.sp, mem := t.mem })
    (hat : At t.mem (s.slotAddr slot).toInt (v.data.bytes .unknown))
    (hrest : ∀ i, base ≤ i → i < (s.slotAddr slot).toInt ∨ (s.slotAddr slot).toInt + v.data.size ≤ i →
      t.mem i = s.mem i) : t.InSlots F base (σ.set x v) := by
  have hadr (slot : VarSlot) : t.slotAddr slot = s.slotAddr slot := by rw [hreg]; rfl
  have hm : t.memsize = s.memsize := by rw [hreg]
  refine ⟨⟨fun y slot' hy => ?_, fun y slot' hy => ?_, fun y z slot' slot'' hyz hy hz => ?_⟩,
    hi.typed.set ?_, fun y slot' w hy hw => ?_⟩
  · rw [hadr]
    exact hi.above y slot' hy
  · rw [hadr, VM.Room, hm]
    exact hi.room y slot' hy
  · rw [hadr, hadr]
    exact hi.apart y z slot' slot'' hyz hy hz
  · rw [VarSlots.types, hx, ← hv]
    rfl
  · rw [hadr]
    unfold Store.set at hw
    by_cases e : y = x
    · subst e
      rw [if_pos rfl] at hw
      cases hw
      rw [hx] at hy
      cases hy
      exact hat
    · rw [if_neg e] at hw
      have hold := hi.value y slot' w hy hw
      have hab := hi.above y slot' hy
      have hap := hi.apart y x slot' slot e hy hx
      have hs := Val.size_data v
      obtain ⟨slot1, h1, hty⟩ := hi.slot hw
      rw [hy] at h1
      cases h1
      have hs' := Val.size_data w
      have hl : (w.data.bytes .unknown).length = w.data.size := Data.length_bytes _ _
      refine hold.congr fun i h2 h3 => ?_
      rw [hl, hs', ← hty] at h3
      rw [hs, ← hv] at hrest
      exact hrest i (by omega) (by omega)

end

/-! ## turns -/

section
variable [MathLib TReal] {s t : VM} {base : Int} {code : List UInt8} {p : Nat} {ds : List Item}
  {d : TData} {ty : VMType}

/-- a turn of the main loop -/
def VM.Turn (s t : VM) : Prop := step.run s = .ok .running t

omit [MathLib TReal] in
/-- there is room for a datum in place of one that is not smaller -/
theorem room_replaced {n : Nat} {e : Item} (h : s.Here code base p (e :: ds)) (hn : n ≤ e.1.size) :
    (code.length : Int) + n + sizes ds ≤ base := by
  have hr := h.room
  rw [sizes_cons] at hr
  push_cast at hr
  omega

/-- **A placeholder.** -/
theorem VM.Here.nop (h : s.Here code base p ds) (hop : code[p]? = some OpCode.nop.code) :
    ∃ t, VM.Turn s t ∧ t.Here code base (p + 1) ds ∧ SameAbove base s t :=
  ⟨_, h.turn hop rfl (h.withIp (p + 1)) (lt_length hop), h.withIp (p + 1),
    (SameAbove.refl base s).withIp _⟩

/-- **A turn with `RDMEM`** of a datum above the stack. -/
theorem VM.Here.rdmem {off r : Int32} {rty : VMType} (h : s.Here code base p ((.addr off, rty) :: ds))
    (hop : code[p]? = some OpCode.rdmem.code) (hty : rty = .addrBp ∨ rty = .addrGbp)
    (hb : s.base rty = some r) (hw : d.wf ty = true) (hroom : s.Room (off + r).toInt d.size)
    (hat : At s.mem (off + r).toInt (d.bytes ty)) (habove : base ≤ (off + r).toInt)
    (hfree : (code.length : Int) + d.size + sizes ds ≤ base) :
    ∃ t, VM.Turn s t ∧ t.Here code base (p + 1) ((d, ty) :: ds) ∧ SameAbove base s t := by
  have h' : s.Here code base p ([((.addr off : TData), rty)] ++ ds) := h
  have hsz : sizes [((.addr off : TData), rty)] = 5 := rfl
  obtain ⟨hh, hsame⟩ := (h'.withIp (p + 1)).popped
  rw [hsz] at hh hsame
  obtain ⟨hd, hsame'⟩ := hh.pushed hw hfree
  have hr : VM.base { s.popped 5 with ip := Int32.ofNat (p + 1) } rty = some r := by
    rcases hty with rfl | rfl
    · exact hb
    · exact hb
  have hat' : At (VM.popped { s with ip := Int32.ofNat (p + 1) } 5).mem (off + r).toInt
      (d.bytes ty) := hat.congr fun i h1 h2 => hsame.mem i (by omega)
  have hroom' : VM.Room (VM.popped { s with ip := Int32.ofNat (p + 1) } 5) (off + r).toInt d.size := by
    rw [hsame.rest]
    exact hroom
  have hgo : (execOp (some .rdmem)).run { s with ip := Int32.ofNat (p + 1) } = .ok .running
      (VM.pushed (VM.popped { s with ip := Int32.ofNat (p + 1) } 5) (d.bytes ty)) := by
    refine run_andGoOn ?_
    exact opRdmem_run (h.withIp (p + 1)).holds hr hw hroom' hat' (hh.ready' hfree).pushable
  exact ⟨_, h.turn hop hgo hd (lt_length hop), hd,
    (((SameAbove.refl base s).withIp _).trans hsame).trans hsame'⟩

/-- **A turn with `USUB`** of an integer. -/
theorem VM.Here.usub {i : Int64} (h : s.Here code base p ((Val.int i).item :: ds))
    (hop : code[p]? = some OpCode.usub.code) :
    ∃ t, VM.Turn s t ∧ t.Here code base (p + 1) ((Val.int (-i)).item :: ds) ∧ SameAbove base s t := by
  have h' : s.Here code base p ([(Val.int i).item] ++ ds) := h
  obtain ⟨hp, hh, hsame⟩ := h'.replaced (d := .int (-i)) rfl (room_replaced h (Nat.le_refl 9))
  refine ⟨_, h.turn hop ?_ hh (lt_length hop), hh, hsame⟩
  refine run_andGoOn ?_
  have hpop : popData.run { s with ip := Int32.ofNat (p + 1) } =
      .ok (.int i) (VM.popped { s with ip := Int32.ofNat (p + 1) } 9) := (h.withIp (p + 1)).holds.head
  rw [opUsub, bind_ok hpop]
  exact push_run (.int (-i)) .unknown true rfl hp

/-- **A turn with a logical operation.** -/
theorem VM.Here.logic {a b : Bool} (op : OpCode) (c : LogicOp)
    (h : s.Here code base p ((Val.bool b).item :: (Val.bool a).item :: ds))
    (hop : code[p]? = some op.code) (hx : execOp (some op) = andGoOn (opLogical c)) :
    ∃ t, VM.Turn s t ∧ t.Here code base (p + 1) ((Val.bool (logical c a b)).item :: ds) ∧
      SameAbove base s t := by
  have h' : s.Here code base p ([(Val.bool b).item, (Val.bool a).item] ++ ds) := h
  have hr := h.room
  have hsz : sizes ((Val.bool b).item :: (Val.bool a).item :: ds) = 2 + (2 + sizes ds) := rfl
  rw [hsz] at hr
  obtain ⟨hp, hh, hsame⟩ := h'.replaced (d := (Val.bool (logical c a b)).data) (Val.wf_data _)
    (by rw [Val.size_data, show (Val.bool (logical c a b)).ty.size = 2 from rfl]
        push_cast at hr ⊢
        omega)
  refine ⟨_, h.turn hop ?_ hh (lt_length hop), hh, hsame⟩
  rw [hx]
  refine run_andGoOn ?_
  have h1 := (h.withIp (p + 1)).holds
  have hpop : popBool.run { s with ip := Int32.ofNat (p + 1) } =
      .ok b (VM.popped { s with ip := Int32.ofNat (p + 1) } 2) := popBool_run h1 (Or.inl rfl)
  have hpop' : popBool.run (VM.popped { s with ip := Int32.ofNat (p + 1) } 2) =
      .ok a (VM.popped (VM.popped { s with ip := Int32.ofNat (p + 1) } 2) 2) :=
    popBool_run h1.tail (Or.inl rfl)
  have hroom : VM.Room { s with ip := Int32.ofNat (p + 1) } s.sp.toInt (2 + 2) := by
    have := (h'.withIp (p + 1)).holds.left.room
    exact this
  rw [opLogical, bind_ok hpop, bind_ok hpop', VM.popped_popped hroom]
  exact push_run _ .unknown true (Val.wf_data (.bool (logical c a b))) hp

omit [MathLib TReal] in
/-- the machine computes what the operations mean -/
theorem intArith_value {op : ArithOp} {i j k : Int64} (h : intValue op i j = some k) :
    intArith op i j = .ok k := by
  cases op with
  | add => cases h; rfl
  | sub => cases h; rfl
  | mul => cases h; rfl
  | div | mod =>
    unfold intValue at h
    unfold intArith
    dsimp only at h ⊢
    split at h
    · cases h
    · next hn =>
      cases h
      rw [if_neg hn]
  | pow =>
    unfold intValue at h
    unfold intArith
    dsimp only at h ⊢
    split at h
    · cases h
    · next hn =>
      cases h
      rw [intPower_eq (by rwa [Int64.lt_iff_toInt_lt, not_lt] at hn)]

/-- **A turn with an operation on integers.** -/
theorem VM.Here.arith {i j k : Int64} (op : ArithOp) (c : OpCode)
    (h : s.Here code base p ((Val.int j).item :: (Val.int i).item :: ds))
    (hop : code[p]? = some c.code) (hx : execOp (some c) = andGoOn (opBinary (arithmetic op)))
    (hv : intValue op i j = some k) :
    ∃ t, VM.Turn s t ∧ t.Here code base (p + 1) ((Val.int k).item :: ds) ∧ SameAbove base s t := by
  have hd : arithmetic op (.int i : TData) (.int j) = .ok (.int k) := by
    rw [arithmetic_int, intArith_value hv]
    rfl
  have hr := room_replaced h (n := 9) (Nat.le_refl 9)
  have hsz : sizes ((Val.int i).item :: ds) = 9 + sizes ds := rfl
  rw [hsz] at hr
  exact VM.Here.binary c h hop hx hd rfl (by
    show (code.length : Int) + (9 : Nat) + sizes ds ≤ base
    push_cast at hr ⊢
    omega)

/-- comparisons in the tree and on the machine -/
def CompNodeOp.compOp : CompNodeOp → CompOp
  | .equ => .equ
  | .neq => .nequ
  | .gt => .gt
  | .lt => .lt
  | .geq => .gequ
  | .leq => .lequ

omit [MathLib TReal] in
theorem intComp_holds (op : CompNodeOp) (i j : Int64) : intComp op.compOp i j = op.holds i j := by
  cases op <;> simp [CompNodeOp.compOp, intComp, CompNodeOp.holds, bne, BEq.beq]

/-- **A turn with a comparison of integers.** -/
theorem VM.Here.comp {i j : Int64} (op : CompNodeOp) (c : OpCode)
    (h : s.Here code base p ((Val.int j).item :: (Val.int i).item :: ds))
    (hop : code[p]? = some c.code) (hx : execOp (some c) = andGoOn (opComparison op.compOp)) :
    ∃ t, VM.Turn s t ∧ t.Here code base (p + 1) ((Val.bool (op.holds i j)).item :: ds) ∧
      SameAbove base s t := by
  have hb : comparison s.eps op.compOp (.int i : TData) (.int j) = .ok (op.holds i j) := by
    rw [← intComp_holds]
    rfl
  exact VM.Here.compare c op.compOp h hop hx hb

end

end MuF
