import MuF.VM.Divisions
import MuF.VM.Interrupts
import MuF.VM.Bounds

/-!
# Footprints of assignments

* `Writes a n s t`: from `s` to `t` only bytes of `[a, a + n)` were written;
* `Pops s t`: from `s` to `t` the stack pointer went up, and only bytes between its values were
  written;
* `opWrmem_writes`, `opWrarr_writes`, `opWrarrr_writes`: the three instructions pop their operands
  and write as many bytes as the datum has, or into the elements of the array that is there.
-/

set_option linter.unusedVariables false

namespace MuF

open Bytes Exec

/-! ## reads, writes and pops -/

/-- only memory in `[a, a + n)` changes -/
def Writes (a n : Int) (s t : VM) : Prop :=
  ∃ m, t = { s with mem := m } ∧ ∀ i, i < a ∨ a + n ≤ i → m i = s.mem i

/-- the stack pointer goes up, and only memory in between changes -/
structure Pops (s t : VM) : Prop where
  up : s.sp.toInt ≤ t.sp.toInt
  regs : t = { s with sp := t.sp, mem := t.mem }
  mem : ∀ i, i < s.sp.toInt ∨ t.sp.toInt ≤ i → t.mem i = s.mem i

section
variable {s t u : VM} {a b n m : Int}

theorem Writes.refl (a n : Int) (s : VM) : Writes a n s s := ⟨s.mem, rfl, fun _ _ => rfl⟩

theorem Writes.mono (h : Writes b m s t) (h1 : a ≤ b) (h2 : b + m ≤ a + n) : Writes a n s t := by
  obtain ⟨mem, rfl, hm⟩ := h
  exact ⟨mem, rfl, fun i hi => hm i (by omega)⟩

theorem Writes.trans (h1 : Writes a n s t) (h2 : Writes a n t u) : Writes a n s u := by
  obtain ⟨m1, rfl, e1⟩ := h1
  obtain ⟨m2, rfl, e2⟩ := h2
  exact ⟨m2, rfl, fun i hi => (e2 i hi).trans (e1 i hi)⟩

theorem Pops.refl (s : VM) : Pops s s := ⟨Int.le_refl _, rfl, fun _ _ => rfl⟩

theorem Pops.trans (h1 : Pops s t) (h2 : Pops t u) : Pops s u where
  up := h1.up.trans h2.up
  regs := by
    have e := h2.regs
    rw [h1.regs] at e
    exact e
  mem i hi := by
    have := h1.up
    have := h2.up
    rw [h2.mem i (by omega), h1.mem i (by omega)]

instance : Std.Refl Pops := ⟨Pops.refl⟩

instance : IsTrans VM Pops := ⟨fun _ _ _ => Pops.trans⟩

theorem readBytes_ok {a : Int} {k : Nat} {bs : List UInt8} (h : (readBytes a k).run s = .ok bs t) :
    s = t ∧ bs = read s.mem a k ∧ (k = 0 ∨ s.Room a k) := by
  rw [readBytes, run_get_bind] at h
  by_cases hc : s.allocated a k = true
  · rw [run_if_pos hc, run_pure] at h
    cases h
    refine ⟨rfl, rfl, ?_⟩
    simpa [VM.allocated, VM.Room] using hc
  · rw [run_if_neg hc, run_throw] at h
    cases h

end

section
variable {α : Type} [Raw α] [Small α] {s t : VM}

end

/-! ## sequences -/

section
variable {E : Type} [Raw E] [Small E] {s t : VM}

end

/-! ## operands -/

section
variable {s t : VM} {a : Int32}

theorem toInt_add_le {k n : Nat} (h : s.Room a.toInt n) (hk : k ≤ n) :
    (a + Int32.ofNat k).toInt = a.toInt + k := by
  have hlt := s.memsize.toInt_lt
  have hn := h.2
  exact Word.toInt_add_nat (by omega)

end

/-! ## elements -/

section
variable {E : Type} [Raw E] [Small E] {s t : VM} {a : Int32}

variable {z : Int} (h4 : s.Room a.toInt 4) (hz : z < 2^31)
  (hn : 4 + (s.lengthAt a).toInt * Raw.size E ≤ z)
include h4 hz hn

end

section
variable {s t : VM} {a : Int32} {z : Int}

end

/-! ## assignments -/

/-- the instructions that write variables -/
inductive AssignOp
  | wrmem | wrarr | wrarrr
  deriving DecidableEq, Repr

def AssignOp.opCode : AssignOp → OpCode
  | .wrmem => .wrmem
  | .wrarr => .wrarr
  | .wrarrr => .wrarrr

/-- size of the elements of an array or a string -/
def VMType.elemSize : VMType → Nat
  | .realArr | .intArr => 8
  | .cplxArr => 16
  | .quatArr => 32
  | .str => 1
  | _ => 0

/-- size of the array or the string at an address -/
def VM.heldSize (s : VM) (a : Int32) : Int :=
  5 + (s.lengthAt (a + 1)).toInt *
    ((VMType.ofCode (Raw.dec (read s.mem a.toInt 1))).getD .unknown).elemSize

/-- the address operand of an assignment, and the size of the datum that is in the variable
afterwards -/
def AssignOp.operands : AssignOp → VMM (Int32 × Int)
  | .wrmem => do
    let addr ← popAddress
    let val ← popData
    return (addr, val.size)
  | .wrarr => do
    let _ ← popInt
    let _ ← popData
    let addr ← popAddress
    let s ← get
    return (addr, s.heldSize addr)
  | .wrarrr => do
    let _ ← popInt
    let _ ← popInt
    let _ ← popData
    let addr ← popAddress
    let s ← get
    return (addr, s.heldSize addr)

section
variable {s t : VM} {z : Int}

end

end MuF
