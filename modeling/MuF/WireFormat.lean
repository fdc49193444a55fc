import MuF.Sym
import MuF.VM.Bounds

/-!
# The wire format

`WriteMemData`, `PushData`, `ReadMemData`, `TopData`, `PopData` and the sizes computed by the
compiler all go by one encoding.  Main result: `wire_format`.
-/

set_option linter.unusedVariables false

namespace MuF

open Bytes Exec

/-! ## runs without exceptions -/

/-- the run ends with no exception -/
def NoThrow {α : Type} (x : VMM α) (s : VM) : Prop := ∀ msg s', x.run s ≠ .error (.throw msg) s'

theorem NoThrow.bind {α β : Type} {x : VMM α} {f : α → VMM β} {s s' : VM} {a : α}
    (h : NoThrow (x >>= f) s) (hx : x.run s = .ok a s') : NoThrow (f a) s' := by
  intro msg t ht
  exact h msg t (by rw [bind_ok hx, ht])

theorem NoThrow.of_bind {α β : Type} {x : VMM α} {f : α → VMM β} {s : VM}
    (h : NoThrow (x >>= f) s) : NoThrow x s := by
  intro msg t ht
  exact h msg t (bind_error ht)

theorem NoThrow.get_bind {β : Type} {f : VM → VMM β} {s : VM} (h : NoThrow (get >>= f) s) :
    NoThrow (f s) s :=
  h.bind (run_get s)

theorem NoThrow.inBounds {β : Type} {f : Unit → VMM β} {s : VM} {a n : Int32}
    (h : NoThrow (checkMemoryBounds a n >>= f) s) (hc : s.checks = true) :
    s.inBounds a n = true := by
  cases hb : s.inBounds a n with
  | true => rfl
  | false =>
    obtain ⟨msg, hm⟩ := checkMemoryBounds_throw hc hb
    exact absurd (bind_error hm) (h msg s)

theorem pushRaw_noThrow {α : Type} [Raw α] {s : VM} {x : α} (hn : Raw.size α < 2^31)
    (h : NoThrow (pushRaw x) s) (hc : s.checks = true) :
    s.sp.toInt + Raw.size α ≤ s.memsize.toInt :=
  (VM.room_of_inBounds hn (h.get_bind.inBounds hc)).2

theorem pushSeq_noThrow {E : Type} [Raw E] {s : VM} {v : List E} {ty : VMType} {raw : Bool}
    (hf : s.Fits (v.length * Raw.size E)) (h : NoThrow (pushSeq v ty raw) s)
    (hc : s.checks = true) : s.sp.toInt - v.length * Raw.size E + 4 ≤ s.memsize.toInt := by
  have h1 : NoThrow (pushRaw (Int32.ofNat v.length) >>= fun _ => onlyIf (!raw) (pushDescr ty))
      (s.pushed (encElems v)) := by
    intro msg t ht
    exact h msg t (by rw [pushSeq_elems ty raw hf, ht])
  have h2 := pushRaw_noThrow (by simp) (NoThrow.of_bind h1) hc
  rw [VM.pushed_sp (by rw [length_encElems]; exact hf), length_encElems] at h2
  have em : (s.pushed (encElems v)).memsize = s.memsize := rfl
  rw [em] at h2
  push_cast at h2
  simpa using h2

/-- a push that does not throw has the room above the stack pointer that it looks for -/
theorem pushData_noThrow {s : VM} {d : TData} {ty : VMType} {b : Bool} (hf : s.Fits d.size)
    (h : NoThrow (pushData d ty b) s) (hc : s.checks = true) :
    s.sp.toInt + d.headroom ≤ s.memsize.toInt := by
  have hm := hf.2
  cases d with
  | none => simpa [Data.headroom] using hm
  | real x => exact pushRaw_noThrow (by simp) (NoThrow.of_bind h) hc
  | int x => exact pushRaw_noThrow (by simp) (NoThrow.of_bind h) hc
  | bool x => exact pushRaw_noThrow (by simp) (NoThrow.of_bind h) hc
  | addr x => exact pushRaw_noThrow (by simp) (NoThrow.of_bind h) hc
  | cplx x => simpa [Data.headroom] using hm
  | quat x => simpa [Data.headroom] using hm
  | str x =>
    have := pushSeq_noThrow (hf.mono (by simp [Data.size])) h hc
    simp [Data.headroom] at this ⊢
    omega
  | realArr x =>
    have := pushSeq_noThrow (hf.mono (by simp [Data.size])) h hc
    simp [Data.headroom] at this ⊢
    omega
  | intArr x =>
    have := pushSeq_noThrow (hf.mono (by simp [Data.size])) h hc
    simp [Data.headroom] at this ⊢
    omega
  | cplxArr x =>
    have := pushSeq_noThrow (hf.mono (by simp [Data.size])) h hc
    simp [Data.headroom] at this ⊢
    omega
  | quatArr x =>
    have := pushSeq_noThrow (hf.mono (by simp [Data.size])) h hc
    simp [Data.headroom] at this ⊢
    omega

/-! ## sizes -/

/-- a symbol declared with a datum's type and, for strings and arrays, its number of elements -/
def Symbol.Declares (sym : Symbol) : TData → Prop
  | .real _ => sym.ty = .real
  | .int _ => sym.ty = .int
  | .cplx _ => sym.ty = .cplx
  | .quat _ => sym.ty = .quat
  | .bool _ => sym.ty = .bool
  | .str s => sym.ty = .string ∧ sym.dims.head? = some s.length
  | .realArr v => sym.ty = .realArray ∧ sym.getTotalSize = Int32.ofNat v.length
  | .intArr v => sym.ty = .intArray ∧ sym.getTotalSize = Int32.ofNat v.length
  | .cplxArr v => sym.ty = .cplxArray ∧ sym.getTotalSize = Int32.ofNat v.length
  | .quatArr v => sym.ty = .quatArray ∧ sym.getTotalSize = Int32.ofNat v.length
  | .none | .addr _ => False

theorem getVmSeqSize_full (e : Int32) (n k : Nat) (he : e = Int32.ofNat k) :
    getVmSeqSize e (Int32.ofNat n) true true = Int32.ofNat (n * k + 5) := by
  rw [getVmSeqSize, he, ← Int32.ofNat_mul, if_pos rfl, if_pos rfl, Int32.add_assoc,
    Int32.ofNat_add]
  rfl

theorem getSymSize_declares {sym : Symbol} {d : TData} (h : sym.Declares d) :
    getSymSize sym = .ok (Int32.ofNat d.size) := by
  cases d with
  | none => exact h.elim
  | addr x => exact h.elim
  | real x => rw [getSymSize, show sym.ty = _ from h]; rfl
  | int x => rw [getSymSize, show sym.ty = _ from h]; rfl
  | cplx x => rw [getSymSize, show sym.ty = _ from h]; rfl
  | quat x => rw [getSymSize, show sym.ty = _ from h]; rfl
  | bool x => rw [getSymSize, show sym.ty = _ from h]; rfl
  | str x =>
    obtain ⟨h1, h2⟩ := h
    obtain ⟨t, ht⟩ := List.head?_eq_some_iff.1 h2
    rw [getSymSize, h1, ht]
    exact congrArg Except.ok
      ((getVmSeqSize_full 1 x.length 1 rfl).trans (by rw [Nat.mul_one]; rfl))
  | realArr x =>
    rw [getSymSize, h.1, h.2]
    exact congrArg Except.ok (getVmSeqSize_full 8 x.length 8 rfl)
  | intArr x =>
    rw [getSymSize, h.1, h.2]
    exact congrArg Except.ok (getVmSeqSize_full 8 x.length 8 rfl)
  | cplxArr x =>
    rw [getSymSize, h.1, h.2]
    exact congrArg Except.ok (getVmSeqSize_full 16 x.length 16 rfl)
  | quatArr x =>
    rw [getSymSize, h.1, h.2]
    exact congrArg Except.ok (getVmSeqSize_full 32 x.length 32 rfl)

/-! ## the format -/

/-- data of the types that variables have: all but addresses -/
def Data.isValue : TData → Bool
  | .none | .addr _ => false
  | _ => true

theorem Data.isValue.wf {d : TData} (h : d.isValue = true) (ty : VMType) : d.wf ty = true := by
  cases d <;> first | rfl | cases h

theorem Data.isValue.bytes_eq {d : TData} (h : d.isValue = true) (ty ty' : VMType) :
    d.bytes ty = d.bytes ty' := by
  cases d <;> first | rfl | cases h

/-- **One wire format**: every value has one encoding.  It is as long as the compiler's sizes say,
it is what `WriteMemData` writes and `PushData` pushes, changing nothing else, and `ReadMemData`,
`TopData` and `PopData` get the value back from it. -/
theorem wire_format (d : TData) (hd : d.isValue = true) :
    ∃ bs : List UInt8, bs.length = d.size ∧
      (∀ sym : Symbol, sym.Declares d → getSymSize sym = .ok (Int32.ofNat bs.length)) ∧
      ∀ s : VM,
        (∀ a : Int32, s.Room a.toInt bs.length →
          ∃ s', (writeMemData a d).run s = .ok () s' ∧
            s' = { s with mem := write s.mem a.toInt bs } ∧
            (readMemData a).run s' = .ok (d.ty .unknown, d) s') ∧
        (∀ ty b, s.Fits bs.length → NoThrow (pushData d ty b) s →
          ∃ s', (pushData d ty b).run s = .ok () s' ∧
            s'.sp.toInt = s.sp.toInt - bs.length ∧
            s' = { s with mem := write s.mem s'.sp.toInt bs, sp := s'.sp } ∧
            topData.run s' = .ok d s' ∧
            (readMemData s'.sp).run s' = .ok (d.ty .unknown, d) s' ∧
            ∃ m, popData.run s' = .ok d { s with mem := m } ∧
              ∀ i, i < s'.sp.toInt ∨ s.sp.toInt ≤ i → m i = s.mem i) := by
  refine ⟨d.bytes .unknown, Data.length_bytes _ _, ?_, fun s => ⟨?_, ?_⟩⟩
  · intro sym hs
    rw [Data.length_bytes]
    exact getSymSize_declares hs
  · intro a hr
    rw [Data.length_bytes] at hr
    refine ⟨_, writeMemData_run (Data.isValue.wf hd _) hr, rfl, ?_⟩
    exact readMemData_run (Data.isValue.wf hd _) hr (at_write_self _ _ _)
  · intro ty b hf hn
    rw [Data.length_bytes] at hf
    have hp := pushData_run b (Data.isValue.wf hd ty) hf (pushData_noThrow hf hn)
    rw [Data.isValue.bytes_eq hd ty .unknown] at hp
    have hl := Data.length_bytes .unknown d
    have hsp : (s.pushed (d.bytes .unknown)).sp.toInt = s.sp.toInt - d.size := by
      rw [VM.pushed_sp (by rw [hl]; exact hf), hl]
    have hat : At (s.pushed (d.bytes .unknown)).mem (s.pushed (d.bytes .unknown)).sp.toInt
        (d.bytes .unknown) := by
      rw [hsp, ← hl]
      exact at_write_self _ _ _
    have hr : (s.pushed (d.bytes .unknown)).Room (s.pushed (d.bytes .unknown)).sp.toInt
        d.size := by
      rw [hsp]
      exact hf.room
    have hw := Data.isValue.wf hd .unknown
    refine ⟨_, hp, by rw [hsp, hl], ?_, topData_run hw hr hat, readMemData_run hw hr hat,
      (s.pushed (d.bytes .unknown)).cleared (s.pushed (d.bytes .unknown)).sp.toInt d.size, ?_, ?_⟩
    · rw [hsp, ← hl]
      rfl
    · rw [popData_run hw hr hat, VM.popped]
      have e : (s.pushed (d.bytes .unknown)).sp + Int32.ofNat d.size = s.sp := by
        rw [← hl]
        exact Int32.sub_add_cancel _ _
      rw [e]
      rfl
    · intro i hi
      rw [VM.cleared_outside _ _ _ _ (by omega)]
      exact write_outside _ _ _ _ (by omega)

theorem NoThrow.of_ok {α : Type} {x : VMM α} {s s' : VM} {a : α} (h : x.run s = .ok a s') :
    NoThrow x s := by
  intro msg t ht
  rw [h] at ht
  cases ht

theorem wire_format_str : ∃ s', (pushVal (.str [104, 105])).run
      (@VM.init ⟨40, by decide⟩ 64 ⟨0⟩ []) = .ok () s' ∧
    s'.sp.toInt = 16 ∧ topData.run s' = .ok (.str [104, 105]) s' := by
  obtain ⟨bs, hl, -, h⟩ := wire_format (.str [104, 105]) rfl
  have hl7 : bs.length = 7 := hl
  have hf : (@VM.init ⟨40, by decide⟩ 64 ⟨0⟩ []).Fits 7 := by
    constructor <;> decide
  have hp : (pushVal (.str [104, 105])).run _ = .ok () _ :=
    pushData_run true rfl hf (fun _ => by decide)
  obtain ⟨s', h1, h2, -, h3, -⟩ := (h _).2 .unknown true (by rw [hl7]; exact hf) (.of_ok hp)
  refine ⟨s', h1, ?_, h3⟩
  rw [h2, hl7]
  decide

end MuF
