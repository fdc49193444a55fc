import MuF.Base.Word
import MuF.VM.Mem

/-!
# One encoding for stack and memory

The run of every memory and stack operation on data whose encoding fits, in closed form:

* `VM.pushed`, `VM.popped`: the state after bytes were pushed and popped;
* `pushData_run`, `popData_run`, `topData_run`, `readMemData_run`, `writeMemData_run`.
-/

set_option linter.unusedVariables false

namespace MuF

open Bytes Exec

/-! ## checks -/

theorem VM.inBounds_iff (s : VM) (a n : Int32) : s.inBounds a n = true ↔
    (a + n).toInt ≤ s.memsize.toInt ∧ 0 ≤ (a + n).toInt ∧ 0 ≤ a.toInt := by
  simp [VM.inBounds, Int32.lt_iff_toInt_lt, and_assoc]

theorem checkMemoryBounds_run {s : VM} {a n : Int32}
    (h : s.checks = true → s.inBounds a n = true) : (checkMemoryBounds a n).run s = .ok () s := by
  have e : ¬ (s.checks && !s.inBounds a n) = true := by
    cases hc : s.checks with
    | false => simp
    | true => simp [h hc]
  rw [checkMemoryBounds, run_get_bind, run_if_neg e, run_pure]

theorem checkMemoryBounds_throw {s : VM} {a n : Int32} (hc : s.checks = true)
    (h : s.inBounds a n = false) : ∃ msg, (checkMemoryBounds a n).run s = .error (.throw msg) s := by
  have e : (s.checks && !s.inBounds a n) = true := by simp [hc, h]
  exact ⟨_, by rw [checkMemoryBounds, run_get_bind, run_if_pos e, run_throw]⟩

/-- the bytes `[a, a + n)` lie in the memory -/
def VM.Room (s : VM) (a : Int) (n : Nat) : Prop := 0 ≤ a ∧ a + n ≤ s.memsize.toInt

theorem VM.Room.inBounds {s : VM} {a : Int32} {n : Nat} (h : s.Room a.toInt n) :
    s.inBounds a (Int32.ofNat n) = true := by
  have hm := s.memsize.toInt_lt
  obtain ⟨h1, h2⟩ := h
  have e := Word.toInt_add_nat (a := a) (n := n) (by omega)
  rw [VM.inBounds_iff, e]
  omega

theorem VM.Room.allocated {s : VM} {a : Int} {n : Nat} (h : s.Room a n) :
    s.allocated a n = true := by
  obtain ⟨h1, h2⟩ := h
  simp [VM.allocated, h1, h2]

theorem VM.Room.mono {s : VM} {a : Int} {m n : Nat} (h : s.Room a n) (hm : m ≤ n) : s.Room a m :=
  ⟨h.1, by have := h.2; omega⟩

theorem checkMemoryBounds_room {s : VM} {a : Int32} {n : Nat} (h : s.Room a.toInt n) :
    (checkMemoryBounds a (Int32.ofNat n)).run s = .ok () s :=
  checkMemoryBounds_run fun _ => h.inBounds

theorem readBytes_run {s : VM} {a : Int} {n : Nat} (h : s.Room a n) :
    (readBytes a n).run s = .ok (read s.mem a n) s := by
  rw [readBytes, run_get_bind, run_if_pos h.allocated, run_pure]

theorem writeBytes_run {s : VM} {a : Int} {b : List UInt8} (h : s.Room a b.length) :
    (writeBytes a b).run s = .ok () { s with mem := write s.mem a b } := by
  rw [writeBytes, run_get_bind, run_if_pos h.allocated, run_set]

/-! ## raw values -/

section
variable {α : Type} [Raw α]

/-- state after `bs` was pushed -/
def VM.pushed (s : VM) (bs : List UInt8) : VM :=
  { s with
    mem := write s.mem (s.sp.toInt - bs.length) bs
    sp := s.sp - Int32.ofNat bs.length }

/-- memory after `n` bytes at `a` were popped -/
def VM.cleared (s : VM) (a : Int) (n : Nat) : Mem :=
  if s.zeropoppedvals then write s.mem a (List.replicate n 0) else s.mem

/-- state after `n` bytes were popped -/
def VM.popped (s : VM) (n : Nat) : VM :=
  { s with mem := s.cleared s.sp.toInt n, sp := s.sp + Int32.ofNat n }

theorem readMemRaw_run {s : VM} {a : Int32} (h : s.Room a.toInt (Raw.size α)) :
    (readMemRaw α a).run s = .ok (Raw.dec (read s.mem a.toInt (Raw.size α))) s := by
  rw [readMemRaw, bind_ok (checkMemoryBounds_room h), bind_ok (readBytes_run h), run_pure]

theorem writeMemRaw_run {s : VM} {a : Int32} (x : α) (h : s.Room a.toInt (Raw.size α)) :
    (writeMemRaw a x).run s = .ok () { s with mem := write s.mem a.toInt (Raw.enc x) } := by
  rw [writeMemRaw, bind_ok (checkMemoryBounds_room h),
    writeBytes_run (by rw [Raw.length_enc]; exact h)]

theorem topRaw_run {s : VM} {offs : Int32} (h : s.Room (s.sp + offs).toInt (Raw.size α)) :
    (topRaw α offs).run s = .ok (Raw.dec (read s.mem (s.sp + offs).toInt (Raw.size α))) s := by
  rw [topRaw, run_get_bind, bind_ok (checkMemoryBounds_room h), bind_ok (readBytes_run h),
    run_pure]

theorem clearIf_run {s : VM} {a : Int} {n : Nat} {x : VMM Unit}
    (h : x.run s = .ok () { s with mem := write s.mem a (List.replicate n 0) }) :
    (onlyIf s.zeropoppedvals x).run s = .ok () { s with mem := s.cleared a n } := by
  by_cases hz : s.zeropoppedvals = true
  · rw [VM.cleared, if_pos hz, onlyIf, run_if_pos hz, h]
  · rw [VM.cleared, if_neg hz, onlyIf, run_if_neg hz, run_pure]

theorem popRaw_run {s : VM} (h : s.Room s.sp.toInt (Raw.size α)) :
    (popRaw α).run s =
      .ok (Raw.dec (read s.mem s.sp.toInt (Raw.size α))) (s.popped (Raw.size α)) := by
  have hw := writeBytes_run (s := s) (b := List.replicate (Raw.size α) 0)
    (by rw [List.length_replicate]; exact h)
  rw [popRaw, run_get_bind, bind_ok (checkMemoryBounds_room h), bind_ok (readBytes_run h),
    bind_ok (clearIf_run hw), moveSp, run_modify_bind, run_pure]
  rfl

/-- `n` bytes fit below the stack pointer -/
def VM.Fits (s : VM) (n : Nat) : Prop := (n : Int) ≤ s.sp.toInt ∧ s.sp.toInt ≤ s.memsize.toInt

theorem VM.Fits.room {s : VM} {n : Nat} (h : s.Fits n) : s.Room (s.sp.toInt - n) n := by
  obtain ⟨h1, h2⟩ := h
  constructor <;> omega

theorem VM.Fits.toInt {s : VM} {n : Nat} (h : s.Fits n) :
    (s.sp - Int32.ofNat n).toInt = s.sp.toInt - n :=
  Word.toInt_sub_nat (by have := h.1; omega)

theorem VM.Fits.mono {s : VM} {m n : Nat} (h : s.Fits n) (hm : m ≤ n) : s.Fits m :=
  ⟨by have := h.1; omega, h.2⟩

theorem VM.pushed_sp {s : VM} {b : List UInt8} (h : s.Fits b.length) :
    (s.pushed b).sp.toInt = s.sp.toInt - b.length := h.toInt

theorem VM.pushed_fits {s : VM} {bs : List UInt8} {n : Nat} (h : s.Fits (bs.length + n)) :
    (s.pushed bs).Fits n := by
  have e := VM.pushed_sp (h.mono (Nat.le_add_right bs.length n))
  obtain ⟨h1, h2⟩ := h
  have em : (s.pushed bs).memsize = s.memsize := rfl
  constructor
  · rw [e]; omega
  · rw [e, em]; omega

theorem VM.pushed_pushed {s : VM} {xs ys : List UInt8} (h : s.Fits (xs.length + ys.length)) :
    (s.pushed xs).pushed ys = s.pushed (ys ++ xs) := by
  have e := VM.pushed_sp (h.mono (Nat.le_add_right xs.length ys.length))
  have e1 : (s.pushed xs).sp - Int32.ofNat ys.length = s.sp - Int32.ofNat (ys ++ xs).length := by
    rw [List.length_append, Nat.add_comm]
    exact Word.sub_sub_nat _ _ _
  have e2 : write (s.pushed xs).mem ((s.pushed xs).sp.toInt - ys.length) ys =
      write s.mem (s.sp.toInt - (ys ++ xs).length) (ys ++ xs) := by
    rw [e]
    have e3 : s.sp.toInt - xs.length - ys.length = s.sp.toInt - (ys ++ xs).length := by
      rw [List.length_append]; omega
    have e4 : s.sp.toInt - xs.length = s.sp.toInt - (ys ++ xs).length + ys.length := by
      rw [List.length_append]; omega
    rw [e3, ← write_append, ← e4]
    rfl
  rw [VM.pushed, e1, e2]
  rfl

/-- a write of `n` bytes below the stack pointer, which then points to them -/
theorem pushBytes_run {s : VM} {b : List UInt8} (h : s.Fits b.length) :
    (moveSp (-Int32.ofNat b.length) >>= fun _ =>
      writeBytes (s.sp - Int32.ofNat b.length).toInt b).run s = .ok () (s.pushed b) := by
  rw [moveSp, run_modify_bind, writeBytes_run (by rw [h.toInt]; exact h.room), h.toInt,
    Int32.add_neg_eq_sub]
  rfl

theorem pushRaw_run {s : VM} (x : α) (h : s.Fits (Raw.size α))
    (hc : s.checks = true → s.sp.toInt + Raw.size α ≤ s.memsize.toInt) :
    (pushRaw x).run s = .ok () (s.pushed (Raw.enc x)) := by
  have h0 := h.1
  have hk : (checkMemoryBounds s.sp (sizeOf32 α)).run s = .ok () s := by
    refine checkMemoryBounds_run fun c => VM.Room.inBounds ⟨?_, hc c⟩
    omega
  have hp := pushBytes_run (b := Raw.enc x) (by rw [Raw.length_enc]; exact h)
  rw [Raw.length_enc] at hp
  rw [pushRaw, run_get_bind, bind_ok hk, hp]

theorem pushDescr_run {s : VM} (ty : VMType) (h : s.Fits 1)
    (hc : s.checks = true → s.sp.toInt + 1 ≤ s.memsize.toInt) :
    (pushDescr ty).run s = .ok () (s.pushed [ty.code]) :=
  pushRaw_run ty.code h hc

theorem pushTuple_run {s : VM} (x : α) (ty : VMType) (h : s.Fits (Raw.size α + 1))
    (h1 : 1 ≤ Raw.size α) :
    (pushTuple x ty false).run s = .ok () (s.pushed (ty.code :: Raw.enc x)) := by
  have h0 := h.mono (Nat.le_add_right (Raw.size α) 1)
  have hl : (Raw.enc x).length = Raw.size α := Raw.length_enc x
  have hsz : (Raw.size α : Int) < 2^31 := by
    have := h.1; have := s.sp.toInt_lt; omega
  have hk : (checkMemoryBounds s.sp (-sizeOf32 α)).run s = .ok () s := by
    refine checkMemoryBounds_run fun c => ?_
    rw [VM.inBounds_iff, Int32.add_neg_eq_sub, h0.toInt]
    have := h0.1; have := h0.2
    omega
  have hp := pushBytes_run (b := Raw.enc x) (by rw [hl]; exact h0)
  rw [hl] at hp
  have hf : (s.pushed (Raw.enc x)).Fits 1 := VM.pushed_fits (by rw [hl]; exact h)
  have hd := pushDescr_run (s := s.pushed (Raw.enc x)) ty hf (fun _ => by
    have e := VM.pushed_sp (b := Raw.enc x) (by rw [hl]; exact h0)
    have em : (s.pushed (Raw.enc x)).memsize = s.memsize := rfl
    have := h.2
    rw [e, em, hl]
    omega)
  rw [VM.pushed_pushed (by rw [hl]; exact h)] at hd
  rw [pushTuple, run_get_bind, bind_ok hk, ← bind_assoc, bind_ok hp]
  exact hd

end

/-! ## states after pops -/

theorem VM.popped_sp {s : VM} {n : Nat} (h : s.Room s.sp.toInt n) :
    (s.popped n).sp.toInt = s.sp.toInt + n :=
  Word.toInt_add_nat (by have := h.2; have := s.memsize.toInt_lt; omega)

theorem VM.cleared_outside (s : VM) (a : Int) (n : Nat) (i : Int) (h : i < a ∨ a + n ≤ i) :
    s.cleared a n i = s.mem i := by
  rw [VM.cleared]
  split
  · exact write_outside _ _ _ _ (by rw [List.length_replicate]; exact h)
  · rfl

theorem VM.at_cleared {s : VM} {a b : Int} {n : Nat} {bs : List UInt8} (h : At s.mem b bs)
    (hd : a + n ≤ b ∨ b + bs.length ≤ a) : At (s.cleared a n) b bs :=
  h.congr fun i h1 h2 => s.cleared_outside a n i (by omega)

theorem VM.Room.left {s : VM} {a : Int} {m n : Nat} (h : s.Room a (m + n)) : s.Room a m :=
  ⟨h.1, by have := h.2; omega⟩

theorem VM.Room.right {s : VM} {a : Int} {m n : Nat} (h : s.Room a (m + n)) : s.Room (a + m) n :=
  ⟨by have := h.1; omega, by have := h.2; omega⟩

theorem VM.popped_popped {s : VM} {m n : Nat} (h : s.Room s.sp.toInt (m + n)) :
    (s.popped m).popped n = s.popped (m + n) := by
  have e := VM.popped_sp h.left
  have e1 : (s.popped m).sp + Int32.ofNat n = s.sp + Int32.ofNat (m + n) := Word.add_add_nat _ _ _
  have e2 : (s.popped m).cleared (s.popped m).sp.toInt n = s.cleared s.sp.toInt (m + n) := by
    rw [e]
    cases hz : s.zeropoppedvals with
    | false => simp [VM.cleared, VM.popped, hz]
    | true =>
      simp only [VM.cleared, VM.popped, hz, if_true]
      rw [← List.replicate_append_replicate, ← write_append']
      simp
  rw [VM.popped, e1, e2]
  rfl

/-! ## strings and arrays -/

section
variable {E : Type} [Raw E]

theorem sizeOf32_mul (n : Nat) : Int32.ofNat n * sizeOf32 E = Int32.ofNat (n * Raw.size E) := by
  rw [Int32.ofNat_mul]

theorem readElems_run {s : VM} {a : Int} {v : List E} (hv : v.length < 2^31)
    (h : s.Room a (v.length * Raw.size E)) (hat : At s.mem a (encElems v)) :
    (readElems E a (Int32.ofNat v.length)).run s = .ok v s := by
  have e := Word.toInt_ofNat hv
  have hn : ¬ Int32.ofNat v.length < 0 := by
    rw [Int32.lt_iff_toInt_lt, e, Int32.toInt_zero]
    omega
  have en : (Int32.ofNat v.length).toInt.toNat = v.length := by rw [e]; rfl
  rw [readElems, run_if_neg hn, en, bind_ok (readBytes_run h), run_pure,
    hat.read_eq' (length_encElems v).symm, decElems_encElems]

theorem copyElems_run {s : VM} {a : Int} {v : List E}
    (h : s.Room a (v.length * Raw.size E)) :
    (copyElems a v (Int32.ofNat (v.length * Raw.size E))).run s =
      .ok () { s with mem := write s.mem a (encElems v) } := by
  have hv : v.length * Raw.size E < 2^31 := by
    have := h.1; have := h.2; have := s.memsize.toInt_lt; omega
  have e := Word.toInt_ofNat hv
  have hn : ¬ Int32.ofNat (v.length * Raw.size E) < 0 := by
    rw [Int32.lt_iff_toInt_lt, e, Int32.toInt_zero]
    omega
  have en : (Int32.ofNat (v.length * Raw.size E)).toInt.toNat = v.length * Raw.size E := by
    rw [e]; rfl
  have et : (encElems v).take (v.length * Raw.size E) = encElems v :=
    List.take_of_length_le (by rw [length_encElems])
  rw [copyElems, run_if_neg hn, en, et]
  exact writeBytes_run (by rw [length_encElems]; exact h)

theorem memset_run {s : VM} {a : Int} {n : Nat} (h : s.Room a n) :
    (memset a n).run s = .ok () { s with mem := write s.mem a (List.replicate n 0) } := by
  rw [memset, run_if_neg (by omega), Int.toNat_natCast,
    writeBytes_run (by rw [List.length_replicate]; exact h)]

theorem clearElems_run {s : VM} {a : Int} {n : Nat} (pod : Bool) (hn : n < 2^31)
    (h : s.Room a (n * Raw.size E)) :
    (clearElems E pod a (Int32.ofNat n)).run s =
      .ok () { s with mem := write s.mem a (List.replicate (n * Raw.size E) 0) } := by
  cases pod with
  | true =>
    have hz : n * Raw.size E < 2^31 := by
      have := h.1; have := h.2; have := s.memsize.toInt_lt; omega
    rw [clearElems, run_if_pos rfl, sizeOf32_mul, Word.toInt_ofNat hz, memset_run h]
  | false =>
    have en : (Int32.ofNat n).toInt.toNat = n := by rw [Word.toInt_ofNat hn]; rfl
    rw [clearElems, run_if_neg Bool.false_ne_true, en,
      writeBytes_run (by rw [List.length_replicate]; exact h)]

/-- the length field of an encoded array -/
theorem at_arrBytes {m : Mem} {a : Int} {v : List E} (h : At m a (arrBytes v)) :
    Raw.dec (read m a 4) = Int32.ofNat v.length ∧ At m (a + 4) (encElems v) := by
  obtain ⟨h1, h2⟩ := at_append.1 h
  rw [Raw.length_enc, size_int32] at h2
  have e : read m a 4 = Raw.enc (Int32.ofNat v.length) := h1.read_eq' rfl
  rw [e, Raw.dec_enc]
  exact ⟨rfl, h2⟩

/-- room for an encoded array has few enough elements for its length field -/
theorem VM.Room.length_lt {s : VM} {a : Int} {v : List E}
    (h : s.Room a (4 + v.length * Raw.size E)) (h1 : 1 ≤ Raw.size E) : v.length < 2^31 := by
  have h2 : v.length * 1 ≤ v.length * Raw.size E := Nat.mul_le_mul_left _ h1
  have := h.1; have := h.2; have := s.memsize.toInt_lt
  omega

theorem popSeq_run {s : VM} {v : List E} (pod : Bool) (h1 : 1 ≤ Raw.size E)
    (h : s.Room s.sp.toInt (4 + v.length * Raw.size E)) (hat : At s.mem s.sp.toInt (arrBytes v)) :
    (popSeq E pod).run s = .ok v (s.popped (4 + v.length * Raw.size E)) := by
  obtain ⟨hl, hel⟩ := at_arrBytes hat
  have hv := h.length_lt h1
  have hp := popRaw_run (α := Int32) (s := s) h.left
  rw [size_int32, hl] at hp
  have e := VM.popped_sp (s := s) (n := 4) h.left
  have hr : (s.popped 4).Room (s.popped 4).sp.toInt (v.length * Raw.size E) := by
    rw [e]; exact h.right
  have hat1 : At (s.popped 4).mem (s.popped 4).sp.toInt (encElems v) := by
    rw [e]; exact VM.at_cleared hel (Or.inl (le_refl _))
  rw [popSeq, bind_ok hp, run_get_bind, sizeOf32_mul, bind_ok (checkMemoryBounds_room hr),
    bind_ok (readElems_run hv hr hat1), moveSp, run_modify_bind, ← VM.popped_popped h]
  generalize s.popped 4 = t at *
  have hr' : VM.Room { t with sp := t.sp + Int32.ofNat (v.length * Raw.size E) } t.sp.toInt
    (v.length * Raw.size E) := hr
  rw [bind_ok (clearIf_run (clearElems_run pod hv hr')), run_pure]
  rfl

theorem topSeq_run {s : VM} {v : List E} {offs : Int32} (h1 : 1 ≤ Raw.size E)
    (h : s.Room (s.sp + offs).toInt (4 + v.length * Raw.size E))
    (hat : At s.mem (s.sp + offs).toInt (arrBytes v)) : (topSeq E offs).run s = .ok v s := by
  obtain ⟨hl, hel⟩ := at_arrBytes hat
  have hv := h.length_lt h1
  have hp := topRaw_run (α := Int32) h.left
  rw [size_int32, hl] at hp
  have e : (s.sp + offs + 4).toInt = (s.sp + offs).toInt + 4 :=
    Word.toInt_add_nat (n := 4) (by have := h.2; have := s.memsize.toInt_lt; omega)
  have hr : s.Room (s.sp + offs + 4).toInt (v.length * Raw.size E) := by
    rw [e]; exact h.right
  rw [topSeq, bind_ok hp, run_get_bind, sizeOf32_mul, bind_ok (checkMemoryBounds_room hr),
    readElems_run hv hr (by rw [e]; exact hel)]

theorem readSeq_run {s : VM} {v : List E} {a : Int32} (h1 : 1 ≤ Raw.size E)
    (h : s.Room a.toInt (4 + v.length * Raw.size E)) (hat : At s.mem a.toInt (arrBytes v)) :
    (readSeq E a).run s = .ok v s := by
  obtain ⟨hl, hel⟩ := at_arrBytes hat
  have hv := h.length_lt h1
  have hp := readMemRaw_run (α := Int32) (s := s) (a := a) h.left
  rw [size_int32, hl] at hp
  have e : (a + 4).toInt = a.toInt + 4 :=
    Word.toInt_add_nat (n := 4) (by have := h.2; have := s.memsize.toInt_lt; omega)
  have hr : s.Room (a + 4).toInt (v.length * Raw.size E) := by
    rw [e]; exact h.right
  rw [readSeq, bind_ok hp, sizeOf32_mul, bind_ok (checkMemoryBounds_room hr),
    readElems_run hv hr (by rw [e]; exact hel)]

theorem writeSeq_run {s : VM} {v : List E} {a : Int32}
    (h : s.Room a.toInt (4 + v.length * Raw.size E)) :
    (writeSeq a v).run s = .ok () { s with mem := write s.mem a.toInt (arrBytes v) } := by
  have e : (a + 4).toInt = a.toInt + 4 :=
    Word.toInt_add_nat (n := 4) (by have := h.2; have := s.memsize.toInt_lt; omega)
  have e4 : (4 : Int32) + Int32.ofNat (v.length * Raw.size E) =
      Int32.ofNat (4 + v.length * Raw.size E) := by rw [Int32.ofNat_add]; rfl
  have hw := writeMemRaw_run (s := s) (a := a) (Int32.ofNat v.length) h.left
  have hr : VM.Room { s with mem := write s.mem a.toInt (Raw.enc (Int32.ofNat v.length)) }
      (a + 4).toInt (v.length * Raw.size E) := by
    rw [e]; exact h.right
  rw [writeSeq, sizeOf32_mul, e4, bind_ok (checkMemoryBounds_room h), bind_ok hw,
    copyElems_run hr, e, arrBytes, ← write_append', Raw.length_enc]
  rfl

/-- the elements are pushed before their number -/
theorem pushSeq_elems {s : VM} {v : List E} (ty : VMType) (raw : Bool)
    (h : s.Fits (v.length * Raw.size E)) :
    (pushSeq v ty raw).run s = (pushRaw (Int32.ofNat v.length) >>= fun _ =>
      onlyIf (!raw) (pushDescr ty)).run (s.pushed (encElems v)) := by
  have hk : (checkMemoryBounds s.sp (-Int32.ofNat v.length * sizeOf32 E)).run s = .ok () s := by
    refine checkMemoryBounds_run fun c => ?_
    rw [Int32.neg_mul, sizeOf32_mul, VM.inBounds_iff, Int32.add_neg_eq_sub, h.toInt]
    have := h.1; have := h.2
    omega
  have hcp : (copyElems (s.sp - Int32.ofNat (v.length * Raw.size E)).toInt v
      (Int32.ofNat (v.length * Raw.size E))).run
        { s with sp := s.sp + -Int32.ofNat (v.length * Raw.size E) } =
      .ok () (s.pushed (encElems v)) := by
    rw [copyElems_run (by rw [h.toInt]; exact h.room), Int32.add_neg_eq_sub, h.toInt,
      VM.pushed, length_encElems]
  rw [pushSeq, run_get_bind, bind_ok hk, sizeOf32_mul, moveSp, run_modify_bind, bind_ok hcp]

theorem pushSeq_run {s : VM} {v : List E} (ty : VMType)
    (h : s.Fits (v.length * Raw.size E + 5))
    (hc : s.checks = true → s.sp.toInt - v.length * Raw.size E + 4 ≤ s.memsize.toInt) :
    (pushSeq v ty false).run s = .ok () (s.pushed (ty.code :: arrBytes v)) := by
  have h0 := h.mono (Nat.le_add_right (v.length * Raw.size E) 5)
  have hle : (encElems v).length = v.length * Raw.size E := length_encElems v
  have hf : (s.pushed (encElems v)).Fits 5 := VM.pushed_fits (by rw [hle]; exact h)
  have hsp : (s.pushed (encElems v)).sp.toInt = s.sp.toInt - v.length * Raw.size E := by
    rw [VM.pushed_sp (by rw [hle]; exact h0), hle]
    push_cast
    rfl
  have hnum := pushRaw_run (Int32.ofNat v.length) (hf.mono (by simp)) (fun c => by
    rw [hsp]; exact hc c)
  rw [VM.pushed_pushed (by rw [hle]; exact h.mono (by simp))] at hnum
  have hf1 : (s.pushed (arrBytes v)).Fits 1 := VM.pushed_fits (by rw [length_arrBytes]; exact h)
  have hd := pushDescr_run ty hf1 (fun _ => by
    have e := VM.pushed_sp (s := s) (b := arrBytes v)
      (by rw [length_arrBytes]; exact h.mono (by omega))
    have em : (s.pushed (arrBytes v)).memsize = s.memsize := rfl
    have := h.2
    rw [e, em, length_arrBytes]
    omega)
  rw [VM.pushed_pushed (by rw [length_arrBytes]; exact h)] at hd
  rw [pushSeq_elems ty false h0, bind_ok hnum]
  exact hd

end

/-! ## data -/

/-- data that `PushData` and `ReadMemData` know, pushed with the descriptor `ty` if an address -/
def Data.wf (ty : VMType) : TData → Bool
  | .none => false
  | .addr _ => ty.isAddr
  | _ => true

/-- how far above the stack pointer `PushData` looks for room -/
def Data.headroom : TData → Int
  | .real _ | .int _ => 8
  | .bool _ => 1
  | .addr _ => 4
  | .str s => 4 - s.length
  | .realArr v => 4 - v.length * 8
  | .intArr v => 4 - v.length * 8
  | .cplxArr v => 4 - v.length * 16
  | .quatArr v => 4 - v.length * 32
  | .none | .cplx _ | .quat _ => 0

theorem pushRawDescr_run {α : Type} [Raw α] {s : VM} (x : α) (ty : VMType)
    (h : s.Fits (Raw.size α + 1)) (h1 : 1 ≤ Raw.size α)
    (hc : s.checks = true → s.sp.toInt + Raw.size α ≤ s.memsize.toInt) :
    (pushRaw x >>= fun _ => pushDescr ty).run s = .ok () (s.pushed (ty.code :: Raw.enc x)) := by
  have hl : (Raw.enc x).length = Raw.size α := Raw.length_enc x
  have hf : (s.pushed (Raw.enc x)).Fits 1 := VM.pushed_fits (by rw [hl]; exact h)
  have hd := pushDescr_run ty hf (fun _ => by
    have e := VM.pushed_sp (s := s) (b := Raw.enc x) (by rw [hl]; exact h.mono (by omega))
    have em : (s.pushed (Raw.enc x)).memsize = s.memsize := rfl
    have := h.2
    rw [e, em, hl]
    omega)
  rw [VM.pushed_pushed (by rw [hl]; exact h)] at hd
  rw [bind_ok (pushRaw_run x (h.mono (by omega)) hc)]
  exact hd

/-- **`PushData` pushes the encoding.** -/
theorem pushData_run {s : VM} {ty : VMType} {d : TData} (b : Bool) (hw : d.wf ty = true)
    (h : s.Fits d.size)
    (hc : s.checks = true → s.sp.toInt + d.headroom ≤ s.memsize.toInt) :
    (pushData d ty b).run s = .ok () (s.pushed (d.bytes ty)) := by
  have hlt : (d.size : Int) < 2^31 := by have := h.1; have := s.sp.toInt_lt; omega
  cases d with
  | none => cases hw
  | real x => exact pushRawDescr_run x .real h (by simp) hc
  | int x => exact pushRawDescr_run x .int h (by simp) hc
  | bool x => exact pushRawDescr_run x .bool h (by simp) hc
  | addr x => exact pushRawDescr_run x ty h (by simp) hc
  | cplx x => exact pushTuple_run x .cplx h (by simp)
  | quat x => exact pushTuple_run x .quat h (by simp)
  | str x =>
    simp only [Data.size, Data.headroom] at h hc hlt
    exact pushSeq_run .str (by simpa using h) (fun c => by have := hc c; simp; omega)
  | realArr x =>
    simp only [Data.size, Data.headroom] at h hc hlt
    exact pushSeq_run .realArr (by simpa using h) (fun c => by have := hc c; simp; omega)
  | intArr x =>
    simp only [Data.size, Data.headroom] at h hc hlt
    exact pushSeq_run .intArr (by simpa using h) (fun c => by have := hc c; simp; omega)
  | cplxArr x =>
    simp only [Data.size, Data.headroom] at h hc hlt
    exact pushSeq_run .cplxArr (by simpa using h) (fun c => by have := hc c; simp; omega)
  | quatArr x =>
    simp only [Data.size, Data.headroom] at h hc hlt
    exact pushSeq_run .quatArr (by simpa using h) (fun c => by have := hc c; simp; omega)

/-- the descriptor and the payload of a datum at `a` -/
theorem at_bytes {m : Mem} {a : Int} {ty : VMType} {d : TData} (h : At m a (d.bytes ty)) :
    Raw.dec (read m a 1) = (d.ty ty).code ∧ At m (a + 1) d.payload := by
  obtain ⟨h1, h2⟩ := at_cons.1 h
  exact ⟨by simp [Bytes.read, h1, Raw.dec], h2⟩

theorem Raw.dec_at {α : Type} [Raw α] {m : Mem} {a : Int} {x : α} (h : At m a (Raw.enc x)) :
    Raw.dec (read m a (Raw.size α)) = x := by
  rw [h.read_eq' (Raw.length_enc x).symm, Raw.dec_enc]

section
variable {α : Type} [Raw α] {s : VM} {x : α}

theorem popRaw_at (h : s.Room s.sp.toInt (Raw.size α)) (hat : At s.mem s.sp.toInt (Raw.enc x)) :
    (popRaw α).run s = .ok x (s.popped (Raw.size α)) := by
  rw [popRaw_run h, Raw.dec_at hat]

theorem topRaw_at {offs : Int32} (h : s.Room (s.sp + offs).toInt (Raw.size α))
    (hat : At s.mem (s.sp + offs).toInt (Raw.enc x)) : (topRaw α offs).run s = .ok x s := by
  rw [topRaw_run h, Raw.dec_at hat]

theorem readMemRaw_at {a : Int32} (h : s.Room a.toInt (Raw.size α))
    (hat : At s.mem a.toInt (Raw.enc x)) : (readMemRaw α a).run s = .ok x s := by
  rw [readMemRaw_run h, Raw.dec_at hat]

end

/-- if the readers read every payload of their type at `a` and leave the state `u n` behind the `n`
bytes read, then a datum is read by its descriptor -/
theorem dataOf_run {raw : (α : Type) → [Raw α] → VMM α}
    {seq : (E : Type) → [Raw E] → Bool → VMM (List E)} (what : String) {t : VM} {u : Nat → VM}
    {a : Int} {n : Nat} {ty : VMType} {d : TData}
    (hraw : ∀ (α : Type) [Raw α] (x : α), t.Room a (Raw.size α) → At t.mem a (Raw.enc x) →
      (raw α).run t = .ok x (u (Raw.size α)))
    (hseq : ∀ (E : Type) [Raw E] (v : List E) (pod : Bool), 1 ≤ Raw.size E →
      t.Room a (4 + v.length * Raw.size E) → At t.mem a (arrBytes v) →
      (seq E pod).run t = .ok v (u (4 + v.length * Raw.size E)))
    (hw : d.wf ty = true) (hn : d.size = 1 + n) (h : t.Room a n) (hat : At t.mem a d.payload) :
    (dataOf raw seq what (d.ty ty).code).run t = .ok d (u n) := by
  rw [dataOf, VMType.ofCode_code]
  cases d with
  | none => cases hw
  | real x =>
    obtain rfl : n = 8 := by simp [Data.size] at hn; omega
    exact map_ok (hraw _ x h hat)
  | int x =>
    obtain rfl : n = 8 := by simp [Data.size] at hn; omega
    exact map_ok (hraw _ x h hat)
  | cplx x =>
    obtain rfl : n = 16 := by simp [Data.size] at hn; omega
    exact map_ok (hraw _ x h hat)
  | quat x =>
    obtain rfl : n = 32 := by simp [Data.size] at hn; omega
    exact map_ok (hraw _ x h hat)
  | bool x =>
    obtain rfl : n = 1 := by simp [Data.size] at hn; omega
    exact map_ok (hraw _ x h hat)
  | addr x =>
    obtain rfl : n = 4 := by simp [Data.size] at hn; omega
    cases ty <;> first | exact map_ok (hraw _ x h hat) | cases hw
  | str x =>
    obtain rfl : n = 4 + x.length * 1 := by simp [Data.size] at hn; omega
    exact map_ok (hseq _ x _ (by simp) h hat)
  | realArr x =>
    obtain rfl : n = 4 + x.length * 8 := by simp [Data.size] at hn; omega
    exact map_ok (hseq _ x _ (by simp) h hat)
  | intArr x =>
    obtain rfl : n = 4 + x.length * 8 := by simp [Data.size] at hn; omega
    exact map_ok (hseq _ x _ (by simp) h hat)
  | cplxArr x =>
    obtain rfl : n = 4 + x.length * 16 := by simp [Data.size] at hn; omega
    exact map_ok (hseq _ x _ (by simp) h hat)
  | quatArr x =>
    obtain rfl : n = 4 + x.length * 32 := by simp [Data.size] at hn; omega
    exact map_ok (hseq _ x _ (by simp) h hat)

theorem Data.size_eq_succ (d : TData) : ∃ n, d.size = 1 + n :=
  ⟨d.size - 1, by have := d.size_pos; omega⟩

/-- **`PopData` takes the encoding off the stack.** -/
theorem popData_run {s : VM} {ty : VMType} {d : TData} (hw : d.wf ty = true)
    (h : s.Room s.sp.toInt d.size) (hat : At s.mem s.sp.toInt (d.bytes ty)) :
    popData.run s = .ok d (s.popped d.size) := by
  obtain ⟨n, hn⟩ := d.size_eq_succ
  rw [hn] at h ⊢
  obtain ⟨h1, h2⟩ := at_bytes hat
  have hp : (popRaw UInt8).run s = .ok (d.ty ty).code (s.popped 1) := by
    rw [popRaw_run h.left, size_uint8, h1]
  have e := VM.popped_sp (s := s) (n := 1) h.left
  have hr : (s.popped 1).Room (s.popped 1).sp.toInt n := by rw [e]; exact h.right
  have ha : At (s.popped 1).mem (s.popped 1).sp.toInt d.payload := by
    rw [e]; exact VM.at_cleared h2 (Or.inl (le_refl _))
  rw [popData, bind_ok hp, ← VM.popped_popped h]
  exact dataOf_run _ (u := (s.popped 1).popped) (fun _ _ _ => popRaw_at)
    (fun _ _ _ pod => popSeq_run pod) hw hn hr ha

/-- **`TopData` reads the encoding on top of the stack.** -/
theorem topData_run {s : VM} {ty : VMType} {d : TData} (hw : d.wf ty = true)
    (h : s.Room s.sp.toInt d.size) (hat : At s.mem s.sp.toInt (d.bytes ty)) :
    topData.run s = .ok d s := by
  obtain ⟨n, hn⟩ := d.size_eq_succ
  rw [hn] at h
  obtain ⟨h1, h2⟩ := at_bytes hat
  have hp : (topRaw UInt8 0).run s = .ok (d.ty ty).code s := by
    rw [topRaw_run (by rw [Int32.add_zero]; exact h.left), Int32.add_zero, size_uint8, h1]
  have e : (s.sp + 1).toInt = s.sp.toInt + 1 :=
    Word.toInt_add_nat (n := 1) (by have := h.2; have := s.memsize.toInt_lt; omega)
  have hr : s.Room (s.sp + 1).toInt n := by rw [e]; exact h.right
  have ha : At s.mem (s.sp + 1).toInt d.payload := by rw [e]; exact h2
  rw [topData, bind_ok hp]
  exact dataOf_run _ (u := fun _ => s) (fun _ _ _ => topRaw_at) (fun _ _ _ _ => topSeq_run)
    hw hn hr ha

/-- **`ReadMemData` reads the encoding at an address.** -/
theorem readMemData_run {s : VM} {a : Int32} {ty : VMType} {d : TData} (hw : d.wf ty = true)
    (h : s.Room a.toInt d.size) (hat : At s.mem a.toInt (d.bytes ty)) :
    (readMemData a).run s = .ok (d.ty ty, d) s := by
  obtain ⟨n, hn⟩ := d.size_eq_succ
  rw [hn] at h
  obtain ⟨h1, h2⟩ := at_bytes hat
  have hp : (readMemType a).run s = .ok (d.ty ty).code s := by
    rw [readMemType, readMemRaw_run h.left, size_uint8, h1]
  have e : (a + 1).toInt = a.toInt + 1 :=
    Word.toInt_add_nat (n := 1) (by have := h.2; have := s.memsize.toInt_lt; omega)
  have hr : s.Room (a + 1).toInt n := by rw [e]; exact h.right
  have ha : At s.mem (a + 1).toInt d.payload := by rw [e]; exact h2
  have hd := dataOf_run s!"ReadMemData at address {a}" (u := fun _ => s)
    (fun _ _ _ => readMemRaw_at) (fun _ _ _ _ => readSeq_run) hw hn hr ha
  rw [readMemData, bind_ok hp, bind_ok hd, VMType.ofCode_code, run_pure]
  rfl

theorem writeMemTagged_run {α : Type} [Raw α] {s : VM} {a : Int32} (ty : VMType) (x : α)
    (h : s.Room a.toInt (1 + Raw.size α)) :
    (writeMemTagged a ty x).run s =
      .ok () { s with mem := write s.mem a.toInt (ty.code :: Raw.enc x) } := by
  have e : (a + 1).toInt = a.toInt + 1 :=
    Word.toInt_add_nat (n := 1) (by have := h.2; have := s.memsize.toInt_lt; omega)
  have hr : VM.Room { s with mem := write s.mem a.toInt [ty.code] } (a + 1).toInt
    (Raw.size α) := by rw [e]; exact h.right
  rw [writeMemTagged, bind_ok (writeMemRaw_run ty.code h.left), enc_uint8, writeMemRaw_run x hr, e]
  exact congrArg (fun m => EStateM.Result.ok () { s with mem := m }) (write_append' _ _ [_] _)

theorem writeMemSeq_run {E : Type} [Raw E] {s : VM} {a : Int32} (ty : VMType) (v : List E)
    (h : s.Room a.toInt (1 + (4 + v.length * Raw.size E))) :
    (writeMemRaw a ty.code >>= fun _ => writeSeq (a + 1) v).run s =
      .ok () { s with mem := write s.mem a.toInt (ty.code :: arrBytes v) } := by
  have e : (a + 1).toInt = a.toInt + 1 :=
    Word.toInt_add_nat (n := 1) (by have := h.2; have := s.memsize.toInt_lt; omega)
  have hr : VM.Room { s with mem := write s.mem a.toInt [ty.code] } (a + 1).toInt
    (4 + v.length * Raw.size E) := by rw [e]; exact h.right
  rw [bind_ok (writeMemRaw_run ty.code h.left), enc_uint8, writeSeq_run hr, e]
  exact congrArg (fun m => EStateM.Result.ok () { s with mem := m }) (write_append' _ _ [_] _)

/-- **`WriteMemData` writes the encoding.**  Addresses are not written. -/
theorem writeMemData_run {s : VM} {a : Int32} {d : TData} (hw : d.wf .unknown = true)
    (h : s.Room a.toInt d.size) :
    (writeMemData a d).run s =
      .ok () { s with mem := write s.mem a.toInt (d.bytes .unknown) } := by
  cases d with
  | none => cases hw
  | addr x => cases hw
  | real x => exact writeMemTagged_run .real x h
  | int x => exact writeMemTagged_run .int x h
  | cplx x => exact writeMemTagged_run .cplx x h
  | quat x => exact writeMemTagged_run .quat x h
  | bool x => exact writeMemTagged_run .bool x h
  | str x => exact writeMemSeq_run .str x (h.mono (by simp [Data.size]; omega))
  | realArr x => exact writeMemSeq_run .realArr x (h.mono (by simp [Data.size]; omega))
  | intArr x => exact writeMemSeq_run .intArr x (h.mono (by simp [Data.size]; omega))
  | cplxArr x => exact writeMemSeq_run .cplxArr x (h.mono (by simp [Data.size]; omega))
  | quatArr x => exact writeMemSeq_run .quatArr x (h.mono (by simp [Data.size]; omega))

end MuF
