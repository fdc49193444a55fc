import MuF.VM.Wire

/-!
# Sufficiency of the bounds checks

Which memory and stack primitives stay inside the memory when the checks are on.

* `Prim`: the primitives with all their arguments;
* `Prim.Slips`: the states in which a primitive passes its checks and still leaves the memory:
  pushes are checked above the stack pointer, and the number of bytes of an array wraps;
* main result: `prim_safe_iff`.
-/

set_option linter.unusedVariables false

namespace MuF

open Bytes Exec

/-! ## safe computations -/

section
variable {α β : Type}

/-- a run that accesses no byte outside of the memory -/
def Safe (x : VMM α) (s : VM) : Prop := ∀ w s', x.run s ≠ .error (.ub w) s'

theorem safe_of_ok {x : VMM α} {s s' : VM} {a : α} (h : x.run s = .ok a s') : Safe x s := by
  intro w t
  rw [h]
  exact nofun

theorem safe_pure (a : α) (s : VM) : Safe (pure a) s := safe_of_ok (run_pure a s)

theorem safe_throw (msg : String) (s : VM) : Safe (throw (.throw msg) : VMM α) s := by
  intro w t
  rw [run_throw]
  simp

theorem not_safe_ub (w : String) (s : VM) : ¬ Safe (throw (.ub w) : VMM α) s :=
  fun h => h w s (run_throw _ _)

theorem safe_bind_ok {x : VMM α} {f : α → VMM β} {s s' : VM} {a : α}
    (h : x.run s = .ok a s') : Safe (x >>= f) s ↔ Safe (f a) s' := by
  simp only [Safe, bind_ok h]

theorem safe_get {f : VM → VMM β} {s : VM} : Safe (get >>= f) s ↔ Safe (f s) s :=
  safe_bind_ok (run_get s)

theorem safe_modify {g : VM → VM} {f : Unit → VMM β} {s : VM} :
    Safe (modify g >>= f) s ↔ Safe (f ()) (g s) :=
  safe_bind_ok (run_modify g s)

theorem Safe.of_bind {x : VMM α} {f : α → VMM β} {s : VM} (h : Safe (x >>= f) s) : Safe x s :=
  fun w t ht => h w t (bind_error ht)

/-- a map at the end changes nothing -/
theorem safe_map {x : VMM α} {f : α → β} {s : VM} :
    Safe (x >>= fun a => pure (f a)) s ↔ Safe x s := by
  cases h : x.run s with
  | ok a t =>
    rw [safe_bind_ok h]
    exact iff_of_true (safe_pure _ _) (safe_of_ok h)
  | error e t =>
    simp only [Safe, bind_error h, h, ne_eq, EStateM.Result.error.injEq]

/-- behind a check only the accepted arguments matter -/
theorem safe_check {s : VM} (hc : s.checks = true) {a n : Int32} {f : Unit → VMM β} :
    Safe (checkMemoryBounds a n >>= f) s ↔ (s.inBounds a n = true → Safe (f ()) s) := by
  cases hb : s.inBounds a n with
  | true =>
    rw [safe_bind_ok (checkMemoryBounds_run fun _ => hb)]
    simp
  | false =>
    obtain ⟨msg, hm⟩ := checkMemoryBounds_throw hc hb
    simp only [Bool.false_eq_true, false_implies, iff_true]
    intro w t
    rw [bind_error hm]
    simp

theorem safe_writeBytes {s : VM} {a : Int} {bs : List UInt8} :
    Safe (writeBytes a bs) s ↔ s.allocated a bs.length = true := by
  by_cases h : s.allocated a bs.length = true
  · have hr : (writeBytes a bs).run s = .ok () { s with mem := write s.mem a bs } := by
      rw [writeBytes, run_get_bind, run_if_pos h, run_set]
    exact iff_of_true (safe_of_ok hr) h
  · refine iff_of_false (fun hs => ?_) h
    refine hs "write outside of the memory" s ?_
    rw [writeBytes, run_get_bind, run_if_neg h, run_throw]

theorem safe_readBytes {s : VM} {a : Int} {n : Nat} :
    Safe (readBytes a n) s ↔ s.allocated a n = true := by
  by_cases h : s.allocated a n = true
  · have hr : (readBytes a n).run s = .ok (read s.mem a n) s := by
      rw [readBytes, run_get_bind, run_if_pos h, run_pure]
    exact iff_of_true (safe_of_ok hr) h
  · refine iff_of_false (fun hs => ?_) h
    refine hs "read outside of the memory" s ?_
    rw [readBytes, run_get_bind, run_if_neg h, run_throw]

/-- an accepted address and size lie in the memory -/
theorem VM.room_of_inBounds {s : VM} {a : Int32} {n : Nat} (hn : n < 2^31)
    (h : s.inBounds a (Int32.ofNat n) = true) : s.Room a.toInt n := by
  rw [VM.inBounds_iff] at h
  obtain ⟨h1, h2, h3⟩ := h
  have hm := s.memsize.toInt_lt
  have ha := a.toInt_lt
  by_cases hs : a.toInt + n < 2^31
  · rw [Word.toInt_add_nat hs] at h1
    exact ⟨h3, h1⟩
  · rw [Word.toInt_add_wrap hn (by omega)] at h2
    omega

end

/-! ## raw values -/

section
variable {α β : Type} [Raw α] {s : VM}

/-- fixed-width values are small -/
class Small (α : Type) [Raw α] : Prop where
  pos : 1 ≤ Raw.size α
  lt : Raw.size α < 2^31

instance : Small UInt8 := ⟨by simp, by simp⟩
instance : Small Int32 := ⟨by simp, by simp⟩
instance : Small Int64 := ⟨by simp, by simp⟩
instance : Small TReal := ⟨by simp, by simp⟩
instance : Small (Cplx TReal) := ⟨by simp, by simp⟩
instance : Small (Quat TReal) := ⟨by simp, by simp⟩

variable [Small α]

theorem safe_readMemRaw (hc : s.checks = true) (a : Int32) : Safe (readMemRaw α a) s := by
  rw [readMemRaw, safe_check hc]
  intro h
  rw [safe_map, safe_readBytes]
  exact (VM.room_of_inBounds Small.lt h).allocated

theorem safe_writeMemRaw (hc : s.checks = true) (a : Int32) (x : α) :
    Safe (writeMemRaw a x) s := by
  rw [writeMemRaw, safe_check hc]
  intro h
  rw [safe_writeBytes, Raw.length_enc]
  exact (VM.room_of_inBounds Small.lt h).allocated

theorem safe_topRaw (hc : s.checks = true) (offs : Int32) : Safe (topRaw α offs) s := by
  rw [topRaw, safe_get, safe_check hc]
  intro h
  rw [safe_map, safe_readBytes]
  exact (VM.room_of_inBounds Small.lt h).allocated

theorem safe_popRaw (hc : s.checks = true) : Safe (popRaw α) s := by
  by_cases h : s.inBounds s.sp (sizeOf32 α) = true
  · exact safe_of_ok (popRaw_run (VM.room_of_inBounds Small.lt h))
  · rw [popRaw, safe_get, safe_check hc]
    exact fun h1 => absurd h1 h

/-- a pushed value may only lie below the memory -/
theorem safe_pushRaw_bind (hc : s.checks = true) (hs : s.sp.toInt ≤ s.memsize.toInt) (x : α)
    (f : Unit → VMM β) : Safe (pushRaw x >>= f) s ↔ (s.inBounds s.sp (sizeOf32 α) = true →
      (Raw.size α : Int) ≤ s.sp.toInt ∧ Safe (f ()) (s.pushed (Raw.enc x))) := by
  by_cases h : s.inBounds s.sp (sizeOf32 α) = true
  · have hr := VM.room_of_inBounds Small.lt h
    simp only [h, true_implies]
    by_cases hf : (Raw.size α : Int) ≤ s.sp.toInt
    · rw [safe_bind_ok (pushRaw_run x ⟨hf, hs⟩ fun _ => hr.2)]
      simp [hf]
    · have e : (s.sp - Int32.ofNat (Raw.size α)).toInt = s.sp.toInt - Raw.size α :=
        Word.toInt_sub_nat (by have := hr.1; have := Small.lt (α := α); omega)
      have hu : ¬ Safe (pushRaw x) s := by
        rw [pushRaw, safe_get, safe_check hc, moveSp]
        simp only [h, true_implies]
        rw [safe_modify, safe_writeBytes, Raw.length_enc, e]
        have := Small.pos (α := α)
        simp [VM.allocated]
        omega
      exact iff_of_false (fun hb => hu hb.of_bind) fun hp => hf hp.1
  · refine iff_of_true ?_ fun h1 => absurd h1 h
    rw [pushRaw, bind_assoc, safe_get, bind_assoc, safe_check hc]
    exact fun h1 => absurd h1 h

theorem safe_pushRaw (hc : s.checks = true) (hs : s.sp.toInt ≤ s.memsize.toInt) (x : α) :
    Safe (pushRaw x) s ↔
      (s.inBounds s.sp (sizeOf32 α) = true → (Raw.size α : Int) ≤ s.sp.toInt) := by
  have h := safe_pushRaw_bind hc hs x (fun u => pure u)
  rw [bind_pure] at h
  rw [h]
  simp [safe_pure]

end

/-! ## strings and arrays -/

section
variable {E : Type} [Raw E] {s : VM}

/-- reading elements leaves the memory if their number is not negative and they do not fit -/
theorem safe_readElems (a : Int) (num : Int32) : Safe (readElems E a num) s ↔
    (0 ≤ num.toInt → s.allocated a (num.toInt.toNat * Raw.size E) = true) := by
  by_cases h : num < 0
  · have h' := Int32.lt_iff_toInt_lt.1 h
    rw [Int32.toInt_zero] at h'
    rw [readElems, if_pos h]
    exact iff_of_true (safe_throw _ _) (by omega)
  · have h' := mt Int32.lt_iff_toInt_lt.2 h
    rw [Int32.toInt_zero] at h'
    rw [readElems, if_neg h, safe_map, safe_readBytes]
    simp only [show 0 ≤ num.toInt by omega, true_implies]

/-- copying elements leaves the memory if their number of bytes is negative -/
theorem safe_copyElems (a : Int) (v : List E) (n : Int32) : Safe (copyElems a v n) s ↔
    (0 ≤ n.toInt ∧ s.allocated a ((encElems v).take n.toInt.toNat).length = true) := by
  by_cases h : n < 0
  · have h' := Int32.lt_iff_toInt_lt.1 h
    rw [Int32.toInt_zero] at h'
    rw [copyElems, if_pos h]
    exact iff_of_false (not_safe_ub _ _) (by omega)
  · have h' := mt Int32.lt_iff_toInt_lt.2 h
    rw [Int32.toInt_zero] at h'
    rw [copyElems, if_neg h, safe_writeBytes]
    simp only [show 0 ≤ n.toInt by omega, true_and]

theorem copyElems_ok {a : Int} {v : List E} {n : Int32} (hn : 0 ≤ n.toInt)
    (h : s.Room a n.toInt.toNat) : (copyElems a v n).run s =
      .ok () { s with mem := write s.mem a ((encElems v).take n.toInt.toNat) } := by
  have h' : ¬ n < 0 := by
    rw [Int32.lt_iff_toInt_lt, Int32.toInt_zero]
    omega
  rw [copyElems, run_if_neg h', writeBytes_run (h.mono (List.length_take_le _ _))]

/-- a non-negative word is the natural number it stands for -/
theorem eq_ofNat_of_nonneg {n : Int32} (h : 0 ≤ n.toInt) : n = Int32.ofNat n.toInt.toNat := by
  have hn := n.toInt_lt
  rw [← Int32.toInt_inj, Word.toInt_ofNat (by omega)]
  omega

variable (E) in
/-- the number of bytes of `num` elements wraps to one that is accepted at `a` -/
def VM.WrapsRead (s : VM) (a num : Int32) : Prop :=
  2^31 ≤ num.toInt * Raw.size E ∧ s.inBounds a (num * sizeOf32 E) = true

theorem mul_sizeOf32_of_lt {num : Int32} (h0 : 0 ≤ num.toInt)
    (h : num.toInt * Raw.size E < 2^31) :
    num * sizeOf32 E = Int32.ofNat (num.toInt.toNat * Raw.size E) ∧
      num.toInt.toNat * Raw.size E < 2^31 := by
  have e : ((num.toInt.toNat * Raw.size E : Nat) : Int) = num.toInt * Raw.size E := by
    push_cast
    rw [Int.toNat_of_nonneg h0]
  refine ⟨?_, by omega⟩
  conv_lhs => rw [eq_ofNat_of_nonneg h0]
  rw [sizeOf32_mul]

variable [Small E]

/-- accepted elements fit unless their number of bytes wraps -/
theorem safe_readElems_checked {a num : Int32} (hb : s.inBounds a (num * sizeOf32 E) = true) :
    Safe (readElems E a.toInt num) s ↔ ¬ s.WrapsRead E a num := by
  rw [safe_readElems, VM.WrapsRead]
  simp only [hb, and_true]
  by_cases h0 : 0 ≤ num.toInt
  · by_cases hw : 2^31 ≤ num.toInt * Raw.size E
    · refine iff_of_false (fun h => ?_) (fun h => h hw)
      have ha := (VM.inBounds_iff _ _ _).1 hb
      have hm := s.memsize.toInt_lt
      have e : ((num.toInt.toNat * Raw.size E : Nat) : Int) = num.toInt * Raw.size E := by
        push_cast
        rw [Int.toNat_of_nonneg h0]
      have h1 := h h0
      simp only [VM.allocated, Bool.or_eq_true, decide_eq_true_eq, Bool.and_eq_true, e] at h1
      omega
    · refine iff_of_true (fun _ => ?_) hw
      obtain ⟨e, hlt⟩ := mul_sizeOf32_of_lt (E := E) h0 (by omega)
      rw [e] at hb
      exact (VM.room_of_inBounds hlt hb).allocated
  · refine iff_of_true (fun h => absurd h h0) ?_
    have := Small.pos (α := E)
    have h2 : num.toInt * Raw.size E ≤ 0 :=
      Int.mul_nonpos_of_nonpos_of_nonneg (by omega) (by omega)
    omega

theorem safe_topSeq (hc : s.checks = true) (offs : Int32) : Safe (topSeq E offs) s ↔
    (s.inBounds (s.sp + offs) 4 = true →
      ¬ s.WrapsRead E (s.sp + offs + 4) (Raw.dec (read s.mem (s.sp + offs).toInt 4))) := by
  by_cases h : s.inBounds (s.sp + offs) 4 = true
  · have hr := VM.room_of_inBounds (n := 4) (by decide) h
    rw [topSeq, safe_bind_ok (topRaw_run (α := Int32) hr), safe_get, safe_check hc]
    simp only [h, true_implies]
    constructor
    · intro h1 hw
      exact (safe_readElems_checked hw.2).1 (h1 hw.2) hw
    · intro h1 hb
      exact (safe_readElems_checked hb).2 h1
  · refine iff_of_true ?_ fun h1 => absurd h1 h
    rw [topSeq, topRaw, bind_assoc, safe_get, bind_assoc, safe_check hc]
    exact fun h1 => absurd h1 h

theorem safe_readSeq (hc : s.checks = true) (a : Int32) : Safe (readSeq E a) s ↔
    (s.inBounds a 4 = true → ¬ s.WrapsRead E (a + 4) (Raw.dec (read s.mem a.toInt 4))) := by
  by_cases h : s.inBounds a 4 = true
  · have hr := VM.room_of_inBounds (n := 4) (by decide) h
    rw [readSeq, safe_bind_ok (readMemRaw_run (α := Int32) hr), safe_check hc]
    simp only [h, true_implies]
    constructor
    · intro h1 hw
      exact (safe_readElems_checked hw.2).1 (h1 hw.2) hw
    · intro h1 hb
      exact (safe_readElems_checked hb).2 h1
  · refine iff_of_true ?_ fun h1 => absurd h1 h
    rw [readSeq, readMemRaw, bind_assoc, safe_check hc]
    exact fun h1 => absurd h1 h

omit [Small E] in
/-- elements that were read fit, and their bytes can be cleared -/
theorem readElems_inv {a num : Int32} {vec : List E} {t : VM}
    (hb : s.inBounds a (num * sizeOf32 E) = true) (hw : ¬ s.WrapsRead E a num)
    (h : (readElems E a.toInt num).run s = .ok vec t) :
    t = s ∧ ∃ n : Nat, n < 2^31 ∧ num = Int32.ofNat n ∧ s.Room a.toInt (n * Raw.size E) := by
  by_cases hn : num < 0
  · rw [readElems, run_if_pos hn, run_throw] at h
    cases h
  · have h0 := mt Int32.lt_iff_toInt_lt.2 hn
    rw [Int32.toInt_zero] at h0
    have hlt : num.toInt * Raw.size E < 2^31 := by
      by_contra hge
      exact hw ⟨by omega, hb⟩
    obtain ⟨e, hlt'⟩ := mul_sizeOf32_of_lt (E := E) (by omega) hlt
    rw [e] at hb
    have hr := VM.room_of_inBounds hlt' hb
    rw [readElems, run_if_neg hn, bind_ok (readBytes_run hr), run_pure] at h
    cases h
    have := num.toInt_lt
    exact ⟨rfl, num.toInt.toNat, by omega, eq_ofNat_of_nonneg (by omega), hr⟩

theorem safe_popSeq (hc : s.checks = true) (pod : Bool) : Safe (popSeq E pod) s ↔
    (s.inBounds s.sp 4 = true →
      ¬ s.WrapsRead E (s.sp + 4) (Raw.dec (read s.mem s.sp.toInt 4))) := by
  by_cases h : s.inBounds s.sp 4 = true
  · have hr := VM.room_of_inBounds (n := 4) (by decide) h
    have hp : (popRaw Int32).run s = .ok _ (s.popped 4) := popRaw_run (α := Int32) hr
    rw [popSeq, safe_bind_ok hp, safe_get, safe_check (s := s.popped 4) hc]
    simp only [h, true_implies, size_int32]
    change _ ↔ ¬ (s.popped 4).WrapsRead E (s.popped 4).sp _
    generalize (Raw.dec (read s.mem s.sp.toInt 4) : Int32) = num
    generalize s.popped 4 = t
    constructor
    · intro h1 hw
      exact (safe_readElems_checked hw.2).1 (h1 hw.2).of_bind hw
    · intro h1 hb
      cases he : (readElems E t.sp.toInt num).run t with
      | error e u =>
        intro w u' hu
        rw [bind_error he] at hu
        cases hu
        exact (safe_readElems_checked hb).2 h1 w u he
      | ok vec u =>
        obtain ⟨rfl, n, hn, rfl, hroom⟩ := readElems_inv hb h1 he
        have hcl := clearElems_run (E := E)
          (s := { u with sp := u.sp + Int32.ofNat n * sizeOf32 E }) pod hn hroom
        rw [safe_bind_ok he, moveSp, safe_modify, safe_bind_ok (clearIf_run hcl)]
        exact safe_pure _ _
  · refine iff_of_true ?_ fun h1 => absurd h1 h
    rw [popSeq, popRaw, bind_assoc, safe_get, bind_assoc, safe_check hc]
    exact fun h1 => absurd h1 h

end

/-! ## pushes and writes of several parts -/

section
variable {α E : Type} [Raw α] [Small α] [Raw E] {s : VM}

/-- pushing `p` bytes of elements, their number and a descriptor passes the checks and leaves the
memory: `p` wraps to a negative amount, or the number or the descriptor comes to lie below it -/
def VM.SlipsPush (s : VM) (p : Int32) (raw : Bool) : Prop :=
  s.inBounds s.sp (-p) = true ∧ (p.toInt < 0 ∨
    s.inBounds (s.sp - p) 4 = true ∧ (s.sp - p).toInt < if raw then 4 else 5)

/-- writing `p` bytes of elements behind their number passes the checks and leaves the memory: `p`
wraps to a negative amount -/
def VM.SlipsWrite (s : VM) (a p : Int32) : Prop :=
  p.toInt < 0 ∧ s.inBounds a (4 + p) = true ∧ s.inBounds a 4 = true

theorem safe_onlyIf_pushDescr (hc : s.checks = true) (hs : s.sp.toInt ≤ s.memsize.toInt)
    (raw : Bool) (ty : VMType) : Safe (onlyIf (!raw) (pushDescr ty)) s ↔
      (raw = false → s.inBounds s.sp 1 = true → 1 ≤ s.sp.toInt) := by
  cases raw with
  | true => exact iff_of_true (safe_of_ok (run_onlyIf_false _ _)) nofun
  | false =>
    simp only [Bool.not_false, true_implies]
    exact safe_pushRaw (α := UInt8) hc hs ty.code

theorem inBounds_neg {n : Nat} (hn : n < 2^31) (h0 : 0 ≤ s.sp.toInt)
    (hs : s.sp.toInt ≤ s.memsize.toInt) :
    s.inBounds s.sp (-Int32.ofNat n) = true ↔ (n : Int) ≤ s.sp.toInt := by
  rw [VM.inBounds_iff, Int32.add_neg_eq_sub, Word.toInt_sub_nat (by omega)]
  omega

theorem safe_pushTuple (hc : s.checks = true) (h0 : 0 ≤ s.sp.toInt)
    (hs : s.sp.toInt ≤ s.memsize.toInt) (x : α) (ty : VMType) (raw : Bool) :
    Safe (pushTuple x ty raw) s ↔ ¬ (raw = false ∧ s.sp.toInt = Raw.size α) := by
  rw [pushTuple, safe_get, safe_check hc, inBounds_neg Small.lt h0 hs]
  by_cases h : (Raw.size α : Int) ≤ s.sp.toInt
  · have hf : s.Fits (Raw.size α) := ⟨h, hs⟩
    have hl : (Raw.enc x).length = Raw.size α := Raw.length_enc x
    have hp := pushBytes_run (b := Raw.enc x) (by rw [hl]; exact hf)
    have hsp := VM.pushed_sp (b := Raw.enc x) (by rw [hl]; exact hf)
    rw [hl] at hp hsp
    have hpos := Small.pos (α := α)
    simp only [h, true_implies]
    have em : (s.pushed (Raw.enc x)).memsize = s.memsize := rfl
    have hs1 : (s.pushed (Raw.enc x)).sp.toInt ≤ (s.pushed (Raw.enc x)).memsize.toInt := by
      rw [hsp, em]; omega
    have hb : (s.pushed (Raw.enc x)).inBounds (s.pushed (Raw.enc x)).sp 1 = true :=
      VM.Room.inBounds (n := 1) ⟨by omega, by rw [hsp, em]; omega⟩
    rw [← bind_assoc, safe_bind_ok hp, safe_onlyIf_pushDescr (s := s.pushed (Raw.enc x)) hc hs1,
      hsp]
    simp only [hb, true_implies, not_and]
    constructor
    · intro h1 hr; have := h1 hr; omega
    · intro h1 hr; have := h1 hr; omega
  · refine iff_of_true (fun h1 => absurd h1 h) ?_
    omega

/-- the number and the descriptor of pushed elements -/
theorem safe_pushLength (hc : s.checks = true) (h0 : 0 ≤ s.sp.toInt)
    (hs : s.sp.toInt ≤ s.memsize.toInt) (num : Int32) (ty : VMType) (raw : Bool) :
    Safe (pushRaw num >>= fun _ => onlyIf (!raw) (pushDescr ty)) s ↔
      (s.inBounds s.sp 4 = true → ¬ s.sp.toInt < if raw then 4 else 5) := by
  rw [safe_pushRaw_bind hc hs]
  by_cases h : s.inBounds s.sp 4 = true
  · have hr := VM.room_of_inBounds (n := 4) (by decide) h
    have h' : s.inBounds s.sp (sizeOf32 Int32) = true := h
    simp only [size_int32, h, h', true_implies]
    by_cases h4 : ((4 : Nat) : Int) ≤ s.sp.toInt
    · have hsp := VM.pushed_sp (s := s) (b := Raw.enc num) ⟨h4, hs⟩
      have em : (s.pushed (Raw.enc num)).memsize = s.memsize := rfl
      rw [show (Raw.enc num).length = 4 from Raw.length_enc num] at hsp
      have hb : (s.pushed (Raw.enc num)).inBounds (s.pushed (Raw.enc num)).sp 1 = true :=
        VM.Room.inBounds (n := 1) ⟨by omega, by rw [hsp, em]; omega⟩
      rw [safe_onlyIf_pushDescr (s := s.pushed (Raw.enc num)) hc (by rw [hsp, em]; omega), hsp]
      simp only [h4, hb, true_and, true_implies]
      cases raw with
      | true => exact iff_of_true nofun (by simp only [if_true]; omega)
      | false => simp only [true_implies, Bool.false_eq_true, if_false]; omega
    · refine iff_of_false (fun hp => h4 hp.1) ?_
      split <;> omega
  · exact iff_of_true (fun h1 => absurd h1 h) fun h1 => absurd h1 h

theorem safe_pushSeq (hc : s.checks = true) (h0 : 0 ≤ s.sp.toInt)
    (hs : s.sp.toInt ≤ s.memsize.toInt) (v : List E) (ty : VMType) (raw : Bool) :
    Safe (pushSeq v ty raw) s ↔ ¬ s.SlipsPush (Int32.ofNat v.length * sizeOf32 E) raw := by
  rw [pushSeq, safe_get, safe_check hc, Int32.neg_mul, VM.SlipsPush]
  generalize Int32.ofNat v.length * sizeOf32 E = p
  by_cases h : s.inBounds s.sp (-p) = true
  · simp only [h, true_implies, true_and, not_or, not_and]
    obtain ⟨hb1, hb2, -⟩ := (VM.inBounds_iff _ _ _).1 h
    rw [Int32.add_neg_eq_sub] at hb1 hb2
    rw [moveSp, safe_modify, Int32.add_neg_eq_sub]
    by_cases hp : p.toInt < 0
    · refine iff_of_false (fun h1 => ?_) fun h1 => h1.1 hp
      have := (safe_copyElems _ _ _).1 h1.of_bind
      omega
    · have e : (s.sp - p).toInt = s.sp.toInt - p.toInt :=
        Word.toInt_sub (by have := p.toInt_lt; omega) (by have := s.sp.toInt_lt; omega)
      have hc1 := copyElems_ok (s := { s with sp := s.sp - p }) (a := (s.sp - p).toInt) (v := v)
        (n := p) (by omega) ⟨hb2, by rw [e]; simp only []; omega⟩
      rw [safe_bind_ok hc1, safe_pushLength (s := { s with mem := _, sp := s.sp - p }) hc hb2 hb1]
      simp only [hp, not_false_eq_true, true_and]
      exact Iff.rfl
  · exact iff_of_true (fun h1 => absurd h1 h) fun h1 => h h1.1

theorem safe_writeSeq (hc : s.checks = true) (v : List E) (a : Int32) :
    Safe (writeSeq a v) s ↔ ¬ s.SlipsWrite a (Int32.ofNat v.length * sizeOf32 E) := by
  rw [writeSeq, safe_check hc, VM.SlipsWrite]
  generalize Int32.ofNat v.length * sizeOf32 E = p
  by_cases h : s.inBounds a (4 + p) = true
  · by_cases h4 : s.inBounds a 4 = true
    · have hr := VM.room_of_inBounds (n := 4) (by decide) h4
      simp only [h, h4, true_implies, and_true, Int.not_lt]
      rw [safe_bind_ok (writeMemRaw_run _ hr), safe_copyElems]
      by_cases hp : 0 ≤ p.toInt
      · have e : (a + 4).toInt = a.toInt + 4 :=
          Word.toInt_add_nat (n := 4) (by have := hr.2; have := s.memsize.toInt_lt; omega)
        have hb : s.inBounds (a + 4) p = true := by
          rw [VM.inBounds_iff] at h ⊢
          rw [← Int32.add_assoc] at h
          have := hr.1
          omega
        rw [eq_ofNat_of_nonneg hp] at hb
        have hroom := VM.room_of_inBounds (by have := p.toInt_lt; omega) hb
        have hl := List.length_take_le p.toInt.toNat (encElems v)
        simp only [hp, true_and, iff_true]
        exact (hroom.mono hl).allocated
      · exact iff_of_false (fun h1 => hp h1.1) hp
    · refine iff_of_true (fun _ => ?_) fun h1 => h4 h1.2.2
      rw [writeMemRaw, bind_assoc, safe_check hc]
      exact fun h1 => absurd h1 h4
  · exact iff_of_true (fun h1 => absurd h1 h) fun h1 => h h1.2.1

end

/-! ## the primitives -/

/-- types that are pushed by `PushRaw` -/
inductive PrimTy
  | byte | addr | int | real

/-- types of a fixed width -/
inductive RawTy
  | prim (t : PrimTy)
  | cplx | quat

/-- types of array elements -/
inductive ElemTy
  | real | int | cplx | quat

/-- the values of a type -/
abbrev PrimTy.type : PrimTy → Type
  | .byte => UInt8
  | .addr => Int32
  | .int => Int64
  | .real => TReal

/-- the values of a type -/
abbrev RawTy.type : RawTy → Type
  | .prim t => t.type
  | .cplx => Cplx TReal
  | .quat => Quat TReal

/-- the values of a type -/
abbrev ElemTy.type : ElemTy → Type
  | .real => TReal
  | .int => Int64
  | .cplx => Cplx TReal
  | .quat => Quat TReal

instance (t : PrimTy) : Raw t.type :=
  match t with
  | .byte => inferInstanceAs (Raw UInt8)
  | .addr => inferInstanceAs (Raw Int32)
  | .int => inferInstanceAs (Raw Int64)
  | .real => inferInstanceAs (Raw TReal)

instance (t : PrimTy) : Small t.type := by cases t <;> exact ⟨by decide, by decide⟩

instance (t : RawTy) : Raw t.type :=
  match t with
  | .prim t => inferInstanceAs (Raw t.type)
  | .cplx => inferInstanceAs (Raw (Cplx TReal))
  | .quat => inferInstanceAs (Raw (Quat TReal))

instance (t : RawTy) : Small t.type :=
  match t with
  | .prim t => inferInstanceAs (Small t.type)
  | .cplx => inferInstanceAs (Small (Cplx TReal))
  | .quat => inferInstanceAs (Small (Quat TReal))

instance (e : ElemTy) : Elem e.type :=
  match e with
  | .real => inferInstanceAs (Elem TReal)
  | .int => inferInstanceAs (Elem Int64)
  | .cplx => inferInstanceAs (Elem (Cplx TReal))
  | .quat => inferInstanceAs (Elem (Quat TReal))

instance (e : ElemTy) : Small e.type := by cases e <;> exact ⟨by decide, by decide⟩

/-- the stack and memory primitives with their arguments -/
inductive Prim
  | pushRaw (t : PrimTy) (val : t.type)
  | popRaw (t : RawTy)
  | topRaw (t : RawTy) (spOffs : Int32)
  | pushComplex (val : Cplx TReal) (raw : Bool)
  | pushQuaternion (val : Quat TReal) (raw : Bool)
  | pushString (str : Str) (raw : Bool)
  | popString
  | topString (spOffs : Int32)
  | pushArray (e : ElemTy) (vec : List e.type) (raw : Bool)
  | popArray (e : ElemTy)
  | topArray (e : ElemTy) (spOffs : Int32)
  | readMemRaw (t : RawTy) (addr : Int32)
  | writeMemRaw (t : RawTy) (addr : Int32) (val : t.type)
  | readMemStr (addr : Int32)
  | writeMemStr (addr : Int32) (str : Str)
  | readArrayRaw (e : ElemTy) (addr : Int32)
  | writeArray (e : ElemTy) (addr : Int32) (vec : List e.type) (raw : Bool)

/-- a computation without its result -/
def ignore {α : Type} (x : VMM α) : VMM Unit := x >>= fun _ => pure ()

/-- run a primitive -/
def Prim.exec : Prim → VMM Unit
  | .pushRaw _ val => MuF.pushRaw val
  | .popRaw t => ignore (MuF.popRaw t.type)
  | .topRaw t offs => ignore (MuF.topRaw t.type offs)
  | .pushComplex val raw => MuF.pushComplex val raw
  | .pushQuaternion val raw => MuF.pushQuaternion val raw
  | .pushString str raw => MuF.pushString str raw
  | .popString => ignore MuF.popString
  | .topString offs => ignore (MuF.topString offs)
  | .pushArray _ vec raw => MuF.pushArray vec raw
  | .popArray e => ignore (MuF.popArray e.type)
  | .topArray e offs => ignore (MuF.topArray e.type offs)
  | .readMemRaw t addr => ignore (MuF.readMemRaw t.type addr)
  | .writeMemRaw _ addr val => MuF.writeMemRaw addr val
  | .readMemStr addr => ignore (MuF.readMemStr addr)
  | .writeMemStr addr str => MuF.writeMemStr addr str
  | .readArrayRaw e addr => ignore (MuF.readArrayRaw e.type addr)
  | .writeArray _ addr vec raw => MuF.writeArray addr vec raw

/-- the length field at `a` -/
def VM.lengthAt (s : VM) (a : Int32) : Int32 := Raw.dec (read s.mem a.toInt 4)

/-- number of bytes of the elements of a container, as an address -/
def elemBytes {E : Type} [Raw E] (vec : List E) : Int32 := Int32.ofNat vec.length * sizeOf32 E

/-- the states in which a primitive passes its checks and leaves the memory -/
def Prim.Slips (s : VM) : Prim → Prop
  | .pushRaw t _ => s.inBounds s.sp (sizeOf32 t.type) = true ∧ s.sp.toInt < Raw.size t.type
  | .pushComplex _ raw => raw = false ∧ s.sp = 16
  | .pushQuaternion _ raw => raw = false ∧ s.sp = 32
  | .pushString str raw => s.SlipsPush (elemBytes str) raw
  | .pushArray _ vec raw => s.SlipsPush (elemBytes vec) raw
  | .popArray e => s.inBounds s.sp 4 = true ∧ s.WrapsRead e.type (s.sp + 4) (s.lengthAt s.sp)
  | .topArray e offs => s.inBounds (s.sp + offs) 4 = true ∧
      s.WrapsRead e.type (s.sp + offs + 4) (s.lengthAt (s.sp + offs))
  | .readArrayRaw e addr => s.inBounds addr 4 = true ∧
      s.WrapsRead e.type (addr + 4) (s.lengthAt addr)
  | .writeMemStr addr str => s.SlipsWrite addr (elemBytes str)
  | .writeArray _ addr vec raw =>
    if raw then s.SlipsWrite addr (elemBytes vec)
    else s.inBounds addr 1 = true ∧ s.SlipsWrite (addr + 1) (elemBytes vec)
  | .popRaw _ | .topRaw _ _ | .popString | .topString _ | .readMemRaw _ _ | .writeMemRaw _ _ _
  | .readMemStr _ => False

section
variable {s : VM}

theorem checkPointer_ok {name : String} {reg : Int32} {data : Bool} {t : VM}
    (h : (checkPointer name reg data).run s = .ok () t) :
    t = s ∧ s.badPointer reg data = false := by
  rw [checkPointer, run_get_bind] at h
  by_cases hb : s.badPointer reg data = true
  · rw [run_if_pos hb, run_throw] at h
    cases h
  · rw [run_if_neg hb, run_pure] at h
    cases h
    exact ⟨rfl, by simpa using hb⟩

/-- an accepted stack pointer lies in the memory -/
theorem checkPointerBounds_sp (hc : s.checks = true) (h : checkPointerBounds.run s = .ok () s) :
    0 ≤ s.sp.toInt ∧ s.sp.toInt ≤ s.memsize.toInt := by
  rw [checkPointerBounds, run_get_bind, hc, run_onlyIf_true] at h
  obtain ⟨_, s1, h1, h⟩ := bind_eq_ok.1 h
  obtain ⟨rfl, -⟩ := checkPointer_ok h1
  obtain ⟨_, s2, h2, -⟩ := bind_eq_ok.1 h
  obtain ⟨-, hb⟩ := checkPointer_ok h2
  simp only [VM.badPointer, Bool.or_eq_false_iff, decide_eq_false_iff_not,
    Int32.lt_iff_toInt_lt, Int32.toInt_zero, gt_iff_lt] at hb
  omega

/-- strings are made of single bytes, whose number does not wrap -/
theorem not_wrapsRead_byte (a num : Int32) : ¬ s.WrapsRead UInt8 a num := by
  intro h
  have := h.1
  have := num.toInt_lt
  simp only [size_uint8] at *
  omega

theorem eq_lit_iff {n : Nat} (hn : n < 2^31) : s.sp.toInt = n ↔ s.sp = Int32.ofNat n := by
  rw [← Int32.toInt_inj, Word.toInt_ofNat hn]

/-- **With the checks on, a primitive stays in the memory unless it slips.** -/
theorem prim_safe_iff (p : Prim) (s : VM) (hc : s.checks = true)
    (h : checkPointerBounds.run s = .ok () s) : Safe p.exec s ↔ ¬ p.Slips s := by
  obtain ⟨h0, hs⟩ := checkPointerBounds_sp hc h
  cases p with
  | pushRaw t val =>
    rw [Prim.exec, safe_pushRaw hc hs, Prim.Slips, not_and, Int.not_lt]
  | popRaw t => exact iff_of_true (safe_map.2 (safe_popRaw hc)) not_false
  | topRaw t offs => exact iff_of_true (safe_map.2 (safe_topRaw hc offs)) not_false
  | pushComplex val raw =>
    rw [Prim.exec, pushComplex, safe_pushTuple hc h0 hs, Prim.Slips]
    exact not_congr (and_congr_right fun _ => eq_lit_iff (n := 16) (by decide))
  | pushQuaternion val raw =>
    rw [Prim.exec, pushQuaternion, safe_pushTuple hc h0 hs, Prim.Slips]
    exact not_congr (and_congr_right fun _ => eq_lit_iff (n := 32) (by decide))
  | pushString str raw => exact safe_pushSeq hc h0 hs str _ raw
  | popString =>
    rw [Prim.exec, ignore, safe_map, popString, safe_popSeq hc]
    exact iff_of_true (fun _ => not_wrapsRead_byte _ _) not_false
  | topString offs =>
    rw [Prim.exec, ignore, safe_map, topString, safe_topSeq hc]
    exact iff_of_true (fun _ => not_wrapsRead_byte _ _) not_false
  | pushArray e vec raw => exact safe_pushSeq hc h0 hs vec _ raw
  | popArray e =>
    rw [Prim.exec, ignore, safe_map, popArray, safe_popSeq hc, Prim.Slips, not_and]
    rfl
  | topArray e offs =>
    rw [Prim.exec, ignore, safe_map, topArray, safe_topSeq hc, Prim.Slips, not_and]
    rfl
  | readMemRaw t addr => exact iff_of_true (safe_map.2 (safe_readMemRaw hc addr)) not_false
  | writeMemRaw t addr val => exact iff_of_true (safe_writeMemRaw hc addr val) not_false
  | readMemStr addr =>
    rw [Prim.exec, ignore, safe_map, readMemStr, safe_readSeq hc]
    exact iff_of_true (fun _ => not_wrapsRead_byte _ _) not_false
  | writeMemStr addr str => exact safe_writeSeq hc str addr
  | readArrayRaw e addr =>
    rw [Prim.exec, ignore, safe_map, readArrayRaw, safe_readSeq hc, Prim.Slips, not_and]
    rfl
  | writeArray e addr vec raw =>
    cases raw with
    | true => exact safe_writeSeq hc vec addr
    | false =>
      rw [Prim.exec, writeArray, Prim.Slips]
      simp only [Bool.false_eq_true, if_false, not_and]
      by_cases hb : s.inBounds addr 1 = true
      · have hr := VM.room_of_inBounds (n := 1) (by decide) hb
        have hw (m : Mem) : Safe (writeSeq (addr + 1) vec) { s with mem := m } ↔
            ¬ s.SlipsWrite (addr + 1) (elemBytes vec) :=
          safe_writeSeq (s := { s with mem := m }) hc vec (addr + 1)
        rw [safe_bind_ok (writeMemRaw_run (α := UInt8) _ hr), hw]
        simp only [hb, true_implies]
      · refine iff_of_true ?_ fun h1 => absurd h1 hb
        rw [MuF.writeMemRaw, bind_assoc, safe_check hc]
        exact fun h1 => absurd h1 hb

end

/-- the machine with 64 bytes and an empty stack pointer at the start of the memory -/
def vmStackFull : VM := { @VM.init ⟨40, by decide⟩ 64 ⟨0⟩ [] with sp := 0 }

theorem prim_safe_iff_string :
    Safe (Prim.pushString [1, 2, 3] true).exec { vmStackFull with sp := 16 } :=
  (prim_safe_iff _ _ rfl rfl).2 fun h => by
    rcases h.2 with h | h
    · exact absurd h (by decide)
    · exact absurd h.2 (by decide)

/-- a byte pushed at stack pointer 0 passes the check and is written in front of the memory -/
theorem bounds_checks_insufficient : ¬ ∀ (p : Prim) (s : VM), s.checks = true →
    checkPointerBounds.run s = .ok () s → Safe p.exec s := by
  intro h
  have h1 : Safe (pushRaw (1 : UInt8)) vmStackFull := h (.pushRaw .byte 1) _ rfl rfl
  have h2 := (safe_pushRaw rfl (by decide) _).1 h1 (by decide)
  exact absurd h2 (by decide)

end MuF
