import MuF.VM.Stack

/-!
# Calls and returns

* `opCall_run`, `opRet_run`: the runs of `CALL` and `RET` on stacks that hold what they expect;
* `Call.enter`, `Call.leave`: the instructions around a call, from the pushes of the arguments to
  `CALL`, and from the pushes of the results to `RET`;
* `Body`: what the code of a function may do in between, with calls of any depth;
* `Body.kept`: such code keeps the frame of its caller;
* `call_ret_inverse`: after `RET` the caller finds its registers and its stack with the results.
-/

set_option linter.unusedVariables false

namespace MuF

open Bytes Exec

/-! ## memory around the stack pointer -/

theorem VM.pushed_above {s : VM} {b : List UInt8} {i : Int} (h : s.sp.toInt ≤ i) :
    (s.pushed b).mem i = s.mem i :=
  write_outside _ _ _ _ (Or.inr (by omega))

theorem VM.popped_outside {s : VM} {n : Nat} {i : Int}
    (h : i < s.sp.toInt ∨ s.sp.toInt + n ≤ i) : (s.popped n).mem i = s.mem i :=
  s.cleared_outside _ _ _ h

/-- results of a function with the descriptors of their types -/
def plain (ds : List TData) : List Item := ds.map fun d => (d, .unknown)

@[simp] theorem plain_reverse (ds : List TData) : plain ds.reverse = (plain ds).reverse := by
  simp [plain]

@[simp] theorem length_plain (ds : List TData) : (plain ds).length = ds.length := by
  simp [plain]

@[simp] theorem plain_fst (ds : List TData) : (plain ds).map Prod.fst = ds := by
  simp [plain, Function.comp_def]

/-! ## CALL -/

/-- the registers that a call saves, the base pointer on top -/
def savedRegs (bp ip : Int32) : List Item := [(.addr bp, .addrMem), (.addr ip, .addrMem)]

theorem items_savedRegs (bp ip : Int32) : Items (savedRegs bp ip) := by
  intro p hp
  simp only [savedRegs, List.mem_cons, List.not_mem_nil, or_false] at hp
  rcases hp with rfl | rfl <;> rfl

@[simp] theorem sizes_savedRegs (bp ip : Int32) : sizes (savedRegs bp ip) = 10 := rfl

theorem pushAddress_run {s : VM} (a : Int32) (ty : VMType) (h : s.Pushable 5) :
    (pushAddress a ty).run s = .ok () (s.pushed ((Data.addr a : TData).bytes ty)) :=
  pushRawDescr_run a ty h.1 (by simp) fun _ => by have := h.2; simp; omega

/-- the state after `CALL` with the frame size and the target taken off the stack -/
def VM.called (s : VM) (f : Int64) (target : Int32) : VM :=
  { s.pushed (encs (savedRegs s.bp s.ip)) with
    bp := s.sp - 10
    sp := Int32.ofInt ((s.sp - 10).toInt - f.toInt)
    ip := target }

theorem opCall_run {s : VM} {a r : Int32} {f : Int64} {ty : VMType} {p : Item} {ds : List Item}
    (h : s.Holds ((.addr a, ty) :: p :: ds)) (hp : p.1 = .int f)
    (hr : (s.popped 5).base ty = some r) (hs : (s.popped 14).Pushable 10) :
    opCall.run s = .ok () ((s.popped 14).called f (a + r)) := by
  obtain ⟨d, tf⟩ := p
  subst hp
  have h1 := popAddress_run h hr
  have h2 := popInt_run (x := f) h.tail
  have e : (s.popped 5).popped 9 = s.popped 14 :=
    VM.popped_popped (h.room.mono (by simp [Data.size]; omega))
  have h3 := pushAddress_run (s := s.popped 14) s.ip .addrMem (hs.mono (by omega))
  have h4 := pushAddress_run (s := (s.popped 14).pushed ((Data.addr s.ip : TData).bytes .addrMem))
    s.bp .addrMem (VM.Pushable.pushed (by rw [Data.length_bytes]; exact hs))
  rw [VM.pushed_pushed (by simp only [Data.length_bytes]; exact hs.1)] at h4
  simp only [Data.size] at h2
  rw [e] at h2
  rw [opCall, bind_ok h1, bind_ok h2, run_get_bind]
  rw [show (s.popped 14).ip = s.ip from rfl, show (s.popped 14).bp = s.bp from rfl]
  rw [bind_ok h3, bind_ok h4, run_modify]
  rfl

/-! ## RET -/

theorem toInt_toInt64_add {a : Int32} {f : Int64} (h0 : 0 ≤ f.toInt) (h1 : f.toInt < 2^31) :
    (a.toInt64 + f).toInt = a.toInt + f.toInt := by
  have h2 := a.le_toInt
  have h3 := a.toInt_lt
  rw [Int64.toInt_add, Int32.toInt_toInt64]
  exact Int.bmod_eq_of_le (by simp only [Nat.reducePow]; omega) (by simp only [Nat.reducePow]; omega)

/-- the values above a frame are popped one by one until the frame is reached -/
theorem popRetvals_run {s : VM} {ds : List Item} {f : Int64} (fuel : Nat) (acc : List TData)
    (h : s.Holds ds) (h0 : 0 ≤ f.toInt) (h1 : f.toInt < 2^31)
    (hb : s.sp.toInt + sizes ds + f.toInt = s.bp.toInt) (hf : ds.length < fuel) :
    (popRetvals f fuel acc).run s = .ok (acc ++ ds.map Prod.fst) (s.popped (sizes ds)) := by
  induction ds generalizing s fuel acc with
  | nil =>
    obtain ⟨fuel, rfl⟩ : ∃ n, fuel = n + 1 := ⟨fuel - 1, by simp at hf; omega⟩
    have hc : ¬ s.sp.toInt64 + f < s.bp.toInt64 := by
      rw [Int64.lt_iff_toInt_lt, toInt_toInt64_add h0 h1, Int32.toInt_toInt64]
      simp only [sizes_nil] at hb
      omega
    rw [popRetvals, run_get_bind, run_if_neg hc, run_pure]
    simp
  | cons p ds ih =>
    obtain ⟨fuel, rfl⟩ : ∃ n, fuel = n + 1 := ⟨fuel - 1, by simp at hf; omega⟩
    have hr : s.Room s.sp.toInt (p.1.size + sizes ds) := h.room
    have hz := p.1.size_pos
    rw [sizes_cons] at hb
    have hc : s.sp.toInt64 + f < s.bp.toInt64 := by
      rw [Int64.lt_iff_toInt_lt, toInt_toInt64_add h0 h1, Int32.toInt_toInt64]
      omega
    have hb' : (s.popped p.1.size).sp.toInt + sizes ds + f.toInt = (s.popped p.1.size).bp.toInt := by
      have e : (s.popped p.1.size).bp = s.bp := rfl
      rw [VM.popped_sp hr.left, e]
      omega
    rw [popRetvals, run_get_bind, run_if_pos hc, bind_ok h.head,
      ih fuel (acc ++ [p.1]) h.tail hb' (by simpa using hf), VM.popped_popped hr, sizes_cons]
    simp

theorem Int64.toInt_ofNat_small {n : Nat} (h : n < 2^31) : (Int64.ofNat n).toInt = n :=
  Int64.toInt_ofNat_of_lt (by omega)

/-- the state in which `RET` finds the results `ds` above a frame of `f` bytes -/
structure VM.Leaving (t : VM) (f n : Int64) (ds : List Item) : Prop where
  holds : t.Holds ((.int n, .unknown) :: (.int f, .unknown) :: ds)
  frame_nonneg : 0 ≤ f.toInt
  frame : t.sp.toInt + 18 + sizes ds + f.toInt = t.bp.toInt

/-- what `RET` does once the frame is gone and the saved registers are on the stack -/
def restore (numArgs : Int64) (retvals : List TData) : VMM Unit := do
  let bp ← popAddress
  modify fun s => { s with bp := bp }
  let ip ← popAddress
  modify fun s => { s with ip := ip }
  popDatas numArgs.toInt.toNat
  pushDatas retvals

/-- `RET` takes the frame away and leaves everything from the base pointer on as it is -/
theorem opRet_frame {t : VM} {f n : Int64} {ds : List Item} (h : t.Leaving f n ds)
    (hm : t.bp.toInt ≤ t.memsize.toInt) :
    ∃ u : VM, (∀ i, t.bp.toInt ≤ i → u.mem i = t.mem i) ∧ u.sp = t.bp ∧ u.memsize = t.memsize ∧
      opRet.run t = (restore n (ds.map Prod.fst)).run u := by
  obtain ⟨h0, hf0, hb⟩ := h
  have hr : t.Room t.sp.toInt (9 + (9 + sizes ds)) := h0.room
  have h1 := popInt_run (x := n) h0
  have h2 := popInt_run (x := f) h0.tail
  have h3 : (t.popped 18).Holds ds := h0.drop [(.int n, .unknown), (.int f, .unknown)]
  simp only [Data.size] at h2
  rw [VM.popped_popped (hr.mono (by omega))] at h2
  have hz := t.memsize.toInt_lt
  have e18 := VM.popped_sp (hr.mono (m := 18) (by omega))
  have hroom := hr.2
  have hsp0 := hr.1
  have h4 := popRetvals_run ((t.popped 18).memsize.toInt.toNat + 1) [] h3 hf0 (by omega)
    (by rw [e18]; simp only [VM.popped]; push_cast; omega)
    (by have := length_le_sizes ds; simp only [VM.popped]; omega)
  rw [VM.popped_popped (hr.mono (by omega)), List.nil_append] at h4
  have hsp := VM.popped_sp (hr.mono (m := 18 + sizes ds) (by omega))
  have hd : (t.bp - (t.popped (18 + sizes ds)).sp).toInt = f.toInt := by
    rw [Word.toInt_sub (by omega) (by omega)]
    push_cast at hsp ⊢
    omega
  have habove : ∀ i, t.bp.toInt ≤ i → (t.popped (18 + sizes ds)).mem i = t.mem i := fun i hi =>
    VM.popped_outside (Or.inr (by omega))
  generalize hu : t.popped (18 + sizes ds) = u at *
  have ub : u.bp = t.bp := by rw [← hu]; rfl
  have um : u.memsize = t.memsize := by rw [← hu]; rfl
  rw [← ub] at hd
  have hset : (memset u.sp.toInt f.toInt).run u =
      .ok () { u with mem := write u.mem u.sp.toInt (List.replicate f.toInt.toNat 0) } := by
    have e := memset_run (s := u) (a := u.sp.toInt) (n := f.toInt.toNat)
      ⟨by omega, by rw [um]; omega⟩
    rwa [show ((f.toInt.toNat : Nat) : Int) = f.toInt by omega] at e
  refine ⟨{ { u with mem := u.cleared u.sp.toInt f.toInt.toNat } with sp := u.bp }, ?_, ub, um, ?_⟩
  · intro i hi
    rw [← habove i hi]
    exact u.cleared_outside _ _ _ (Or.inr (by omega))
  · rw [opRet, bind_ok h1, bind_ok h2, run_get_bind, bind_ok h4, run_get_bind, hd,
      bind_ok (clearIf_run hset), run_modify_bind]
    rfl

theorem VM.Holds.with_bp {s : VM} {ds : List Item} (h : s.Holds ds) (b : Int32) :
    VM.Holds { s with bp := b } ds := ⟨h.items, h.room, h.contents⟩

theorem VM.Holds.with_ip {s : VM} {ds : List Item} (h : s.Holds ds) (i : Int32) :
    VM.Holds { s with ip := i } ds := ⟨h.items, h.room, h.contents⟩

/-- the state after a return: the saved registers, the arguments gone, the results pushed -/
def VM.returned (u : VM) (bp ip : Int32) (n : Nat) (b : List UInt8) : VM :=
  { (u.popped n).pushed b with bp := bp, ip := ip }

/-- the second part of `RET`: registers back, arguments away, results on the stack, the one that
was popped first again first -/
theorem restore_run {u : VM} {bp ip : Int32} {args : List Item} (vals : List TData)
    (h : u.Holds (savedRegs bp ip ++ args)) (hn : args.length < 2^31)
    (hv : ∀ d ∈ vals, d.wf .unknown = true)
    (hp : (u.popped (10 + sizes args)).Pushable (sizes (plain vals))) :
    (restore (Int64.ofNat args.length) vals).run u =
      .ok () (u.returned bp ip (10 + sizes args) (encs (plain vals.reverse))) := by
  have hr : u.Room u.sp.toInt (5 + (5 + sizes args)) := h.room
  have e1 : bp + 0 = bp := Int32.add_zero _
  have e2 : ip + 0 = ip := Int32.add_zero _
  have h1 := popAddress_run (r := 0) (a := bp) h rfl
  have ht : (u.popped 5).Holds ((.addr ip, .addrMem) :: args) := h.tail
  have h2 := popAddress_run (r := 0) (a := ip) (ht.with_bp bp) rfl
  have h3 := popDatas_run ((h.drop (savedRegs bp ip)).with_bp bp |>.with_ip ip)
  have e3 : (u.popped 10).popped (sizes args) = u.popped (10 + sizes args) :=
    VM.popped_popped (by rw [← Nat.add_assoc] at hr; exact hr)
  have e4 : (u.popped 5).popped 5 = u.popped 10 := VM.popped_popped (hr.mono (by omega))
  have h4 := pushDatas_run (s := { u.popped (10 + sizes args) with bp := bp, ip := ip }) hv hp
  rw [e1] at h1
  rw [e2] at h2
  rw [restore, bind_ok h1, run_modify_bind, bind_ok h2, run_modify_bind,
    Int64.toInt_ofNat_small hn, Int.toNat_natCast]
  rw [show ({ VM.popped { u.popped 5 with bp := bp } 5 with ip := ip } : VM) =
    { (u.popped 5).popped 5 with bp := bp, ip := ip } from rfl, e4]
  rw [sizes_savedRegs] at h3
  rw [bind_ok h3]
  rw [show (VM.popped { u.popped 10 with bp := bp, ip := ip } (sizes args)) =
    { (u.popped 10).popped (sizes args) with bp := bp, ip := ip } from rfl, e3, h4, plain_reverse]
  rfl

/-! ## the instructions around a call -/

/-- a call: its arguments in the order in which they are pushed, the size of the frame, the address
of the function with its descriptor, the address to return to, and the results in the order in
which the function pushes them -/
structure Call where
  args : List Item
  frame : Int64
  target : Int32
  ty : VMType
  ret : Int32
  vals : List TData

/-- the caller's part of a call; `ret` is the instruction pointer behind `CALL` -/
def Call.enter (c : Call) : VMM Unit := do
  pushAll c.args
  pushVal (.int c.frame)
  pushData (.addr c.target) c.ty true
  modify fun s => { s with ip := c.ret }
  opCall

/-- the end of the function: its results, the size of its frame, the number of its arguments -/
def Call.leave (c : Call) : VMM Unit := do
  pushAll (plain c.vals)
  pushVal (.int c.frame)
  pushVal (.int (Int64.ofNat c.args.length))
  opRet

/-- the call has well-formed data and enough stack -/
structure Call.Fits (c : Call) (s : VM) : Prop where
  args : Items c.args
  vals : ∀ d ∈ c.vals, d.wf .unknown = true
  isAddr : c.ty.isAddr = true
  frame : 0 ≤ c.frame.toInt
  top : s.sp.toInt + 8 ≤ s.memsize.toInt
  stack : sizes c.args + c.frame.toInt + sizes (plain c.vals) + 28 ≤ s.sp.toInt

theorem Call.Fits.length {c : Call} {s : VM} (h : c.Fits s) : c.args.length < 2^31 := by
  have := length_le_sizes c.args
  have := h.stack
  have := h.frame
  have := s.sp.toInt_lt
  omega

/-- the state `e` at the begin of a function that was called from the state `s` -/
structure Call.Entered (c : Call) (s e : VM) : Prop where
  memsize : e.memsize = s.memsize
  bp : e.bp.toInt + 10 + sizes c.args = s.sp.toInt
  sp : e.sp.toInt + c.frame.toInt = e.bp.toInt
  saved : At e.mem e.bp.toInt (encs (savedRegs s.bp c.ret))
  args : At e.mem (e.bp.toInt + 10) (encs c.args.reverse)
  above : ∀ i, s.sp.toInt ≤ i → e.mem i = s.mem i

/-- the stack of the caller right before `CALL` -/
theorem Call.enter_pushes {c : Call} {s : VM} (h : c.Fits s) :
    ∃ t : VM, t.Holds ((.addr c.target, c.ty) :: (.int c.frame, .unknown) :: c.args.reverse) ∧
      t.sp.toInt + 14 + sizes c.args = s.sp.toInt ∧ t.bp = s.bp ∧ t.ip = c.ret ∧
      t.memsize = s.memsize ∧ (∀ i, s.sp.toInt ≤ i → t.mem i = s.mem i) ∧
      c.enter.run s = opCall.run t := by
  have hst := h.stack
  have htop := h.top
  have hfr := h.frame
  have hfit : s.Fits (14 + sizes c.args) := ⟨by omega, by omega⟩
  have hi : Items ((.addr c.target, c.ty) :: (.int c.frame, .unknown) :: c.args.reverse) :=
    h.args.reverse.cons rfl |>.cons h.isAddr
  have e : encs ((.addr c.target, c.ty) :: (.int c.frame, .unknown) :: c.args.reverse) =
      (Data.addr c.target : TData).bytes c.ty ++ ((Data.int c.frame : TData).bytes .unknown ++
        encs c.args.reverse) := rfl
  have h1 := pushAll_run h.args (s := s) ⟨hfit.mono (by omega), h.top⟩
  have p1 : s.Pushable (sizes c.args + 14) := ⟨by rwa [Nat.add_comm], h.top⟩
  have p2 : (s.pushed (encs c.args.reverse)).Pushable 14 :=
    VM.Pushable.pushed (by rw [length_encs, sizes_reverse]; exact p1)
  have h2 := push_run (.int c.frame) .unknown true rfl (p2.mono (m := 9) (by omega))
  have p3 : ((s.pushed (encs c.args.reverse)).pushed
      ((Data.int c.frame : TData).bytes .unknown)).Pushable 5 :=
    VM.Pushable.pushed (by rw [Data.length_bytes]; exact p2)
  have h3 := push_run (.addr c.target) c.ty true h.isAddr p3
  have f1 : s.Fits ((encs c.args.reverse).length +
      ((Data.int c.frame : TData).bytes .unknown).length) := by
    rw [length_encs, sizes_reverse, Data.length_bytes]
    exact p1.1.mono (by simp [Data.size])
  have f2 : s.Fits (((Data.int c.frame : TData).bytes .unknown ++ encs c.args.reverse).length +
      ((Data.addr c.target : TData).bytes c.ty).length) := by
    rw [List.length_append, length_encs, sizes_reverse, Data.length_bytes, Data.length_bytes]
    exact p1.1.mono (by simp [Data.size]; omega)
  rw [VM.pushed_pushed f1] at h2 h3
  rw [VM.pushed_pushed f2, ← e] at h3
  have hs : sizes ((Data.addr c.target, c.ty) :: (Data.int c.frame, VMType.unknown) ::
      c.args.reverse) = 14 + sizes c.args := by
    simp only [sizes_cons, sizes_reverse, Data.size]; omega
  have hh := VM.pushed_holds hi (s := s) (by rw [hs]; exact hfit)
  refine ⟨{ s.pushed (encs ((.addr c.target, c.ty) :: (.int c.frame, .unknown) ::
    c.args.reverse)) with ip := c.ret }, hh.with_ip _, ?_, rfl, rfl, rfl, ?_, ?_⟩
  · have es := VM.pushed_sp (s := s) (b := encs ((Data.addr c.target, c.ty) ::
      (Data.int c.frame, VMType.unknown) :: c.args.reverse)) (by rw [length_encs, hs]; exact hfit)
    rw [length_encs, hs] at es
    simp only at es ⊢
    omega
  · exact fun i hi => VM.pushed_above hi
  · rw [Call.enter, bind_ok h1, pushVal, bind_ok h2, bind_ok h3, run_modify_bind]

/-- **`CALL` builds the frame.** -/
theorem Call.enter_run {c : Call} {s : VM} (h : c.Fits s) :
    ∃ e, c.enter.run s = .ok () e ∧ c.Entered s e := by
  obtain ⟨t, hh, hsp, hbp, hip, hms, hmem, hrun⟩ := Call.enter_pushes h
  have hst := h.stack
  have htop := h.top
  have hfr := h.frame
  have hlt := s.sp.toInt_lt
  obtain ⟨r, hr⟩ := VM.base_isAddr (s := t.popped 5) h.isAddr
  have hroom : t.Room t.sp.toInt (14 + sizes c.args) := hh.room.mono (by
    simp only [sizes_cons, sizes_reverse, Data.size]; omega)
  have e14 := VM.popped_sp (hroom.mono (m := 14) (by omega))
  have hms' : (t.popped 14).memsize = s.memsize := hms
  have hp : (t.popped 14).Pushable 10 := by
    refine ⟨⟨?_, ?_⟩, ?_⟩ <;> rw [e14] <;> (try rw [hms']) <;> push_cast <;> omega
  have hrun' := opCall_run hh rfl hr hp
  have hargs : At (t.popped 14).mem (t.sp.toInt + 14) (encs c.args.reverse) := by
    have hd := (hh.drop [(.addr c.target, c.ty), (.int c.frame, .unknown)]).contents
    rwa [show sizes [((Data.addr c.target, c.ty) : Item), (.int c.frame, .unknown)] = 14 from rfl,
      e14] at hd
  have hmem' : ∀ i, s.sp.toInt ≤ i → (t.popped 14).mem i = s.mem i := fun i hi => by
    rw [VM.popped_outside (Or.inr (by push_cast; omega)), hmem i hi]
  have hbp' : (t.popped 14).bp = s.bp := hbp
  have hip' : (t.popped 14).ip = c.ret := hip
  generalize t.popped 14 = u at *
  have ebp : (u.sp - 10).toInt = u.sp.toInt - 10 := Word.toInt_sub_nat (n := 10) (by omega)
  refine ⟨_, hrun.trans hrun', hms', ?_, ?_, ?_, ?_, ?_⟩
  · simp only [VM.called]
    omega
  · simp only [VM.called]
    rw [Word.toInt_ofInt (by omega) (by omega)]
    omega
  · simp only [VM.called]
    rw [ebp, hbp', hip']
    exact at_write_self _ _ _
  · simp only [VM.called]
    rw [ebp, show u.sp.toInt - 10 + 10 = t.sp.toInt + 14 by push_cast at e14; omega]
    refine hargs.congr fun i h1 h2 => VM.pushed_above ?_
    push_cast at e14
    omega
  · intro i hi
    simp only [VM.called]
    rw [VM.pushed_above (by omega), hmem' i hi]

/-! ## the body of a function -/

/-- from the state `s` to the state `t` the frame at the base pointer of `s` is kept: the registers
saved at it, its arguments but for their values (`as` before, `bs` after), all that is above -/
structure Kept (as : List Item) (s : VM) (bs : List Item) (t : VM) : Prop where
  bp : t.bp = s.bp
  memsize : t.memsize = s.memsize
  items : Items as → Items bs
  sizes : bs.map (fun p => p.1.size) = as.map fun p => p.1.size
  args : At s.mem (s.bp.toInt + 10) (encs as) → At t.mem (s.bp.toInt + 10) (encs bs)
  outside : ∀ i, s.bp.toInt ≤ i → (i < s.bp.toInt + 10 ∨ s.bp.toInt + 10 + MuF.sizes as ≤ i) →
    t.mem i = s.mem i

theorem Kept.sizes_eq {as bs : List Item} {s t : VM} (h : Kept as s bs t) :
    MuF.sizes bs = MuF.sizes as := congrArg List.sum h.sizes

theorem Kept.length_eq {as bs : List Item} {s t : VM} (h : Kept as s bs t) :
    bs.length = as.length := by
  simpa using congrArg List.length h.sizes

theorem Kept.trans {as bs cs : List Item} {s t u : VM} (h1 : Kept as s bs t)
    (h2 : Kept bs t cs u) : Kept as s cs u where
  bp := h2.bp.trans h1.bp
  memsize := h2.memsize.trans h1.memsize
  items := fun h => h2.items (h1.items h)
  sizes := h2.sizes.trans h1.sizes
  args := fun h => by
    have e := h2.args
    rw [h1.bp] at e
    exact e (h1.args h)
  outside := fun i hi ho => by
    have e := h2.outside i
    rw [h1.bp, h1.sizes_eq] at e
    rw [e hi ho, h1.outside i hi ho]

/-- a step that changes nothing from the base pointer on -/
theorem Kept.quiet {as : List Item} {s t : VM} (hb : t.bp = s.bp) (hm : t.memsize = s.memsize)
    (h : ∀ i, s.bp.toInt ≤ i → t.mem i = s.mem i) : Kept as s as t where
  bp := hb
  memsize := hm
  items := id
  sizes := rfl
  args := fun ha => ha.congr fun i h1 _ => h i (by omega)
  outside := fun i hi _ => h i hi

/-- a step that puts a datum of the same size in place of an argument -/
theorem Kept.arg {xs ys : List Item} {p q : Item} {s : VM} (hs : q.1.size = p.1.size)
    (hw : q.1.wf q.2 = true) :
    Kept (xs ++ p :: ys) s (xs ++ q :: ys)
      { s with mem := write s.mem (s.bp.toInt + 10 + MuF.sizes xs) (q.1.bytes q.2) } where
  bp := rfl
  memsize := rfl
  items := fun h r hr => by
    rcases List.mem_append.1 hr with hr | hr
    · exact h r (List.mem_append_left _ hr)
    · rcases List.mem_cons.1 hr with rfl | hr
      · exact hw
      · exact h r (List.mem_append_right _ (List.mem_cons_of_mem _ hr))
  sizes := by simp [hs]
  args := fun h => by
    simp only [encs_append, encs_cons, at_append, length_encs, Data.length_bytes] at h ⊢
    obtain ⟨h1, h2, h3⟩ := h
    refine ⟨?_, at_write_self _ _ _, ?_⟩
    · rw [at_write_outside (by rw [length_encs]; omega)]
      exact h1
    · rw [at_write_outside (by rw [Data.length_bytes]; omega), hs]
      exact h3
  outside := fun i hi ho => by
    refine write_outside _ _ _ _ ?_
    simp only [sizes_append, sizes_cons] at ho
    rw [Data.length_bytes]
    omega

/-- the state `u` of the caller after a call from the state `s` -/
structure Call.Returned (c : Call) (s u : VM) : Prop where
  ip : u.ip = c.ret
  bp : u.bp = s.bp
  memsize : u.memsize = s.memsize
  holds : u.Holds (plain c.vals)
  sp : u.sp.toInt + sizes (plain c.vals) = s.sp.toInt
  above : ∀ i, s.sp.toInt ≤ i → u.mem i = s.mem i

/-- the stack of a function right before `RET` -/
theorem Call.leave_pushes {c : Call} {t : VM} (hv : ∀ d ∈ c.vals, d.wf .unknown = true)
    (hf : 0 ≤ c.frame.toInt) (hst : sizes (plain c.vals) + 18 ≤ t.sp.toInt)
    (htop : t.sp.toInt + 8 ≤ t.memsize.toInt) (hb : t.sp.toInt + c.frame.toInt = t.bp.toInt) :
    ∃ u : VM, u.Leaving c.frame (Int64.ofNat c.args.length) (plain c.vals).reverse ∧
      u.bp = t.bp ∧ u.memsize = t.memsize ∧ (∀ i, t.sp.toInt ≤ i → u.mem i = t.mem i) ∧
      c.leave.run t = opRet.run u := by
  have hi : Items (plain c.vals) := by
    intro p hp
    obtain ⟨d, hd, rfl⟩ := List.mem_map.1 hp
    exact hv d hd
  have hI : Items ((.int (Int64.ofNat c.args.length), .unknown) :: (.int c.frame, .unknown) ::
      (plain c.vals).reverse) := hi.reverse.cons rfl |>.cons rfl
  have e : encs ((.int (Int64.ofNat c.args.length), .unknown) :: (.int c.frame, .unknown) ::
      (plain c.vals).reverse) = (Data.int (Int64.ofNat c.args.length) : TData).bytes .unknown ++
        ((Data.int c.frame : TData).bytes .unknown ++ encs (plain c.vals).reverse) := rfl
  have p1 : t.Pushable (sizes (plain c.vals) + 18) := ⟨⟨by push_cast; omega, by omega⟩, htop⟩
  have h1 := pushAll_run hi (p1.mono (by omega))
  have p2 : (t.pushed (encs (plain c.vals).reverse)).Pushable 18 :=
    VM.Pushable.pushed (by rw [length_encs, sizes_reverse]; exact p1)
  have h2 := push_run (.int c.frame) .unknown true rfl (p2.mono (m := 9) (by omega))
  have p3 : ((t.pushed (encs (plain c.vals).reverse)).pushed
      ((Data.int c.frame : TData).bytes .unknown)).Pushable 9 :=
    VM.Pushable.pushed (by rw [Data.length_bytes]; exact p2)
  have h3 := push_run (.int (Int64.ofNat c.args.length)) .unknown true rfl p3
  have f1 : t.Fits ((encs (plain c.vals).reverse).length +
      ((Data.int c.frame : TData).bytes .unknown).length) := by
    rw [length_encs, sizes_reverse, Data.length_bytes]
    exact p1.1.mono (by simp [Data.size])
  have f2 : t.Fits (((Data.int c.frame : TData).bytes .unknown ++
      encs (plain c.vals).reverse).length +
        ((Data.int (Int64.ofNat c.args.length) : TData).bytes .unknown).length) := by
    rw [List.length_append, length_encs, sizes_reverse, Data.length_bytes, Data.length_bytes]
    exact p1.1.mono (by simp [Data.size]; omega)
  rw [VM.pushed_pushed f1] at h2 h3
  rw [VM.pushed_pushed f2, ← e] at h3
  have hs : sizes ((Data.int (Int64.ofNat c.args.length), VMType.unknown) ::
      (Data.int c.frame, VMType.unknown) :: (plain c.vals).reverse) =
        sizes (plain c.vals) + 18 := by
    simp only [sizes_cons, sizes_reverse, Data.size]; omega
  have hh := VM.pushed_holds hI (s := t) (by rw [hs]; exact p1.1)
  have es := VM.pushed_sp (s := t) (b := encs ((Data.int (Int64.ofNat c.args.length),
    VMType.unknown) :: (Data.int c.frame, VMType.unknown) :: (plain c.vals).reverse))
      (by rw [length_encs, hs]; exact p1.1)
  rw [length_encs, hs] at es
  refine ⟨_, ⟨hh, hf, ?_⟩, rfl, rfl, fun i hi => VM.pushed_above hi, ?_⟩
  · rw [es, sizes_reverse, show (t.pushed _).bp = t.bp from rfl]
    push_cast
    omega
  · rw [Call.leave, bind_ok h1, pushVal, bind_ok h2, pushVal, bind_ok h3]

/-- **`RET` undoes `CALL`** if the frame has been kept. -/
theorem Call.leave_run {c : Call} {s e t : VM} {bs : List Item} (h : c.Fits s)
    (he : c.Entered s e) (hk : Kept c.args.reverse e bs t)
    (hsp : t.sp.toInt + c.frame.toInt = t.bp.toInt) :
    ∃ u, c.leave.run t = .ok () u ∧ c.Returned s u := by
  have hst := h.stack
  have htop := h.top
  have hfr := h.frame
  have hbp := he.bp
  have hlt := s.sp.toInt_lt
  have htb := hk.bp
  have htm : t.memsize = s.memsize := hk.memsize.trans he.memsize
  have hsz : sizes bs = sizes c.args := by rw [hk.sizes_eq, sizes_reverse]
  rw [htb] at hsp
  obtain ⟨r, hl, hrb, hrm, hra, hrun⟩ := Call.leave_pushes (c := c) (t := t) h.vals h.frame
    (by omega) (by rw [htm]; omega) (by rw [htb]; omega)
  obtain ⟨u, hua, husp, hum, hrun'⟩ := opRet_frame hl (by rw [hrb, hrm, htb, htm]; omega)
  rw [hrb, htb] at husp hua
  rw [List.map_reverse, plain_fst] at hrun'
  have hum' : u.memsize = s.memsize := hum.trans (hrm.trans htm)
  have habove : ∀ i, e.bp.toInt ≤ i → u.mem i = t.mem i := fun i hi => by
    rw [hua i hi, hra i (by omega)]
  have hsaved : At u.mem e.bp.toInt (encs (savedRegs s.bp c.ret)) :=
    he.saved.congr fun i h1 h2 => by
      rw [length_encs, sizes_savedRegs] at h2
      rw [habove i h1, hk.outside i h1 (Or.inl h2)]
  have hargs : At u.mem (e.bp.toInt + 10) (encs bs) :=
    (hk.args he.args).congr fun i h1 h2 => habove i (by omega)
  have hh : u.Holds (savedRegs s.bp c.ret ++ bs) := by
    refine ⟨?_, ⟨?_, ?_⟩, ?_⟩
    · intro p hp
      rcases List.mem_append.1 hp with hp | hp
      · exact items_savedRegs _ _ p hp
      · exact hk.items h.args.reverse p hp
    · rw [husp]; omega
    · rw [husp, sizes_append, sizes_savedRegs, hum', hsz]; push_cast; omega
    · rw [husp, encs_append, at_append, length_encs, sizes_savedRegs]
      exact ⟨hsaved, hargs⟩
  have hlen : bs.length = c.args.length := by rw [hk.length_eq, List.length_reverse]
  have hroom : u.Room u.sp.toInt (10 + sizes bs) := by
    have := hh.room
    rwa [sizes_append, sizes_savedRegs] at this
  have hsp' := VM.popped_sp hroom
  rw [husp, hsz] at hsp'
  have hp : (u.popped (10 + sizes bs)).Pushable (sizes (plain c.vals.reverse)) := by
    have em : (u.popped (10 + sizes bs)).memsize = s.memsize := hum'
    rw [plain_reverse, sizes_reverse, hsz]
    rw [hsz] at em
    refine ⟨⟨?_, ?_⟩, ?_⟩ <;> rw [hsp'] <;> (try rw [em]) <;> push_cast <;> omega
  have hres := restore_run c.vals.reverse hh (by rw [hlen]; exact h.length)
    (fun d hd => h.vals d (List.mem_reverse.1 hd)) hp
  rw [List.reverse_reverse, hlen] at hres
  have hI : Items (plain c.vals) := by
    intro p hp
    obtain ⟨d, hd, rfl⟩ := List.mem_map.1 hp
    exact h.vals d hd
  have hfit : (u.popped (10 + sizes bs)).Fits (sizes (plain c.vals)) := by
    have := hp.1
    rwa [plain_reverse, sizes_reverse] at this
  have hH := VM.pushed_holds hI hfit
  have hpush := VM.pushed_sp (s := u.popped (10 + sizes bs)) (b := encs (plain c.vals))
    (by rw [length_encs]; exact hfit)
  rw [length_encs, hsz, hsp'] at hpush
  refine ⟨_, (hrun.trans hrun').trans hres, rfl, rfl, hum',
    ⟨hH.items, hH.room, hH.contents⟩, ?_, ?_⟩
  · rw [hsz, show (u.returned s.bp c.ret (10 + sizes c.args) (encs (plain c.vals))).sp =
      ((u.popped (10 + sizes c.args)).pushed (encs (plain c.vals))).sp from rfl, hpush]
    push_cast
    omega
  · intro i hi
    rw [show (u.returned s.bp c.ret (10 + sizes bs) (encs (plain c.vals))).mem i =
      ((u.popped (10 + sizes bs)).pushed (encs (plain c.vals))).mem i from rfl]
    rw [VM.pushed_above (by rw [hsz, hsp']; push_cast; omega),
      VM.popped_outside (Or.inr (by rw [husp, hsz]; push_cast; omega)),
      habove i (by omega), hk.outside i (by omega) (Or.inr (by rw [sizes_reverse]; omega)),
      he.above i hi]

/-- what the code of a function does between `CALL` and the pushes of its results, with the list of
its arguments before and after: steps that keep everything from the base pointer on, steps that
overwrite an argument, complete calls of functions that do the same, and sequences of these -/
inductive Body : List Item → VM → List Item → VM → Prop
  | quiet {as : List Item} {s t : VM} : t.bp = s.bp → t.memsize = s.memsize →
      (∀ i, s.bp.toInt ≤ i → t.mem i = s.mem i) → Body as s as t
  | arg {l r : List Item} {p q : Item} {s : VM} : q.1.size = p.1.size → q.1.wf q.2 = true →
      Body (l ++ p :: r) s (l ++ q :: r)
        { s with mem := write s.mem (s.bp.toInt + 10 + sizes l) (q.1.bytes q.2) }
  | call {as bs : List Item} {c : Call} {s e t u : VM} : c.Fits s → s.sp.toInt ≤ s.bp.toInt →
      c.enter.run s = .ok () e → Body c.args.reverse e bs t →
      t.sp.toInt + c.frame.toInt = t.bp.toInt → c.leave.run t = .ok () u → Body as s as u
  | trans {as bs cs : List Item} {s t u : VM} : Body as s bs t → Body bs t cs u → Body as s cs u

/-- **A function keeps the frame of its caller**, whatever it calls. -/
theorem Body.kept {as bs : List Item} {s t : VM} (h : Body as s bs t) : Kept as s bs t := by
  induction h with
  | quiet hb hm hi => exact Kept.quiet hb hm hi
  | arg hs hw => exact Kept.arg hs hw
  | call hf hsp he _ hst hl ih =>
    obtain ⟨e', he', hent⟩ := Call.enter_run hf
    obtain rfl : _ = e' := (EStateM.Result.ok.inj (he.symm.trans he')).2
    obtain ⟨u', hu', hret⟩ := Call.leave_run hf hent ih hst
    obtain rfl : _ = u' := (EStateM.Result.ok.inj (hl.symm.trans hu')).2
    exact Kept.quiet hret.bp hret.memsize fun i hi => hret.above i (by omega)
  | trans _ _ ih1 ih2 => exact ih1.trans ih2

/-- **Call and return are inverse.**  A call from any state with enough stack reaches its function,
with the frame below the saved registers.  Whatever the function does, if it comes back to the
lower end of its frame then its end runs to completion: the return address and the base pointer of
the caller are back, the results come off the stack in their order, and the stack is then the one
from before the arguments were pushed. -/
theorem call_ret_inverse (c : Call) (s : VM) (h : c.Fits s) :
    ∃ e, c.enter.run s = .ok () e ∧ e.sp.toInt + c.frame.toInt = e.bp.toInt ∧
      ∀ bs t, Body c.args.reverse e bs t → t.sp.toInt + c.frame.toInt = t.bp.toInt →
        ∃ u w, c.leave.run t = .ok () u ∧ u.ip = c.ret ∧ u.bp = s.bp ∧
          (popList c.vals.length).run u = .ok c.vals w ∧ w.sp = s.sp ∧
          ∀ i, s.sp.toInt ≤ i → u.mem i = s.mem i ∧ w.mem i = s.mem i := by
  obtain ⟨e, he, hent⟩ := Call.enter_run h
  refine ⟨e, he, hent.sp, fun bs t hb hsp => ?_⟩
  obtain ⟨u, hu, hret⟩ := Call.leave_run h hent hb.kept hsp
  have hpop := popList_run hret.holds
  rw [length_plain, plain_fst] at hpop
  refine ⟨u, _, hu, hret.ip, hret.bp, hpop, ?_, fun i hi => ⟨hret.above i hi, ?_⟩⟩
  · have e1 := VM.popped_sp hret.holds.room
    rw [hret.sp] at e1
    exact Int32.toInt_inj.1 e1
  · rw [VM.popped_outside (Or.inr (by have := hret.sp; omega)), hret.above i hi]

/-- a call with an integer and a string, a frame of one integer, and two results -/
def callPair : Call where
  args := [(.int 7, .unknown), (.str [104, 105], .unknown)]
  frame := 9
  target := 100
  ty := .addrMem
  ret := 25
  vals := [.int 42, .bool 1]

theorem callPair_fits : callPair.Fits (@VM.init ⟨40, by decide⟩ 256 ⟨0⟩ []) where
  args := by decide
  vals := by decide
  isAddr := rfl
  frame := by decide
  top := by decide
  stack := by decide

/-- the function overwrites its integer argument before it returns -/
theorem call_ret_inverse_pair : ∃ e u w,
    callPair.enter.run (@VM.init ⟨40, by decide⟩ 256 ⟨0⟩ []) = .ok () e ∧
    callPair.leave.run { e with
      mem := write e.mem (e.bp.toInt + 10 + 7) ((Data.int 8 : TData).bytes .unknown) } = .ok () u ∧
    u.ip = 25 ∧ u.bp = 256 ∧ (popList 2).run u = .ok [.int 42, .bool 1] w ∧ w.sp = 215 := by
  obtain ⟨e, he, hsp, h⟩ := call_ret_inverse callPair _ callPair_fits
  have hb : Body [(.str [104, 105], .unknown), (.int 7, .unknown)] e
      [(.str [104, 105], .unknown), (.int 8, .unknown)] _ :=
    .arg (l := [(.str [104, 105], .unknown)]) (r := []) (p := (.int 7, .unknown))
      (q := (.int 8, .unknown)) rfl rfl
  obtain ⟨u, w, hu, h1, h2, h3, h4, -⟩ := h _ _ hb hsp
  exact ⟨e, u, w, he, hu, h1, h2, h3, h4⟩

end MuF
