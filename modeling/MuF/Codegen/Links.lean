import MuF.Codegen.Strings
import MuF.VM.Calls

/-!
# Calls and the bodies of functions

* `step_call`: a frame size, an address and `CALL` enter the function at the address;
* `emits_addr`: the address of a symbol is the one of the last event that sets it;
* `emits_resolved`: calls and definitions are those of the symbols that their names mean;
* `Compiled.agree`: the events of a program are the same however its code generation is read;
* **`direct_call_reaches`**: a call by a global name enters the body that is defined there last.
-/

set_option linter.unusedVariables false

namespace MuF

open Bytes Exec Layout

deriving instance DecidableEq for OStr, ConstTab, FuncComefrom, Codegen

/-! ## the call -/

section
variable [MathLib TReal] {s : VM} {code : List UInt8} {n p q : Nat}

/-- **A call** of the function at `q` with a frame of `framesize` bytes. -/
theorem step_call {framesize : Int64} {off : Int32} (h : s.Ready code n) (hn : 24 ≤ n)
    (hip : s.ip = Int32.ofNat p) (hc : Sits code p (callCode framesize off))
    (hq : off + Int32.ofNat (p + 17) = Int32.ofNat q) (hle : q ≤ code.length) :
    ∃ t, (step >>= fun _ => step >>= fun _ => step).run s = .ok .running t ∧
      t.ip = Int32.ofNat q ∧ t.bp = s.sp - 10 ∧
      t.sp = Int32.ofInt ((s.sp - 10).toInt - framesize.toInt) := by
  obtain ⟨hc1, hc2⟩ := sits_append.1 hc
  obtain ⟨hc3, hc4⟩ := sits_append.1 hc2
  rw [List.length_append, Raw.length_enc, length_intCode] at hc4
  rw [length_intCode] at hc3
  have hop : code[p + 16]? = some OpCode.call.code := (sits_cons.1 hc4).1
  have h1 := h.sp_ge
  have h2 := h.sp_le
  have hl := h.length_lt
  have hlen := hc.le (by simp [callCode, intCode])
  rw [length_callCode] at hlen
  -- the frame size and the address
  have hn1 : n = (Data.int framesize : TData).size + (n - 9) := by
    show n = 9 + (n - 9)
    omega
  obtain ⟨hs1, hr1⟩ := step_push (hn1 ▸ h) hip hc1 rfl rfl
  have hfits : s.Fits 14 := h.pushable.1.mono (by omega)
  generalize ht1 : VM.pushed { s with ip := Int32.ofNat (p + (1 + (Data.int framesize : TData).size)) }
    ((Data.int framesize : TData).bytes .unknown) = t1 at hs1 hr1
  have hip1 : t1.ip = Int32.ofNat (p + 10) := by
    rw [← ht1]
    rfl
  have hn2 : n - 9 = (Data.addr off : TData).size + (n - 14) := by
    show n - 9 = 5 + (n - 14)
    omega
  have hc3' : Sits code (p + 10) (OpCode.push.code :: (Data.addr off : TData).bytes .addrIp) := hc3
  obtain ⟨hs2, hr2⟩ := step_push (hn2 ▸ hr1) hip1 hc3' rfl rfl
  generalize ht2 : VM.pushed { t1 with ip := Int32.ofNat (p + 10 + (1 + (Data.addr off : TData).size)) }
    ((Data.addr off : TData).bytes .addrIp) = t2 at hs2 hr2
  have hip2 : t2.ip = Int32.ofNat (p + 16) := by
    rw [← ht2]
    rfl
  have hm2 : t2.memsize = s.memsize := by
    rw [← ht2, ← ht1]
    rfl
  -- the stack
  let ds : List Item := [(.addr off, .addrIp), (.int framesize, .unknown)]
  have e2 : t2 = VM.pushed { s with ip := Int32.ofNat (p + 16) } (encs ds) := by
    have hp : VM.pushed (VM.pushed { s with ip := Int32.ofNat (p + 16) }
        ((Data.int framesize : TData).bytes .unknown)) ((Data.addr off : TData).bytes .addrIp) =
        VM.pushed { s with ip := Int32.ofNat (p + 16) }
          ((Data.addr off : TData).bytes .addrIp ++ (Data.int framesize : TData).bytes .unknown) :=
      VM.pushed_pushed hfits
    rw [← ht2, ← ht1]
    exact hp
  have hh : t2.Holds ds := by
    rw [e2]
    refine VM.pushed_holds (s := { s with ip := _ }) ?_ hfits
    intro x hx
    rcases List.mem_cons.1 hx with rfl | hx
    · rfl
    · rw [List.mem_singleton.1 hx]
      rfl
  have hsp2 : t2.sp.toInt = s.sp.toInt - 14 := by
    rw [e2]
    exact VM.pushed_sp (s := { s with ip := _ }) hfits
  have e3 : t2.ip + 1 = Int32.ofNat (p + 17) := by
    rw [hip2]
    exact ofNat_add_ofNat (p + 16) 1
  have hready : (VM.popped { t2 with ip := Int32.ofNat (p + 17) } 14).Ready code (n - 14 + 14) :=
    (hr2.withIp _).popped (by
      show t2.sp.toInt + ((14 : Nat) : Int) + 8 ≤ t2.memsize.toInt
      rw [hsp2, hm2]
      push_cast
      omega)
  have hh' : VM.Holds { t2 with ip := Int32.ofNat (p + 17) } ds :=
    ⟨hh.items, hh.room, hh.contents⟩
  have hcall := opCall_run (f := framesize) hh' rfl rfl (hready.pushable.mono (by omega))
  have hsp : (VM.popped { t2 with ip := Int32.ofNat (p + 17) } 14).sp = s.sp := by
    rw [← Int32.toInt_inj]
    rw [VM.popped_sp]
    · show t2.sp.toInt + ((14 : Nat) : Int) = s.sp.toInt
      rw [hsp2]
      push_cast
      omega
    · show VM.Room _ t2.sp.toInt 14
      rw [VM.Room, hsp2]
      show _ ∧ _ ≤ t2.memsize.toInt
      rw [hm2]
      omega
  have ep : t2.ip.toInt = ((p + 16 : Nat) : Int) := by
    rw [hip2, Word.toInt_ofNat (by omega)]
  refine ⟨VM.called (VM.popped { t2 with ip := Int32.ofNat (p + 17) } 14) framesize
    (off + Int32.ofNat (p + 17)), ?_, ?_, ?_, ?_⟩
  · rw [bind_ok hs1, bind_ok hs2]
    refine step_op hr2 ep hop (run_andGoOn ?_) ?_
    · rw [e3]
      exact hcall
    · show (off + Int32.ofNat (p + 17)).toInt < t2.memsize.toInt
      rw [hq, hm2, Word.toInt_ofNat (by omega)]
      omega
  · exact hq
  · show (VM.popped { t2 with ip := Int32.ofNat (p + 17) } 14).sp - 10 = _
    rw [hsp]
  · show Int32.ofInt (((VM.popped { t2 with ip := Int32.ofNat (p + 17) } 14).sp - 10).toInt - _) = _
    rw [hsp]

end

/-! ## the address of a symbol -/

/-- the address that an event gives to a symbol -/
def Event.addrOf (key : Str) : Event → Option Int64
  | .func begin _ _ _ sym _ _ => if key = sym.scopedName then some (Int64.ofNat begin) else none
  | .var name addr => if key = name then some addr else none
  | _ => none

/-- the last one -/
def lastAddr (l : List Event) (key : Str) : Option Int64 := l.reverse.findSome? (Event.addrOf key)

/-- the address of a symbol in a table -/
def SymTab.addrOf (tab : SymTab) (key : Str) : Option Int64 :=
  (tab.findSymbol key).bind Symbol.addr

section
variable {s s' : Codegen} {H H' : Holes} {l l' : List Event} {key : Str}

theorem lastAddr_append (l l' : List Event) (key : Str) :
    lastAddr (l ++ l') key = (lastAddr l' key).or (lastAddr l key) := by
  unfold lastAddr
  rw [List.reverse_append, List.findSome?_append]

theorem lastAddr_cons (e : Event) (l : List Event) (key : Str) :
    lastAddr (e :: l) key = (lastAddr l key).or (e.addrOf key) := by
  rw [show e :: l = [e] ++ l from rfl, lastAddr_append]
  congr 1
  unfold lastAddr
  simp [List.findSome?_cons]
  cases e.addrOf key <;> rfl

theorem lastAddr_none (h : ∀ e ∈ l, e.addrOf key = none) : lastAddr l key = none := by
  unfold lastAddr
  rw [List.findSome?_eq_none_iff]
  exact fun e he => h e (List.mem_reverse.1 he)

theorem SymTab.addrOf_congr {tab tab' : SymTab} (h : tab'.addrs = tab.addrs) (key : Str) :
    tab'.addrOf key = tab.addrOf key := by
  have e (tab : SymTab) : tab.addrOf key = (tab.addrs.lookup key).join := by
    induction tab with
    | nil => rfl
    | cons p tab ih =>
      have h1 : SymTab.addrs (p :: tab) = (p.1, p.2.addr) :: SymTab.addrs tab := rfl
      unfold SymTab.addrOf at ih ⊢
      rw [h1, ← Prod.eta p, SymTab.findSymbol_cons, List.lookup_cons]
      by_cases h : key = p.1
      · rw [if_pos h, beq_iff_eq.2 h]
        rfl
      · rw [if_neg h, beq_eq_false_iff_ne.2 h]
        exact ih
  rw [e, e, h]

/-- a symbol that is in the table -/
def SymTab.has (tab : SymTab) (key : Str) : Prop := (tab.findSymbol key).isSome = true

theorem SymTab.has_declared {tab tab' : SymTab} (h : tab'.declared = tab.declared) :
    tab'.has key ↔ tab.has key := by
  have e (tab : SymTab) : (tab.findSymbol key).isSome = (tab.declared.findSymbol key).isSome := by
    rw [SymTab.findSymbol_declared, Option.isSome_map]
  unfold SymTab.has
  rw [e tab', e tab, h]

theorem Codegen.addrOf_setAddr (s : Codegen) (name : Str) (addr : Int64) (h : s.syms.has key) :
    (s.setAddr name addr).syms.addrOf key = if key = name then some addr else s.syms.addrOf key := by
  unfold SymTab.has at h
  unfold SymTab.addrOf Codegen.setAddr
  dsimp only
  rw [SymTab.findSymbol_modify]
  obtain ⟨sym, hs⟩ := Option.isSome_iff_exists.1 h
  rw [hs]
  split <;> rfl

/-- **The address of a symbol** is the last one that an event gave to it. -/
theorem emits_addr (h : Emits s H l s' H') (hk : s.syms.has key) :
    s'.syms.addrOf key = (lastAddr l key).or (s.syms.addrOf key) := by
  induction h with
  | const he h =>
    rw [run_putConstRef _ he] at h
    cases h
    rfl
  | call => rfl
  | @func s t H H' l scope name func framesize numArgs he hs hr h ht hf ih =>
    have hk' := (SymTab.has_declared (Codegen.setAddr_declared s func.scopedName
      (Int64.ofNat s.ostr.pos))).2 hk
    show t.syms.addrOf key = _
    rw [ih hk', Codegen.addrOf_setAddr _ _ _ hk, lastAddr_cons, Option.or_assoc]
    congr 1
    show _ = (if key = func.scopedName then some (Int64.ofNat s.ostr.pos) else none).or _
    by_cases hkey : key = func.scopedName
    · rw [if_pos hkey, if_pos hkey]
      rfl
    · rw [if_neg hkey, if_neg hkey]
      rfl
  | var name addr =>
    rw [Codegen.addrOf_setAddr _ _ _ hk]
    rw [lastAddr_cons]
    show _ = (if key = name then some addr else none).or _
    by_cases hkey : key = name
    · rw [if_pos hkey, if_pos hkey]
      rfl
    · rw [if_neg hkey, if_neg hkey]
      rfl
  | label => rfl
  | goto => rfl
  | code => rfl
  | hole => rfl
  | fill => rfl
  | other h => exact SymTab.addrOf_congr h.addrs key
  | trans h h' ih1 ih2 =>
    rw [ih2 ((SymTab.has_declared (emits_declared h)).2 hk), ih1 hk, lastAddr_append,
      Option.or_assoc]

/-! ## the symbols of the events -/

/-- the symbol of an event is the one that the name means, and the frame has its size -/
def Event.Resolved (syms : SymTab) : Event → Prop
  | .call _ scope name sym framesize =>
    syms.declared.resolve scope name (some .func) = some sym.declared ∧
      syms.frameSize sym = .ok framesize
  | .func _ _ scope name sym framesize _ =>
    syms.declared.resolve (scope ++ [name]) name none = some sym.declared ∧
      syms.frameSize sym = .ok framesize
  | _ => True

theorem Event.Resolved.congr {syms syms' : SymTab} {e : Event} (h : e.Resolved syms)
    (hd : syms'.declared = syms.declared) : e.Resolved syms' := by
  cases e with
  | const => trivial
  | var => trivial
  | label => trivial
  | goto => trivial
  | call pos scope name sym framesize =>
    refine ⟨by rw [hd]; exact h.1, ?_⟩
    rw [← SymTab.frameSize_declared, hd, SymTab.frameSize_declared]
    exact h.2
  | func begin ret scope name sym framesize numArgs =>
    refine ⟨by rw [hd]; exact h.1, ?_⟩
    rw [← SymTab.frameSize_declared, hd, SymTab.frameSize_declared]
    exact h.2

/-- **Names are resolved** in the table of the program. -/
theorem emits_resolved (h : Emits s H l s' H') : ∀ e ∈ l, e.Resolved s.syms := by
  induction h with
  | const he h => simp [Event.Resolved]
  | @call s H name func framesize he hr hf =>
    intro e hm
    rw [List.mem_singleton.1 hm]
    refine ⟨?_, hf⟩
    rw [SymTab.resolve_declared, show s.syms.resolve s.curscope name (some .func) = some func from hr]
    rfl
  | @func s t H H' l scope name func framesize numArgs he hs hr h ht hf ih =>
    have hd : t.syms.declared = s.syms.declared :=
      (emits_declared h).trans (Codegen.setAddr_declared _ _ _)
    intro e hm
    rcases List.mem_cons.1 hm with rfl | hm
    · refine ⟨?_, ?_⟩
      · rw [SymTab.resolve_declared, ← hs,
          show s.syms.resolve s.curscope name none = some func from hr]
        rfl
      · rw [← SymTab.frameSize_declared, ← hd, SymTab.frameSize_declared]
        exact hf
    · exact (ih e hm).congr (Codegen.setAddr_declared _ _ _).symm
  | var => simp [Event.Resolved]
  | label => simp [Event.Resolved]
  | goto => simp [Event.Resolved]
  | code => simp
  | hole => simp
  | fill => simp
  | other => simp
  | trans h h' ih1 ih2 =>
    intro e hm
    rcases List.mem_append.1 hm with hm | hm
    · exact ih1 e hm
    · exact (ih2 e hm).congr (emits_declared h).symm

end

/-! ## the main result -/

/-- the three instructions at `pos` enter the function at `begin` with its frame -/
def Enters [MathLib TReal] (code : List UInt8) (pos : Nat) (framesize : Int64) (begin : Nat) : Prop :=
  ∀ (vm : VM) (k : Nat), vm.Ready code k → 24 ≤ k → vm.ip = Int32.ofNat pos →
    ∃ t, (step >>= fun _ => step >>= fun _ => step).run vm = .ok .running t ∧
      t.ip = Int32.ofNat begin ∧ t.bp = vm.sp - 10 ∧
      t.sp = Int32.ofInt ((vm.sp - 10).toInt - framesize.toInt)

/-- the call at `pos` enters the body of the function, whose definition has the scoped name of the
symbol; the frame is that of the symbol, also in the return at the end of the body -/
def Reached [MathLib TReal] (syms : SymTab) (code : List UInt8) (l : List Event) (pos : Nat)
    (func : Symbol) (framesize : Int64) : Prop :=
  syms.frameSize func = .ok framesize ∧ ∃ begin ret scope name sym numArgs,
    Event.func begin ret scope name sym framesize numArgs ∈ l ∧
      scopedKey scope name = func.scopedName ∧ sym.scopedName = func.scopedName ∧
      Enters code pos framesize begin ∧ Sits code ret (retCode framesize numArgs)

/-- the name of the call is that of its symbol in the outermost scope, and of all definitions and
declarations that set the address of this symbol the last one is its definition there -/
def Direct (l : List Event) (name : Str) (func : Symbol) : Prop :=
  func.scopedName = name ∧ ∃ l1 l2 begin ret sym framesize numArgs,
    l = l1 ++ .func begin ret [] name sym framesize numArgs :: l2 ∧ sym.scopedName = name ∧
      ∀ e ∈ l2, e.addrOf name = none

section
variable {syms : SymTab} {l : List Event} {t s : Codegen} {H : Holes} {n : Nat}

/-- the address that is filled in leads to the target -/
theorem callOff_add {begin pos : Nat} (h : begin < 2^31) :
    callOff (Int64.ofNat begin) (pos + 12) + Int32.ofNat (pos + 17) = Int32.ofNat begin := by
  have e : (Int64.ofNat begin).toInt = begin := Int64.toInt_ofNat_small (by omega)
  rw [callOff, e, show vmTypeSize .addrIp true = Int32.ofNat 5 from rfl,
    ← Int32.ofInt_eq_ofNat, ← Int32.ofInt_eq_ofNat, ← Int32.ofInt_eq_ofNat, ← Int32.ofInt_sub,
    ← Int32.ofInt_add]
  congr 1
  push_cast
  ring

/-- a linked call enters the function at the address -/
theorem Linked.enters [MathLib TReal] {buf : List UInt8} {pos begin : Nat} {name : Str} {func : Symbol}
    {framesize : Int64} (h : Linked t buf pos name func framesize)
    (ha : ∀ addr, t.target ⟨name, pos + 12, Int32.ofNat func.argty.length⟩ = some addr →
      addr = Int64.ofNat begin) (hb : begin ≤ buf.length) : Enters buf pos framesize begin := by
  intro vm k hr hk hip
  obtain ⟨addr, ht, hs⟩ := h
  obtain rfl := ha addr ht
  have := hr.length_lt
  exact step_call hr hk hip hs (callOff_add (by omega)) hb

theorem target_eq (hc : t.curscope = []) (call : FuncComefrom) :
    t.target call = t.syms.addrOf call.name := by
  unfold Codegen.target Codegen.resolve SymTab.resolve SymTab.addrOf
  rw [hc]
  have e : t.syms.findTyped call.name none = t.syms.findSymbol call.name := by
    unfold SymTab.findTyped
    cases t.syms.findSymbol call.name <;> rfl
  rw [show scopedKey [] call.name = call.name from rfl, e]
  split
  · cases t.syms.findSymbol call.name <;> rfl
  · cases t.syms.findSymbol call.name <;> rfl

/-- **Two sequences of events of one program** have the same calls, jumps and first labels at the
same positions, and give the symbols the same addresses. -/
theorem Compiled.agree {l' : List Event} {H' : Holes} (hc : Compiled syms l t H)
    (hc' : Compiled syms l' t H') :
    l.filterMap Event.comefrom = l'.filterMap Event.comefrom ∧
      l.filterMap Event.gotoAt = l'.filterMap Event.gotoAt ∧
      (∀ name, labelPos l name = labelPos l' name) ∧
      ∀ key, syms.has key → syms.addrOf key = none → lastAddr l key = lastAddr l' key := by
  have hi := emits_sited hc.emits [] (sited_init syms)
  have hi' := emits_sited hc'.emits [] (sited_init syms)
  refine ⟨hi.calls.symm.trans hi'.calls, hi.gotos.symm.trans hi'.gotos,
    fun name => (hi.labels name).symm.trans (hi'.labels name), fun key hk hn => ?_⟩
  have ha := emits_addr hc.emits hk
  have ha' := emits_addr hc'.emits hk
  change _ = Option.or _ (syms.addrOf key) at ha ha'
  rw [hn, Option.or_none] at ha ha'
  exact ha.symm.trans ha'

theorem Direct.reached [MathLib TReal] (hc : Compiled syms l t H) (hf : finish.run t = .ok n s) {pos : Nat}
    {scope : List Str} {name : Str} {func : Symbol} {framesize : Int64}
    (hm : .call pos scope name func framesize ∈ l) (hd : Direct l name func) :
    Reached syms s.ostr.buf l pos func framesize := by
  have hi := emits_sited hc.emits [] (sited_init syms)
  obtain ⟨base, -, -, hcalls, hrets, -, hlen⟩ := finish_placed hi hc.atEnd hc.isOpen hf
  have hres := emits_resolved hc.emits
  have hlink := hcalls _ _ _ _ _ hm
  obtain ⟨hk, l1, l2, begin, ret, sym, framesize', numArgs, hl, hs, hlast⟩ := hd
  have hfm : Event.func begin ret [] name sym framesize' numArgs ∈ l := by
    rw [hl]
    exact List.mem_append_right _ List.mem_cons_self
  -- both symbols have the same frame
  have hsize : syms.frameSize func = .ok framesize := (hres _ hm).2
  have hsize' : syms.frameSize sym = .ok framesize' := (hres _ hfm).2
  obtain rfl : framesize' = framesize := by
    have e : syms.frameSize sym = syms.frameSize func := by
      rw [SymTab.frameSize, SymTab.frameSize, hs, hk]
    rw [e, hsize] at hsize'
    exact (Except.ok.inj hsize').symm
  refine ⟨hsize, begin, ret, [], name, sym, numArgs, hfm, hk.symm, hs.trans hk.symm, ?_,
    hrets _ _ _ _ _ _ _ hfm⟩
  -- the address of the symbol is the begin of the body
  refine hlink.enters ?_ (((emits_grows hc.emits [] (sited_init syms)).2 _ _ _ _ _ _ _ hfm).trans hlen)
  intro addr ht
  rw [target_eq hc.scope] at ht
  have hhas : syms.has name := by
    have h1 : t.syms.has name := by
      unfold SymTab.has
      unfold SymTab.addrOf at ht
      cases hfind : t.syms.findSymbol name with
      | none =>
        rw [hfind] at ht
        cases ht
      | some _ => rfl
    exact (SymTab.has_declared (emits_declared hc.emits)).1 h1
  have hset : Event.addrOf name (.func begin ret [] name sym framesize' numArgs) =
      some (Int64.ofNat begin) := if_pos hs.symm
  have ha := emits_addr hc.emits hhas
  rw [hl, lastAddr_append, lastAddr_cons, lastAddr_none hlast, hset] at ha
  change t.syms.addrOf name = some (Int64.ofNat begin) at ha
  change t.syms.addrOf name = some addr at ht
  rw [ha] at ht
  exact (Option.some.inj ht).symm

end

/-- **Direct calls reach their function.**  In every accepted program a call enters the body that
was compiled for its symbol, with the frame of the symbol, if the symbol is a function of the
outermost scope and the last to set its address is its own definition. -/
theorem direct_call_reaches [MathLib TReal] {syms : SymTab} {stmts : List AST} {t s : Codegen}
    {n : Nat} (hg : (generate stmts).run (Codegen.init syms) = .ok () t)
    (hf : finish.run t = .ok n s) :
    (∃ l H, Compiled syms l t H) ∧
    ∀ l H, Compiled syms l t H → ∀ pos scope name func framesize,
      Event.call pos scope name func framesize ∈ l → Direct l name func →
        Reached syms s.ostr.buf l pos func framesize := by
  refine ⟨generate_emits hg, ?_⟩
  intro l H hc pos scope name func framesize hm hd
  exact hd.reached hc hf hm

/-! ### a function of the outermost scope -/

def outerFunc : Symbol := { name := ascii "f", scopedName := ascii "f", ty := .func }

def outerSyms : SymTab := [(ascii "f", outerFunc)]

/-- a function and a call of it -/
def outerStmts : List AST := [.func (ascii "f") [] [] (.stmts []), .call (ascii "f") []]

/-- the function when it is called -/
def outerCalled : Symbol := { outerFunc with addr := some 7, endAddr := some 28 }

def outerEvents : List Event :=
  [.func 7 7 [] (ascii "f") outerFunc 0 0, .call 28 [] (ascii "f") outerCalled 0]

/-- the code before the body, and with its return -/
def outerJump (off : Int32) : List UInt8 :=
  [OpCode.push.code, VMType.addrIp.code] ++ Raw.enc off ++ [OpCode.jmp.code]

def outerBody (off : Int32) : List UInt8 := outerJump off ++ retCode 0 0

/-- the code generator on the way -/
def outerAt (func : Symbol) (scope : List Str) (buf : List UInt8) : Codegen :=
  { Codegen.init outerSyms with
    syms := [(ascii "f", func)], curscope := scope, ostr := ⟨buf, buf.length⟩ }

/-- the code generator before `Finish` -/
def outerState : Codegen :=
  { outerAt outerCalled [] (outerBody 21 ++ callCode 0 (toSkip 0 40)) with
    funcComefroms := [⟨ascii "f", 40, 0⟩] }

/-- the address of a jump is filled in -/
theorem Emits.filled {s u : Codegen} {H : Holes} {q : Nat} (off : Int32) (hq : (q, 4) ∈ H)
    (hs : Quiet s { u with ostr := s.ostr })
    (hb : u.ostr.buf = ((⟨s.ostr.buf, q⟩ : OStr).write (Raw.enc off)).buf) : Emits s H [] u H := by
  have h1 : Emits s H [] { u with ostr := s.ostr } H := .other hs
  have hq' : (q, (Raw.enc off).length) ∈ H := by
    rw [Raw.length_enc]
    exact hq
  have h2 := Emits.fill (s := { u with ostr := s.ostr }) hq'
  have h3 : Quiet { u with ostr := (⟨s.ostr.buf, q⟩ : OStr).write (Raw.enc off) } u :=
    ⟨hb, rfl, rfl, rfl, rfl, rfl, rfl, rfl⟩
  exact h1.trans (h2.trans (.other h3))

/-- a function without arguments at the beginning of the program -/
theorem outer_traces {l : List Event} {t u : Codegen}
    (h : Traces (outerAt { outerFunc with addr := some 7 } [ascii "f"] (outerJump 0)) [(2, 4)] l t
      [(2, 4)])
    (ht : t.AtEnd) (hf : t.syms.frameSize outerFunc = .ok 0)
    (hu : Emits { t with ostr := t.ostr.write (retCode 0 0) } [(2, 4)] [] u [(2, 4)])
    (hb : u.ostr.buf.length = t.ostr.buf.length + 21) :
    Traces (Codegen.init outerSyms) [] (.func 7 t.ostr.pos [] (ascii "f") outerFunc 0 0 :: l)
      { u with curscope := [] } [(2, 4)] := by
  have hset : ((Codegen.init outerSyms).enterFunc (ascii "f") []).setAddr outerFunc.scopedName
      (Int64.ofNat ((Codegen.init outerSyms).ostr.pos + 7)) =
        outerAt { outerFunc with addr := some 7 } [ascii "f"] (outerJump 0) := by
    decide +kernel
  have ha : ∀ arg ∈ ([] : List (Str × Int64)), (Codegen.init outerSyms).syms.IsVar arg.1 :=
    List.forall_mem_nil _
  exact .func (s := Codegen.init outerSyms) rfl ha (by decide +kernel) (hset ▸ h) ht hf hu hb

theorem outer_compiled : Compiled outerSyms outerEvents outerState [(2, 4)] where
  traces := by
    have h1 : Emits (outerAt { outerFunc with addr := some 7 } [ascii "f"] (outerBody 0)) [(2, 4)]
        [] (outerAt outerCalled [ascii "f"] (outerBody 21)) [(2, 4)] :=
      .filled 21 List.mem_cons_self (.of_linked rfl) rfl
    have h2 := outer_traces (.plain (.refl _ _) (List.forall_mem_nil _) rfl) rfl rfl h1 rfl
    -- the call
    have h3 : Emits (outerAt outerCalled [] (outerBody 21)) [(2, 4)]
        [.call 28 [] (ascii "f") outerCalled 0] outerState [(2, 4)] :=
      .call (s := outerAt outerCalled [] (outerBody 21)) rfl (by decide +kernel) rfl
    exact h2.trans (.plain h3 (List.forall_mem_singleton.2 rfl) rfl)
  atEnd := rfl
  isOpen := ⟨by simp [show outerState.jumps = [] from rfl], by decide +kernel⟩

theorem outer_generate : (generate outerStmts).run (Codegen.init outerSyms) = .ok () outerState := by
  have h : endsIn (generate outerStmts) (Codegen.init outerSyms) (fun t => decide (t = outerState)) =
      true := by decide +kernel
  obtain ⟨_, t, ht, h⟩ := endsIn_ok h
  rw [ht, of_decide_eq_true h]

theorem direct_call_reaches_outer : ∃ n s, finish.run outerState = .ok n s ∧
    @Reached (MathLib.absent ⟨0⟩) outerSyms s.ostr.buf outerEvents 28 outerCalled 0 := by
  have h : endsIn finish outerState (fun _ => true) = true := by decide +kernel
  obtain ⟨n, s, hf, -⟩ := endsIn_ok h
  have hd : Direct outerEvents (ascii "f") outerCalled := by
    refine ⟨rfl, [], [.call 28 [] (ascii "f") outerCalled 0], 7, 7, outerFunc, 0, 0, rfl, rfl, ?_⟩
    intro e he
    rw [List.mem_singleton.1 he]
    rfl
  exact ⟨n, s, hf, (@direct_call_reaches (MathLib.absent ⟨0⟩) _ _ _ _ _ outer_generate hf).2
    outerEvents [(2, 4)] outer_compiled 28 [] (ascii "f") outerCalled 0
    (List.mem_cons_of_mem _ List.mem_cons_self) hd⟩

/-! ### a nested function -/

/-- functions `f`, `g` in `f` with a variable, and `g` -/
def nestedSyms : SymTab :=
  [(ascii "f", { name := ascii "f", scopedName := ascii "f", ty := .func }),
    (ascii "f::g", { name := ascii "g", scopedName := ascii "f::g", scopeName := ascii "f::"
                     ty := .func }),
    (ascii "f::g::x", { name := ascii "x", scopedName := ascii "f::g::x"
                        scopeName := ascii "f::g::", ty := .int }),
    (ascii "g", { name := ascii "g", scopedName := ascii "g", ty := .func })]

/-- `f` with `g` inside and a call of it, and the other `g` -/
def nestedStmts : List AST :=
  [.func (ascii "f") [] [] (.stmts [
      .func (ascii "g") [] [] (.stmts [.varDecl [ascii "f::g::x"] none false false]),
      .call (ascii "g") []]),
    .func (ascii "g") [] [] (.stmts [])]

/-- what is needed of the state before `Finish` -/
def nestedCheck (t : Codegen) : Bool :=
  (t.funcComefroms.map fun call => (call.name, call.pos)) == [(ascii "g", 64)] &&
    t.syms.addrOf (ascii "f::g") == none && ((t.ostr.buf.drop 52).take 10 == intCode 9) &&
    endsIn finish t fun _ => true

theorem nested_runs : ∃ t n s, (generate nestedStmts).run (Codegen.init nestedSyms) = .ok () t ∧
    finish.run t = .ok n s ∧
    (t.funcComefroms.map fun call => (call.name, call.pos)) = [(ascii "g", 64)] ∧
    t.syms.addrOf (ascii "f::g") = none ∧ (t.ostr.buf.drop 52).take 10 = intCode 9 := by
  have h : endsIn (generate nestedStmts) (Codegen.init nestedSyms) nestedCheck = true := by
    decide +kernel
  obtain ⟨_, t, ht, h⟩ := endsIn_ok h
  simp only [nestedCheck, Bool.and_eq_true, beq_iff_eq] at h
  obtain ⟨⟨⟨h1, h2⟩, h3⟩, h4⟩ := h
  obtain ⟨n, s, hf, -⟩ := endsIn_ok h4
  exact ⟨t, n, s, ht, hf, h1, h2, h3⟩

/-- the frame of a function has this size -/
def SymTab.hasFrame (tab : SymTab) (func : Symbol) (framesize : Int64) : Bool :=
  (tab.frameSize func).toOption == some framesize

theorem SymTab.resolve_mem {tab : SymTab} {scope : List Str} {name : Str} {ty : Option SymbolType}
    {sym : Symbol} (h : tab.resolve scope name ty = some sym) : ∃ key, (key, sym) ∈ tab := by
  unfold SymTab.resolve at h
  rw [Option.orElse_eq_orElse, Option.orElse_eq_or, Option.or_eq_some_iff] at h
  rcases h with h | ⟨-, h⟩
  · obtain ⟨-, h⟩ := Option.ite_none_right_eq_some.1 h
    exact ⟨_, lookup_mem (findTyped_some h).1⟩
  · exact ⟨_, lookup_mem (findTyped_some h).1⟩

/-- the only symbol of the program whose scope has variables -/
theorem nested_frame {func : Symbol} {scope : List Str} {name : Str} {ty : Option SymbolType}
    (h : nestedSyms.declared.resolve scope name ty = some func.declared)
    (hf : nestedSyms.frameSize func = .ok 9) : func.scopedName = ascii "f::g" := by
  obtain ⟨key, hm⟩ := SymTab.resolve_mem h
  have hall : (nestedSyms.declared.all fun p =>
      p.2.scopedName == ascii "f::g" || !nestedSyms.hasFrame p.2 9) = true := by decide +kernel
  have hp := List.all_eq_true.1 hall _ hm
  rw [Bool.or_eq_true, beq_iff_eq] at hp
  rcases hp with hp | hp
  · exact hp
  · have e : nestedSyms.frameSize func.declared = nestedSyms.frameSize func := rfl
    unfold SymTab.hasFrame at hp
    dsimp only at hp
    rw [e, hf] at hp
    cases hp

/-- a call from `f` of its own `g` -/
theorem nested_call_not_reached : ∃ t n s,
    (generate nestedStmts).run (Codegen.init nestedSyms) = .ok () t ∧ finish.run t = .ok n s ∧
    ∀ l H, Compiled nestedSyms l t H → ∃ pos scope func framesize,
      Event.call pos scope (ascii "g") func framesize ∈ l ∧ func.scopedName = ascii "f::g" ∧
        ¬ @Reached (MathLib.absent ⟨0⟩) nestedSyms s.ostr.buf l pos func framesize := by
  obtain ⟨t, n, s, hg, hf, h1, h2, h3⟩ := nested_runs
  refine ⟨t, n, s, hg, hf, fun l H hc => ?_⟩
  have hi := emits_sited hc.emits [] (sited_init nestedSyms)
  rw [List.nil_append] at hi
  have hres := emits_resolved hc.emits
  -- the call
  rw [hi.calls] at h1
  have hmem : (ascii "g", 64) ∈ (l.filterMap Event.comefrom).map fun call => (call.name, call.pos) := by
    rw [h1]
    exact List.mem_cons_self
  obtain ⟨call, hm, hcall⟩ := List.mem_map.1 hmem
  obtain ⟨e, hel, he⟩ := List.mem_filterMap.1 hm
  cases e with
  | const => cases he
  | func => cases he
  | var => cases he
  | label => cases he
  | goto => cases he
  | call pos scope name func framesize =>
    cases he
    obtain ⟨rfl, hpos⟩ := Prod.mk.inj hcall
    obtain rfl : pos = 52 := by
      dsimp only at hpos
      omega
    -- its frame
    have hsite : CallSite t.ostr.buf 52 framesize := hi.sites _ hel
    have hs : Sits t.ostr.buf 52 (intCode framesize) := (sits_append.1 hsite.1).1
    have hfs : framesize = 9 := by
      have e : intCode framesize = intCode 9 := by
        rw [← h3]
        refine List.ext_getElem? fun i => ?_
        by_cases hi10 : i < 10
        · rw [List.getElem?_take_of_lt hi10, List.getElem?_drop]
          exact (hs i hi10).symm
        · rw [List.getElem?_eq_none (by rw [length_intCode]; omega),
            List.getElem?_eq_none (by rw [List.length_take]; omega)]
      have e' : Raw.enc framesize = Raw.enc (9 : Int64) := (List.cons.inj (List.cons.inj e).2).2
      have := congrArg (Raw.dec (α := Int64)) e'
      rwa [Raw.dec_enc, Raw.dec_enc] at this
    subst hfs
    obtain ⟨hr, hsize⟩ := hres _ hel
    have hk := nested_frame hr hsize
    refine ⟨52, scope, func, 9, hel, hk, ?_⟩
    -- no body was compiled for it
    rintro ⟨-, begin, ret, scope', name', sym, numArgs, hb, -, hsym, -⟩
    have hhas : SymTab.has nestedSyms (ascii "f::g") := by
      unfold SymTab.has
      decide +kernel
    have ha := emits_addr hc.emits hhas
    rw [h2] at ha
    have hset : Event.addrOf (ascii "f::g") (.func begin ret scope' name' sym 9 numArgs) =
        some (Int64.ofNat begin) := if_pos (hk.symm.trans hsym.symm)
    have hnone : lastAddr l (ascii "f::g") = none := by
      cases hl : lastAddr l (ascii "f::g") with
      | none => rfl
      | some addr =>
        rw [hl] at ha
        cases ha
    have := (List.findSome?_eq_none_iff.1 hnone) _ (List.mem_reverse.2 hb)
    rw [hset] at this
    cases this

end MuF
