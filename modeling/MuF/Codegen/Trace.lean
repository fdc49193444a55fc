import MuF.Codegen.Jumps

/-!
# Code generation as a sequence of events

* `Emits s H l s' H'`: from `s` to `s'` the code generator left the events `l` behind, in between
  other code and holes, which are filled in later;
* `Traces`: such a sequence is made of whole functions and what stands in one scope;
* `Lays`: what every visit does is such a sequence;
* `visit_lays`: by induction over visits, for all syntax trees.
-/

set_option linter.unusedVariables false

namespace MuF

open Bytes Exec

/-- the put position is at the end -/
def Codegen.AtEnd (s : Codegen) : Prop := s.ostr.pos = s.ostr.buf.length

/-- positions and numbers of bytes that are filled in later -/
abbrev Holes := List (Nat × Nat)

/-! ## symbols -/

/-- the addresses of the symbols -/
def SymTab.addrs (tab : SymTab) : List (Str × Option Int64) := tab.map fun p => (p.1, p.2.addr)

/-- a name in a scope -/
def scopedKey (scope : List Str) (name : Str) : Str :=
  (scope.flatMap fun scope => scope ++ scopeSep) ++ name

/-- the symbol that a name means in a scope -/
def SymTab.resolve (tab : SymTab) (scope : List Str) (name : Str) (ty : Option SymbolType) :
    Option Symbol :=
  (if scopedKey scope name ≠ [] then tab.findTyped (scopedKey scope name) ty else none) <|>
    tab.findTyped name ty

/-- the symbol that `getSym` finds -/
def Codegen.resolve (s : Codegen) (name : Str) (ty : Option SymbolType) : Option Symbol :=
  s.syms.resolve s.curscope name ty

/-- the size of the frame of a function -/
def SymTab.frameSize (tab : SymTab) (func : Symbol) : Except Err Int64 :=
  sumSymSizes (tab.findSymbolsWithSameScope (func.scopedName ++ scopeSep))

/-- a symbol gets its address -/
def Codegen.setAddr (s : Codegen) (key : Str) (addr : Int64) : Codegen :=
  { s with syms := s.syms.modify key fun sym => { sym with addr := some addr } }

theorem getSym_resolve {s s' : Codegen} {name : Str} {ty : Option SymbolType} {sym : Symbol}
    (h : (getSym name false ty).run s = .ok sym s') : s.resolve name ty = some sym := by
  unfold getSym at h
  rw [run_get_bind] at h
  dsimp only at h
  generalize e : (_ <|> s.syms.findTyped name ty) = found at h
  cases found with
  | none => cases h
  | some sym' =>
    cases h
    exact e

theorem frameSize_ok {s s' : Codegen} {func : Symbol} {framesize : Int64}
    (h : (getStackFrameSize (some func)).run s = .ok framesize s') :
    s.syms.frameSize func = .ok framesize := by
  unfold getStackFrameSize at h
  rw [run_get_bind] at h
  exact (lift_ok h).1

section
variable {tab : SymTab} {key : Str} {f : Symbol → Symbol}

theorem SymTab.addrs_modify (hf : ∀ sym, (f sym).addr = sym.addr) :
    (tab.modify key f).addrs = tab.addrs := by
  unfold SymTab.addrs SymTab.modify
  rw [List.map_map]
  apply List.map_congr_left
  intro p hp
  simp only [Function.comp_apply]
  split
  · rw [hf]
  · rfl

theorem Codegen.setAddr_declared (s : Codegen) (key : Str) (addr : Int64) :
    (s.setAddr key addr).syms.declared = s.syms.declared := by
  have hf (sym : Symbol) : ({ sym with addr := some addr } : Symbol).declared = sym.declared := rfl
  exact SymTab.declared_modify hf

theorem SymTab.findTyped_declared (tab : SymTab) (name : Str) (ty : Option SymbolType) :
    tab.declared.findTyped name ty = (tab.findTyped name ty).map Symbol.declared := by
  unfold SymTab.findTyped
  rw [SymTab.findSymbol_declared]
  cases tab.findSymbol name with
  | none => rfl
  | some sym =>
    have e : sym.declared.ty = sym.ty := rfl
    simp only [Option.map_some, Option.filter_some, e]
    split <;> rfl

/-- symbols are found by the declarations only -/
theorem SymTab.resolve_declared (tab : SymTab) (scope : List Str) (name : Str)
    (ty : Option SymbolType) :
    tab.declared.resolve scope name ty = (tab.resolve scope name ty).map Symbol.declared := by
  unfold SymTab.resolve
  rw [SymTab.findTyped_declared, SymTab.findTyped_declared]
  split
  · cases tab.findTyped (scopedKey scope name) ty <;> rfl
  · rfl

theorem Codegen.resolve_declared {s s' : Codegen} (hd : s'.syms.declared = s.syms.declared)
    (hc : s'.curscope = s.curscope) {name : Str} {ty : Option SymbolType} {sym : Symbol}
    (h : s.resolve name ty = some sym) :
    ∃ sym', s'.resolve name ty = some sym' ∧ sym'.declared = sym.declared := by
  unfold Codegen.resolve at h ⊢
  have e : (s'.syms.resolve s'.curscope name ty).map Symbol.declared = some sym.declared := by
    rw [← SymTab.resolve_declared, hd, hc, SymTab.resolve_declared, h]
    rfl
  exact Option.map_eq_some_iff.1 e

/-- sizes depend on the declarations only -/
theorem SymTab.frameSize_declared (tab : SymTab) (func : Symbol) :
    tab.declared.frameSize func = tab.frameSize func := by
  have hsum (syms : List Symbol) : sumSymSizes (syms.map Symbol.declared) = sumSymSizes syms := by
    induction syms with
    | nil => rfl
    | cons sym syms ih =>
      rw [List.map_cons, sumSymSizes, sumSymSizes, ih]
      rfl
  have hscope (scope : Str) : tab.declared.findSymbolsWithSameScope scope =
      (tab.findSymbolsWithSameScope scope).map Symbol.declared := by
    unfold SymTab.findSymbolsWithSameScope SymTab.declared
    rw [List.map_map, show Prod.snd ∘ (fun p : Str × Symbol => (p.1, p.2.declared)) =
      Symbol.declared ∘ Prod.snd from rfl, ← List.map_map, List.filter_map]
    rfl
  unfold SymTab.frameSize
  rw [hscope, hsum]

end

/-! ## events -/

/-- what code generation leaves behind -/
inductive Event
  /-- a reference to a string constant -/
  | const (pos : Nat) (val : Str)
  /-- a call of a function from a scope, with the size of its frame -/
  | call (pos : Nat) (scope : List Str) (name : Str) (func : Symbol) (framesize : Int64)
  /-- the body of a function that is defined in a scope, from its begin to its return with the
  size of the frame and the number of arguments -/
  | func (begin ret : Nat) (scope : List Str) (name : Str) (func : Symbol)
    (framesize numArgs : Int64)
  /-- the address of a variable or an argument -/
  | var (key : Str) (addr : Int64)
  /-- a label in a scope -/
  | label (pos : Nat) (scope : List Str) (name : Str)
  /-- a jump to a label from a scope -/
  | goto (pos : Nat) (scope : List Str) (name : Str)

/-- an integer constant -/
def intCode (val : Int64) : List UInt8 := OpCode.push.code :: (Data.int val : TData).bytes .unknown

/-- a call with the address of the function -/
def callCode (framesize : Int64) (skip : Int32) : List UInt8 :=
  intCode framesize ++
    ([OpCode.push.code, VMType.addrIp.code] ++ Raw.enc skip ++ [OpCode.call.code])

/-- a return -/
def retCode (framesize numArgs : Int64) : List UInt8 :=
  intCode framesize ++ (intCode numArgs ++ [OpCode.ret.code])

/-- a jump -/
def jumpCode (skip : Int32) : List UInt8 :=
  [OpCode.push.code, VMType.addrIp.code] ++ Raw.enc skip ++ [OpCode.jmp.code]

/-- what concerns neither the code nor its links -/
structure Quiet (s t : Codegen) : Prop where
  buf : t.ostr.buf = s.ostr.buf
  consttab : t.consttab = s.consttab
  constAddrs : t.constAddrs = s.constAddrs
  funcComefroms : t.funcComefroms = s.funcComefroms
  declared : t.syms.declared = s.syms.declared
  addrs : t.syms.addrs = s.syms.addrs
  labels : t.labels = s.labels
  gotoComefroms : t.gotoComefroms = s.gotoComefroms

/-- the code and its links -/
def Codegen.linked (s : Codegen) :=
  (s.ostr.buf, s.consttab, s.constAddrs, s.funcComefroms, s.syms.declared, s.syms.addrs, s.labels,
    s.gotoComefroms)

theorem Quiet.of_linked {s t : Codegen} (h : t.linked = s.linked) : Quiet s t := by
  simp only [Codegen.linked, Prod.mk.injEq] at h
  obtain ⟨h1, h2, h3, h4, h5, h6, h7, h8⟩ := h
  exact ⟨h1, h2, h3, h4, h5, h6, h7, h8⟩

/-- a label is entered unless it is known -/
def Codegen.addLabel (s : Codegen) (name : Str) (pos : Nat) : Codegen :=
  { s with
    labels := if (s.labels.lookup name).isSome then s.labels else s.labels ++ [(name, pos)] }

/-- the events from one state to another, in between other code and holes -/
inductive Emits : Codegen → Holes → List Event → Codegen → Holes → Prop
  /-- `PushStrConst` or `CallExternal` of a string -/
  | const {s s' : Codegen} {H : Holes} {val : Str} (he : s.AtEnd)
    (h : (putConstRef val).run s = .ok () s') : Emits s H [.const s.ostr.pos val] s' H
  /-- a call whose address is filled in at the end -/
  | call {s : Codegen} {H : Holes} {name : Str} {func : Symbol} {framesize : Int64} (he : s.AtEnd)
    (hr : s.resolve name (some .func) = some func)
    (hf : s.syms.frameSize func = .ok framesize) :
    Emits s H [.call s.ostr.pos s.curscope name func framesize]
      { s with
        ostr := s.ostr.write (callCode framesize (toSkip 0 (s.ostr.pos + 12)))
        funcComefroms := s.funcComefroms ++
          [⟨name, s.ostr.pos + 12, Int32.ofNat func.argty.length⟩] } H
  /-- the body of a function and its return -/
  | func {s t : Codegen} {H H' : Holes} {l : List Event} {scope : List Str} {name : Str}
    {func : Symbol} {framesize numArgs : Int64} (he : s.AtEnd)
    (hs : s.curscope = scope ++ [name]) (hr : s.resolve name none = some func)
    (h : Emits (s.setAddr func.scopedName (Int64.ofNat s.ostr.pos)) H l t H') (ht : t.AtEnd)
    (hf : t.syms.frameSize func = .ok framesize) :
    Emits s H (.func s.ostr.pos t.ostr.pos scope name func framesize numArgs :: l)
      { t with ostr := t.ostr.write (retCode framesize numArgs) } H'
  /-- a declaration -/
  | var {s : Codegen} {H : Holes} (key : Str) (addr : Int64) :
    Emits s H [.var key addr] (s.setAddr key addr) H
  /-- a label -/
  | label {s : Codegen} {H : Holes} (name : Str) (he : s.AtEnd) :
    Emits s H [.label s.ostr.pos s.curscope name] (s.addLabel name s.ostr.pos) H
  /-- a jump to a label, whose address is filled in at the end -/
  | goto {s : Codegen} {H : Holes} (name : Str) (he : s.AtEnd) :
    Emits s H [.goto s.ostr.pos s.curscope name]
      { s with
        ostr := s.ostr.write (jumpCode 0)
        gotoComefroms := s.gotoComefroms ++ [(name, s.ostr.pos + 2)] } H
  /-- other code -/
  | code {s : Codegen} {H : Holes} (he : s.AtEnd) (bs : List UInt8) :
    Emits s H [] { s with ostr := s.ostr.write bs } H
  /-- code with a hole -/
  | hole {s : Codegen} {H : Holes} (he : s.AtEnd) (as bs cs : List UInt8) :
    Emits s H [] { s with ostr := s.ostr.write (as ++ bs ++ cs) }
      ((s.ostr.pos + as.length, bs.length) :: H)
  /-- bytes into a hole -/
  | fill {s : Codegen} {H : Holes} {q : Nat} {bs : List UInt8} (hq : (q, bs.length) ∈ H) :
    Emits s H [] { s with ostr := (⟨s.ostr.buf, q⟩ : OStr).write bs } H
  /-- everything else -/
  | other {s s' : Codegen} {H : Holes} (h : Quiet s s') : Emits s H [] s' H
  | trans {s s' s'' : Codegen} {H H' H'' : Holes} {l l' : List Event}
    (h : Emits s H l s' H') (h' : Emits s' H' l' s'' H'') : Emits s H (l ++ l') s'' H''

theorem Emits.refl (s : Codegen) (H : Holes) : Emits s H [] s H := .other (.of_linked rfl)

/-! ## whole functions -/

/-- the scoped name of a symbol that is no function -/
def SymTab.IsVar (tab : SymTab) (key : Str) : Prop :=
  ∃ name sym, tab.findSymbol name = some sym ∧ sym.scopedName = key ∧ sym.ty ≠ .func

/-- an event in a scope, outside of the functions that the scope has -/
def Event.In (tab : SymTab) (scope : List Str) : Event → Prop
  | .const .. => True
  | .call _ scope' .. => scope' = scope
  | .func .. => False
  | .var key _ => tab.IsVar key
  | .label _ scope' _ => scope' = scope
  | .goto _ scope' _ => scope' = scope

/-- the addresses of arguments -/
def Codegen.setAddrs (s : Codegen) (args : List (Str × Int64)) : Codegen :=
  args.foldl (fun s arg => s.setAddr arg.1 arg.2) s

/-- up to the body of a function: its scope, the jump over it and its arguments -/
def Codegen.enterFunc (s : Codegen) (name : Str) (args : List (Str × Int64)) : Codegen :=
  Codegen.setAddrs
    { s with curscope := s.curscope ++ [name], ostr := s.ostr.write (jumpCode 0) } args

/-- **The events of a program**: the scope changes at the beginning and at the end of a function
only, and only a function gives its symbol an address. -/
inductive Traces : Codegen → Holes → List Event → Codegen → Holes → Prop
  /-- in one scope -/
  | plain {s s' : Codegen} {H H' : Holes} {l : List Event} (h : Emits s H l s' H')
    (hl : ∀ e ∈ l, e.In s.syms s.curscope) (hc : s'.curscope = s.curscope) : Traces s H l s' H'
  /-- a function from the jump over it to its return, after which its jumps are filled in -/
  | func {s t u : Codegen} {H H' : Holes} {args : List (Str × Int64)} {l : List Event} {name : Str}
    {func : Symbol} {framesize : Int64} (he : s.AtEnd) (ha : ∀ arg ∈ args, s.syms.IsVar arg.1)
    (hr : (s.enterFunc name args).resolve name none = some func)
    (h : Traces ((s.enterFunc name args).setAddr func.scopedName (Int64.ofNat (s.ostr.pos + 7)))
      ((s.ostr.pos + 2, 4) :: H) l t H')
    (ht : t.AtEnd) (hf : t.syms.frameSize func = .ok framesize)
    (hu : Emits { t with
      ostr := t.ostr.write (retCode framesize (Int64.ofNat args.length)) } H' [] u H')
    (hb : u.ostr.buf.length = t.ostr.buf.length + 21) :
    Traces s H (args.map (fun arg => .var arg.1 arg.2) ++
        .func (s.ostr.pos + 7) t.ostr.pos s.curscope name func framesize
          (Int64.ofNat args.length) :: l)
      { u with curscope := s.curscope } H'
  | trans {s s' s'' : Codegen} {H H' H'' : Holes} {l l' : List Event}
    (h : Traces s H l s' H') (h' : Traces s' H' l' s'' H'') : Traces s H (l ++ l') s'' H''

/-- events in a scope that keep the holes -/
def Leads (s : Codegen) (H : Holes) (s' : Codegen) (H' : Holes) : Prop :=
  (∃ l, Traces s H l s' H') ∧ H ⊆ H'

/-- the addresses that are filled in before the end -/
def Codegen.jumps (s : Codegen) : List Nat :=
  s.pushretComefroms ++ s.endfuncComefroms ++ s.loopBeginComefroms.map Prod.snd ++
    s.loopEndComefroms.map Prod.snd

/-- the holes are in the output, and every jump that is filled in is one -/
structure Open (s : Codegen) (H : Holes) : Prop where
  pending : ∀ q ∈ s.jumps, (q, 4) ∈ H
  inside : ∀ h ∈ H, h.1 + h.2 ≤ s.ostr.buf.length

/-- what a visit does -/
def Lays (s s' : Codegen) : Prop :=
  ∀ H, s.AtEnd → Open s H → ∃ H', Leads s H s' H' ∧ s'.AtEnd ∧ Open s' H'

section
variable {s s' s'' : Codegen} {H H' H'' : Holes}

theorem Traces.curscope {l : List Event} (h : Traces s H l s' H') : s'.curscope = s.curscope := by
  induction h with
  | plain h hl hc => exact hc
  | func => rfl
  | trans _ _ ih ih' => exact ih'.trans ih

theorem Leads.curscope (h : Leads s H s' H') : s'.curscope = s.curscope := by
  obtain ⟨⟨l, hl⟩, -⟩ := h
  exact hl.curscope

/-- code and holes without an event -/
theorem Leads.quiet (h : Emits s H [] s' H') (hs : H ⊆ H') (hc : s'.curscope = s.curscope) :
    Leads s H s' H' :=
  ⟨⟨[], .plain h (List.forall_mem_nil _) hc⟩, hs⟩

/-- one event in the scope -/
theorem Leads.event {e : Event} (h : Emits s H [e] s' H) (he : e.In s.syms s.curscope)
    (hc : s'.curscope = s.curscope) : Leads s H s' H :=
  ⟨⟨[e], .plain h (List.forall_mem_singleton.2 he) hc⟩, List.Subset.refl _⟩

theorem Leads.refl (s : Codegen) (H : Holes) : Leads s H s H :=
  .quiet (.refl s H) (List.Subset.refl _) rfl

theorem Leads.trans (h : Leads s H s' H') (h' : Leads s' H' s'' H'') : Leads s H s'' H'' := by
  obtain ⟨⟨l, hl⟩, hs⟩ := h
  obtain ⟨⟨l', hl'⟩, hs'⟩ := h'
  exact ⟨⟨l ++ l', hl.trans hl'⟩, fun x hx => hs' (hs hx)⟩

/-- addresses are filled in, without an event or a hole -/
def Fills (s : Codegen) (H : Holes) (s' : Codegen) : Prop :=
  Emits s H [] s' H ∧ s'.curscope = s.curscope

theorem Fills.refl (s : Codegen) (H : Holes) : Fills s H s := ⟨.refl s H, rfl⟩

theorem Fills.trans (h : Fills s H s') (h' : Fills s' H s'') : Fills s H s'' :=
  ⟨h.1.trans h'.1, h'.2.trans h.2⟩

theorem Fills.leads (h : Fills s H s') : Leads s H s' H :=
  .quiet h.1 (List.Subset.refl _) h.2

theorem Lays.trans (h : Lays s s') (h' : Lays s' s'') : Lays s s'' := by
  intro H he ho
  obtain ⟨H', hl, he', ho'⟩ := h H he ho
  obtain ⟨H'', hl', he'', ho''⟩ := h' H' he' ho'
  exact ⟨H'', hl.trans hl', he'', ho''⟩

instance : Std.Refl Lays where
  refl s H he ho := ⟨H, Leads.refl s H, he, ho⟩

instance : IsTrans Codegen Lays where
  trans _ _ _ h h' := h.trans h'

theorem run_lays {α : Type} {x : CGM α} {a : α} (hx : Keeps Lays x) (h : x.run s = .ok a s')
    (he : s.AtEnd) (ho : Open s H) : ∃ H', Leads s H s' H' ∧ s'.AtEnd ∧ Open s' H' :=
  hx s a s' h H he ho

theorem mem_jumps {pos : Nat} : pos ∈ s.jumps ↔
    pos ∈ s.pushretComefroms ∨ pos ∈ s.endfuncComefroms ∨
      pos ∈ s.loopBeginComefroms.map Prod.snd ∨ pos ∈ s.loopEndComefroms.map Prod.snd := by
  simp only [Codegen.jumps, List.mem_append, or_assoc]

/-! ## the beginning of a function -/

theorem atEnd_write (he : s.AtEnd) (bs : List UInt8) :
    Codegen.AtEnd { s with ostr := s.ostr.write bs } := by
  show (s.ostr.write bs).pos = (s.ostr.write bs).buf.length
  rw [write_end _ he, List.length_append]

theorem length_write (he : s.AtEnd) (bs : List UInt8) :
    (s.ostr.write bs).buf.length = s.ostr.buf.length + bs.length := by
  rw [write_end _ he, List.length_append]

theorem Codegen.setAddrs_eq (s : Codegen) (args : List (Str × Int64)) :
    s.setAddrs args = { s with syms := (s.setAddrs args).syms } := by
  induction args generalizing s with
  | nil => rfl
  | cons arg args ih => exact ih (s.setAddr arg.1 arg.2)

section
variable (s : Codegen) (name : Str) (args : List (Str × Int64))

theorem enterFunc_ostr : (s.enterFunc name args).ostr = s.ostr.write (jumpCode 0) :=
  congrArg Codegen.ostr (Codegen.setAddrs_eq _ args)

theorem enterFunc_curscope : (s.enterFunc name args).curscope = s.curscope ++ [name] :=
  congrArg Codegen.curscope (Codegen.setAddrs_eq _ args)

theorem enterFunc_jumps : (s.enterFunc name args).jumps = s.jumps := by
  rw [Codegen.enterFunc, Codegen.setAddrs_eq]
  rfl

theorem enterFunc_pos {s : Codegen} (he : s.AtEnd) :
    (s.enterFunc name args).ostr.pos = s.ostr.pos + 7 := by
  rw [enterFunc_ostr, write_end _ he, show s.ostr.pos = s.ostr.buf.length from he]
  rfl

theorem enterFunc_atEnd {s : Codegen} (he : s.AtEnd) : (s.enterFunc name args).AtEnd := by
  rw [Codegen.AtEnd, enterFunc_ostr]
  exact atEnd_write he _

theorem emits_setAddrs (H : Holes) :
    Emits s H (args.map fun arg => .var arg.1 arg.2) (s.setAddrs args) H := by
  induction args generalizing s with
  | nil => exact .refl s H
  | cons arg args ih => exact (Emits.var arg.1 arg.2).trans (ih _)

theorem enterFunc_length {s : Codegen} (he : s.AtEnd) :
    (s.enterFunc name args).ostr.buf.length = s.ostr.buf.length + 7 := by
  rw [enterFunc_ostr]
  exact length_write he _

theorem enterFunc_open {s : Codegen} {H : Holes} (he : s.AtEnd) (ho : Open s H) :
    Open (s.enterFunc name args) ((s.ostr.pos + 2, 4) :: H) := by
  refine ⟨fun q hq => ?_, fun x hx => ?_⟩
  · rw [enterFunc_jumps] at hq
    exact List.mem_cons_of_mem _ (ho.pending q hq)
  · have e : s.ostr.pos = s.ostr.buf.length := he
    rw [enterFunc_length name args he]
    rcases List.mem_cons.1 hx with rfl | hx
    · dsimp only
      omega
    · have := ho.inside x hx
      omega

/-- the events of the arguments; the jump over the function is a hole -/
theorem emits_enterFunc {s : Codegen} (H : Holes) (he : s.AtEnd) :
    Emits s H (args.map fun arg => .var arg.1 arg.2) (s.enterFunc name args)
      ((s.ostr.pos + 2, 4) :: H) := by
  have h1 : Emits s H [] { s with curscope := s.curscope ++ [name] } H := .other (.of_linked rfl)
  have h2 : Emits { s with curscope := s.curscope ++ [name] } H []
      { s with curscope := s.curscope ++ [name], ostr := s.ostr.write (jumpCode 0) }
      ((s.ostr.pos + 2, 4) :: H) :=
    .hole (s := { s with curscope := s.curscope ++ [name] }) he
      [OpCode.push.code, VMType.addrIp.code] (Raw.enc (0 : Int32)) [OpCode.jmp.code]
  exact h1.trans (h2.trans (emits_setAddrs _ args _))

end

/-- the events of functions are events -/
theorem Traces.emits {l : List Event} (h : Traces s H l s' H') : Emits s H l s' H' := by
  induction h with
  | plain h => exact h
  | @func s t u H H' args l name func framesize he ha hr h ht hf hu hb ih =>
    have h1 := emits_enterFunc name args H he
    rw [← enterFunc_pos name args he] at ih
    have h2 : Emits (s.enterFunc name args) ((s.ostr.pos + 2, 4) :: H) (.func _ t.ostr.pos
          s.curscope name func framesize (Int64.ofNat args.length) :: l)
        { t with ostr := t.ostr.write (retCode framesize (Int64.ofNat args.length)) } H' :=
      .func (enterFunc_atEnd name args he) (enterFunc_curscope s name args) hr ih ht hf
    rw [enterFunc_pos name args he] at h2
    have h3 : Emits u H' [] { u with curscope := s.curscope } H' := .other (.of_linked rfl)
    have h := h1.trans (h2.trans (hu.trans h3))
    rwa [List.append_nil, List.append_nil] at h
  | trans _ _ ih ih' => exact ih.trans ih'

/-! ## output -/

theorem Open.write (ho : Open s H) (he : s.AtEnd) (bs : List UInt8) :
    Open { s with ostr := s.ostr.write bs } H := by
  refine ⟨ho.pending, ?_⟩
  intro h hh
  have := ho.inside h hh
  show _ ≤ (s.ostr.write bs).buf.length
  rw [length_write he]
  omega

theorem writeOut_lays (bs : List UInt8) : Keeps Lays (writeOut bs) := by
  intro s a s' h H he ho
  cases h
  exact ⟨H, .quiet (.code he bs) (List.Subset.refl _) rfl, atEnd_write he bs, ho.write he bs⟩

/-- what leaves the output and its links alone and adds no pending address -/
theorem quiet_lays {t : Codegen} (hb : t.ostr = s.ostr) (hq : Quiet s t)
    (hc : t.curscope = s.curscope) (hp : t.jumps ⊆ s.jumps) : Lays s t := by
  intro H he ho
  refine ⟨H, .quiet (.other hq) (List.Subset.refl _) hc, ?_, ?_, ?_⟩
  · show t.ostr.pos = t.ostr.buf.length
    rw [hb]
    exact he
  · intro q h
    exact ho.pending q (hp h)
  · intro h hh
    rw [hb]
    exact ho.inside h hh

theorem putConstRef_lays (val : Str) : Keeps Lays (putConstRef val) := by
  intro s a s' h H he ho
  have hl := Emits.const (H := H) he h
  rw [run_putConstRef val he] at h
  cases h
  exact ⟨H, .event hl trivial rfl, atEnd_write he _, ho.pending, (ho.write he _).inside⟩

/-! ## holes -/

/-- a jump leaves a hole -/
theorem putJump_lays {op : OpCode} {pos : Nat} (h : (putJump op).run s = .ok pos s')
    (he : s.AtEnd) (ho : Open s H) :
    Leads s H s' ((pos, 4) :: H) ∧ s'.AtEnd ∧ Open s' ((pos, 4) :: H) := by
  rw [run_putJump op he] at h
  cases h
  have hb : (Piece.ref 0 op).bytes =
      [OpCode.push.code, VMType.addrIp.code] ++ Raw.enc (0 : Int32) ++ [op.code] := by
    simp [Piece.bytes, Piece.instrs, Instr.bytes]
  have hh := Emits.hole (H := H) he [OpCode.push.code, VMType.addrIp.code] (Raw.enc (0 : Int32))
    [op.code]
  rw [← hb, Raw.length_enc] at hh
  refine ⟨.quiet hh (List.subset_cons_self _ _) rfl, atEnd_write he _, ?_, ?_⟩
  · intro q hq
    exact List.mem_cons_of_mem _ (ho.pending q hq)
  · intro h hh
    rcases List.mem_cons.1 hh with rfl | hh
    · show s.ostr.pos + 2 + 4 ≤ (s.ostr.write _).buf.length
      have he' : s.ostr.pos = s.ostr.buf.length := he
      have hl : (Piece.ref 0 op).bytes.length = 7 := Piece.size_ref 0 op
      rw [length_write he, hl]
      omega
    · exact (ho.write he _).inside h hh

/-- bytes that are filled in leave the number of bytes -/
theorem length_fill (buf : List UInt8) {q : Nat} {bs : List UInt8}
    (h : q + bs.length ≤ buf.length) : ((⟨buf, q⟩ : OStr).write bs).buf.length = buf.length := by
  simp [OStr.write]
  omega

/-- an address is filled in; nothing else changes -/
theorem patch_lays {pos : Nat} {addr : Int32} {a : Unit} (h : (patch pos addr).run s = .ok a s')
    (hp : (pos, 4) ∈ H) (ho : Open s H) :
    Fills s H s' ∧ Open s' H ∧ s' = { s with ostr := s'.ostr } ∧
      s'.ostr.buf.length = s.ostr.buf.length := by
  rw [run_patch] at h
  cases h
  have hl : (Raw.enc addr).length = 4 := Raw.length_enc addr
  have hlen : ((⟨s.ostr.buf, pos⟩ : OStr).write (Raw.enc addr)).buf.length = s.ostr.buf.length :=
    length_fill s.ostr.buf (by rw [hl]; exact ho.inside _ hp)
  have hf : Emits s H [] { s with ostr := (⟨s.ostr.buf, pos⟩ : OStr).write (Raw.enc addr) } H :=
    .fill (by rw [hl]; exact hp)
  refine ⟨⟨hf, rfl⟩, ⟨ho.pending, ?_⟩, rfl, hlen⟩
  intro h hh
  show _ ≤ (OStr.write _ _).buf.length
  rw [hlen]
  exact ho.inside h hh

theorem seekEnd_lays {a : Unit} (h : seekEnd.run s = .ok a s') (ho : Open s H) :
    Leads s H s' H ∧ s'.AtEnd ∧ Open s' H ∧ s' = { s with ostr := s'.ostr } := by
  rw [run_seekEnd] at h
  cases h
  exact ⟨.quiet (.other (.of_linked rfl)) (List.Subset.refl _) rfl, rfl,
    ⟨ho.pending, ho.inside⟩, rfl⟩

theorem patchAll_lays {target : Nat} {poss : List Nat} {a : Unit}
    (h : (patchAll target poss).run s = .ok a s') (hp : ∀ pos ∈ poss, (pos, 4) ∈ H)
    (ho : Open s H) :
    Fills s H s' ∧ Open s' H ∧ s' = { s with ostr := s'.ostr } ∧
      s'.ostr.buf.length = s.ostr.buf.length := by
  induction poss generalizing s with
  | nil =>
    cases h
    exact ⟨Fills.refl _ H, ho, rfl, rfl⟩
  | cons pos poss ih =>
    obtain ⟨_, s1, h1, h⟩ := bind_eq_ok.1 h
    obtain ⟨hp1, hp⟩ := List.forall_mem_cons.1 hp
    obtain ⟨l1, o1, e1, n1⟩ := patch_lays h1 hp1 ho
    obtain ⟨l2, o2, e2, n2⟩ := ih h hp o1
    exact ⟨l1.trans l2, o2, by rw [e2, e1], n2.trans n1⟩

/-- an address is filled in, and the code goes on at the end -/
theorem patchEnd_lays {β : Type} {f : Unit → CGM β} {b : β} {pos : Nat} {addr : Int32}
    (h : (do patch pos addr; let x ← seekEnd; f x : CGM β).run s = .ok b s') (hp : (pos, 4) ∈ H)
    (ho : Open s H) :
    ∃ s1, (f ()).run s1 = .ok b s' ∧ Leads s H s1 H ∧ s1.AtEnd ∧ Open s1 H ∧
      s1 = { s with ostr := s1.ostr } := by
  obtain ⟨_, s1, h1, h⟩ := bind_eq_ok.1 h
  obtain ⟨l1, o1, e1, -⟩ := patch_lays h1 hp ho
  obtain ⟨_, s2, h2, h⟩ := bind_eq_ok.1 h
  obtain ⟨l2, t2, o2, e2⟩ := seekEnd_lays h2 o1
  exact ⟨s2, h, l1.leads.trans l2, t2, o2, by rw [e2, e1]⟩

/-- other data of the state -/
theorem other_lays {t : Codegen} (hb : t.ostr = s.ostr) (hq : Quiet s t)
    (hc : t.curscope = s.curscope) (hp : ∀ q ∈ t.jumps, (q, 4) ∈ H) (ho : Open s H) :
    Fills s H t ∧ Open t H :=
  ⟨⟨.other hq, hc⟩, hp, hb ▸ ho.inside⟩

/-! ## constants, instructions and casts -/

theorem putOp_lays (op : OpCode) : Keeps Lays (putOp op) := writeOut_lays _

theorem putAddr_lays (ty : VMType) (addr : Int32) : Keeps Lays (putAddr ty addr) := by
  refine Keeps.bind (writeOut_lays _) fun _ => ?_
  exact Keeps.bind (writeOut_lays _) fun _ => writeOut_lays _

theorem pushConst_lays (d : TData) : Keeps Lays (pushConst d) := by
  refine Keeps.bind (writeOut_lays _) fun _ => ?_
  exact Keeps.bind (writeOut_lays _) fun _ => writeOut_lays _

theorem castTo_lays (ty : Option Symbol) : Keeps Lays (castTo ty) := by
  cases ty with
  | none => exact Keeps.pure _
  | some ty =>
    exact Keeps.bind (Keeps.onlyIf (putAddr_lays _ _)) fun _ => putOp_lays _

/-- a cast over a placeholder -/
theorem castTo_at_lays (ty : Option Symbol) {pos : Nat} {a : Unit}
    (h : (castTo ty (some pos)).run s = .ok a s') (he : s.AtEnd) (hp : (pos, 1) ∈ H)
    (ho : Open s H) :
    Leads s H s' H ∧ s'.AtEnd ∧ Open s' H ∧ s'.ostr.buf.length = s.ostr.buf.length := by
  cases ty with
  | none =>
    cases h
    exact ⟨Leads.refl _ H, he, ho, rfl⟩
  | some ty =>
    rw [run_castTo_at] at h
    cases h
    have hp' : (pos, [(castOp ty.ty false).1.code].length) ∈ H := hp
    have hlen := length_fill s.ostr.buf (ho.inside _ hp')
    have hf := Emits.fill (s := s) hp'
    refine ⟨.quiet (hf.trans (.other (.of_linked rfl))) (List.Subset.refl _) rfl, rfl,
      ⟨ho.pending, ?_⟩, hlen⟩
    intro h hh
    show _ ≤ (OStr.write _ _).buf.length
    rw [hlen]
    exact ho.inside h hh

theorem castOperands_lays {term1 term2 : Visit} (h1 : Keeps Lays term1)
    (h2 : Keeps Lays term2) : Keeps Lays (castOperands term1 term2) := by
  intro s a s' h H he ho
  unfold castOperands at h
  obtain ⟨sym1, s1, hr1, h⟩ := bind_eq_ok.1 h
  obtain ⟨H1, l1, t1, o1⟩ := run_lays h1 hr1 he ho
  obtain ⟨pos1, s1', hp1, h⟩ := bind_eq_ok.1 h
  cases hp1
  -- the placeholder
  obtain ⟨_, s2, hr2, h⟩ := bind_eq_ok.1 h
  have hh := Emits.hole (H := H1) t1 [] [OpCode.nop.code] []
  have e2 : (putOp .nop).run s1 = .ok () { s1 with ostr := s1.ostr.write [OpCode.nop.code] } := rfl
  rw [e2] at hr2
  cases hr2
  have t2 := atEnd_write t1 [OpCode.nop.code]
  have o2 : Open { s1 with ostr := s1.ostr.write [OpCode.nop.code] } ((s1.ostr.pos, 1) :: H1) := by
    refine ⟨fun q hq => List.mem_cons_of_mem _ (o1.pending q hq), ?_⟩
    intro h hh
    rcases List.mem_cons.1 hh with rfl | hh
    · show s1.ostr.pos + 1 ≤ (s1.ostr.write [OpCode.nop.code]).buf.length
      have e : s1.ostr.pos = s1.ostr.buf.length := t1
      rw [length_write t1, e]
      exact Nat.le_refl _
    · exact (o1.write t1 _).inside h hh
  have l2 : Leads s1 H1 { s1 with ostr := s1.ostr.write [OpCode.nop.code] }
      ((s1.ostr.pos, 1) :: H1) := .quiet hh (List.subset_cons_self _ _) rfl
  obtain ⟨sym2, s3, hr3, h⟩ := bind_eq_ok.1 h
  obtain ⟨H3, l3, t3, o3⟩ := run_lays h2 hr3 t2 o2
  obtain ⟨pos2, s3', hp2, h⟩ := bind_eq_ok.1 h
  cases hp2
  dsimp only at h
  obtain ⟨_, s4, hr4, h⟩ := bind_eq_ok.1 h
  obtain ⟨l4, t4, o4, n4⟩ := castTo_at_lays _ hr4 t3 (l3.2 List.mem_cons_self) o3
  obtain ⟨_, s5, hr5, h⟩ := bind_eq_ok.1 h
  cases h
  have e3 : s3.ostr.pos = s3.ostr.buf.length := t3
  rw [e3, ← n4, castTo_end _ t4] at hr5
  obtain ⟨H5, l5, t5, o5⟩ := run_lays (castTo_lays _) hr5 t4 o4
  exact ⟨H5, l1.trans (l2.trans (l3.trans (l4.trans l5))), t5, o5⟩

theorem lays_emits : EmitRules Lays where
  op _ := putOp_lays _
  addr _ _ addr := putAddr_lays _ addr
  const _ := pushConst_lays _
  constRef val := putConstRef_lays val
  operands h1 h2 := castOperands_lays h1 h2

/-! ## conditionals -/

theorem visitCond_lays {cond ifStmt : Visit} {elseStmt : Option Visit} (hc : Keeps Lays cond)
    (hif : Keeps Lays ifStmt) (helse : OptKeeps Lays elseStmt) :
    Keeps Lays (visitCond cond ifStmt elseStmt) := by
  intro s a s' h H he ho
  obtain ⟨_, s1, h1, h⟩ := bind_eq_ok.1 h
  obtain ⟨H1, l1, t1, o1⟩ := run_lays (visitRun_keeps hc) h1 he ho
  obtain ⟨_, s2, h2, h⟩ := bind_eq_ok.1 h
  obtain ⟨H2, l2, t2, o2⟩ := run_lays (putOp_lays _) h2 t1 o1
  obtain ⟨skipAddr, s3, h3, h⟩ := bind_eq_ok.1 h
  obtain ⟨l3, t3, o3⟩ := putJump_lays h3 t2 o2
  obtain ⟨beforeIf, s3', hp, h⟩ := bind_eq_ok.1 h
  cases hp
  obtain ⟨_, s4, h4, h⟩ := bind_eq_ok.1 h
  obtain ⟨H4, l4, t4, o4⟩ := run_lays (visitRun_keeps hif) h4 t3 o3
  have hskip : (skipAddr, 4) ∈ H4 := l4.2 List.mem_cons_self
  have l4 := l1.trans (l2.trans (l3.trans l4))
  cases elseStmt with
  | none =>
    obtain ⟨afterIf, s4', hp, h⟩ := bind_eq_ok.1 h
    cases hp
    obtain ⟨s5, h, l5, t5, o5, -⟩ := patchEnd_lays h hskip o4
    cases h
    exact ⟨H4, l4.trans l5, t5, o5⟩
  | some elseStmt =>
    obtain ⟨skipElseAddr, s5, h5, h⟩ := bind_eq_ok.1 h
    obtain ⟨l5, t5, o5⟩ := putJump_lays h5 t4 o4
    obtain ⟨afterIf, s5', hp, h⟩ := bind_eq_ok.1 h
    cases hp
    obtain ⟨s6, h, l6, t6, o6, -⟩ := patchEnd_lays h (List.mem_cons_of_mem _ hskip) o5
    obtain ⟨beforeElse, s6', hp, h⟩ := bind_eq_ok.1 h
    cases hp
    obtain ⟨_, s7, h7, h⟩ := bind_eq_ok.1 h
    obtain ⟨H7, l7, t7, o7⟩ := run_lays (visitRun_keeps (helse elseStmt rfl)) h7 t6 o6
    obtain ⟨afterElse, s7', hp, h⟩ := bind_eq_ok.1 h
    cases hp
    obtain ⟨s8, h, l8, t8, o8, -⟩ := patchEnd_lays h (l7.2 List.mem_cons_self) o7
    cases h
    exact ⟨H7, l4.trans (l5.trans (l6.trans (l7.trans l8))), t8, o8⟩

/-- one case leaves its jump behind all cases open -/
theorem visitCase_lays {expr cond stmts : Visit} (he : Keeps Lays expr) (hc : Keeps Lays cond)
    (hs : Keeps Lays stmts) {r : Nat × Nat} (h : (visitCase expr cond stmts).run s = .ok r s')
    (ht : s.AtEnd) (ho : Open s H) :
    ∃ H', Leads s H s' H' ∧ s'.AtEnd ∧ Open s' H' ∧ (r.1, 4) ∈ H' := by
  obtain ⟨_, s1, h1, h⟩ := bind_eq_ok.1 h
  obtain ⟨H1, l1, t1, o1⟩ := run_lays (visitRun_keeps he) h1 ht ho
  obtain ⟨_, s2, h2, h⟩ := bind_eq_ok.1 h
  obtain ⟨H2, l2, t2, o2⟩ := run_lays (visitRun_keeps hc) h2 t1 o1
  obtain ⟨_, s3, h3, h⟩ := bind_eq_ok.1 h
  obtain ⟨H3, l3, t3, o3⟩ := run_lays (putOp_lays _) h3 t2 o2
  obtain ⟨_, s4, h4, h⟩ := bind_eq_ok.1 h
  obtain ⟨H4, l4, t4, o4⟩ := run_lays (putOp_lays _) h4 t3 o3
  obtain ⟨skipCaseAddr, s5, h5, h⟩ := bind_eq_ok.1 h
  obtain ⟨l5, t5, o5⟩ := putJump_lays h5 t4 o4
  obtain ⟨beforeCase, s5', hp, h⟩ := bind_eq_ok.1 h
  cases hp
  obtain ⟨_, s6, h6, h⟩ := bind_eq_ok.1 h
  obtain ⟨H6, l6, t6, o6⟩ := run_lays (visitRun_keeps hs) h6 t5 o5
  obtain ⟨skipAfterCaseAddr, s7, h7, h⟩ := bind_eq_ok.1 h
  obtain ⟨l7, t7, o7⟩ := putJump_lays h7 t6 o6
  obtain ⟨afterCase, s7', hp, h⟩ := bind_eq_ok.1 h
  cases hp
  obtain ⟨s8, h, l8, t8, o8, -⟩ :=
    patchEnd_lays h (List.mem_cons_of_mem _ (l6.2 List.mem_cons_self)) o7
  cases h
  have l4 := l1.trans (l2.trans (l3.trans l4))
  exact ⟨_, l4.trans (l5.trans (l6.trans (l7.trans l8))), t8, o8, List.mem_cons_self⟩

theorem visitCaseList_lays {expr : Visit} (he : Keeps Lays expr) {cases_ : List (Visit × Visit)}
    (hc : ∀ x ∈ cases_, Keeps Lays x.1 ∧ Keeps Lays x.2) {rs : List (Nat × Nat)}
    (h : (cases_.mapM fun (cond, stmts) => visitCase expr cond stmts).run s = .ok rs s')
    (ht : s.AtEnd) (ho : Open s H) :
    ∃ H', Leads s H s' H' ∧ s'.AtEnd ∧ Open s' H' ∧ ∀ r ∈ rs, (r.1, 4) ∈ H' := by
  induction cases_ generalizing s s' H rs with
  | nil =>
    cases h
    exact ⟨H, Leads.refl _ H, ht, ho, by simp⟩
  | cons x cases_ ih =>
    obtain ⟨cond, stmts⟩ := x
    rw [List.mapM_cons] at h
    obtain ⟨⟨hc1, hc2⟩, hc⟩ := List.forall_mem_cons.1 hc
    obtain ⟨r, s1, h1, h⟩ := bind_eq_ok.1 h
    obtain ⟨H1, l1, t1, o1, m1⟩ := visitCase_lays he hc1 hc2 h1 ht ho
    obtain ⟨rs, s2, h2, h⟩ := bind_eq_ok.1 h
    obtain ⟨H2, l2, t2, o2, m2⟩ := ih hc h2 t1 o1
    cases h
    exact ⟨H2, l1.trans l2, t2, o2, List.forall_mem_cons.2 ⟨l2.2 m1, m2⟩⟩

theorem patchCases_lays {target : Nat} {rs : List (Nat × Nat)} {a : Unit}
    (h : (rs.forM fun (labelAddr, jumpAddr) => patch labelAddr (streamDiff target jumpAddr)).run s
      = .ok a s') (hr : ∀ r ∈ rs, (r.1, 4) ∈ H) (ho : Open s H) : Leads s H s' H ∧ Open s' H := by
  induction rs generalizing s with
  | nil =>
    cases h
    exact ⟨Leads.refl _ H, ho⟩
  | cons r rs ih =>
    obtain ⟨_, s1, h1, h⟩ := bind_eq_ok.1 h
    obtain ⟨hr1, hr⟩ := List.forall_mem_cons.1 hr
    obtain ⟨l1, o1, -, -⟩ := patch_lays h1 hr1 ho
    obtain ⟨l2, o2⟩ := ih h hr o1
    exact ⟨l1.leads.trans l2, o2⟩

theorem visitCases_lays {expr : Visit} (he : Keeps Lays expr) {cases_ : List (Visit × Visit)}
    (hc : ∀ x ∈ cases_, Keeps Lays x.1 ∧ Keeps Lays x.2) {defaultStmts : Option Visit}
    (hd : OptKeeps Lays defaultStmts) : Keeps Lays (visitCases expr cases_ defaultStmts) := by
  intro s a s' h H ht ho
  obtain ⟨rs, s1, h1, h⟩ := bind_eq_ok.1 h
  obtain ⟨H1, l1, t1, o1, m1⟩ := visitCaseList_lays he hc h1 ht ho
  obtain ⟨s2, H2, l2, t2, o2, h⟩ : ∃ s2 H2, Leads s1 H1 s2 H2 ∧ s2.AtEnd ∧ Open s2 H2 ∧ (do
        let afterAll ← tellp
        rs.forM fun (labelAddr, jumpAddr) => patch labelAddr (streamDiff afterAll jumpAddr)
        seekEnd
        return none : Visit).run s2 = .ok a s' := by
    cases defaultStmts with
    | none => exact ⟨s1, H1, Leads.refl _ _, t1, o1, h⟩
    | some stmts =>
      obtain ⟨_, s2, h2, h⟩ := bind_eq_ok.1 h
      obtain ⟨H2, l2, t2, o2⟩ := run_lays (visitRun_keeps (hd stmts rfl)) h2 t1 o1
      exact ⟨s2, H2, l2, t2, o2, h⟩
  obtain ⟨afterAll, s2', hp, h⟩ := bind_eq_ok.1 h
  cases hp
  obtain ⟨_, s3, h3, h⟩ := bind_eq_ok.1 h
  obtain ⟨l3, o3⟩ := patchCases_lays h3 (fun r hr => l2.2 (m1 r hr)) o2
  obtain ⟨_, s4, h4, h⟩ := bind_eq_ok.1 h
  obtain ⟨l4, t4, o4, -⟩ := seekEnd_lays h4 o3
  cases h
  exact ⟨H2, l1.trans (l2.trans (l3.trans l4)), t4, o4⟩

/-! ## loops -/

theorem patchLoop_lays {loopIdent loopBegin loopEnd : Nat} {a : Unit}
    (h : (patchLoop loopIdent loopBegin loopEnd).run s = .ok a s') (ho : Open s H) :
    Fills s H s' ∧ Open s' H := by
  unfold patchLoop at h
  rw [run_get_bind] at h
  obtain ⟨_, s1, h1, h⟩ := bind_eq_ok.1 h
  rw [run_modify_bind, run_get_bind] at h
  obtain ⟨_, s2, h2, h⟩ := bind_eq_ok.1 h
  have hmem : ∀ pos, pos ∈ (s.loopBeginComefroms.filter fun p => p.1 == loopIdent).map Prod.snd ∨
      pos ∈ (s.loopEndComefroms.filter fun p => p.1 == loopIdent).map Prod.snd →
      (pos, 4) ∈ H := by
    intro pos hp
    apply ho.pending
    rw [mem_jumps, mem_comefroms loopIdent s.loopBeginComefroms,
      mem_comefroms loopIdent s.loopEndComefroms]
    tauto
  obtain ⟨l1, o1, e1, -⟩ := patchAll_lays h1 (fun pos hp => hmem pos (Or.inl hp)) ho
  -- the saved jumps that are left are among those of before
  have hkeep : ∀ (f : List (Nat × Nat)) (k : Nat) (q : Nat),
      q ∈ (f.filter fun p => p.1 != k).map Prod.snd → q ∈ f.map Prod.snd := by
    intro f k q hq
    exact (mem_comefroms k f).2 (Or.inr hq)
  obtain ⟨l2, o2⟩ := other_lays (s := s1)
    (t := { s1 with loopBeginComefroms := s1.loopBeginComefroms.filter fun p => p.1 != loopIdent })
    rfl (.of_linked rfl) rfl (H := H) (fun q hq => o1.pending q (by
      rw [mem_jumps] at hq ⊢
      have := hkeep s1.loopBeginComefroms loopIdent q
      dsimp only at hq
      tauto)) o1
  obtain ⟨l3, o3, e3, -⟩ := patchAll_lays h2 (fun pos hp => hmem pos (Or.inr (by
    rw [e1] at hp
    exact hp))) o2
  cases h
  obtain ⟨l4, o4⟩ := other_lays (s := s2)
    (t := { s2 with loopEndComefroms := s2.loopEndComefroms.filter fun p => p.1 != loopIdent })
    rfl (.of_linked rfl) rfl (H := H) (fun q hq => o3.pending q (by
      rw [mem_jumps] at hq ⊢
      have := hkeep s2.loopEndComefroms loopIdent q
      dsimp only at hq
      tauto)) o3
  exact ⟨l1.trans (l2.trans (l3.trans l4)), o4⟩

theorem emitLoop_lays {cond body : CGM Unit} (hc : Keeps Lays cond) (hb : Keeps Lays body) :
    Keeps Lays (emitLoop cond body) := by
  intro s a s' h H he ho
  unfold emitLoop at h
  obtain ⟨loopIdent, s1, h1, h⟩ := bind_eq_ok.1 h
  have l1 : Leads s H s1 H ∧ Open s1 H ∧ s1.AtEnd := by
    cases h1
    obtain ⟨l, o⟩ := other_lays (s := s) (H := H)
      (t := { s with loopIdent := s.loopIdent + 1, curLoop := s.curLoop ++ [s.loopIdent + 1] })
      rfl (.of_linked rfl) rfl ho.pending ho
    exact ⟨l.leads, o, he⟩
  obtain ⟨l1, o1, t1⟩ := l1
  obtain ⟨loopBegin, s1', hp, h⟩ := bind_eq_ok.1 h
  cases hp
  obtain ⟨_, s2, h2, h⟩ := bind_eq_ok.1 h
  obtain ⟨H2, l2, t2, o2⟩ := run_lays hc h2 t1 o1
  obtain ⟨_, s3, h3, h⟩ := bind_eq_ok.1 h
  obtain ⟨H3, l3, t3, o3⟩ := run_lays (putOp_lays _) h3 t2 o2
  obtain ⟨skipAddr, s4, h4, h⟩ := bind_eq_ok.1 h
  obtain ⟨l4, t4, o4⟩ := putJump_lays h4 t3 o3
  obtain ⟨beforeBlock, s4', hp, h⟩ := bind_eq_ok.1 h
  cases hp
  obtain ⟨_, s5, h5, h⟩ := bind_eq_ok.1 h
  obtain ⟨H5, l5, t5, o5⟩ := run_lays hb h5 t4 o4
  have hskip : (skipAddr, 4) ∈ H5 := l5.2 List.mem_cons_self
  -- the jump back
  rw [run_putSkip _ _ _ t5] at h
  generalize (Piece.ref (toSkip s1.ostr.pos (s5.ostr.pos + 2)) .jmp).bytes = bs at h
  generalize hs6 : ({ s5 with ostr := s5.ostr.write bs } : Codegen) = s6 at h
  have t6 : s6.AtEnd := hs6 ▸ atEnd_write t5 _
  have o6 : Open s6 H5 := hs6 ▸ o5.write t5 _
  have l6 : Leads s5 H5 s6 H5 := hs6 ▸ .quiet (.code t5 _) (List.Subset.refl _) rfl
  obtain ⟨afterBlock, s6', hp, h⟩ := bind_eq_ok.1 h
  cases hp
  obtain ⟨_, s7, h7, h⟩ := bind_eq_ok.1 h
  obtain ⟨l7, o7, -, -⟩ := patch_lays h7 hskip o6
  obtain ⟨_, s8, h8, h⟩ := bind_eq_ok.1 h
  obtain ⟨l8, o8⟩ := patchLoop_lays h8 o7
  obtain ⟨_, s9, h9, h⟩ := bind_eq_ok.1 h
  obtain ⟨l9, t9, o9, -⟩ := seekEnd_lays h9 o8
  obtain ⟨_, s10, h10, h⟩ := bind_eq_ok.1 h
  cases h
  unfold leaveLoop at h10
  rw [run_get_bind] at h10
  obtain ⟨_, s11, h11, h10⟩ := bind_eq_ok.1 h10
  obtain ⟨-, e11⟩ := deref_ok h11
  rw [e11] at h10
  cases h10
  obtain ⟨l10, o10⟩ := other_lays (s := s9) (t := { s9 with curLoop := s9.curLoop.dropLast })
    rfl (.of_linked rfl) rfl (H := H5) o9.pending o9
  have l5 := l1.trans (l2.trans (l3.trans (l4.trans l5)))
  have l7 := l6.trans (l7.leads.trans l8.leads)
  exact ⟨H5, l5.trans (l7.trans (l9.trans l10.leads)), t9, o10⟩

/-- a jump whose address is saved in the state -/
theorem saveJump_lays {α : Type} {op : OpCode} {f : Nat → Codegen → Codegen} (x : α)
    (h1 : ∀ p s, (f p s).ostr = s.ostr) (h2 : ∀ p s, Quiet s (f p s))
    (h3 : ∀ p s, (f p s).curscope = s.curscope)
    (h4 : ∀ p s q, q ∈ (f p s).jumps → q = p ∨ q ∈ s.jumps) :
    Keeps Lays (do let pos ← putJump op; modify (f pos); return x : CGM α) := by
  intro s a s' h H he ho
  obtain ⟨pos, s1, hj, h⟩ := bind_eq_ok.1 h
  obtain ⟨l1, t1, o1⟩ := putJump_lays hj he ho
  cases h
  obtain ⟨l2, o2⟩ := other_lays (h1 pos s1) (h2 pos s1) (h3 pos s1) (H := (pos, 4) :: H) (by
    intro q hq
    rcases h4 pos s1 q hq with rfl | hq
    · exact List.mem_cons_self
    · exact o1.pending q hq) o1
  refine ⟨_, l1.trans l2.leads, ?_, o2⟩
  show (f pos s1).ostr.pos = (f pos s1).ostr.buf.length
  rw [h1]
  exact t1

theorem visitLoopBreak_lays (numLoops : Int64) : Keeps Lays (visitLoopBreak numLoops) := by
  refine Keeps.bind Keeps.get fun s => ?_
  refine Keeps.ite (fail_keeps _) ?_
  refine Keeps.bind (Keeps.of_eq (deref_eq _)) fun loop => ?_
  refine saveJump_lays _ (fun _ _ => rfl) (fun _ _ => .of_linked rfl) (fun _ _ => rfl) ?_
  intro p s q hq
  rw [mem_jumps, mem_concat_snd] at hq
  rw [mem_jumps]
  dsimp only at hq
  tauto

theorem visitLoopNext_lays (numLoops : Int64) : Keeps Lays (visitLoopNext numLoops) := by
  refine Keeps.bind Keeps.get fun s => ?_
  refine Keeps.ite (fail_keeps _) ?_
  refine Keeps.bind (Keeps.of_eq (deref_eq _)) fun loop => ?_
  refine saveJump_lays _ (fun _ _ => rfl) (fun _ _ => .of_linked rfl) (fun _ _ => rfl) ?_
  intro p s q hq
  rw [mem_jumps, mem_concat_snd] at hq
  rw [mem_jumps]
  dsimp only at hq
  tauto

/-! ## labels -/

theorem visitLabel_lays (ident : Str) : Keeps Lays (visitLabel ident) := by
  intro s a s' h H he ho
  have e : (visitLabel ident).run s = .ok none (s.addLabel ident s.ostr.pos) := rfl
  rw [e] at h
  cases h
  exact ⟨H, .event (.label ident he) rfl rfl, he, ho.pending, ho.inside⟩

/-- the bytes of a jump -/
theorem jumpCode_eq (skip : Int32) : (Piece.ref skip .jmp).bytes = jumpCode skip := by
  simp [Piece.bytes, Piece.instrs, Instr.bytes, jumpCode]

theorem visitJump_lays (label : Str) (isComefrom : Bool) :
    Keeps Lays (visitJump label isComefrom) := by
  refine Keeps.ite (fail_keeps _) ?_
  intro s a s' h H he ho
  rw [bind_ok (run_putJump .jmp he), jumpCode_eq] at h
  cases h
  exact ⟨H, .event (.goto label he) rfl rfl, atEnd_write he _, ho.pending,
    (ho.write he _).inside⟩

/-! ## declarations -/

/-- what is neither declared nor an address -/
theorem modify_quiet {key : Str} {f : Symbol → Symbol} (hd : ∀ sym, (f sym).declared = sym.declared)
    (ha : ∀ sym, (f sym).addr = sym.addr) : Quiet s { s with syms := s.syms.modify key f } :=
  ⟨rfl, rfl, rfl, rfl, SymTab.declared_modify hd, SymTab.addrs_modify ha, rfl, rfl⟩

theorem SymTab.IsVar.congr {tab tab' : SymTab} {key : Str} (h : tab.IsVar key)
    (hd : tab.declared = tab'.declared) : tab'.IsVar key := by
  obtain ⟨name, sym, hs, hk, ht⟩ := h
  obtain ⟨sym', hs', e⟩ := SymTab.find_of_declared hd hs
  have e1 : sym'.declared.scopedName = sym.declared.scopedName := by rw [e]
  have e2 : sym'.declared.ty = sym.declared.ty := by rw [e]
  exact ⟨name, sym', hs', e1.trans hk, fun h => ht (e2.symm.trans h)⟩

theorem setAddr_lays {sym : Symbol} {addr : Int64} {a : Unit}
    (h : (modifySym sym fun sym => { sym with addr := some addr }).run s = .ok a s')
    (hk : s.syms.IsVar sym.scopedName) : Lays s s' := by
  cases h
  intro H he ho
  exact ⟨H, .event (.var sym.scopedName addr) hk rfl, he, ho.pending, ho.inside⟩

/-- only what is no function has a size -/
theorem getSymSize_func {sym : Symbol} {size : Int32} (h : getSymSize sym = .ok size) :
    sym.ty ≠ .func := by
  intro ht
  rw [getSymSize, ht] at h
  cases h

theorem allocVar_lays {isGlobal : Bool} {name : Str} {sym : Symbol} {a : Unit}
    (hs : s.syms.findSymbol name = some sym) (h : (allocVar isGlobal sym).run s = .ok a s') :
    Lays s s' := by
  obtain ⟨_, s1, h1, h⟩ := bind_eq_ok.1 h
  have hf (sym : Symbol) : ({ sym with isGlobal := isGlobal } : Symbol).declared = sym.declared :=
    rfl
  have l1 : Lays s s1 := by
    cases h1
    exact quiet_lays rfl (modify_quiet hf fun _ => rfl) rfl (List.Subset.refl _)
  have hd : s1.syms.declared = s.syms.declared := by
    cases h1
    exact SymTab.declared_modify hf
  obtain ⟨size, s2, h2, h⟩ := bind_eq_ok.1 h
  obtain ⟨hsize, e2⟩ := lift_ok h2
  rw [e2] at h
  have hv : s1.syms.IsVar sym.scopedName :=
    SymTab.IsVar.congr ⟨name, sym, hs, rfl, getSymSize_func hsize⟩ hd.symm
  rw [run_get_bind] at h
  cases isGlobal with
  | true =>
    rw [run_if_pos rfl, run_modify_bind] at h
    refine (l1.trans ?_).trans (setAddr_lays h hv)
    exact quiet_lays rfl (.of_linked rfl) rfl (List.Subset.refl _)
  | false =>
    rw [run_if_neg Bool.false_ne_true] at h
    obtain ⟨curFunc, s3, h3, h⟩ := bind_eq_ok.1 h
    obtain ⟨-, e3⟩ := deref_ok h3
    rw [e3, run_modify_bind] at h
    refine (l1.trans ?_).trans (setAddr_lays h hv)
    exact quiet_lays rfl (.of_linked rfl) rfl (List.Subset.refl _)

theorem declareVar_lays (isGlobal : Bool) {optAssign : Option Visit}
    (ha : OptKeeps Lays optAssign) (intentIn intentOut : Bool) (varname : Str) :
    Keeps Lays (declareVar isGlobal optAssign intentIn intentOut varname) := by
  intro s a s' h
  obtain ⟨sym, s1, h1, h⟩ := bind_eq_ok.1 h
  obtain ⟨e1, -, name, hs, -⟩ := getSym_ok h1
  rw [e1] at h
  split at h
  · cases h
    exact Std.Refl.refl _
  split at h
  · cases h
  split at h
  · cases h
  split at h
  · cases h
  obtain ⟨_, s2, h2, h⟩ := bind_eq_ok.1 h
  refine (allocVar_lays hs h2).trans ?_
  refine (Keeps.bind (Keeps.of_eq (reload_eq sym)) fun sym => ?_) s2 a s' h
  cases optAssign with
  | some assign => exact Keeps.bind (visitRun_keeps (ha assign rfl)) fun _ => Keeps.pure _
  | none =>
    refine Keeps.bind (Keeps.onlyIf ?_) fun _ => Keeps.pure _
    exact Keeps.bind (lays_emits.pushDefault_keeps sym) fun _ => lays_emits.assignVar_keeps sym

theorem visitVarDecl_lays (vars : List Str) {optAssign : Option Visit}
    (ha : OptKeeps Lays optAssign) (intentIn intentOut : Bool) :
    Keeps Lays (visitVarDecl vars optAssign intentIn intentOut) := by
  refine Keeps.bind Keeps.get fun s => ?_
  refine Keeps.bind (Keeps.mapM vars fun varname _ => ?_) fun syms => Keeps.pure _
  exact declareVar_lays _ ha intentIn intentOut varname

/-- the arguments get their addresses; nothing else changes -/
theorem declareArgs_ok {funcname : Str} {argidx : Nat} {frameAddr : Int32} {args : List ArgName}
    {a : Unit} (h : (declareArgs funcname argidx frameAddr args).run s = .ok a s') :
    ∃ addrs : List (Str × Int64), addrs.length = args.length ∧
      (∀ arg ∈ addrs, s.syms.IsVar arg.1) ∧ s' = s.setAddrs addrs := by
  induction args generalizing argidx frameAddr s with
  | nil =>
    cases h
    exact ⟨[], rfl, List.forall_mem_nil _, rfl⟩
  | cons arg args ih =>
    obtain ⟨argname, argtype, dims⟩ := arg
    obtain ⟨sym, s1, h1, h⟩ := bind_eq_ok.1 h
    obtain ⟨e1, -, name, hs, -⟩ := getSym_ok h1
    rw [e1] at h
    split at h
    · cases h
    split at h
    · cases h
    split at h
    · cases h
    split at h
    · cases h
    obtain ⟨_, s2, h2, h⟩ := bind_eq_ok.1 h
    have e2 : s2 = s.setAddr sym.scopedName frameAddr.toInt64 := by
      cases h2
      rfl
    obtain ⟨size, s3, h3, h⟩ := bind_eq_ok.1 h
    obtain ⟨hsize, e3⟩ := lift_ok h3
    rw [e3] at h
    obtain ⟨addrs, hlen, hv, e⟩ := ih h
    refine ⟨(sym.scopedName, frameAddr.toInt64) :: addrs, congrArg (· + 1) hlen, ?_, ?_⟩
    · refine List.forall_mem_cons.2 ⟨⟨name, sym, hs, rfl, getSymSize_func hsize⟩, ?_⟩
      intro arg harg
      refine (hv arg harg).congr ?_
      rw [e2]
      exact Codegen.setAddr_declared _ _ _
    · rw [e, e2]
      rfl

/-! ## functions -/

theorem visitReturn_lays {rets : Option (List Visit)}
    (hr : ∀ xs ∈ rets, ∀ x ∈ xs, Keeps Lays x) (onlyJumpToFuncEnd : Bool) :
    Keeps Lays (visitReturn rets onlyJumpToFuncEnd) := by
  refine Keeps.bind Keeps.get fun s => ?_
  refine Keeps.ite (fail_keeps _) ?_
  refine Keeps.ite ?_ ?_
  · refine Keeps.ite (fail_keeps _) ?_
    refine saveJump_lays _ (fun _ _ => rfl) (fun _ _ => .of_linked rfl) (fun _ _ => rfl) ?_
    intro p s q hq
    simp only [mem_jumps, List.mem_append, List.mem_singleton] at hq ⊢
    tauto
  · intro s a s' h
    obtain ⟨xs, s1, h1, h⟩ := bind_eq_ok.1 h
    obtain ⟨hx, e1⟩ := deref_ok h1
    rw [e1] at h
    refine Keeps.bind (Keeps.mapM xs (hr xs hx)) (fun syms => ?_) s a s' h
    refine saveJump_lays _ (fun _ _ => rfl) (fun _ _ => .of_linked rfl) (fun _ _ => rfl) ?_
    intro p s q hq
    simp only [mem_jumps, List.mem_append, List.mem_singleton] at hq ⊢
    tauto

/-- declarations stay -/
theorem emits_declared {l : List Event} (h : Emits s H l s' H') :
    s'.syms.declared = s.syms.declared := by
  induction h with
  | const he h =>
    rw [run_putConstRef _ he] at h
    cases h
    rfl
  | call => rfl
  | func _ _ _ _ _ _ ih => exact ih.trans (Codegen.setAddr_declared _ _ _)
  | var key addr => exact Codegen.setAddr_declared _ _ _
  | label => rfl
  | goto => rfl
  | code => rfl
  | hole => rfl
  | fill => rfl
  | other h => exact h.declared
  | trans _ _ ih1 ih2 => exact ih2.trans ih1

/-- a call with the size of the frame -/
theorem putCall_lays {func sym : Symbol} {funcname : Str} {framesize : Int64} {a : Option Symbol}
    (h : (do
      pushIntConst framesize
      putOp .push
      putTy .addrIp
      let addrPos ← tellp
      writeOut (Raw.enc (toSkip 0 addrPos))
      putOp .call
      modify fun s => { s with
        funcComefroms := s.funcComefroms ++
          [⟨funcname, addrPos, Int32.ofNat func.argty.length⟩] }
      return some func : Visit).run s = .ok a s') (he : s.AtEnd) (ho : Open s H)
    (hr : s.resolve funcname (some .func) = some sym) (hs : sym.declared = func.declared)
    (hf : s.syms.frameSize func = .ok framesize) : Leads s H s' H ∧ s'.AtEnd ∧ Open s' H := by
  have hn : sym.declared.argty = func.declared.argty := by rw [hs]
  have hk : sym.declared.scopedName = func.declared.scopedName := by rw [hs]
  change sym.argty = func.argty at hn
  change sym.scopedName = func.scopedName at hk
  have hf : s.syms.frameSize sym = .ok framesize := by
    rw [← hf, SymTab.frameSize, SymTab.frameSize, hk]
  obtain ⟨_, s1, h1, h⟩ := bind_eq_ok.1 h
  rw [pushIntConst, run_pushConst _ he] at h1
  cases h1
  have he1 := atEnd_write he (Instr.push ((Data.int framesize : TData).ty .unknown)
    (Data.int framesize : TData).payload).bytes
  rw [run_putSkip _ _ _ he1] at h
  have hpos : (s.ostr.write (intCode framesize)).pos = s.ostr.pos + 10 := by
    rw [write_end _ he]
    show _ = s.ostr.pos + 10
    rw [show s.ostr.pos = s.ostr.buf.length from he]
    rfl
  have hc : callCode framesize (toSkip 0 (s.ostr.pos + 12)) = intCode framesize ++
      (Piece.ref (toSkip 0 (s.ostr.pos + 12)) .call).bytes := by
    simp [callCode, Piece.bytes, Piece.instrs, Instr.bytes]
  have hw : (s.ostr.write (intCode framesize)).write
      (Piece.ref (toSkip 0 (s.ostr.pos + 12)) .call).bytes =
        s.ostr.write (callCode framesize (toSkip 0 (s.ostr.pos + 12))) := by
    rw [hc, write_write _ he]
  have hl := Emits.call (H := H) he hr hf
  rw [← hw, hn] at hl
  change (EStateM.Result.ok _ { s with
    ostr := (s.ostr.write (intCode framesize)).write
      (Piece.ref (toSkip 0 ((s.ostr.write (intCode framesize)).pos + 2)) .call).bytes
    funcComefroms := s.funcComefroms ++
      [⟨funcname, (s.ostr.write (intCode framesize)).pos + 2, Int32.ofNat func.argty.length⟩] } :
        EStateM.Result Err Codegen (Option Symbol)) = _ at h
  rw [hpos] at h
  cases h
  refine ⟨.event hl rfl rfl, ?_, ho.pending, ?_⟩
  · exact atEnd_write (atEnd_write he _) _
  · exact ((ho.write he _).write (atEnd_write he _) _).inside

theorem visitCall_lays (funcname : Str) {args : List Visit} (ha : ∀ x ∈ args, Keeps Lays x) :
    Keeps Lays (visitCall funcname args) := by
  intro s a s' h H he ho
  obtain ⟨func, s1, h1, h⟩ := bind_eq_ok.1 h
  have hr := getSym_resolve h1
  rw [(getSym_ok h1).1] at h
  split at h
  · cases h
  · obtain ⟨_, s2, h2, h⟩ := bind_eq_ok.1 h
    have hargs : Keeps Lays (args.reverse.forM Visit.run_) :=
      Keeps.forM _ fun x hx => visitRun_keeps (ha x (List.mem_reverse.1 hx))
    obtain ⟨H2, l2, t2, o2⟩ := run_lays hargs h2 he ho
    split at h
    · have hx : Keeps Lays (do callExternalFunc funcname; return some func : Visit) :=
        Keeps.bind (lays_emits.callExternalFunc_keeps _) fun _ => Keeps.pure _
      obtain ⟨H3, l3, t3, o3⟩ := run_lays hx h t2 o2
      exact ⟨H3, l2.trans l3, t3, o3⟩
    · obtain ⟨framesize, s3, h3, h⟩ := bind_eq_ok.1 h
      have hf := frameSize_ok h3
      rw [← getStackFrameSize_eq _ _ _ _ h3] at h
      obtain ⟨⟨l, hl⟩, -⟩ := id l2
      obtain ⟨sym, hr2, hs⟩ := Codegen.resolve_declared (emits_declared hl.emits) l2.curscope hr
      obtain ⟨l3, t3, o3⟩ := putCall_lays h t2 o2 hr2 hs hf
      exact ⟨H2, l2.trans l3, t3, o3⟩

/-- the jumps to the end of the function are filled in -/
theorem patchRets_lays {β : Type} {f : CGM β} {b : β} {pushret ret : Nat}
    (h : (do
      let s ← get
      patchAll pushret s.pushretComefroms
      modify fun s => { s with pushretComefroms := [] }
      let s ← get
      patchAll ret s.endfuncComefroms
      modify fun s => { s with endfuncComefroms := [] }
      f : CGM β).run s = .ok b s') (ho : Open s H) :
    ∃ s1, f.run s1 = .ok b s' ∧ Fills s H s1 ∧ Open s1 H ∧
      s1.ostr.buf.length = s.ostr.buf.length := by
  rw [run_get_bind] at h
  obtain ⟨_, s1, h1, h⟩ := bind_eq_ok.1 h
  obtain ⟨l1, o1, e1, n1⟩ := patchAll_lays h1 (fun pos hp => ho.pending pos (mem_jumps.2
    (Or.inl hp))) ho
  rw [run_modify_bind, run_get_bind] at h
  obtain ⟨l2, o2⟩ := other_lays (s := s1) (t := { s1 with pushretComefroms := [] }) rfl
    (.of_linked rfl) rfl (H := H) (fun q hq => o1.pending q (by
      rw [mem_jumps] at hq ⊢
      dsimp only at hq
      simp only [List.not_mem_nil] at hq
      tauto)) o1
  obtain ⟨_, s2, h2, h⟩ := bind_eq_ok.1 h
  obtain ⟨l3, o3, e3, n3⟩ := patchAll_lays h2 (fun pos hp => o2.pending pos (mem_jumps.2
    (Or.inr (Or.inl hp)))) o2
  rw [run_modify_bind] at h
  obtain ⟨l4, o4⟩ := other_lays (s := s2) (t := { s2 with endfuncComefroms := [] }) rfl
    (.of_linked rfl) rfl (H := H) (fun q hq => o3.pending q (by
      rw [mem_jumps] at hq ⊢
      dsimp only at hq
      simp only [List.not_mem_nil] at hq
      tauto)) o3
  exact ⟨_, h, l1.trans (l2.trans (l3.trans l4)), o4, n3.trans n1⟩

/-- the end of the body of a function -/
theorem putRet_run {β : Type} {f : Unit → CGM β} {framesize numArgs : Int64} (he : s.AtEnd) :
    (do
      pushIntConst framesize
      pushIntConst numArgs
      let x ← putOp .ret
      f x : CGM β).run s =
        (f ()).run { s with ostr := s.ostr.write (retCode framesize numArgs) } := by
  have h1 : (pushIntConst framesize).run s =
      .ok () { s with ostr := s.ostr.write (intCode framesize) } := run_pushConst _ he
  have he1 := atEnd_write he (intCode framesize)
  have h2 : (pushIntConst numArgs).run { s with ostr := s.ostr.write (intCode framesize) } =
      .ok () { s with ostr := (s.ostr.write (intCode framesize)).write (intCode numArgs) } :=
    run_pushConst _ he1
  have hw : ((s.ostr.write (intCode framesize)).write (intCode numArgs)).write [OpCode.ret.code] =
      s.ostr.write (retCode framesize numArgs) := by
    rw [write_write _ he1, write_write _ he]
    rfl
  rw [bind_ok h1, bind_ok h2, bind_ok (run_putOp _ _), ← hw]

/-- behind the body of a function all its jumps are filled in, and its scope is left -/
theorem closeFunc_lays {func : Symbol} {safetyJmp pushret ret : Nat} {a : Option Symbol}
    (h : (do
      let endFunc ← tellp
      modifySym func fun sym => { sym with endAddr := some (Int64.ofNat endFunc) }
      let s ← get
      patchAll pushret s.pushretComefroms
      modify fun s => { s with pushretComefroms := [] }
      let s ← get
      patchAll ret s.endfuncComefroms
      modify fun s => { s with endfuncComefroms := [] }
      patch safetyJmp (toSkip endFunc safetyJmp)
      seekp endFunc
      modify fun s => { s with curLoop := [], curscope := s.curscope.dropLast }
      return none : Visit).run s = .ok a s')
    (hj : (safetyJmp, 4) ∈ H) (he : s.AtEnd) (ho : Open s H) :
    ∃ u, Fills s H u ∧ u.ostr.buf.length = s.ostr.buf.length ∧ u.AtEnd ∧ Open u H ∧
      s' = { u with curscope := s.curscope.dropLast } := by
  obtain ⟨endFunc, s1, hp, h⟩ := bind_eq_ok.1 h
  cases hp
  obtain ⟨_, s1, h1, h⟩ := bind_eq_ok.1 h
  have e1 : s1 = { s with syms := s1.syms } := by
    cases h1
    rfl
  have l1 : Fills s H s1 := by
    cases h1
    exact ⟨.other (modify_quiet (fun _ => rfl) fun _ => rfl), rfl⟩
  have o1 : Open s1 H := by
    rw [e1]
    exact ⟨ho.pending, ho.inside⟩
  obtain ⟨s2, h, l2, o2, n2⟩ := patchRets_lays h o1
  obtain ⟨_, s3, h3, h⟩ := bind_eq_ok.1 h
  obtain ⟨l3, o3, -, n3⟩ := patch_lays h3 hj o2
  have l := l1.trans (l2.trans l3)
  have hlen : s3.ostr.buf.length = s.ostr.buf.length := by rw [n3, n2, e1]
  cases h
  refine ⟨{ s3 with ostr := ⟨s3.ostr.buf, s.ostr.pos⟩, curLoop := [] },
    l.trans ⟨.other (.of_linked rfl), rfl⟩, hlen, ?_, ⟨o3.pending, o3.inside⟩, ?_⟩
  · show s.ostr.pos = s3.ostr.buf.length
    rw [hlen]
    exact he
  · rw [← l.2]

theorem visitFunc_lays (funcname : Str) (args rets : List ArgName) {stmts : Visit}
    (hs : Keeps Lays stmts) : Keeps Lays (visitFunc funcname args rets stmts) := by
  intro s a s' h H he ho
  unfold visitFunc at h
  rw [run_modify_bind] at h
  -- the jump over the function and the arguments
  have t1 : Codegen.AtEnd { s with curscope := s.curscope ++ [funcname] } := he
  rw [bind_ok (run_putJump .jmp t1), jumpCode_eq] at h
  obtain ⟨_, s3, h3, h⟩ := bind_eq_ok.1 h
  obtain ⟨addrs, hargs, hv, e3⟩ := declareArgs_ok h3
  change s3 = s.enterFunc funcname addrs at e3
  subst e3
  have t3 := enterFunc_atEnd funcname addrs he
  have o3 := enterFunc_open funcname addrs he ho
  obtain ⟨func, s3', h4, h⟩ := bind_eq_ok.1 h
  have hr := getSym_resolve h4
  rw [(getSym_ok h4).1] at h
  obtain ⟨begin, s3'', hp, h⟩ := bind_eq_ok.1 h
  cases hp
  rw [enterFunc_pos funcname addrs he] at h
  -- the body
  have hset : (modifySym func fun sym =>
      { sym with addr := some (Int64.ofNat (s.ostr.pos + 7)) }).run (s.enterFunc funcname addrs) =
        .ok () ((s.enterFunc funcname addrs).setAddr func.scopedName
          (Int64.ofNat (s.ostr.pos + 7))) := rfl
  rw [bind_ok hset] at h
  obtain ⟨_, s5, h5, h⟩ := bind_eq_ok.1 h
  obtain ⟨H5, l5, t5, o5⟩ := run_lays (H := (s.ostr.pos + 2, 4) :: H) (visitRun_keeps hs) h5 t3
    ⟨o3.pending, o3.inside⟩
  obtain ⟨pushret, s5', hp, h⟩ := bind_eq_ok.1 h
  cases hp
  obtain ⟨_, s6, h6, h⟩ := bind_eq_ok.1 h
  obtain ⟨H6, l6, t6, o6⟩ :=
    run_lays (Keeps.forM rets fun x _ => visitRun_keeps (lays_emits.pushVar_keeps x.1)) h6 t5 o5
  obtain ⟨ret, s6', hp, h⟩ := bind_eq_ok.1 h
  cases hp
  obtain ⟨framesize, s6'', h7, h⟩ := bind_eq_ok.1 h
  have hf := frameSize_ok h7
  rw [← getStackFrameSize_eq _ _ _ _ h7, putRet_run t6, ← hargs] at h
  obtain ⟨⟨l, hb⟩, hsub⟩ := l5.trans l6
  -- the end of the function
  have hscope : s6.curscope.dropLast = s.curscope := by
    rw [hb.curscope]
    show (s.enterFunc funcname addrs).curscope.dropLast = _
    rw [enterFunc_curscope]
    exact List.dropLast_concat
  obtain ⟨u, lu, nu, tu, ou, e⟩ := closeFunc_lays h (hsub List.mem_cons_self) (atEnd_write t6 _)
    (o6.write t6 _)
  have hlen : u.ostr.buf.length = s6.ostr.buf.length + 21 := nu.trans (length_write t6 _)
  have hfunc := Traces.func he hv hr hb t6 hf lu.1 hlen
  rw [← hscope] at hfunc
  rw [e]
  exact ⟨H6, ⟨⟨_, hfunc⟩, fun x hx => hsub (List.mem_cons_of_mem _ hx)⟩, tu, ou.pending, ou.inside⟩

/-- **The rules for all visitors.** -/
theorem lays_rules : VisitorRules (fun _ => Lays) (fun _ _ => true) := by
  refine visitorRules_of (fun _ => lays_emits) ?_
  exact {
    varDecl := fun _ h => visitVarDecl_lays _ h _ _
    func := fun _ h => visitFunc_lays _ _ _ h
    call := fun h => visitCall_lays _ h
    ret := fun h => visitReturn_lays h _
    cond := fun h h1 h2 => visitCond_lays h h1 h2
    cases := fun h h1 h2 => visitCases_lays h h1 h2
    loop := fun h1 h2 => emitLoop_lays h1 h2
    loopBreak := fun n => visitLoopBreak_lays n
    loopNext := fun n => visitLoopNext_lays n
    label := fun ident => visitLabel_lays ident
    jump := fun label isComefrom => visitJump_lays label isComefrom }

end

end MuF
