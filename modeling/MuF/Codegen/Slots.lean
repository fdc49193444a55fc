import MuF.Base.Stacked
import MuF.Base.Word
import MuF.Codegen.Trace
import MuF.Codegen.Framing
import MuF.Codegen.Links

/-!
# Slots of variables

* `SymTab.frame`: the size of the variables of a scope together;
* `SameFrames`: code generation that does not touch the symbols, with the rules for visitors;
* `Placed`: the variables of a frame that have their slots so far, each one below those before it;
* **`frames_laid_out`**: whatever is compiled, the slots of a frame are inside of it and apart, and
  calls and returns agree on its size.
-/

set_option linter.unusedVariables false

namespace MuF

open Bytes Exec

/-! ## sizes -/

/-- the size of a variable in its frame -/
def Symbol.slotSize (sym : Symbol) : Nat :=
  match getSymSize sym with
  | .ok size => size.toInt.toNat
  | .error _ => 0

/-- the variable has a size that is not negative -/
def Symbol.Sized (sym : Symbol) : Prop := getSymSize sym = .ok (Int32.ofNat sym.slotSize)

/-- the size of the variables of a scope together -/
def SymTab.frame (T : SymTab) (scope : Str) : Nat :=
  ((T.findSymbolsWithSameScope scope).map Symbol.slotSize).sum

/-- the variables of a scope have sizes -/
def SymTab.Sized (T : SymTab) (scope : Str) : Prop :=
  ∀ sym ∈ T.findSymbolsWithSameScope scope, sym.ty = .func ∨ sym.Sized

section
variable {T : SymTab} {scope : Str} {sym : Symbol}

theorem slotSize_func (h : sym.ty = .func) : sym.slotSize = 0 := by
  unfold Symbol.slotSize getSymSize
  rw [h]

theorem toInt64_slotSize (h : sym.Sized) :
    (Int32.ofNat sym.slotSize).toInt64 = Int64.ofNat sym.slotSize := by
  have hlt : sym.slotSize < 2^31 := by
    unfold Symbol.slotSize
    split
    · next size e =>
      have := size.toInt_lt
      omega
    · decide
  rw [← Int64.toInt_inj, Int32.toInt_toInt64, Word.toInt_ofNat hlt, Int64.toInt_ofNat_of_lt (by omega)]

theorem sumSymSizes_slots {syms : List Symbol} (h : ∀ sym ∈ syms, sym.ty = .func ∨ sym.Sized) :
    sumSymSizes syms = .ok (Int64.ofNat (syms.map Symbol.slotSize).sum) := by
  induction syms with
  | nil => rfl
  | cons sym syms ih =>
    obtain ⟨h1, h2⟩ := List.forall_mem_cons.1 h
    rw [sumSymSizes, ih h2, List.map_cons, List.sum_cons]
    by_cases hf : sym.ty = .func
    · rw [if_pos hf, slotSize_func hf, Nat.zero_add]
    · have hs := h1.resolve_left hf
      rw [if_neg hf, show getSymSize sym = _ from hs, Int64.ofNat_add, ← toInt64_slotSize hs]
      rfl

theorem scope_declared (T : SymTab) (scope : Str) : T.declared.findSymbolsWithSameScope scope =
    (T.findSymbolsWithSameScope scope).map Symbol.declared := by
  unfold SymTab.findSymbolsWithSameScope SymTab.declared
  rw [List.map_map, show Prod.snd ∘ (fun p : Str × Symbol => (p.1, p.2.declared)) =
    Symbol.declared ∘ Prod.snd from rfl, ← List.map_map, List.filter_map]
  rfl

/-- the frame depends on the declarations only -/
theorem SymTab.frame_declared (T : SymTab) (scope : Str) : T.declared.frame scope = T.frame scope := by
  unfold SymTab.frame
  rw [scope_declared, List.map_map]
  rfl

theorem SymTab.sized_declared : T.declared.Sized scope ↔ T.Sized scope := by
  unfold SymTab.Sized
  rw [scope_declared, List.forall_mem_map]
  rfl

/-- the size of the frame, as the code generator computes it -/
theorem sum_frame {tab : SymTab} (hd : tab.declared = T.declared) (hT : T.Sized scope) :
    sumSymSizes (tab.findSymbolsWithSameScope scope) = .ok (Int64.ofNat (T.frame scope)) := by
  have hs : tab.Sized scope := SymTab.sized_declared.1 (hd ▸ SymTab.sized_declared.2 hT)
  have hf : tab.frame scope = T.frame scope := by
    rw [← SymTab.frame_declared, hd, SymTab.frame_declared]
  rw [sumSymSizes_slots hs, ← hf]
  rfl

end

/-! ## code generation that does not touch the symbols -/

/-- the symbols and the counters of the frames are the same -/
structure SameFrames (s s' : Codegen) : Prop where
  syms : s'.syms = s.syms
  globalStack : s'.globalStack = s.globalStack
  localStack : s'.localStack = s.localStack
  curscope : s'.curscope = s.curscope

theorem SameFrames.trans {s s' s'' : Codegen} (h : SameFrames s s') (h' : SameFrames s' s'') :
    SameFrames s s'' :=
  ⟨h'.syms.trans h.syms, h'.globalStack.trans h.globalStack, h'.localStack.trans h.localStack,
    h'.curscope.trans h.curscope⟩

instance : Std.Refl SameFrames where
  refl s := ⟨rfl, rfl, rfl, rfl⟩

instance : IsTrans Codegen SameFrames where
  trans _ _ _ := SameFrames.trans

theorem modify_same {f : Codegen → Codegen} (h : ∀ s, SameFrames s (f s)) :
    Keeps (ε := Err) SameFrames (modify f) := by
  intro s a s' hr
  cases hr
  exact h s

theorem writeOut_same (bs : List UInt8) : Keeps SameFrames (writeOut bs) :=
  modify_same fun s => ⟨rfl, rfl, rfl, rfl⟩

theorem seekp_same (pos : Nat) : Keeps SameFrames (seekp pos) :=
  modify_same fun s => ⟨rfl, rfl, rfl, rfl⟩

theorem seekEnd_same : Keeps SameFrames seekEnd := modify_same fun s => ⟨rfl, rfl, rfl, rfl⟩

theorem tellp_same : Keeps SameFrames tellp := Keeps.bind Keeps.get fun s => Keeps.pure _

theorem patch_same (pos : Nat) (addr : Int32) : Keeps SameFrames (patch pos addr) :=
  Keeps.bind (seekp_same pos) fun _ => writeOut_same _

theorem patchAll_same (target : Nat) (poss : List Nat) : Keeps SameFrames (patchAll target poss) :=
  Keeps.forM poss fun pos _ => patch_same pos _

theorem putAddr_same (ty : VMType) (addr : Int32) : Keeps SameFrames (putAddr ty addr) :=
  Keeps.bind (writeOut_same _) fun _ => Keeps.bind (writeOut_same _) fun _ => writeOut_same _

theorem putJump_same (op : OpCode) : Keeps SameFrames (putJump op) :=
  Keeps.bind (writeOut_same _) fun _ => Keeps.bind (writeOut_same _) fun _ =>
    Keeps.bind tellp_same fun _ => Keeps.bind (writeOut_same _) fun _ =>
      Keeps.bind (writeOut_same _) fun _ => Keeps.pure _

theorem putConstRef_same (val : Str) : Keeps SameFrames (putConstRef val) := by
  refine Keeps.bind Keeps.get fun s => ?_
  refine Keeps.bind (modify_same fun _ => ⟨rfl, rfl, rfl, rfl⟩) fun _ => ?_
  refine Keeps.bind (writeOut_same _) fun _ => Keeps.bind (writeOut_same _) fun _ => ?_
  refine Keeps.bind tellp_same fun _ => ?_
  refine Keeps.bind (modify_same fun _ => ⟨rfl, rfl, rfl, rfl⟩) fun _ => ?_
  exact Keeps.bind (writeOut_same _) fun _ => writeOut_same _

theorem castTo_same (ty : Option Symbol) (pos : Option Nat) (b : Bool) :
    Keeps SameFrames (castTo ty pos b) := by
  cases ty with
  | none => exact Keeps.pure _
  | some sym =>
    refine Keeps.bind (Keeps.onlyIf (putAddr_same _ _)) fun _ => ?_
    cases pos with
    | none => exact writeOut_same _
    | some pos => exact Keeps.bind (seekp_same pos) fun _ =>
        Keeps.bind (writeOut_same _) fun _ => seekEnd_same

theorem enterLoop_same : Keeps SameFrames enterLoop :=
  Keeps.bind Keeps.get fun s => Keeps.bind (modify_same fun _ => ⟨rfl, rfl, rfl, rfl⟩) fun _ =>
    Keeps.pure _

theorem patchLoop_same (loopIdent loopBegin loopEnd : Nat) :
    Keeps SameFrames (patchLoop loopIdent loopBegin loopEnd) := by
  refine Keeps.bind Keeps.get fun s => Keeps.bind (patchAll_same _ _) fun _ => ?_
  refine Keeps.bind (modify_same fun _ => ⟨rfl, rfl, rfl, rfl⟩) fun _ => ?_
  refine Keeps.bind Keeps.get fun s => Keeps.bind (patchAll_same _ _) fun _ => ?_
  exact modify_same fun _ => ⟨rfl, rfl, rfl, rfl⟩

theorem leaveLoop_same : Keeps SameFrames leaveLoop :=
  Keeps.bind Keeps.get fun s => Keeps.bind (Keeps.of_eq (deref_eq _)) fun _ =>
    modify_same fun _ => ⟨rfl, rfl, rfl, rfl⟩

section
variable {R : Codegen → Codegen → Prop} [Std.Refl R] [IsTrans Codegen R]

theorem emits_of_same (hR : ∀ s s', SameFrames s s' → R s s') : EmitRules R where
  op _ := (writeOut_same _).mono hR
  addr _ _ addr := (putAddr_same _ addr).mono hR
  const _ := Keeps.mono (Keeps.bind (writeOut_same _) fun _ =>
    Keeps.bind (writeOut_same _) fun _ => writeOut_same _) hR
  constRef val := (putConstRef_same val).mono hR
  operands h1 h2 := by
    refine Keeps.bind h1 fun _ => Keeps.bind (tellp_same.mono hR) fun _ => ?_
    refine Keeps.bind ((writeOut_same _).mono hR) fun _ => Keeps.bind h2 fun _ => ?_
    refine Keeps.bind (tellp_same.mono hR) fun _ => ?_
    refine Keeps.bind ((castTo_same _ _ _).mono hR) fun _ => ?_
    exact Keeps.bind ((castTo_same _ _ _).mono hR) fun _ => Keeps.pure _

/-! ## visits that do not declare anything -/

variable (hR : ∀ s s', SameFrames s s' → R s s')
include hR

theorem patchEnd_of_same (pos : Nat) (addr : Int32) {α : Type} (a : α) :
    Keeps R (do patch pos addr; seekEnd; return a : CGM α) :=
  Keeps.bind ((patch_same pos addr).mono hR) fun _ =>
    Keeps.bind (seekEnd_same.mono hR) fun _ => Keeps.pure _

theorem cond_of_same {x y : Visit} {z : Option Visit} (h1 : Keeps R x) (h2 : Keeps R y)
    (h3 : OptKeeps R z) : Keeps R (visitCond x y z) := by
  refine Keeps.bind (visitRun_keeps h1) fun _ => ?_
  refine Keeps.bind ((writeOut_same _).mono hR) fun _ => ?_
  refine Keeps.bind ((putJump_same _).mono hR) fun _ => ?_
  refine Keeps.bind (tellp_same.mono hR) fun _ => ?_
  refine Keeps.bind (visitRun_keeps h2) fun _ => ?_
  cases z with
  | none => exact Keeps.bind (tellp_same.mono hR) fun _ => patchEnd_of_same hR _ _ _
  | some z =>
    refine Keeps.bind ((putJump_same _).mono hR) fun _ => ?_
    refine Keeps.bind (tellp_same.mono hR) fun _ => ?_
    refine Keeps.bind ((patch_same _ _).mono hR) fun _ => ?_
    refine Keeps.bind (seekEnd_same.mono hR) fun _ => ?_
    refine Keeps.bind (tellp_same.mono hR) fun _ => ?_
    refine Keeps.bind (visitRun_keeps (h3 z rfl)) fun _ => ?_
    exact Keeps.bind (tellp_same.mono hR) fun _ => patchEnd_of_same hR _ _ _

theorem case_of_same {x y z : Visit} (h1 : Keeps R x) (h2 : Keeps R y) (h3 : Keeps R z) :
    Keeps R (visitCase x y z) := by
  refine Keeps.bind (visitRun_keeps h1) fun _ => ?_
  refine Keeps.bind (visitRun_keeps h2) fun _ => ?_
  refine Keeps.bind ((writeOut_same _).mono hR) fun _ => ?_
  refine Keeps.bind ((writeOut_same _).mono hR) fun _ => ?_
  refine Keeps.bind ((putJump_same _).mono hR) fun _ => ?_
  refine Keeps.bind (tellp_same.mono hR) fun _ => ?_
  refine Keeps.bind (visitRun_keeps h3) fun _ => ?_
  refine Keeps.bind ((putJump_same _).mono hR) fun _ => ?_
  exact Keeps.bind (tellp_same.mono hR) fun _ => patchEnd_of_same hR _ _ _

theorem cases_of_same {x : Visit} {ys : List (Visit × Visit)} {z : Option Visit} (h : Keeps R x)
    (h1 : ∀ y ∈ ys, Keeps R y.1 ∧ Keeps R y.2) (h2 : OptKeeps R z) : Keeps R (visitCases x ys z) := by
  refine Keeps.bind (Keeps.mapM ys fun y hy => case_of_same hR h (h1 y hy).1 (h1 y hy).2) fun rs => ?_
  have hend : Keeps R (do
      let afterAll ← tellp
      rs.forM fun r => patch r.1 (streamDiff afterAll r.2)
      seekEnd
      return none : Visit) := by
    refine Keeps.bind (tellp_same.mono hR) fun _ => ?_
    refine Keeps.bind (Keeps.forM rs fun r _ => (patch_same _ _).mono hR) fun _ => ?_
    exact Keeps.bind (seekEnd_same.mono hR) fun _ => Keeps.pure _
  cases z with
  | none => exact hend
  | some z => exact Keeps.bind (visitRun_keeps (h2 z rfl)) fun _ => hend

theorem loop_of_same {cond body : CGM Unit} (h1 : Keeps R cond) (h2 : Keeps R body) :
    Keeps R (emitLoop cond body) := by
  refine Keeps.bind (enterLoop_same.mono hR) fun _ => Keeps.bind (tellp_same.mono hR) fun _ => ?_
  refine Keeps.bind h1 fun _ => Keeps.bind ((writeOut_same _).mono hR) fun _ => ?_
  refine Keeps.bind ((putJump_same _).mono hR) fun _ => Keeps.bind (tellp_same.mono hR) fun _ => ?_
  refine Keeps.bind h2 fun _ => ?_
  refine Keeps.bind ((writeOut_same _).mono hR) fun _ => ?_
  refine Keeps.bind ((writeOut_same _).mono hR) fun _ => ?_
  refine Keeps.bind (tellp_same.mono hR) fun _ => ?_
  refine Keeps.bind ((writeOut_same _).mono hR) fun _ => ?_
  refine Keeps.bind ((writeOut_same _).mono hR) fun _ => ?_
  refine Keeps.bind (tellp_same.mono hR) fun _ => ?_
  refine Keeps.bind ((patch_same _ _).mono hR) fun _ => ?_
  refine Keeps.bind ((patchLoop_same _ _ _).mono hR) fun _ => ?_
  refine Keeps.bind (seekEnd_same.mono hR) fun _ => ?_
  exact Keeps.bind (leaveLoop_same.mono hR) fun _ => Keeps.pure _

/-- a jump that is saved -/
theorem save_of_same {α : Type} {f : Nat → Codegen → Codegen} {a : α}
    (h : ∀ pos s, SameFrames s (f pos s)) :
    Keeps R (do let pos ← putJump .jmp; modify (f pos); return a : CGM α) :=
  Keeps.bind ((putJump_same _).mono hR) fun pos =>
    Keeps.bind ((modify_same (h pos)).mono hR) fun _ => Keeps.pure _

theorem break_of_same (n : Int64) : Keeps R (visitLoopBreak n) := by
  refine Keeps.bind Keeps.get fun s => Keeps.ite (fail_keeps _) ?_
  refine Keeps.bind (Keeps.of_eq (deref_eq _)) fun loop => ?_
  exact save_of_same hR fun _ _ => ⟨rfl, rfl, rfl, rfl⟩

theorem next_of_same (n : Int64) : Keeps R (visitLoopNext n) := by
  refine Keeps.bind Keeps.get fun s => Keeps.ite (fail_keeps _) ?_
  refine Keeps.bind (Keeps.of_eq (deref_eq _)) fun loop => ?_
  exact save_of_same hR fun _ _ => ⟨rfl, rfl, rfl, rfl⟩

theorem label_of_same (ident : Str) : Keeps R (visitLabel ident) := by
  refine Keeps.bind (tellp_same.mono hR) fun _ => ?_
  refine Keeps.bind (Keeps.mono (modify_same ?_) hR) fun _ => Keeps.pure _
  exact fun _ => ⟨rfl, rfl, rfl, rfl⟩

theorem jump_of_same (label : Str) (isComefrom : Bool) : Keeps R (visitJump label isComefrom) :=
  Keeps.ite (fail_keeps _) (save_of_same hR fun _ _ => ⟨rfl, rfl, rfl, rfl⟩)

theorem ret_of_same {xs : Option (List Visit)} {only : Bool}
    (h : ∀ ys ∈ xs, ∀ y ∈ ys, Keeps R y) : Keeps R (visitReturn xs only) := by
  refine Keeps.bind Keeps.get fun s => Keeps.ite (fail_keeps _) (Keeps.ite ?_ ?_)
  · exact Keeps.ite (fail_keeps _) (save_of_same hR fun _ _ => ⟨rfl, rfl, rfl, rfl⟩)
  · intro s a s' hr
    obtain ⟨ys, s1, h1, hr⟩ := bind_eq_ok.1 hr
    obtain ⟨hy, e1⟩ := deref_ok h1
    rw [e1] at hr
    refine Keeps.bind (Keeps.mapM ys (h ys hy)) (fun syms => ?_) s a s' hr
    exact save_of_same hR fun _ _ => ⟨rfl, rfl, rfl, rfl⟩

theorem call_of_same {ident : Str} {xs : List Visit} (h : ∀ x ∈ xs, Keeps R x) :
    Keeps R (visitCall ident xs) := by
  have he := emits_of_same hR
  refine Keeps.bind (Keeps.of_eq (getSym_eq _ _ _)) fun func => Keeps.ite (fail_keeps _) ?_
  refine Keeps.bind (Keeps.forM _ fun x hx => visitRun_keeps (h x (List.mem_reverse.1 hx))) fun _ => ?_
  refine Keeps.ite (Keeps.bind (he.callExternalFunc_keeps ident) fun _ => Keeps.pure _) ?_
  refine Keeps.bind (Keeps.of_eq (getStackFrameSize_eq _)) fun _ => ?_
  refine Keeps.bind (he.pushIntConst_keeps _) fun _ => ?_
  refine Keeps.bind ((writeOut_same _).mono hR) fun _ => ?_
  refine Keeps.bind ((writeOut_same _).mono hR) fun _ => ?_
  refine Keeps.bind (tellp_same.mono hR) fun _ => ?_
  refine Keeps.bind ((writeOut_same _).mono hR) fun _ => ?_
  refine Keeps.bind ((writeOut_same _).mono hR) fun _ => ?_
  refine Keeps.bind (Keeps.mono (modify_same ?_) hR) fun _ => Keeps.pure _
  exact fun _ => ⟨rfl, rfl, rfl, rfl⟩

end

/-! ## frames -/

/-- the scope of the variables of a function, or of the global variables -/
def frameScope : Option Str → Str
  | none => []
  | some name => name ++ scopeSep

/-- a variable of a frame, which is neither an argument nor a function -/
def SymTab.inFrame (T : SymTab) (o : Option Str) (x : Str) : Bool :=
  (T.findSymbol x).any fun sym => sym.scopeName == frameScope o && !sym.isArg && sym.ty != .func

/-- the size of a variable -/
def SymTab.slotSize (T : SymTab) (x : Str) : Nat := ((T.findSymbol x).map Symbol.slotSize).getD 0

/-- the counter of a frame -/
def Codegen.stackOf (s : Codegen) : Option Str → Int32
  | none => s.globalStack
  | some name => (s.localStack.lookup name).getD 0

/-- the address of a variable that begins `d` bytes below the base of the frame -/
def slotAddr (d : Nat) : Int64 := (-Int32.ofNat d).toInt64

/-- these variables of a frame have their slots, each one below those before it, and no others -/
structure Placed (T : SymTab) (o : Option Str) (xs : List Str) (s : Codegen) : Prop where
  declared : s.syms.declared = T.declared
  nodup : xs.Nodup
  inFrame : ∀ x ∈ xs, T.inFrame o x = true
  stack : s.stackOf o = Int32.ofNat (Stacked.total T.slotSize xs)
  slot : ∀ x sym, T.inFrame o x = true → s.syms.findSymbol x = some sym →
    sym.addr = (Stacked.depth T.slotSize xs x).map slotAddr ∧
      (sym.addr.isSome = true → sym.isGlobal = o.isNone)

/-- declarations are about the variables of their own scope, which is that of the function they are
in (functions have outermost names), and functions about functions -/
def ownScope (T : SymTab) (a : Around) : AST → Bool
  | .varDecl vars _ _ _ =>
    vars.all fun x => (T.findSymbol x).all fun sym => sym.scopeName == frameScope a.scope.getLast?
  | .func ident _ _ _ =>
    (T.resolve (a.scope ++ [ident]) ident none).all fun sym => sym.ty == .func
  | _ => true

/-- code generation for a table, in a scope -/
structure InScope (T : SymTab) (scope : List Str) (s : Codegen) : Prop where
  curscope : s.curscope = scope
  declared : s.syms.declared = T.declared

/-- what a visit does to a frame -/
def Places (T : SymTab) (o : Option Str) (a : Around) (s s' : Codegen) : Prop :=
  InScope T a.scope s →
    InScope T a.scope s' ∧ ∀ xs, Placed T o xs s → ∃ xs', Placed T o xs' s'

section
variable {T : SymTab} {o : Option Str} {a : Around} {s s' : Codegen} {xs : List Str} {x : Str}
  {sym : Symbol}

instance : Std.Refl (Places T o a) where
  refl s h := ⟨h, fun xs hs => ⟨xs, hs⟩⟩

instance : IsTrans Codegen (Places T o a) where
  trans s s' s'' h h' hc := by
    obtain ⟨c1, p1⟩ := h hc
    obtain ⟨c2, p2⟩ := h' c1
    refine ⟨c2, fun xs hs => ?_⟩
    obtain ⟨ys, hy⟩ := p1 xs hs
    exact p2 ys hy

theorem SameFrames.stackOf (h : SameFrames s s') (o : Option Str) : s'.stackOf o = s.stackOf o := by
  cases o with
  | none => exact h.globalStack
  | some name =>
    unfold Codegen.stackOf
    rw [h.localStack]

theorem SameFrames.places (h : SameFrames s s') : Places T o a s s' := fun hc =>
  ⟨⟨h.curscope.trans hc.curscope, by rw [h.syms]; exact hc.declared⟩, fun xs hs =>
    ⟨xs, by rw [h.syms]; exact hs.declared, hs.nodup, hs.inFrame, (h.stackOf o).trans hs.stack,
      by rw [h.syms]; exact hs.slot⟩⟩

theorem frameScope_inj {o o' : Option Str} (h : frameScope o = frameScope o') : o = o' := by
  have hne : scopeSep ≠ [] := by decide
  cases o <;> cases o'
  · rfl
  · exact absurd (List.append_eq_nil_iff.1 h.symm).2 hne
  · exact absurd (List.append_eq_nil_iff.1 h).2 hne
  · exact congrArg some (List.append_cancel_right h)

/-- a variable of a frame, by a table with the same declarations -/
theorem inFrame_of (hd : s.syms.declared = T.declared) (hs : s.syms.findSymbol x = some sym) :
    T.inFrame o x = (sym.scopeName == frameScope o && !sym.isArg && sym.ty != .func) ∧
      T.slotSize x = sym.slotSize := by
  obtain ⟨sym', h1, h2⟩ := SymTab.find_of_declared hd hs
  unfold SymTab.inFrame SymTab.slotSize
  rw [h1]
  refine ⟨?_, ?_⟩
  · show (sym'.declared.scopeName == _ && !sym'.declared.isArg && sym'.declared.ty != .func) = _
    rw [h2]
    rfl
  · show sym'.declared.slotSize = _
    rw [h2]
    rfl

theorem keyed_of (hT : T.Parsed) (hd : s.syms.declared = T.declared)
    (hs : s.syms.findSymbol x = some sym) : sym.scopedName = x := by
  obtain ⟨sym', h1, h2⟩ := SymTab.find_of_declared hd hs
  rw [← hT.keyed x sym' h1]
  exact (congrArg Symbol.scopedName h2).symm

/-- a symbol that is not of the frame is changed -/
theorem Placed.modify (hs : Placed T o xs s) {f : Symbol → Symbol}
    (hx : T.inFrame o x = false) (hf : ∀ sym, (f sym).declared = sym.declared) :
    Placed T o xs { s with syms := s.syms.modify x f } := by
  refine ⟨(SymTab.declared_modify hf).trans hs.declared, hs.nodup, hs.inFrame, ?_, ?_⟩
  · cases o <;> exact hs.stack
  · intro y sym hy h
    have hne : y ≠ x := by
      rintro rfl
      rw [hx] at hy
      cases hy
    rw [SymTab.findSymbol_modify, if_neg hne] at h
    exact hs.slot y sym hy h

/-! ## declarations -/

theorem lookup_filter_ne {l : List (Str × Int32)} {name other : Str} (h : other ≠ name) :
    (l.filter fun p => p.1 != name).lookup other = l.lookup other := by
  induction l with
  | nil => rfl
  | cons p l ih =>
    by_cases hp : p.1 = name
    · have hq : (other == p.1) = false := by simpa [hp] using h
      rw [List.filter_cons_of_neg (by simpa using hp), List.lookup_cons, hq, ih]
    · rw [List.filter_cons_of_pos (by simpa using hp), List.lookup_cons, List.lookup_cons, ih]

theorem lookup_counter (l : List (Str × Int32)) (name other : Str) (top : Int32) :
    ((name, top) :: l.filter fun p => p.1 != name).lookup other =
      if other = name then some top else l.lookup other := by
  by_cases e : other = name
  · rw [if_pos e, e, List.lookup_cons_self]
  · have he : (other == name) = false := by simpa using e
    rw [if_neg e, List.lookup_cons, he]
    exact lookup_filter_ne e

/-- a variable gets its slot -/
theorem allocVar_ok {u : Unit} (h : (allocVar s.curscope.isEmpty sym).run s = .ok u s') :
    ∃ size, getSymSize sym = .ok size ∧ s'.curscope = s.curscope ∧
      s'.syms = ((s.syms.modify sym.scopedName fun sym =>
        { sym with isGlobal := s.curscope.isEmpty }).modify sym.scopedName fun sym =>
          { sym with addr := some (-(s.stackOf s.curscope.getLast? + size)).toInt64 }) ∧
      s'.stackOf s.curscope.getLast? = s.stackOf s.curscope.getLast? + size ∧
      ∀ o, o ≠ s.curscope.getLast? → s'.stackOf o = s.stackOf o := by
  obtain ⟨_, s1, h1, h⟩ := bind_eq_ok.1 h
  cases h1
  obtain ⟨size, s2, h2, h⟩ := bind_eq_ok.1 h
  obtain ⟨hsize, e2⟩ := lift_ok h2
  rw [e2, run_get_bind] at h
  refine ⟨size, hsize, ?_⟩
  cases hc : s.curscope.getLast? with
  | none =>
    have hnil : s.curscope = [] := List.getLast?_eq_none_iff.1 hc
    rw [hnil] at h ⊢
    cases h
    refine ⟨hnil, rfl, rfl, fun o ho => ?_⟩
    cases o with
    | none => exact absurd rfl ho
    | some name => rfl
  | some name =>
    have hne : s.curscope.isEmpty = false := by
      cases hs : s.curscope with
      | nil => rw [hs] at hc; cases hc
      | cons => rfl
    rw [hne] at h ⊢
    rw [run_if_neg (by simp)] at h
    obtain ⟨curFunc, s3, h3, h⟩ := bind_eq_ok.1 h
    obtain ⟨hcur, e3⟩ := deref_ok h3
    have hcur : s.curscope.getLast? = some curFunc := hcur
    rw [hc] at hcur
    cases hcur
    rw [e3] at h
    cases h
    refine ⟨rfl, rfl, ?_, fun o ho => ?_⟩
    · unfold Codegen.stackOf
      dsimp only
      rw [lookup_counter, if_pos rfl]
      rfl
    · cases o with
      | none => rfl
      | some other =>
        unfold Codegen.stackOf
        dsimp only
        rw [lookup_counter, if_neg fun e => ho (congrArg some e)]

theorem same_declared {sym' : Symbol} (h : sym'.declared = sym.declared) :
    sym'.isArg = sym.isArg ∧ sym'.scopeName = sym.scopeName ∧ sym'.ty = sym.ty ∧
      getSymSize sym' = getSymSize sym := by
  have h1 := congrArg Symbol.isArg h
  have h2 := congrArg Symbol.scopeName h
  have h3 := congrArg Symbol.ty h
  have h4 := congrArg getSymSize h
  exact ⟨h1, h2, h3, h4⟩

/-- **A new variable** of the frame. -/
theorem Placed.alloc (hs : Placed T o xs s) (hT : T.Parsed) (hsize : T.Sized (frameScope o))
    (hx : s.syms.findSymbol x = some sym) (hown : sym.scopeName = frameScope s.curscope.getLast?)
    (harg : sym.isArg = false) (haddr : sym.addr = none) {u : Unit}
    (h : (allocVar s.curscope.isEmpty sym).run s = .ok u s') :
    s'.curscope = s.curscope ∧ ∃ ys, Placed T o ys s' := by
  obtain ⟨size, hsz, hc, hsyms, htop, hrest⟩ := allocVar_ok h
  have hkey : sym.scopedName = x := keyed_of hT hs.declared hx
  rw [hkey] at hsyms
  have hfunc : sym.ty ≠ .func := by
    intro e
    unfold getSymSize at hsz
    rw [e] at hsz
    cases hsz
  obtain ⟨hin, hslot⟩ := inFrame_of (o := o) hs.declared hx
  have hdecl : s'.syms.declared = T.declared := by
    rw [hsyms]
    exact (SymTab.declared_modify (by intro sym; rfl)).trans
      ((SymTab.declared_modify (by intro sym; rfl)).trans hs.declared)
  have hother (y : Str) (hy : y ≠ x) : s'.syms.findSymbol y = s.syms.findSymbol y := by
    rw [hsyms, SymTab.findSymbol_modify, if_neg hy, SymTab.findSymbol_modify, if_neg hy]
  refine ⟨hc, ?_⟩
  by_cases ho : o = s.curscope.getLast?
  · -- a variable of this frame
    have hx' : T.inFrame o x = true := by
      rw [hin, hown, harg, ho]
      simp [hfunc]
    have hnew : x ∉ xs := by
      have hd := (hs.slot x sym hx' hx).1
      rw [haddr] at hd
      exact Stacked.depth_eq_none.1 (Option.map_eq_none_iff.1 hd.symm)
    have hsized : size = Int32.ofNat (T.slotSize x) := by
      obtain ⟨sym', h1, h2⟩ := SymTab.find_of_declared hs.declared hx
      obtain ⟨e1, e2, e3, hsame⟩ := same_declared h2
      have hsym' : sym'.Sized := by
        refine (hsize sym' ?_).resolve_left (by rw [e3]; exact hfunc)
        refine List.mem_filter.2 ⟨List.mem_map.2 ⟨_, lookup_mem h1, rfl⟩, ?_⟩
        rw [e1, e2, harg, hown, ho]
        simp
      have e : T.slotSize x = sym'.slotSize := by
        unfold SymTab.slotSize
        rw [h1]
        rfl
      rw [e]
      exact Except.ok.inj (hsz.symm.trans (hsame.symm.trans hsym'))
    have htotal : s.stackOf o + size = Int32.ofNat (Stacked.total T.slotSize (x :: xs)) := by
      rw [hs.stack, hsized, Stacked.total_cons, ← Int32.ofNat_add, Nat.add_comm]
    refine ⟨x :: xs, hdecl, List.nodup_cons.2 ⟨hnew, hs.nodup⟩,
      List.forall_mem_cons.2 ⟨hx', hs.inFrame⟩, ?_, fun y sym' hy hfind => ?_⟩
    · rw [← htotal, ho]
      exact htop
    · rw [Stacked.depth_cons]
      by_cases e : y = x
      · subst e
        rw [hsyms, SymTab.findSymbol_modify, if_pos rfl, SymTab.findSymbol_modify, if_pos rfl, hx] at hfind
        cases hfind
        rw [if_pos rfl, ← ho, htotal]
        refine ⟨rfl, fun _ => ?_⟩
        rw [ho]
        cases hc' : s.curscope with
        | nil => rfl
        | cons z zs => rw [List.getLast?_cons]; rfl
      · rw [hother y e] at hfind
        rw [if_neg e]
        exact hs.slot y sym' hy hfind
  · -- a variable of another frame
    have hx' : T.inFrame o x = false := by
      have hne : (sym.scopeName == frameScope o) = false := by
        rw [hown]
        simpa using fun e => ho (frameScope_inj e).symm
      rw [hin, hne]
      rfl
    refine ⟨xs, hdecl, hs.nodup, hs.inFrame, (hrest o ho).trans hs.stack, fun y sym' hy hfind => ?_⟩
    have hne : y ≠ x := by
      rintro rfl
      rw [hx'] at hy
      cases hy
    rw [hother y hne] at hfind
    exact hs.slot y sym' hy hfind

theorem places_emits : EmitRules (Places T o a) := emits_of_same fun _ _ h => h.places

theorem declareVar_places (hT : T.Parsed) (hsize : T.Sized (frameScope o))
    (hx : (T.findSymbol x).all (fun sym => sym.scopeName == frameScope a.scope.getLast?) = true)
    {optAssign : Option Visit} (ha : OptKeeps (Places T o a) optAssign) (intentIn intentOut : Bool) :
    Keeps (Places T o a) (declareVar a.scope.isEmpty optAssign intentIn intentOut x) := by
  intro s r s' h hc
  obtain ⟨sym, s1, h1, h⟩ := bind_eq_ok.1 h
  obtain ⟨e1, -, key, hk, hkey⟩ := getSym_ok h1
  obtain rfl : key = x := hkey.resolve_right fun h => by cases h.1
  rw [e1] at h
  split at h
  · cases h
    exact ⟨hc, fun xs hs => ⟨xs, hs⟩⟩
  next harg =>
  split at h
  · cases h
  split at h
  · cases h
  split at h
  · cases h
  next haddr =>
  obtain ⟨_, s2, h2, h⟩ := bind_eq_ok.1 h
  rw [← hc.curscope] at h2
  have hin : InScope T a.scope s2 := by
    obtain ⟨size, -, hcur, hsyms, -⟩ := allocVar_ok h2
    refine ⟨hcur.trans hc.curscope, ?_⟩
    rw [hsyms]
    exact (SymTab.declared_modify (by intro sym; rfl)).trans
      ((SymTab.declared_modify (by intro sym; rfl)).trans hc.declared)
  have hrest : Places T o a s2 s' := by
    refine (Keeps.bind (Keeps.of_eq (reload_eq sym)) fun sym => ?_) s2 r s' h
    cases optAssign with
    | some assign => exact Keeps.bind (visitRun_keeps (ha assign rfl)) fun _ => Keeps.pure _
    | none =>
      refine Keeps.bind (Keeps.onlyIf ?_) fun _ => Keeps.pure _
      exact Keeps.bind (places_emits.pushDefault_keeps sym) fun _ => places_emits.assignVar_keeps sym
  obtain ⟨c2, hp⟩ := hrest hin
  refine ⟨c2, fun xs hs => ?_⟩
  have hown : sym.scopeName = frameScope s.curscope.getLast? := by
    obtain ⟨sym', h3, h4⟩ := SymTab.find_of_declared hs.declared hk
    rw [h3] at hx
    obtain ⟨-, e2, -⟩ := same_declared h4
    rw [← e2, hc.curscope]
    simpa using hx
  obtain ⟨-, ys, hy⟩ := hs.alloc hT hsize hk hown (by simpa using harg) (by simpa using haddr) h2
  exact hp ys hy

theorem visitVarDecl_places (hT : T.Parsed) (hsize : T.Sized (frameScope o)) {vars : List Str}
    {ast : Option AST} {intentIn intentOut : Bool}
    (hp : ownScope T a (.varDecl vars ast intentIn intentOut) = true) {optAssign : Option Visit}
    (ha : OptKeeps (Places T o a) optAssign) :
    Keeps (Places T o a) (visitVarDecl vars optAssign intentIn intentOut) := by
  intro s r s' h hc
  unfold visitVarDecl at h
  rw [run_get_bind, hc.curscope] at h
  have hvars : Keeps (Places T o a) (do
      let syms ← vars.mapM (declareVar a.scope.isEmpty optAssign intentIn intentOut)
      return (syms.filterMap id).head? : Visit) := by
    refine Keeps.bind (Keeps.mapM vars fun x hx => ?_) fun syms => Keeps.pure _
    exact declareVar_places hT hsize (List.all_eq_true.1 hp x hx) ha intentIn intentOut
  exact hvars s r s' h hc

/-! ## functions -/

/-- a symbol that is no variable of the frame is changed -/
theorem modifySym_places {f : Symbol → Symbol}
    (hx : InScope T a.scope s → T.inFrame o sym.scopedName = false)
    (hf : ∀ sym, (f sym).declared = sym.declared) {u : Unit}
    (h : (modifySym sym f).run s = .ok u s') : Places T o a s s' := by
  cases h
  intro hc
  refine ⟨⟨hc.curscope, (SymTab.declared_modify hf).trans hc.declared⟩, fun xs hs => ⟨xs, ?_⟩⟩
  exact hs.modify (hx hc) hf

/-- the symbol of an argument or a function is no variable of a frame -/
theorem not_inFrame (hT : T.Parsed) (hd : s.syms.declared = T.declared) {key : Str}
    (hk : s.syms.findSymbol key = some sym) (hsym : sym.isArg = true ∨ sym.ty = .func) :
    T.inFrame o sym.scopedName = false := by
  rw [keyed_of hT hd hk, (inFrame_of hd hk).1]
  rcases hsym with e | e <;> simp [e]

theorem declareArgs_places (hT : T.Parsed) (funcname : Str) (argidx : Nat) (frameAddr : Int32)
    (args : List ArgName) : Keeps (Places T o a) (declareArgs funcname argidx frameAddr args) := by
  induction args generalizing argidx frameAddr with
  | nil => exact Keeps.pure _
  | cons arg args ih =>
    obtain ⟨argname, argtype, dims⟩ := arg
    intro s r s' h
    obtain ⟨sym, s1, h1, h⟩ := bind_eq_ok.1 h
    obtain ⟨e1, -, key, hk, -⟩ := getSym_ok h1
    rw [e1] at h
    dsimp only at h
    split at h
    · cases h
    split at h
    · cases h
    next harg =>
    split at h
    · cases h
    split at h
    · cases h
    obtain ⟨_, s2, h2, h⟩ := bind_eq_ok.1 h
    have hsym : sym.isArg = true := by simpa using harg
    have hfirst : Places T o a s s2 := modifySym_places
      (fun hc => not_inFrame hT hc.declared hk (Or.inl hsym)) (by intro sym; rfl) h2
    have hrest : Places T o a s2 s' :=
      (Keeps.bind (Keeps.of_eq (lift_eq _)) fun size => ih _ _) s2 r s' h
    exact IsTrans.trans s s2 s' hfirst hrest

theorem visitFunc_places (hT : T.Parsed) {ident : Str} {args rets : List ArgName} {ast : AST}
    (hp : ownScope T a (.func ident args rets ast) = true) {x : Visit}
    (hx : Keeps (Places T o (a.func ident)) x) :
    Keeps (Places T o a) (visitFunc ident args rets x) := by
  intro s r s' h hc
  have hR : ∀ s s', SameFrames s s' → Places T o (a.func ident) s s' := fun _ _ h => h.places
  have he : EmitRules (Places T o (a.func ident)) := emits_of_same hR
  obtain ⟨_, s1, h1, h⟩ := bind_eq_ok.1 h
  -- inside of the function
  have hc1 : InScope T (a.func ident).scope s1 := by
    cases h1
    refine ⟨?_, hc.declared⟩
    show s.curscope ++ [ident] = a.scope ++ [ident]
    rw [hc.curscope]
  have hs1 : ∀ xs, Placed T o xs s → Placed T o xs s1 := by
    cases h1
    intro xs hs
    refine ⟨hs.declared, hs.nodup, hs.inFrame, ?_, hs.slot⟩
    cases o <;> exact hs.stack
  obtain ⟨safetyJmp, s2, h2, h⟩ := bind_eq_ok.1 h
  have r2 := (putJump_same _).mono hR s1 safetyJmp s2 h2
  obtain ⟨_, s3, h3, h⟩ := bind_eq_ok.1 h
  have r3 : Places T o (a.func ident) s2 s3 := declareArgs_places hT _ _ _ _ s2 _ s3 h3
  obtain ⟨func, s3', h4, h⟩ := bind_eq_ok.1 h
  obtain ⟨e4, -, key, hk, -⟩ := getSym_ok h4
  have hres := getSym_resolve h4
  rw [e4] at h
  obtain ⟨begin, s3'', h5, h⟩ := bind_eq_ok.1 h
  cases h5
  have hfunc (hc3 : InScope T (a.func ident).scope s3) : T.inFrame o func.scopedName = false := by
    refine not_inFrame hT hc3.declared hk (Or.inr ?_)
    have hd : (T.resolve (a.scope ++ [ident]) ident none).map Symbol.declared = some func.declared := by
      rw [← SymTab.resolve_declared, ← hc3.declared, SymTab.resolve_declared]
      unfold Codegen.resolve at hres
      rw [show a.scope ++ [ident] = s3.curscope from hc3.curscope.symm, hres]
      rfl
    obtain ⟨func', h6, h7⟩ := Option.map_eq_some_iff.1 hd
    have hp' : (T.resolve (a.scope ++ [ident]) ident none).all (fun sym => sym.ty == .func) = true := hp
    rw [h6] at hp'
    obtain ⟨-, -, e7, -⟩ := same_declared h7
    rw [← e7]
    simpa using hp'
  have t3 := IsTrans.trans s1 s2 s3 r2 r3
  have hkey := hfunc (t3 hc1).1
  obtain ⟨_, s4, h4, h⟩ := bind_eq_ok.1 h
  have r4 : Places T o (a.func ident) s3 s4 :=
    modifySym_places (fun _ => hkey) (by intro sym; rfl) h4
  obtain ⟨_, s5, h5, h⟩ := bind_eq_ok.1 h
  have r5 := visitRun_keeps hx s4 _ s5 h5
  obtain ⟨pushret, s5', h6, h⟩ := bind_eq_ok.1 h
  cases h6
  obtain ⟨_, s6, h6, h⟩ := bind_eq_ok.1 h
  have r6 := Keeps.forM rets (fun ret _ => visitRun_keeps (he.pushVar_keeps ret.1)) s5 _ s6 h6
  have t6 := IsTrans.trans s1 s3 s6 t3 (IsTrans.trans s3 s4 s6 r4 (IsTrans.trans s4 s5 s6 r5 r6))
  -- the return
  obtain ⟨ret, s6', h7, h⟩ := bind_eq_ok.1 h
  cases h7
  obtain ⟨framesize, s7, h7, h⟩ := bind_eq_ok.1 h
  obtain rfl := getStackFrameSize_eq _ s6 _ s7 h7
  obtain ⟨_, s8, h8, h⟩ := bind_eq_ok.1 h
  have r8 := he.pushIntConst_keeps _ s6 _ s8 h8
  obtain ⟨_, s9, h9, h⟩ := bind_eq_ok.1 h
  have r9 := he.pushIntConst_keeps _ s8 _ s9 h9
  obtain ⟨_, s10, h10, h⟩ := bind_eq_ok.1 h
  have r10 := (writeOut_same _).mono hR s9 _ s10 h10
  have t10 := IsTrans.trans s1 s6 s10 t6 (IsTrans.trans s6 s8 s10 r8 (IsTrans.trans s8 s9 s10 r9 r10))
  obtain ⟨endFunc, s10', h11, h⟩ := bind_eq_ok.1 h
  cases h11
  obtain ⟨_, s11, h11, h⟩ := bind_eq_ok.1 h
  have r11 : Places T o (a.func ident) s10 s11 :=
    modifySym_places (fun _ => hkey) (by intro sym; rfl) h11
  -- the addresses of jumps
  rw [run_get_bind] at h
  obtain ⟨_, s12, h12, h⟩ := bind_eq_ok.1 h
  have q12 := patchAll_same _ _ s11 _ s12 h12
  obtain ⟨_, s13, h13, h⟩ := bind_eq_ok.1 h
  have q13 : SameFrames s12 s13 := by
    cases h13
    exact ⟨rfl, rfl, rfl, rfl⟩
  rw [run_get_bind] at h
  obtain ⟨_, s14, h14, h⟩ := bind_eq_ok.1 h
  have q14 := patchAll_same _ _ s13 _ s14 h14
  obtain ⟨_, s15, h15, h⟩ := bind_eq_ok.1 h
  have q15 : SameFrames s14 s15 := by
    cases h15
    exact ⟨rfl, rfl, rfl, rfl⟩
  obtain ⟨_, s16, h16, h⟩ := bind_eq_ok.1 h
  have q16 := patch_same _ _ s15 _ s16 h16
  obtain ⟨_, s17, h17, h⟩ := bind_eq_ok.1 h
  have q17 := seekp_same _ s16 _ s17 h17
  have q := q12.trans (q13.trans (q14.trans (q15.trans (q16.trans q17))))
  obtain ⟨c17, p17⟩ := IsTrans.trans s1 s10 s17 t10 (IsTrans.trans s10 s11 s17 r11 q.places) hc1
  obtain ⟨_, s18, h18, h⟩ := bind_eq_ok.1 h
  cases h18
  cases h
  refine ⟨⟨?_, c17.declared⟩, fun xs hs => ?_⟩
  · show s17.curscope.dropLast = a.scope
    rw [c17.curscope]
    exact List.dropLast_concat
  · obtain ⟨ys, hy⟩ := p17 xs (hs1 xs hs)
    refine ⟨ys, hy.declared, hy.nodup, hy.inFrame, ?_, hy.slot⟩
    cases o <;> exact hy.stack

/-- **What every visitor does to a frame.** -/
theorem places_rules (hT : T.Parsed) (hsize : T.Sized (frameScope o)) :
    VisitorRules (Places T o) (ownScope T) := by
  have hR (a : Around) : ∀ s s', SameFrames s s' → Places T o a s s' := fun _ _ h => h.places
  refine visitorRules_of (fun a => places_emits) ?_
  exact {
    varDecl := fun hp h => visitVarDecl_places hT hsize hp h
    func := fun hp h => visitFunc_places hT hp h
    call := fun h => call_of_same (hR _) h
    ret := fun h => ret_of_same (hR _) h
    cond := fun h h1 h2 => cond_of_same (hR _) h h1 h2
    cases := fun h h1 h2 => cases_of_same (hR _) h h1 h2
    loop := fun h1 h2 => loop_of_same (hR _) h1 h2
    loopBreak := fun n => break_of_same (hR _) n
    loopNext := fun n => next_of_same (hR _) n
    label := fun ident => label_of_same (hR _) ident
    jump := fun label isComefrom => jump_of_same (hR _) label isComefrom }

theorem start_same : Keeps SameFrames start :=
  Keeps.bind (Keeps.of_eq (getStackFrameSize_eq _)) fun framesize =>
    Keeps.onlyIf (Keeps.bind ((emits_of_same fun _ _ h => h).pushIntConst_keeps _) fun _ => writeOut_same _)

theorem finish_same : Keeps SameFrames finish := by
  have he : EmitRules SameFrames := emits_of_same fun _ _ h => h
  have hconsts : Keeps SameFrames finishConsts := by
    refine Keeps.bind tellp_same fun _ => Keeps.bind Keeps.get fun s => ?_
    exact Keeps.bind (writeOut_same _) fun _ => Keeps.forM _ fun x _ => patch_same _ _
  have hcall (call : FuncComefrom) : Keeps SameFrames (finishCall call) := by
    refine Keeps.bind (Keeps.of_eq (getSym_eq _ _ _)) fun sym => ?_
    cases sym.addr with
    | none => exact fail_keeps _
    | some addr => exact Keeps.ite (fail_keeps _) (patch_same _ _)
  have hgoto (label : Str) (pos : Nat) : Keeps SameFrames (finishGoto label pos) := by
    refine Keeps.bind Keeps.get fun s => ?_
    cases s.labels.lookup label with
    | none => exact fail_keeps _
    | some labelPos => exact patch_same _ _
  refine Keeps.bind (Keeps.of_eq (getStackFrameSize_eq _)) fun framesize => ?_
  refine Keeps.bind (Keeps.onlyIf (Keeps.bind (he.pushIntConst_keeps _) fun _ => writeOut_same _)) fun _ => ?_
  refine Keeps.bind (writeOut_same _) fun _ => Keeps.bind hconsts fun _ => ?_
  refine Keeps.bind Keeps.get fun s => Keeps.bind (Keeps.forM _ fun call _ => hcall call) fun _ => ?_
  refine Keeps.bind Keeps.get fun s => Keeps.bind (Keeps.forM _ fun x _ => hgoto _ _) fun _ => ?_
  refine Keeps.bind (modify_same fun _ => ⟨rfl, rfl, rfl, rfl⟩) fun _ => ?_
  exact Keeps.bind seekEnd_same fun _ => tellp_same

/-- before everything no variable has a slot -/
theorem placed_init (hT : T.Parsed) (o : Option Str) : Placed T o [] (Codegen.init T) := by
  refine ⟨rfl, List.nodup_nil, by simp, by cases o <;> rfl, fun x sym _ h => ?_⟩
  rw [hT.fresh x sym h]
  exact ⟨rfl, fun h => by cases h⟩

/-- the variables of a frame fit into it -/
theorem Placed.total_le (hs : Placed T o xs s) :
    Stacked.total T.slotSize xs ≤ T.frame (frameScope o) := by
  have hentry (x : Str) (hx : x ∈ xs) : ∃ sym, T.findSymbol x = some sym ∧
      (sym.scopeName == frameScope o && !sym.isArg && sym.ty != .func) = true := by
    have h := hs.inFrame x hx
    unfold SymTab.inFrame at h
    cases hf : T.findSymbol x with
    | none =>
      rw [hf] at h
      cases h
    | some sym =>
      rw [hf] at h
      exact ⟨sym, rfl, h⟩
  unfold SymTab.frame SymTab.findSymbolsWithSameScope
  rw [List.filter_map, List.map_map]
  -- the entries of the table for these variables
  refine Stacked.total_le_sum (fun x => (x, (T.findSymbol x).getD {})) hs.nodup
    (fun x _ y _ h => (Prod.mk.inj h).1) fun x hx => ?_
  obtain ⟨sym, h1, h2⟩ := hentry x hx
  rw [h1]
  refine ⟨List.mem_filter.2 ⟨lookup_mem h1, ?_⟩, ?_⟩
  · simp only [Bool.and_eq_true] at h2
    simp [h2.1.1, h2.1.2]
  · unfold SymTab.slotSize
    rw [h1]
    rfl

theorem slotAddr_toInt {d : Nat} (h : d < 2^31) : (slotAddr d).toInt = -d := by
  unfold slotAddr
  rw [Int32.toInt_toInt64, Int32.toInt_neg, Word.toInt_ofNat h, Word.bmod_of_range (by omega) (by omega)]

/-- the slots of the variables of a frame are inside of it, relative to its base, and apart -/
structure LaidOut (T : SymTab) (o : Option Str) (size : Nat) (f : Codegen) : Prop where
  inside : ∀ x sym addr, T.inFrame o x = true → f.syms.findSymbol x = some sym →
    sym.addr = some addr → sym.isGlobal = o.isNone ∧ -(size : Int) ≤ addr.toInt ∧
      addr.toInt + sym.slotSize ≤ 0
  apart : ∀ x y sym sym' addr addr', x ≠ y → T.inFrame o x = true → T.inFrame o y = true →
    f.syms.findSymbol x = some sym → f.syms.findSymbol y = some sym' → sym.addr = some addr →
    sym'.addr = some addr' →
      addr.toInt + sym.slotSize ≤ addr'.toInt ∨ addr'.toInt + sym'.slotSize ≤ addr.toInt

theorem Placed.laidOut (hs : Placed T o xs s) (hsmall : T.frame (frameScope o) < 2^31) :
    LaidOut T o (T.frame (frameScope o)) s := by
  have hle := hs.total_le
  have hdepth (x : Str) (sym : Symbol) (addr : Int64) (hx : T.inFrame o x = true)
      (hsym : s.syms.findSymbol x = some sym) (ha : sym.addr = some addr) :
      ∃ d, Stacked.depth T.slotSize xs x = some d ∧ addr.toInt = -d ∧ T.slotSize x = sym.slotSize ∧
        sym.slotSize ≤ d ∧ d ≤ T.frame (frameScope o) := by
    obtain ⟨h1, -⟩ := hs.slot x sym hx hsym
    rw [ha] at h1
    obtain ⟨d, h2, h3⟩ := Option.map_eq_some_iff.1 h1.symm
    obtain ⟨-, h4, h5⟩ := Stacked.depth_some h2
    have h6 := (inFrame_of (o := o) hs.declared hsym).2
    exact ⟨d, h2, by rw [← h3, slotAddr_toInt (by omega)], h6, by omega, by omega⟩
  refine ⟨fun x sym addr hx hsym ha => ?_, fun x y sym sym' addr addr' hne hx hy hsym hsym' ha ha' => ?_⟩
  · obtain ⟨d, -, h2, -, h4, h5⟩ := hdepth x sym addr hx hsym ha
    exact ⟨(hs.slot x sym hx hsym).2 (by rw [ha]; rfl), by omega, by omega⟩
  · obtain ⟨d, h1, h2, h3, -⟩ := hdepth x sym addr hx hsym ha
    obtain ⟨d', h1', h2', h3', -⟩ := hdepth y sym' addr' hy hsym' ha'
    have := Stacked.depth_apart hne h1 h1'
    omega

/-- **The layout of frames.**  Whatever is compiled, the slots of the variables of a function, and
those of the global variables, are inside of the frame and apart from each other; and the size of
the frame is the one that is in the code of every call and of the return. -/
theorem frames_laid_out {stmts : List AST} {n : Nat} {f : Codegen} (hT : T.Parsed)
    (hsize : T.Sized (frameScope o)) (hsmall : T.frame (frameScope o) < 2^31)
    (hp : allList (ownScope T) ⟨[], false⟩ stmts = true)
    (hc : (compile stmts).run (Codegen.init T) = .ok n f) :
    LaidOut T o (T.frame (frameScope o)) f ∧ (∃ l t H, Compiled T l t H ∧ finish.run t = .ok n f) ∧
    ∀ l t H, Compiled T l t H → finish.run t = .ok n f →
      (∀ pos scope name func framesize, Event.call pos scope name func framesize ∈ l →
        func.scopedName ++ scopeSep = frameScope o →
          framesize = Int64.ofNat (T.frame (frameScope o)) ∧
            Linked t f.ostr.buf pos name func framesize) ∧
      (∀ begin ret scope name func framesize numArgs,
        Event.func begin ret scope name func framesize numArgs ∈ l →
        func.scopedName ++ scopeSep = frameScope o →
          framesize = Int64.ofNat (T.frame (frameScope o)) ∧
            Sits f.ostr.buf ret (retCode framesize numArgs)) := by
  have hframe (func : Symbol) (framesize : Int64) (h : T.frameSize func = .ok framesize)
      (hk : func.scopedName ++ scopeSep = frameScope o) :
      framesize = Int64.ofNat (T.frame (frameScope o)) := by
    unfold SymTab.frameSize at h
    rw [hk, sum_frame rfl hsize] at h
    exact (Except.ok.inj h).symm
  refine ⟨?_, compile_emits hc, fun l t H hl hf => ?_⟩
  · have hR : ∀ s s', SameFrames s s' → Places T o ⟨[], false⟩ s s' := fun _ _ h => h.places
    have hall : Keeps (Places T o ⟨[], false⟩) (compile stmts) := by
      refine Keeps.bind (start_same.mono hR) fun _ => Keeps.bind ?_ fun _ => finish_same.mono hR
      exact Keeps.forM _ fun x hx =>
        visitRun_keeps (visitList_keeps (places_rules hT hsize) _ stmts hp x hx)
    obtain ⟨-, h⟩ := hall _ n f hc ⟨rfl, rfl⟩
    obtain ⟨xs, hs⟩ := h [] (placed_init hT o)
    exact hs.laidOut hsmall
  · have hres := emits_resolved hl.emits
    obtain ⟨base, -, -, hcalls, hfuncs, -⟩ := finish_placed
      (emits_sited hl.emits [] (sited_init T)) hl.atEnd hl.isOpen hf
    refine ⟨fun pos scope name func framesize hm hk => ⟨?_, hcalls _ _ _ _ _ hm⟩,
      fun begin ret scope name func framesize numArgs hm hk => ⟨?_, hfuncs _ _ _ _ _ _ _ hm⟩⟩
    · exact hframe func framesize (hres _ hm).2 hk
    · exact hframe func framesize (hres _ hm).2 hk

end

/-! ### a function with two variables -/

def twoVars : SymTab :=
  [(ascii "f", { name := ascii "f", scopedName := ascii "f", ty := .func }),
    (ascii "z", { name := ascii "z", scopedName := ascii "z", ty := .real }),
    (ascii "f::x", { name := ascii "x", scopedName := ascii "f::x", scopeName := ascii "f::", ty := .int }),
    (ascii "f::y", { name := ascii "y", scopedName := ascii "f::y", scopeName := ascii "f::", ty := .bool })]

def twoVarsStmts : List AST :=
  [.varDecl [ascii "z"] none false false,
    .func (ascii "f") [] [] (.stmts [.varDecl [ascii "f::x", ascii "f::y"] none false false]),
    .call (ascii "f") []]

theorem frames_laid_out_two : ∃ n f, (compile twoVarsStmts).run (Codegen.init twoVars) = .ok n f ∧
    LaidOut twoVars (some (ascii "f")) 11 f ∧
      (f.syms.findSymbol (ascii "f::x")).bind Symbol.addr = some (-9) ∧
      (f.syms.findSymbol (ascii "f::y")).bind Symbol.addr = some (-11) := by
  have hT : twoVars.Parsed := SymTab.parsed_of (by decide +kernel)
  have hsize : twoVars.Sized (frameScope (some (ascii "f"))) := by
    unfold SymTab.Sized Symbol.Sized
    decide +kernel
  have hframe : twoVars.frame (frameScope (some (ascii "f"))) = 11 := by decide +kernel
  obtain ⟨n, f, hc, hf⟩ := endsIn_ok (show endsIn (compile twoVarsStmts) (Codegen.init twoVars)
    (fun f => decide ((f.syms.findSymbol (ascii "f::x")).bind Symbol.addr = some (-9)) &&
      decide ((f.syms.findSymbol (ascii "f::y")).bind Symbol.addr = some (-11))) = true by
    decide +kernel)
  obtain ⟨hx, hy⟩ := Bool.and_eq_true_iff.1 hf
  have hlaid := (frames_laid_out hT hsize (by rw [hframe]; decide) (by decide +kernel) hc).1
  rw [hframe] at hlaid
  exact ⟨n, f, hc, hlaid, of_decide_eq_true hx, of_decide_eq_true hy⟩

end MuF
