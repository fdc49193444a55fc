import MuF.Base.Total
import MuF.Lang.Whole

/-!
# Typed programs have code

* `Gen`: a state in which the variables of a program have their addresses;
* `Succeeds`: code generation that finishes in such a state;
* `expr_succeeds`, `stmt_succeeds`: the visits of typed expressions and statements;
* **`typed_compiles`**: there is code for a typed program exactly if no variable is declared twice.
-/

set_option linter.unusedVariables false

namespace MuF

open Exec

/-! ## code generation that always succeeds -/

/-- what code generation reads is the same -/
structure Still (s s' : Codegen) : Prop where
  syms : s'.syms = s.syms
  curscope : s'.curscope = s.curscope
  curLoop : s'.curLoop = s.curLoop
  refs : s'.funcComefroms = s.funcComefroms ∧ s'.gotoComefroms = s.gotoComefroms

/-- it finishes from every state, and what is read stays -/
def Always {α : Type} (x : CGM α) : Prop := ∀ e, Finishes (Still e) x fun _ => Still e

section
variable {α β : Type} {x : CGM α} {f : α → CGM β}

theorem Still.refl (s : Codegen) : Still s s := ⟨rfl, rfl, rfl, rfl, rfl⟩

theorem Always.pure (a : α) : Always (pure a : CGM α) := fun e => Finishes.pure a fun _ h => h

theorem Always.bind (hx : Always x) (hf : ∀ a, Always (f a)) : Always (x >>= f) := fun e =>
  (hx e).bind fun a => hf a e

theorem Always.get {g : Codegen → CGM β} (hg : ∀ s, Always (g s)) : Always (get >>= g) := fun e =>
  Finishes.get fun s hs => (hg s e).mono (fun t ht => by rw [ht]; exact hs) fun _ _ h => h

theorem Always.forM {g : α → CGM PUnit} (l : List α) (h : ∀ a, Always (g a)) : Always (l.forM g) :=
  fun e => Finishes.forM l fun a _ => h a e

theorem modify_always {g : Codegen → Codegen} (h : ∀ s, Still s (g s)) :
    Always (modify g : CGM PUnit) := fun e => Finishes.modify fun s hs =>
  ⟨(h s).syms.trans hs.syms, (h s).curscope.trans hs.curscope, (h s).curLoop.trans hs.curLoop,
    (h s).refs.1.trans hs.refs.1, (h s).refs.2.trans hs.refs.2⟩

theorem writeOut_always (bs : List UInt8) : Always (writeOut bs) :=
  modify_always fun s => ⟨rfl, rfl, rfl, rfl, rfl⟩

theorem tellp_always : Always tellp := Always.get fun s => Always.pure _

theorem seekp_always (pos : Nat) : Always (seekp pos) := modify_always fun s => ⟨rfl, rfl, rfl, rfl, rfl⟩

theorem seekEnd_always : Always seekEnd := modify_always fun s => ⟨rfl, rfl, rfl, rfl, rfl⟩

theorem putOp_always (op : OpCode) : Always (putOp op) := writeOut_always _

theorem putAddr_always (ty : VMType) (addr : Int32) : Always (putAddr ty addr) :=
  (writeOut_always _).bind fun _ => (writeOut_always _).bind fun _ => writeOut_always _

theorem patch_always (pos : Nat) (addr : Int32) : Always (patch pos addr) :=
  (seekp_always pos).bind fun _ => writeOut_always _

theorem putJump_always (op : OpCode) : Always (putJump op) :=
  (writeOut_always _).bind fun _ => (writeOut_always _).bind fun _ => tellp_always.bind fun _ =>
    (writeOut_always _).bind fun _ => (writeOut_always _).bind fun _ => Always.pure _

theorem pushConst_always (d : TData) : Always (pushConst d) :=
  (writeOut_always _).bind fun _ => (writeOut_always _).bind fun _ => writeOut_always _

theorem castTo_always (ty : Option Symbol) (pos : Option Nat) (b : Bool) : Always (castTo ty pos b) := by
  cases ty with
  | none => exact Always.pure _
  | some ty =>
    refine Always.bind (fun e => Finishes.onlyIf (putAddr_always _ _ e)) fun _ => ?_
    cases pos with
    | none => exact putOp_always _
    | some pos => exact (seekp_always _).bind fun _ => (putOp_always _).bind fun _ => seekEnd_always

theorem patchAll_always (target : Nat) (poss : List Nat) : Always (patchAll target poss) :=
  Always.forM _ fun _ => patch_always _ _

theorem patchLoop_always (loopIdent loopBegin loopEnd : Nat) :
    Always (patchLoop loopIdent loopBegin loopEnd) := by
  refine Always.get fun s => (patchAll_always _ _).bind fun _ => Always.bind ?_ fun _ =>
    Always.get fun s => (patchAll_always _ _).bind fun _ => ?_
  · exact modify_always fun s => ⟨rfl, rfl, rfl, rfl, rfl⟩
  · exact modify_always fun s => ⟨rfl, rfl, rfl, rfl, rfl⟩

end

/-! ## states with variables -/

/-- the variables of the types `Γ` have addresses; `d` loops are around -/
structure Gen (T : SymTab) (Γ : Str → Option ValTy) (d : Nat) (s : Codegen) : Prop where
  declared : s.syms.declared = T.declared
  scope : s.curscope = []
  vars : ∀ x t, Γ x = some t → ∃ sym, s.syms.findSymbol x = some sym ∧ sym.scopedName = x ∧
    sym.addr.isSome = true ∧ sym.ty.val = some t
  loops : s.curLoop.length = d
  refs : s.funcComefroms = [] ∧ s.gotoComefroms = []

/-- it finishes in such a state, with a result of a kind -/
def Succeeds (T : SymTab) (Γ : Str → Option ValTy) (d : Nat) {α : Type} (x : CGM α)
    (R : α → Prop) : Prop := Finishes (Gen T Γ d) x fun a s => Gen T Γ d s ∧ R a

/-- the symbol of a variable -/
structure IsVar (Γ : Str → Option ValTy) (x : Str) (sym : Symbol) : Prop where
  name : sym.scopedName = x
  addr : sym.addr.isSome = true
  ty : sym.ty.val = Γ x

section
variable {α β : Type} {T : SymTab} {Γ : Str → Option ValTy} {d : Nat} {x : CGM α} {f : α → CGM β}
  {R R' : α → Prop} {S : β → Prop} {name : Str} {t : ValTy} {sym : Symbol}

theorem Still.gen {s s' : Codegen} (h : Still s s') (hg : Gen T Γ d s) : Gen T Γ d s' := by
  refine ⟨?_, ?_, ?_, ?_, ?_, ?_⟩
  · rw [h.syms]
    exact hg.declared
  · rw [h.curscope]
    exact hg.scope
  · rw [h.syms]
    exact hg.vars
  · rw [h.curLoop]
    exact hg.loops
  · rw [h.refs.1]
    exact hg.refs.1
  · rw [h.refs.2]
    exact hg.refs.2

theorem Always.succeeds (h : Always x) : Succeeds T Γ d x fun _ => True := by
  intro s hs
  obtain ⟨a, s', hr, hst⟩ := h s s (Still.refl s)
  exact ⟨a, s', hr, hst.gen hs, trivial⟩

theorem Succeeds.pure (a : α) (h : R a) : Succeeds T Γ d (pure a) R :=
  Finishes.pure a fun _ hs => ⟨hs, h⟩

theorem Succeeds.bind (hx : Succeeds T Γ d x R) (hf : ∀ a, R a → Succeeds T Γ d (f a) S) :
    Succeeds T Γ d (x >>= f) S := by
  refine Finishes.bind hx fun a s hs => ?_
  exact hf a hs.2 s hs.1

theorem Succeeds.mono (hx : Succeeds T Γ d x R) (h : ∀ a, R a → R' a) : Succeeds T Γ d x R' :=
  Finishes.mono hx (fun _ h => h) fun a s hs => ⟨hs.1, h a hs.2⟩

/-- an operation that always succeeds, and what comes after it -/
theorem Always.before (hx : Always x) (hf : ∀ a, Succeeds T Γ d (f a) S) : Succeeds T Γ d (x >>= f) S :=
  Succeeds.bind hx.succeeds fun a _ => hf a

theorem Succeeds.run_ {x : Visit} {R : Option Symbol → Prop} (hx : Succeeds T Γ d x R) :
    Succeeds T Γ d x.run_ fun _ => True :=
  Succeeds.bind hx fun _ _ => Succeeds.pure _ trivial

/-! ### variables -/

theorem getSym_succeeds (b : Bool) (h : Γ name = some t) :
    Succeeds T Γ d (getSym name b) (IsVar Γ name) := by
  refine Finishes.get fun s hs s' e => ?_
  subst e
  obtain ⟨sym, h1, h2, h3, h4⟩ := hs.vars name t h
  have hf : s'.syms.findTyped name none = some sym := by
    unfold SymTab.findTyped
    rw [h1]
    rfl
  have hkey : (s'.curscope.flatMap fun scope => scope ++ scopeSep) ++ name = name := by
    rw [hs.scope]
    rfl
  refine ⟨sym, s', ?_, hs, ⟨h2, h3, h4.trans h.symm⟩⟩
  rw [hkey]
  have e : (if (if b = true then [] else name) ≠ [] then
      s'.syms.findTyped (if b = true then [] else name) none else none) = none ∨
      (if (if b = true then [] else name) ≠ [] then
        s'.syms.findTyped (if b = true then [] else name) none else none) = some sym := by
    cases b with
    | true => exact Or.inl rfl
    | false =>
      by_cases hn : name = []
      · exact Or.inl (if_neg fun h => h hn)
      · exact Or.inr ((if_pos hn).trans hf)
  dsimp only
  rcases e with e | e <;> rw [e, hf] <;> rfl

theorem reload_succeeds (h : Γ name = some t) (hv : IsVar Γ name sym) :
    Succeeds T Γ d (reload sym) (IsVar Γ name) := by
  refine Finishes.get fun s hs s' e => ?_
  subst e
  obtain ⟨sym', h1, h2, h3, h4⟩ := hs.vars name t h
  refine ⟨_, s', run_pure _ _, hs, ?_⟩
  rw [hv.name, h1]
  exact ⟨h2, h3, h4.trans h.symm⟩

theorem putVarAddr_succeeds (hv : IsVar Γ name sym) : Succeeds T Γ d (putVarAddr sym) fun _ => True := by
  obtain ⟨addr, ha⟩ := Option.isSome_iff_exists.1 hv.addr
  unfold putVarAddr
  rw [ha]
  exact Always.before (Always.pure addr) fun _ => (putAddr_always _ _).succeeds

theorem assignVar_succeeds (hv : IsVar Γ name sym) : Succeeds T Γ d (assignVar sym) fun _ => True :=
  Succeeds.bind (putVarAddr_succeeds hv) fun _ _ => (putOp_always _).succeeds

/-! ## expressions -/

/-- the symbol of an integer -/
def IsInt (r : Option Symbol) : Prop := ∃ sym, r = some sym ∧ sym.ty = .int

theorem castOperands_succeeds {x y : Visit} (hx : Succeeds T Γ d x IsInt) (hy : Succeeds T Γ d y IsInt) :
    Succeeds T Γ d (castOperands x y) fun r => IsInt r.1 ∧ IsInt r.2.1 ∧ IsInt r.2.2 := by
  refine Succeeds.bind hx fun r1 h1 => tellp_always.before fun _ => (putOp_always _).before fun _ => ?_
  refine Succeeds.bind hy fun r2 h2 => tellp_always.before fun _ => ?_
  obtain ⟨sym1, rfl, ht1⟩ := h1
  obtain ⟨sym2, rfl, ht2⟩ := h2
  have e : getCastSymType (some sym1) (some sym2) = (none, none, some sym1) := by
    simp [getCastSymType, ht1, ht2]
  rw [e]
  exact (castTo_always _ _ _).before fun _ => (castTo_always _ _ _).before fun _ =>
    Succeeds.pure _ ⟨⟨sym1, rfl, ht1⟩, ⟨sym2, rfl, ht2⟩, ⟨sym1, rfl, ht1⟩⟩

theorem visitBinary_succeeds {x y : Visit} (op : OpCode) (hx : Succeeds T Γ d x IsInt)
    (hy : Succeeds T Γ d y IsInt) : Succeeds T Γ d (visitBinary op x y) IsInt :=
  Succeeds.bind (castOperands_succeeds hx hy) fun _ h => (putOp_always _).before fun _ =>
    Succeeds.pure _ h.2.2

theorem visitMult_succeeds {x y : Visit} (inverted : Bool) (hx : Succeeds T Γ d x IsInt)
    (hy : Succeeds T Γ d y IsInt) : Succeeds T Γ d (visitMult x y inverted) IsInt := by
  refine Succeeds.bind (castOperands_succeeds hx hy) fun r h => ?_
  obtain ⟨r1, r2, r3⟩ := r
  obtain ⟨-, ⟨sym2, rfl, ht2⟩, ⟨sym3, rfl, ht3⟩⟩ := h
  have hcommon : matMulDims (some sym3) r1 (some sym2) = none := by
    unfold matMulDims
    cases r1 with
    | none => rfl
    | some sym1 =>
      dsimp only
      rw [ht3]
      rfl
  cases inverted with
  | true =>
    dsimp only
    rw [if_pos rfl, if_neg (by rw [Option.any_some, ht2]; exact Bool.false_ne_true)]
    exact (putOp_always _).before fun _ => Succeeds.pure _ ⟨sym3, rfl, ht3⟩
  | false =>
    dsimp only
    rw [if_neg Bool.false_ne_true, hcommon]
    exact (putOp_always _).before fun _ => Succeeds.pure _ ⟨sym3, rfl, ht3⟩

/-- **A typed expression** has code. -/
theorem expr_succeeds : ∀ (ast : AST) {t : ValTy}, exprTy Γ ast = some t →
    Succeeds T Γ d (visit ast) fun r => t = .int → IsInt r
  | .intConst val, t, h =>
    (pushConst_always _).before fun _ => Succeeds.pure _ fun _ => ⟨intConst, rfl, rfl⟩
  | .boolConst val, t, h => by
    cases h
    exact (pushConst_always _).before fun _ => Succeeds.pure _ fun ht => nomatch ht
  | .var ident, t, h => by
    refine Succeeds.bind (getSym_succeeds false h) fun sym hv => ?_
    obtain ⟨addr, ha⟩ := Option.isSome_iff_exists.1 hv.addr
    rw [if_neg (by rw [ha]; exact Bool.false_ne_true)]
    refine Succeeds.bind (putVarAddr_succeeds hv) fun _ _ => ?_
    have hrd : Always (onlyIf (sym.ty != .func) (putOp .rdmem)) := fun e =>
      Finishes.onlyIf (putOp_always _ e)
    refine hrd.before fun _ => Succeeds.pure _ fun ht => ⟨sym, rfl, ?_⟩
    have hty := hv.ty
    rw [show Γ ident = some t from h, ht] at hty
    exact SymbolType.val_some hty
  | .uminus term, t, h => by
    obtain ⟨h1, -, rfl⟩ := opTy_some h
    refine Succeeds.bind (expr_succeeds term h1) fun r hr => (putOp_always _).before fun _ => ?_
    exact Succeeds.pure _ hr
  | .plus term1 term2 inverted, t, h => by
    obtain ⟨h1, h2, rfl⟩ := opTy_some h
    exact (visitBinary_succeeds _ ((expr_succeeds term1 h1).mono fun _ h => h rfl)
      ((expr_succeeds term2 h2).mono fun _ h => h rfl)).mono fun _ h _ => h
  | .mult term1 term2 inverted, t, h => by
    obtain ⟨h1, h2, rfl⟩ := opTy_some h
    exact (visitMult_succeeds inverted ((expr_succeeds term1 h1).mono fun _ h => h rfl)
      ((expr_succeeds term2 h2).mono fun _ h => h rfl)).mono fun _ h _ => h
  | .mod term1 term2, t, h | .pow term1 term2, t, h => by
    obtain ⟨h1, h2, rfl⟩ := opTy_some h
    exact (visitBinary_succeeds _ ((expr_succeeds term1 h1).mono fun _ h => h rfl)
      ((expr_succeeds term2 h2).mono fun _ h => h rfl)).mono fun _ h _ => h
  | .comp term1 term2 op, t, h => by
    obtain ⟨h1, h2, rfl⟩ := opTy_some h
    exact (visitBinary_succeeds _ ((expr_succeeds term1 h1).mono fun _ h => h rfl)
      ((expr_succeeds term2 h2).mono fun _ h => h rfl)).mono fun _ h _ => h
  | .bool term1 none op, t, h => by
    obtain ⟨h1, rfl, -⟩ := boolTy_some h
    refine Succeeds.bind (expr_succeeds term1 h1).run_ fun _ _ => ?_
    exact (putOp_always _).before fun _ => Succeeds.pure _ fun ht => nomatch ht
  | .bool term1 (some term2) op, t, h => by
    obtain ⟨h1, rfl, h2⟩ := boolTy_some h
    obtain ⟨-, h2⟩ := h2.resolve_left fun h => nomatch h.2
    refine Succeeds.bind (expr_succeeds term1 h1).run_ fun _ _ => ?_
    refine Succeeds.bind (expr_succeeds term2 (Option.some.inj h2)).run_ fun _ _ => ?_
    exact (putOp_always _).before fun _ => Succeeds.pure _ fun ht => nomatch ht

/-! ## statements -/

theorem assign_succeeds {ident : Str} {expr : AST} (hx : Γ ident = some t)
    (he : exprTy Γ expr = some t) : Succeeds T Γ d (visit (.assign [ident] (some expr))) fun _ => True := by
  refine Succeeds.bind (expr_succeeds expr he).run_ fun _ _ => ?_
  refine Succeeds.bind (R := fun _ => True) ?_ fun _ _ => Succeeds.pure _ trivial
  have hone : Succeeds T Γ d (do
      let sym ← getSym ident
      if sym.addr.isNone then
        fail ("ASTAssign: Variable \"" ++ ident.text ++ "\" has not been declared.")
      else
        castTo (some sym) none true
        assignVar sym
        return sym : CGM Symbol) fun _ => True := by
    refine Succeeds.bind (getSym_succeeds false hx) fun sym hv => ?_
    obtain ⟨addr, ha⟩ := Option.isSome_iff_exists.1 hv.addr
    rw [if_neg (by rw [ha]; exact Bool.false_ne_true)]
    refine (castTo_always _ _ _).before fun _ => Succeeds.bind (assignVar_succeeds hv) fun _ _ => ?_
    exact Succeeds.pure _ trivial
  rw [List.mapM_cons]
  exact Succeeds.bind hone fun _ _ => Succeeds.pure _ trivial

theorem cond_succeeds {x y : Visit} {z : Option Visit} (hx : Succeeds T Γ d x.run_ fun _ => True)
    (hy : Succeeds T Γ d y.run_ fun _ => True)
    (hz : ∀ v, z = some v → Succeeds T Γ d v.run_ fun _ => True) :
    Succeeds T Γ d (visitCond x y z) fun _ => True := by
  refine Succeeds.bind hx fun _ _ => (putOp_always _).before fun _ => (putJump_always _).before fun _ =>
    tellp_always.before fun _ => Succeeds.bind hy fun _ _ => ?_
  cases z with
  | none =>
    exact tellp_always.before fun _ => (patch_always _ _).before fun _ => seekEnd_always.before fun _ =>
      Succeeds.pure _ trivial
  | some v =>
    refine (putJump_always _).before fun _ => tellp_always.before fun _ => (patch_always _ _).before fun _ =>
      seekEnd_always.before fun _ => tellp_always.before fun _ => Succeeds.bind (hz v rfl) fun _ _ => ?_
    exact tellp_always.before fun _ => (patch_always _ _).before fun _ => seekEnd_always.before fun _ =>
      Succeeds.pure _ trivial

theorem case_succeeds {x y z : Visit} (hx : Succeeds T Γ d x.run_ fun _ => True)
    (hy : Succeeds T Γ d y.run_ fun _ => True) (hz : Succeeds T Γ d z.run_ fun _ => True) :
    Succeeds T Γ d (visitCase x y z) fun _ => True := by
  refine Succeeds.bind hx fun _ _ => Succeeds.bind hy fun _ _ => (putOp_always _).before fun _ =>
    (putOp_always _).before fun _ => (putJump_always _).before fun _ => tellp_always.before fun _ => ?_
  exact Succeeds.bind hz fun _ _ => (putJump_always _).before fun _ => tellp_always.before fun _ =>
    (patch_always _ _).before fun _ => seekEnd_always.before fun _ => Succeeds.pure _ trivial

theorem enterLoop_finishes : Finishes (Gen T Γ d) enterLoop fun _ => Gen T Γ (d + 1) := by
  refine Finishes.get fun s hs => Finishes.bind (Q := fun _ => Gen T Γ (d + 1)) ?_ fun _ =>
    Finishes.pure _ fun _ h => h
  intro s' e
  subst e
  refine ⟨⟨⟩, _, run_modify _ _, hs.declared, hs.scope, hs.vars, ?_, hs.refs⟩
  show (s'.curLoop ++ [_]).length = d + 1
  rw [List.length_append, hs.loops]
  rfl

theorem leaveLoop_finishes : Finishes (Gen T Γ (d + 1)) leaveLoop fun _ => Gen T Γ d := by
  refine Finishes.get fun s hs s' e => ?_
  subst e
  have hne : s'.curLoop ≠ [] := by
    intro h
    have := hs.loops
    rw [h] at this
    cases this
  rw [List.getLast?_eq_some_getLast hne]
  refine ⟨⟨⟩, _, rfl, hs.declared, hs.scope, hs.vars, ?_, hs.refs⟩
  show s'.curLoop.dropLast.length = d
  rw [List.length_dropLast, hs.loops]
  rfl

theorem emitLoop_succeeds {cond body : CGM Unit} (hc : Succeeds T Γ (d + 1) cond fun _ => True)
    (hb : Succeeds T Γ (d + 1) body fun _ => True) : Succeeds T Γ d (emitLoop cond body) fun _ => True := by
  refine Finishes.bind enterLoop_finishes fun loopIdent => ?_
  have hend : Finishes (Gen T Γ (d + 1)) (do
      seekEnd
      leaveLoop
      return none : Visit) fun _ s => Gen T Γ d s ∧ True :=
    Finishes.bind seekEnd_always.succeeds fun _ => Finishes.bind
      (leaveLoop_finishes.mono (fun _ h => h.1) fun _ _ h => h) fun _ => Finishes.pure _ fun _ h => ⟨h, trivial⟩
  have hbefore {α : Type} {x : CGM α} {f : α → Visit} (hx : Succeeds T Γ (d + 1) x fun _ => True)
      (hf : ∀ a, Finishes (Gen T Γ (d + 1)) (f a) fun _ s => Gen T Γ d s ∧ True) :
      Finishes (Gen T Γ (d + 1)) (x >>= f) fun _ s => Gen T Γ d s ∧ True :=
    Finishes.bind hx fun a => (hf a).mono (fun _ h => h.1) fun _ _ h => h
  refine hbefore tellp_always.succeeds fun _ => hbefore hc fun _ => hbefore (putOp_always _).succeeds
    fun _ => hbefore (putJump_always _).succeeds fun _ => hbefore tellp_always.succeeds fun _ =>
    hbefore hb fun _ => hbefore (putOp_always _).succeeds fun _ => ?_
  refine hbefore (writeOut_always _).succeeds fun _ => hbefore tellp_always.succeeds fun _ =>
    hbefore (writeOut_always _).succeeds fun _ => hbefore (putOp_always _).succeeds fun _ =>
    hbefore tellp_always.succeeds fun _ => hbefore (patch_always _ _).succeeds fun _ => ?_
  exact hbefore (patchLoop_always _ _ _).succeeds fun _ => hend

theorem putCounter_always (sym : Symbol) (addr : Int64) : Always (putCounter sym addr) :=
  (putAddr_always _ _).bind fun _ => putOp_always _

theorem ranged_succeeds {ident : Str} {x y z : Visit} {inc : Option Visit} (hΓ : Γ ident = some t)
    (hx : Succeeds T Γ d x.run_ fun _ => True) (hy : Succeeds T Γ (d + 1) y.run_ fun _ => True)
    (hi : ∀ v, inc = some v → Succeeds T Γ (d + 1) v.run_ fun _ => True)
    (hz : Succeeds T Γ (d + 1) z.run_ fun _ => True) :
    Succeeds T Γ d (visitRangedLoop ident x y inc z) fun _ => True := by
  refine Succeeds.bind hx fun _ _ => Succeeds.bind (getSym_succeeds false hΓ) fun sym hv => ?_
  obtain ⟨addr, ha⟩ := Option.isSome_iff_exists.1 hv.addr
  rw [ha]
  refine (castTo_always _ _ _).before fun _ => Succeeds.bind (assignVar_succeeds hv) fun _ _ => ?_
  refine emitLoop_succeeds ?_ ?_
  · exact Succeeds.bind (reload_succeeds hΓ hv) fun _ _ => (putCounter_always _ _).before fun _ =>
      Succeeds.bind hy fun _ _ => (putOp_always _).succeeds
  · refine Succeeds.bind hz fun _ _ => ?_
    have hend : Succeeds T Γ (d + 1) (do
        putCounter (← reload sym) addr
        putOp .add
        assignVar (← reload sym) : CGM Unit) fun _ => True :=
      Succeeds.bind (reload_succeeds hΓ hv) fun _ _ => (putCounter_always _ _).before fun _ =>
        (putOp_always _).before fun _ => Succeeds.bind (reload_succeeds hΓ hv) fun _ hv' =>
        assignVar_succeeds hv'
    cases inc with
    | none => exact (pushConst_always _).before fun _ => hend
    | some v => exact Succeeds.bind (hi v rfl) fun _ _ => hend

/-- there is a loop that `break` or `next` is about -/
theorem targetLoop_some {curLoop : List Nat} (h : curLoop ≠ []) (numLoops : Int64) :
    ∃ i, targetLoop curLoop numLoops = some i := by
  have hpos : 0 < curLoop.length := List.length_pos_iff.2 h
  unfold targetLoop
  dsimp only
  refine ⟨_, List.getElem?_eq_getElem ?_⟩
  omega

theorem exit_succeeds (numLoops : Int64) (save : Nat → Nat → Codegen → Codegen)
    (hsave : ∀ i pos s, Still s (save i pos s)) (msg : String) : Succeeds T Γ (d + 1) (do
      let s ← get
      if s.curLoop.isEmpty then
        fail msg
      else
        let loop ← deref (targetLoop s.curLoop numLoops)
        let pos ← putJump .jmp
        modify (save loop pos)
        return none : Visit) fun _ => True := by
  refine Finishes.get fun s hs => ?_
  have hne : s.curLoop ≠ [] := by
    intro h
    have := hs.loops
    rw [h] at this
    cases this
  obtain ⟨i, hi⟩ := targetLoop_some hne numLoops
  rw [if_neg (by rw [List.isEmpty_iff]; exact hne), hi]
  have hall : Succeeds T Γ (d + 1) (do
      let loop ← deref (some i)
      let pos ← putJump .jmp
      modify (save loop pos)
      return none : Visit) fun _ => True :=
    (Always.pure i).before fun _ => (putJump_always _).before fun _ =>
      (modify_always fun s => hsave _ _ s).before fun _ => Succeeds.pure _ trivial
  exact Finishes.mono hall (fun s' e => by rw [e]; exact hs) fun _ _ h => h

mutual

/-- **A typed statement** has code. -/
theorem stmt_succeeds (ast : AST) (loops : List Bool) (ht : ast.typed Γ loops = true) :
    Succeeds T Γ loops.length (visit ast) fun _ => True := by
  cases ast with
  | assign idents expr =>
    obtain _ | ⟨ident, _ | ⟨y, idents⟩⟩ := idents
    · cases ht
    · cases expr with
      | none => cases ht
      | some expr =>
        obtain ⟨h1, h2⟩ := typed_and ht
        obtain ⟨t, hx⟩ := Option.isSome_iff_exists.1 h1
        exact assign_succeeds hx ((eq_of_beq h2).trans hx)
    · cases ht
  | stmts stmts =>
    exact Succeeds.bind (list_succeeds stmts loops ht) fun _ _ => Succeeds.pure _ trivial
  | cond cond ifStmt elseStmt =>
    obtain ⟨ht, he⟩ := typed_and ht
    obtain ⟨hc, hi⟩ := typed_and ht
    refine cond_succeeds (expr_succeeds cond (eq_of_beq hc)).run_ (stmt_succeeds ifStmt loops hi).run_ ?_
    intro v hv
    cases elseStmt with
    | none => cases hv
    | some elseStmt =>
      cases hv
      exact (stmt_succeeds elseStmt loops he).run_
  | cases expr cases_ defaultStmts =>
    obtain ⟨ht, hd⟩ := typed_and ht
    obtain ⟨he, hc⟩ := typed_and ht
    refine Succeeds.bind (cases_succeed cases_ loops expr (eq_of_beq he) hc) fun rs _ => ?_
    have hend : Always (do
        let afterAll ← tellp
        rs.forM fun r => patch r.1 (streamDiff afterAll r.2)
        seekEnd
        return none : Visit) :=
      tellp_always.bind fun _ => (Always.forM _ fun _ => patch_always _ _).bind fun _ =>
        seekEnd_always.bind fun _ => Always.pure _
    cases defaultStmts with
    | none => exact hend.succeeds
    | some stmts =>
      exact Succeeds.bind (stmt_succeeds stmts loops hd).run_ fun _ _ => hend.succeeds
  | loop cond stmt =>
    obtain ⟨hc, hb⟩ := typed_and ht
    exact emitLoop_succeeds (expr_succeeds cond (eq_of_beq hc)).run_
      (stmt_succeeds stmt (false :: loops) hb).run_
  | rangedLoop ident begin stop inc stmt =>
    obtain ⟨ht, hb⟩ := typed_and ht
    obtain ⟨ht, hi⟩ := typed_and ht
    obtain ⟨hx, hs⟩ := typed_and ht
    -- the bound is compared with the counter, and the increment is added to it
    obtain ⟨hΓ, hstop, -⟩ := opTy_some (eq_of_beq hs)
    have hΓ : Γ ident = some .int := hΓ
    have hx := (eq_of_beq hx).trans hΓ
    obtain ⟨hinc, -, -⟩ := opTy_some ((eq_of_beq hi).trans hΓ)
    refine ranged_succeeds hΓ (expr_succeeds begin hx).run_ (expr_succeeds stop hstop).run_ ?_
      (stmt_succeeds stmt (true :: loops) hb).run_
    intro v hv
    cases inc with
    | none => cases hv
    | some inc =>
      cases hv
      exact (expr_succeeds inc hinc).run_
  | loopBreak numLoops =>
    cases loops with
    | nil => cases ht
    | cons b loops =>
      exact exit_succeeds numLoops (fun loop pos s =>
        { s with loopEndComefroms := s.loopEndComefroms ++ [(loop, pos)] })
        (fun _ _ _ => ⟨rfl, rfl, rfl, rfl, rfl⟩) _
  | loopNext numLoops =>
    cases loops with
    | nil => cases ht
    | cons b loops =>
      exact exit_succeeds numLoops (fun loop pos s =>
        { s with loopBeginComefroms := s.loopBeginComefroms ++ [(loop, pos)] })
        (fun _ _ _ => ⟨rfl, rfl, rfl, rfl, rfl⟩) _
  | _ => cases ht

/-- statements one after the other -/
theorem list_succeeds (asts : List AST) (loops : List Bool) (ht : typedList Γ asts loops = true) :
    Succeeds T Γ loops.length ((visitList asts).forM Visit.run_) fun _ => True := by
  cases asts with
  | nil => exact Succeeds.pure _ trivial
  | cons ast asts =>
    obtain ⟨h1, h2⟩ := typed_and ht
    exact Succeeds.bind (stmt_succeeds ast loops h1).run_ fun _ _ => list_succeeds asts loops h2

/-- cases one after the other -/
theorem cases_succeed (cases_ : List (AST × AST)) (loops : List Bool) (expr : AST)
    (he : exprTy Γ expr = some .int) (ht : typedCases Γ cases_ loops = true) :
    Succeeds T Γ loops.length ((visitPairs cases_).mapM fun r => visitCase (visit expr) r.1 r.2)
      fun _ => True := by
  cases cases_ with
  | nil => exact Succeeds.pure _ trivial
  | cons x cases_ =>
    obtain ⟨val, stmt⟩ := x
    obtain ⟨ht, h3⟩ := typed_and ht
    obtain ⟨h1, h2⟩ := typed_and ht
    unfold visitPairs
    rw [List.mapM_cons]
    exact Succeeds.bind (case_succeeds (expr_succeeds expr he).run_ (expr_succeeds val (eq_of_beq h1)).run_
      (stmt_succeeds stmt loops h2).run_) fun _ _ =>
      Succeeds.bind (cases_succeed cases_ loops expr he h3) fun _ _ => Succeeds.pure _ trivial

end

end

/-! ## declarations -/

/-- between declarations; `names` have their addresses -/
structure Declaring (T : SymTab) (names : List Str) (s : Codegen) : Prop where
  declared : s.syms.declared = T.declared
  scope : s.curscope = []
  vars : ∀ x t, T.globalTy x = some t → ∃ sym, s.syms.findSymbol x = some sym ∧ sym.scopedName = x ∧
    sym.isArg = false ∧ (sym.addr.isSome = true ↔ x ∈ names) ∧ sym.ty.val = some t
  loops : s.curLoop = []
  refs : s.funcComefroms = [] ∧ s.gotoComefroms = []

section
variable {T : SymTab} {names : List Str} {s s' : Codegen} {x : Str} {t : ValTy}

theorem declaring_init (hT : T.Parsed) : Declaring T [] (Codegen.init T) := by
  refine ⟨rfl, rfl, fun x t h => ?_, rfl, rfl, rfl⟩
  obtain ⟨sym, h1, -, h3, h4⟩ := globalTy_some h
  refine ⟨sym, h1, hT.keyed x sym h1, h3, ?_, h4⟩
  rw [hT.fresh x sym h1]
  exact ⟨fun h => absurd h Bool.false_ne_true, fun h => absurd h List.not_mem_nil⟩

theorem Still.declaring (h : Still s s') (hd : Declaring T names s) : Declaring T names s' := by
  refine ⟨?_, ?_, ?_, ?_, ?_, ?_⟩
  · rw [h.syms]
    exact hd.declared
  · rw [h.curscope]
    exact hd.scope
  · rw [h.syms]
    exact hd.vars
  · rw [h.curLoop]
    exact hd.loops
  · rw [h.refs.1]
    exact hd.refs.1
  · rw [h.refs.2]
    exact hd.refs.2

/-- a variable gets its address -/
theorem Declaring.added {f : Symbol → Symbol} (hd : Declaring T names s)
    (hs : s' = { s with syms := s.syms.modify x f, globalStack := s'.globalStack })
    (hf : ∀ sym, (f sym).declared = sym.declared ∧ (f sym).addr.isSome = true) :
    Declaring T (x :: names) s' := by
  have hsyms : s'.syms = s.syms.modify x f := by rw [hs]
  refine ⟨?_, ?_, fun y t hy => ?_, ?_, ?_, ?_⟩
  · rw [hsyms, SymTab.declared_modify fun sym => (hf sym).1]
    exact hd.declared
  · rw [hs]
    exact hd.scope
  · obtain ⟨sym, h1, h2, h3, h4, h5⟩ := hd.vars y t hy
    rw [hsyms, SymTab.findSymbol_modify, h1]
    by_cases e : y = x
    · have hsame := (hf sym).1
      rw [if_pos e]
      refine ⟨f sym, rfl, (congrArg Symbol.scopedName hsame).trans h2,
        (congrArg Symbol.isArg hsame).trans h3, ?_, ?_⟩
      · rw [(hf sym).2, e]
        exact ⟨fun _ => List.mem_cons_self, fun _ => rfl⟩
      · exact (congrArg (fun sym => sym.ty.val) hsame).trans h5
    · rw [if_neg e]
      refine ⟨sym, rfl, h2, h3, h4.trans ⟨List.mem_cons_of_mem _, fun h => ?_⟩, h5⟩
      exact (List.mem_cons.1 h).resolve_left e
  · rw [hs]
    exact hd.loops
  · rw [hs]
    exact hd.refs.1
  · rw [hs]
    exact hd.refs.2

/-- **A variable** that has no address yet is declared. -/
theorem declareVar_finishes (hx : T.globalTy x = some t) (hn : x ∉ names) :
    Finishes (Declaring T names) (declareVar true none false false x) fun _ => Declaring T (x :: names) := by
  intro s hs
  obtain ⟨sym, h1, h2, h3, h4, h5⟩ := hs.vars x t hx
  have ha : sym.addr.isSome = false := Bool.eq_false_iff.2 fun h => hn (h4.1 h)
  have hget : (getSym x true).run s = .ok sym s := by
    have hf : s.syms.findTyped x none = some sym := by
      unfold SymTab.findTyped
      rw [h1]
      rfl
    unfold getSym
    rw [run_get_bind]
    dsimp only
    rw [hf]
    rfl
  let f (sym : Symbol) : Symbol :=
    { sym with isGlobal := true, addr := some (-(s.globalStack + Int32.ofNat t.size)).toInt64 }
  have hsyms : (s.syms.modify x fun sym => { sym with isGlobal := true }).modify x
      (fun sym => { sym with addr := some (-(s.globalStack + Int32.ofNat t.size)).toInt64 }) =
      s.syms.modify x f := by
    unfold SymTab.modify
    rw [List.map_map]
    refine List.map_congr_left fun p _ => ?_
    simp only [Function.comp_apply]
    split <;> simp_all [f]
  have halloc : (allocVar true sym).run s = .ok ⟨⟩ { s with
      syms := s.syms.modify x f, globalStack := s.globalStack + Int32.ofNat t.size } := by
    rw [← hsyms]
    unfold allocVar modifySym
    rw [run_modify_bind, getSymSize_val h5, h2]
    rfl
  have hadded : Declaring T (x :: names) { s with
      syms := s.syms.modify x f, globalStack := s.globalStack + Int32.ofNat t.size } :=
    hs.added rfl fun sym => ⟨rfl, rfl⟩
  -- the code of the first value
  have hrest : Always (do
      onlyIf (f sym).ty.hasDefault do
        pushDefault (f sym)
        assignVar (f sym)
      return some (f sym) : Visit) := by
    refine Always.bind (fun e => Finishes.onlyIf (Always.bind ?_ (fun _ => ?_) e)) fun _ => Always.pure _
    · have hty : (f sym).ty = t.sym := SymbolType.val_some h5
      unfold pushDefault
      rw [hty]
      cases t <;> exact pushConst_always _
    · exact Always.bind (Always.bind (Always.pure _) fun _ => putAddr_always _ _) fun _ => putOp_always _
  obtain ⟨a, s2, hr, hst⟩ := hrest _ _ (Still.refl _)
  refine ⟨a, s2, ?_, hst.declaring hadded⟩
  unfold declareVar
  rw [bind_ok hget, h3, run_if_neg Bool.false_ne_true, Bool.or_self, Bool.and_false,
    run_if_neg Bool.false_ne_true, Bool.and_false, run_if_neg Bool.false_ne_true, ha,
    run_if_neg Bool.false_ne_true, bind_ok halloc, ← hr]
  have hreload : (reload sym).run { s with
      syms := s.syms.modify x f, globalStack := s.globalStack + Int32.ofNat t.size } =
      .ok (f sym) { s with
        syms := s.syms.modify x f, globalStack := s.globalStack + Int32.ofNat t.size } := by
    unfold reload
    rw [run_get_bind]
    dsimp only
    rw [h2, SymTab.findSymbol_modify, if_pos rfl, h1]
    rfl
  rw [bind_ok hreload]

theorem declareVars_finish : ∀ {vars names : List Str}, (∀ x ∈ vars, (T.globalTy x).isSome = true) →
    (vars.reverse ++ names).Nodup → Finishes (Declaring T names)
      (vars.mapM (declareVar true none false false)) fun _ => Declaring T (vars.reverse ++ names)
  | [], names, _, _ => Finishes.pure _ fun _ h => h
  | x :: vars, names, hx, hn => by
    obtain ⟨t, ht⟩ := Option.isSome_iff_exists.1 (hx x List.mem_cons_self)
    rw [List.reverse_cons, List.append_assoc, List.singleton_append] at hn ⊢
    have hmem : x ∉ names := (List.nodup_cons.1 (List.nodup_append.1 hn).2.1).1
    rw [List.mapM_cons]
    refine Finishes.bind (declareVar_finishes ht hmem) fun _ => ?_
    exact Finishes.bind (declareVars_finish (fun y hy => hx y (List.mem_cons_of_mem _ hy)) hn) fun _ =>
      Finishes.pure _ fun _ h => h

theorem decls_finish : ∀ {decls : List (List Str)} {names : List Str},
    (∀ x ∈ decls.flatten, (T.globalTy x).isSome = true) → (decls.flatten.reverse ++ names).Nodup →
    Finishes (Declaring T names) ((visitList (declarations decls)).forM Visit.run_)
      fun _ => Declaring T (decls.flatten.reverse ++ names)
  | [], names, _, _ => Finishes.pure _ fun _ h => h
  | vars :: decls, names, hx, hn => by
    rw [List.flatten_cons, List.reverse_append, List.append_assoc] at hn ⊢
    have hvars : Finishes (Declaring T names) (visit (.varDecl vars none false false))
        fun _ => Declaring T (vars.reverse ++ names) := by
      refine Finishes.get fun s hs => ?_
      rw [hs.scope]
      have hall := declareVars_finish
        (fun x h => hx x (List.mem_append_left _ h)) (List.nodup_append.1 hn).2.1
      exact Finishes.bind (hall.mono (fun s' e => by rw [e]; exact hs) fun _ _ h => h) fun _ =>
        Finishes.pure _ fun _ h => h
    have hrun : Finishes (Declaring T names) (visit (.varDecl vars none false false)).run_
        fun _ => Declaring T (vars.reverse ++ names) :=
      Finishes.bind hvars fun _ => Finishes.pure _ fun _ h => h
    refine Finishes.bind hrun fun _ => ?_
    exact decls_finish (fun x h => hx x (List.mem_append_right _ h)) hn

theorem Declaring.gen (hd : Declaring T names s) : Gen T (declaredTy T.globalTy names) 0 s := by
  refine ⟨hd.declared, hd.scope, fun x t h => ?_, by rw [hd.loops]; rfl, hd.refs⟩
  obtain ⟨hm, ht⟩ := Option.ite_none_right_eq_some.1 h
  obtain ⟨sym, h1, h2, -, h4, h5⟩ := hd.vars x t ht
  exact ⟨sym, h1, h2, h4.2 hm, h5⟩

/-! ## programs -/

theorem frameSize_finishes (hT : T.Integral) {P : Codegen → Prop}
    (hP : ∀ s, P s → s.syms.declared = T.declared) : Finishes P (getStackFrameSize none) fun _ => P := by
  refine Finishes.get fun s hs s' e => ?_
  subst e
  refine ⟨Int64.ofNat (T.frame []), s', ?_, hs⟩
  dsimp only
  rw [sum_frame (hP s' hs) hT.sized]
  rfl

theorem start_finishes (hT : T.Integral) :
    Finishes (Declaring T []) start fun _ => Declaring T [] := by
  refine Finishes.bind (frameSize_finishes hT fun s hs => hs.declared) fun size => ?_
  refine Finishes.onlyIf fun s hs => ?_
  obtain ⟨a, s', hr, hst⟩ := Always.bind (pushConst_always (.int size)) (fun _ => putOp_always .addframe) s s
    (Still.refl s)
  exact ⟨a, s', hr, hst.declaring hs⟩

theorem finish_finishes (hT : T.Integral) {Γ : Str → Option ValTy} :
    Finishes (Gen T Γ 0) finish fun _ _ => True := by
  refine Finishes.bind (frameSize_finishes hT fun s hs => hs.declared) fun size => ?_
  have hframe : Always (onlyIf (size > 0) do
      pushIntConst size
      putOp .remframe) := fun e => Finishes.onlyIf
    (Always.bind (pushConst_always (.int size)) (fun _ => putOp_always .remframe) e)
  have hconsts : Always finishConsts := tellp_always.bind fun _ => Always.get fun s =>
    (writeOut_always _).bind fun _ => Always.forM _ fun _ => patch_always _ _
  have hrefs : Finishes (Gen T Γ 0) (do
      let s ← get
      s.funcComefroms.forM finishCall
      let s ← get
      s.gotoComefroms.forM fun r => finishGoto r.1 r.2
      modify fun s => { s with gotoComefroms := [], labels := [] }
      seekEnd
      tellp : CGM Nat) fun _ _ => True := by
    refine Finishes.get fun s hs => ?_
    rw [hs.refs.1]
    refine Finishes.bind (Q := fun _ s' => s' = s) (Finishes.pure _ fun _ h => h) fun _ =>
      Finishes.get fun s' e => ?_
    rw [e, hs.refs.2]
    intro s'' _
    exact ⟨_, _, rfl, trivial⟩
  have hbefore {x : CGM Unit} {f : Unit → CGM Nat} (hx : Always x)
      (hf : Finishes (Gen T Γ 0) (f ⟨⟩) fun _ _ => True) :
      Finishes (Gen T Γ 0) (x >>= f) fun _ _ => True :=
    Finishes.bind hx.succeeds fun _ => hf.mono (fun _ h => h.1) fun _ _ h => h
  exact hbefore hframe (hbefore (putOp_always _) (hbefore hconsts hrefs))

/-- **There is code for a typed program** exactly if no variable is declared twice. -/
theorem typed_compiles {decls : List (List Str)} {stmts : List AST} (hT : T.Parsed) (hi : T.Integral)
    (hG : T.frame [] < 2^31) (hx : ∀ x ∈ decls.flatten, (T.globalTy x).isSome = true)
    (ht : typedList (declaredTy T.globalTy decls.flatten) stmts [] = true) :
    (∃ n f, (compile (declarations decls ++ stmts)).run (Codegen.init T) = .ok n f) ↔
      decls.flatten.Nodup := by
  constructor
  · rintro ⟨n, f, hc⟩
    exact (@compile_parts (MathLib.absent ⟨0⟩) _ _ _ _ _ hT hi hG hx ht hc).1
  · intro hn
    have hnd : (decls.flatten.reverse ++ []).Nodup := by
      rw [List.append_nil]
      exact List.nodup_reverse.2 hn
    have hdecls := decls_finish hx hnd
    rw [List.append_nil] at hdecls
    have hΓ : declaredTy T.globalTy decls.flatten.reverse = declaredTy T.globalTy decls.flatten := by
      funext x
      unfold declaredTy
      simp only [List.mem_reverse]
    have hstmts := list_succeeds (T := T) stmts [] ht
    have hgen (s : Codegen) (hs : Declaring T decls.flatten.reverse s) :
        Gen T (declaredTy T.globalTy decls.flatten) 0 s := hΓ ▸ hs.gen
    have hall : Finishes (Declaring T []) (compile (declarations decls ++ stmts)) fun _ _ => True := by
      refine Finishes.bind (start_finishes hi) fun _ => ?_
      rw [visits_append]
      refine Finishes.bind (Finishes.bind hdecls fun _ =>
        Finishes.mono hstmts hgen fun _ _ h => h) fun _ => ?_
      exact (finish_finishes hi).mono (fun _ h => h.1) fun _ _ h => h
    obtain ⟨n, f, hr, -⟩ := hall _ (declaring_init hT)
    exact ⟨n, f, hr⟩

theorem typed_compiles_sum : ∃ n f, (compile (declarations [[ascii "i", ascii "s"]] ++ sumStmts)).run
    (Codegen.init sumSyms) = .ok n f := by
  have hT : sumSyms.Parsed := SymTab.parsed_of (by decide +kernel)
  have hi : sumSyms.Integral := by
    unfold SymTab.Integral
    decide +kernel
  have hframe : sumSyms.frame [] = 18 := by decide +kernel
  exact (typed_compiles hT hi (by rw [hframe]; decide) (by decide +kernel) (by decide +kernel)).2
    (by decide +kernel)

end

end MuF
