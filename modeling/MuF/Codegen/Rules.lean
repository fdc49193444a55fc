import MuF.Codegen.Induct

/-!
# Rules for code generation

* `EmitRules R`: what a relation between states has to meet for constants, instructions and
  casts; then it holds for all the visitors without jumps (`EmitRules.visitPlus_keeps` and the
  others);
* `FlowRules R p`: what it has to meet for declarations, functions and jumps;
* `visitorRules_of`: both together.
-/

set_option linter.unusedVariables false
set_option linter.unusedSectionVars false

namespace MuF

open Exec

/-- what a relation has to meet for constants, instructions and casts -/
structure EmitRules (R : Codegen → Codegen → Prop) : Prop where
  op {op : OpCode} (h : (Instr.op op).Plain) : Keeps R (putOp op)
  addr {ty : VMType} (h1 : ty.fixedSize = some 4) (h2 : ty ≠ .addrIp) (addr : Int32) :
    Keeps R (putAddr ty addr)
  const {d : TData} (h : (d.ty .unknown).fixedSize = some d.payload.length) :
    Keeps R (pushConst d)
  constRef (val : Str) : Keeps R (putConstRef val)
  operands {term1 term2 : Visit} (h1 : Keeps R term1) (h2 : Keeps R term2) :
    Keeps R (castOperands term1 term2)

theorem castOp_plain (ty : SymbolType) (b : Bool) : (Instr.op (castOp ty b).1).Plain := by
  cases ty <;> cases b <;> decide

theorem castOp_false (ty : SymbolType) : (castOp ty false).2 = false := by
  cases ty <;> rfl

theorem makeArrOp_plain {ty : SymbolType} {op : OpCode} (h : makeArrOp ty = some op) :
    (Instr.op op).Plain := by
  cases ty <;> cases h <;> decide

theorem zeroVec_eq {E : Type} (sym : Symbol) (zero : E) : Keeps Eq (zeroVec sym zero) :=
  Keeps.ite (Keeps.throw _) (Keeps.pure _)

section
variable {R : Codegen → Codegen → Prop} [Std.Refl R] [IsTrans Codegen R]

theorem fail_keeps {α : Type} (msg : String) : Keeps R (fail msg : CGM α) :=
  Keeps.throw _

theorem visitRun_keeps {x : Visit} (hx : Keeps R x) :
    Keeps R x.run_ := Keeps.bind hx fun _ => Keeps.pure _

theorem visitStmts_keeps {stmts : List Visit} (h : ∀ stmt ∈ stmts, Keeps R stmt) :
    Keeps R (visitStmts stmts) :=
  Keeps.bind (Keeps.forM stmts fun stmt hs => visitRun_keeps (h stmt hs)) fun _ => Keeps.pure _

variable (hr : EmitRules R)
include hr

/-! ## constants and casts -/

theorem EmitRules.pushRealConst_keeps (val : TReal) : Keeps R (pushRealConst val) :=
  hr.const (congrArg some (Raw.length_enc val).symm)

theorem EmitRules.pushIntConst_keeps (val : Int64) : Keeps R (pushIntConst val) :=
  hr.const (congrArg some (Raw.length_enc val).symm)

theorem EmitRules.pushCplxConst_keeps (val : Cplx TReal) : Keeps R (pushCplxConst val) :=
  hr.const (congrArg some (Raw.length_enc val).symm)

theorem EmitRules.pushQuatConst_keeps (val : Quat TReal) : Keeps R (pushQuatConst val) :=
  hr.const (congrArg some (Raw.length_enc val).symm)

theorem EmitRules.pushBoolConst_keeps (val : UInt8) : Keeps R (pushBoolConst val) :=
  hr.const rfl

theorem EmitRules.pushVecConst_keeps {E : Type} {push : E → CGM Unit} {make : OpCode}
    (hp : ∀ x, Keeps R (push x)) (hm : (Instr.op make).Plain) (vec : List E) :
    Keeps R (pushVecConst push make vec) := by
  refine Keeps.bind (Keeps.forM vec fun x _ => hp x) fun _ => ?_
  exact Keeps.bind (hr.addr rfl (by decide) _) fun _ => hr.op hm

theorem EmitRules.callExternalFunc_keeps (funcname : Str) :
    Keeps R (callExternalFunc funcname) :=
  Keeps.bind (hr.constRef funcname) fun _ => hr.op (by decide)

/-- a cast at the end -/
theorem EmitRules.castTo_keeps (ty : Option Symbol) (b : Bool) :
    Keeps R (castTo ty none b) := by
  cases ty with
  | none => exact Keeps.pure _
  | some ty =>
    refine Keeps.bind (Keeps.onlyIf (hr.addr rfl (by decide) _)) fun _ => ?_
    exact hr.op (castOp_plain _ _)

/-! ## variables -/

theorem EmitRules.putVarAddr_keeps (sym : Symbol) : Keeps R (putVarAddr sym) := by
  refine Keeps.bind (Keeps.of_eq (deref_eq _)) fun addr => ?_
  unfold Symbol.baseReg
  split
  · exact hr.addr rfl (by decide) _
  · exact hr.addr rfl (by decide) _

theorem EmitRules.pushVar_keeps (varname : Str) : Keeps R (pushVar varname) := by
  refine Keeps.bind (Keeps.of_eq (getSym_eq _ _ _)) fun sym => ?_
  refine Keeps.ite (fail_keeps _) ?_
  refine Keeps.bind (hr.putVarAddr_keeps sym) fun _ => ?_
  exact Keeps.bind (Keeps.onlyIf (hr.op (by decide))) fun _ => Keeps.pure _

theorem EmitRules.assignVar_keeps (sym : Symbol) : Keeps R (assignVar sym) :=
  Keeps.bind (hr.putVarAddr_keeps sym) fun _ => hr.op (by decide)

theorem EmitRules.visitAssign_keeps (idents : List Str) {expr : Option Visit}
    (he : OptKeeps R expr) : Keeps R (visitAssign idents expr) := by
  have hnone : Keeps R (visitAssign idents none) := by
    refine Keeps.bind (Keeps.mapM idents fun varname _ => ?_) fun syms => Keeps.pure _
    refine Keeps.bind (Keeps.of_eq (getSym_eq _ _ _)) fun sym => ?_
    refine Keeps.ite (fail_keeps _) ?_
    refine Keeps.bind (hr.castTo_keeps _ _) fun _ => ?_
    exact Keeps.bind (hr.assignVar_keeps sym) fun _ => Keeps.pure _
  cases expr with
  | none => exact hnone
  | some expr => exact Keeps.bind (visitRun_keeps (he expr rfl)) fun _ => hnone

theorem EmitRules.pushDefault_keeps (sym : Symbol) : Keeps R (pushDefault sym) := by
  unfold pushDefault
  dsimp only
  split
  · exact hr.pushIntConst_keeps _
  · exact hr.pushRealConst_keeps _
  · exact hr.pushCplxConst_keeps _
  · exact hr.pushQuatConst_keeps _
  · exact hr.pushBoolConst_keeps _
  · exact hr.constRef _
  · exact Keeps.bind (Keeps.of_eq (zeroVec_eq sym _)) fun v =>
      hr.pushVecConst_keeps hr.pushRealConst_keeps (by decide) v
  · exact Keeps.bind (Keeps.of_eq (zeroVec_eq sym _)) fun v =>
      hr.pushVecConst_keeps hr.pushIntConst_keeps (by decide) v
  · exact Keeps.bind (Keeps.of_eq (zeroVec_eq sym _)) fun v =>
      hr.pushVecConst_keeps hr.pushCplxConst_keeps (by decide) v
  · exact Keeps.bind (Keeps.of_eq (zeroVec_eq sym _)) fun v =>
      hr.pushVecConst_keeps hr.pushQuatConst_keeps (by decide) v
  · exact Keeps.pure _

/-! ## operators -/

theorem EmitRules.visitUMinus_keeps {term : Visit} (h : Keeps R term) :
    Keeps R (visitUMinus term) :=
  Keeps.bind h fun _ => Keeps.bind (hr.op (by decide)) fun _ => Keeps.pure _

theorem EmitRules.visitBinary_keeps {op : OpCode} (hop : (Instr.op op).Plain) {term1 term2 : Visit}
    (h1 : Keeps R term1) (h2 : Keeps R term2) :
    Keeps R (visitBinary op term1 term2) := by
  refine Keeps.bind (hr.operands h1 h2) fun r => ?_
  exact Keeps.bind (hr.op hop) fun _ => Keeps.pure _

theorem EmitRules.visitMult_keeps {term1 term2 : Visit} (h1 : Keeps R term1)
    (h2 : Keeps R term2) (inverted : Bool) :
    Keeps R (visitMult term1 term2 inverted) := by
  refine Keeps.bind (hr.operands h1 h2) fun r => ?_
  obtain ⟨term1, term2, commonType⟩ := r
  refine Keeps.ite ?_ ?_
  · refine Keeps.ite (fail_keeps _) ?_
    exact Keeps.bind (hr.op (by decide)) fun _ => Keeps.pure _
  · split
    · refine Keeps.bind (hr.pushIntConst_keeps _) fun _ => ?_
      refine Keeps.bind (hr.pushIntConst_keeps _) fun _ => ?_
      refine Keeps.bind (hr.pushIntConst_keeps _) fun _ => ?_
      refine Keeps.bind (hr.pushIntConst_keeps _) fun _ => ?_
      exact Keeps.bind (hr.op (by decide)) fun _ => Keeps.pure _
    · exact Keeps.bind (hr.op (by decide)) fun _ => Keeps.pure _

theorem EmitRules.visitNorm_keeps {term : Visit} (h : Keeps R term) :
    Keeps R (visitNorm term) :=
  Keeps.bind h fun _ => Keeps.bind (hr.callExternalFunc_keeps _) fun _ => Keeps.pure _

theorem EmitRules.visitBool_keeps {term1 : Visit} {term2 : Option Visit} (h1 : Keeps R term1)
    (h2 : OptKeeps R term2) (op : BoolNodeOp) :
    Keeps R (visitBool term1 term2 op) := by
  have hop : Keeps R (do putOp op.opCode; return none : Visit) := by
    refine Keeps.bind (hr.op ?_) fun _ => Keeps.pure _
    cases op <;> decide
  refine Keeps.bind (visitRun_keeps h1) fun _ => ?_
  cases term2 with
  | none => exact hop
  | some term2 => exact Keeps.bind (visitRun_keeps (h2 term2 rfl)) fun _ => hop

/-! ## arrays -/

theorem EmitRules.visitIndex_keeps {num : Visit} (h : Keeps R num) :
    Keeps R (visitIndex num) := by
  refine Keeps.bind h fun sym => ?_
  refine Keeps.bind (Keeps.of_eq (deref_eq _)) fun sym => ?_
  exact Keeps.onlyIf (hr.castTo_keeps _ _)

theorem EmitRules.visitIndices_keeps (sym : Symbol) (curDim : Nat) {nums : List Visit}
    (h : ∀ num ∈ nums, Keeps R num) :
    Keeps R (visitIndices sym curDim nums) := by
  induction nums generalizing curDim with
  | nil => exact Keeps.pure _
  | cons num nums ih =>
    refine Keeps.bind (hr.visitIndex_keeps (h num List.mem_cons_self)) fun _ => ?_
    refine Keeps.bind (Keeps.onlyIf ?_) fun _ => ?_
    · exact Keeps.bind (hr.pushIntConst_keeps _) fun _ => hr.op (by decide)
    · exact ih (curDim + 1) fun num hn => h num (List.mem_cons_of_mem _ hn)

theorem EmitRules.visitElemIndex_keeps (node : String) (sym : Symbol) {num : Index}
    (h : num.Keeps R) : Keeps R (visitElemIndex node sym num) := by
  cases num with
  | list nums =>
    refine Keeps.ite (fail_keeps _) ?_
    refine Keeps.bind (hr.visitIndices_keeps sym 0 h) fun _ => ?_
    exact Keeps.forM _ fun _ _ => hr.op (by decide)
  | single num => exact hr.visitIndex_keeps h

theorem EmitRules.visitRangeIndex_keeps (node : String) {num1 num2 : Index}
    (h1 : num1.Keeps R) (h2 : num2.Keeps R) :
    Keeps R (visitRangeIndex node num1 num2) := by
  cases num1 with
  | list nums => exact fail_keeps _
  | single num1 =>
    cases num2 with
    | list nums => exact fail_keeps _
    | single num2 => exact Keeps.bind (hr.visitIndex_keeps h1) fun _ => hr.visitIndex_keeps h2

theorem EmitRules.visitArrayAccess_keeps {term : Visit} {num1 num2 : Option Index}
    (ht : Keeps R term) (h1 : OptIndexKeeps R num1)
    (h2 : OptIndexKeeps R num2) (ranged12 : Bool) :
    Keeps R (visitArrayAccess term num1 num2 ranged12) := by
  refine Keeps.bind ht fun term => ?_
  have hres {f : Symbol → Visit} (hf : ∀ sym, Keeps R (f sym)) :
      Keeps R (deref term >>= f) :=
    Keeps.bind (Keeps.of_eq (deref_eq _)) hf
  split
  · rename_i num1
    cases num1 with
    | list nums =>
      refine hres fun sym => ?_
      refine Keeps.bind (hr.visitElemIndex_keeps _ sym (h1 _ rfl)) fun _ => ?_
      refine Keeps.bind (hr.op (by decide)) fun _ => hres fun sym => ?_
      split
      · exact Keeps.pure _
      · exact fail_keeps _
    | single num =>
      refine Keeps.bind (hr.visitIndex_keeps (h1 _ rfl)) fun _ => ?_
      refine Keeps.bind (hr.op (by decide)) fun _ => hres fun sym => ?_
      split
      · exact Keeps.pure _
      · exact fail_keeps _
  · rename_i num1 num2
    refine Keeps.bind (hr.visitRangeIndex_keeps _ (h1 num1 rfl) (h2 num2 rfl)) fun _ => ?_
    refine Keeps.bind (hr.op (by decide)) fun _ => hres fun sym => ?_
    split
    · exact Keeps.pure _
    · exact fail_keeps _
  · exact hres fun sym => fail_keeps _

theorem EmitRules.visitArrayAssign_keeps (varname : Str) {expr : Visit} {num1 num2 : Option Index}
    (he : Keeps R expr) (h1 : OptIndexKeeps R num1)
    (h2 : OptIndexKeeps R num2) (ranged12 : Bool) :
    Keeps R (visitArrayAssign varname expr num1 num2 ranged12) := by
  refine Keeps.bind (Keeps.of_eq (getSym_eq _ _ _)) fun sym => ?_
  refine Keeps.ite (fail_keeps _) ?_
  refine Keeps.bind (hr.putVarAddr_keeps sym) fun _ => ?_
  refine Keeps.bind he fun expr => ?_
  split
  · rename_i num1
    split
    · exact fail_keeps _
    · refine Keeps.bind (Keeps.of_eq (deref_eq _)) fun exprSym => ?_
      refine Keeps.bind (Keeps.onlyIf (hr.castTo_keeps _ _)) fun _ => ?_
      refine Keeps.bind (hr.visitElemIndex_keeps _ sym (h1 num1 rfl)) fun _ => ?_
      exact Keeps.bind (hr.op (by decide)) fun _ => Keeps.pure _
  · rename_i num1 num2
    refine Keeps.bind (hr.visitRangeIndex_keeps _ (h1 num1 rfl) (h2 num2 rfl)) fun _ => ?_
    exact Keeps.bind (hr.op (by decide)) fun _ => Keeps.pure _
  · exact Keeps.pure _

theorem EmitRules.visitExprList_keeps {exprs : List Visit} (h : ∀ expr ∈ exprs, Keeps R expr)
    (arrSymTy : SymbolType) : Keeps R (visitExprList exprs arrSymTy) := by
  refine Keeps.bind (Keeps.mapM exprs fun elem he => ?_) fun syms => ?_
  · refine Keeps.bind (h elem he) fun sym => ?_
    exact Keeps.bind (Keeps.onlyIf (hr.castTo_keeps _ _)) fun _ => Keeps.pure _
  · refine Keeps.ite ?_ ?_
    · refine Keeps.bind (hr.addr rfl (by decide) _) fun _ => ?_
      split
      · exact fail_keeps _
      · rename_i op hop
        exact Keeps.bind (hr.op (makeArrOp_plain hop)) fun _ => Keeps.pure _
    · exact Keeps.pure _

/-- the value of a counter -/
theorem EmitRules.putCounter_keeps (sym : Symbol) (addr : Int64) :
    Keeps R (putCounter sym addr) := by
  refine Keeps.bind ?_ fun _ => hr.op (by decide)
  unfold Symbol.baseReg
  split
  · exact hr.addr rfl (by decide) _
  · exact hr.addr rfl (by decide) _

end

/-! ## loops with a counter -/

section
variable {R R' : Codegen → Codegen → Prop} [Std.Refl R] [IsTrans Codegen R] [Std.Refl R']
  [IsTrans Codegen R']

/-- `R'` holds inside of the loop -/
theorem EmitRules.visitRangedLoop_keeps (hr : EmitRules R) (hr' : EmitRules R')
    (hloop : ∀ cond body : CGM Unit, Keeps R' cond → Keeps R' body → Keeps R (emitLoop cond body))
    (ctrvar : Str) {begin stop stmt : Visit} {inc : Option Visit} (hb : Keeps R begin)
    (he : Keeps R' stop) (hinc : OptKeeps R' inc) (hs : Keeps R' stmt) :
    Keeps R (visitRangedLoop ctrvar begin stop inc stmt) := by
  refine Keeps.bind (visitRun_keeps hb) fun _ => ?_
  refine Keeps.bind (Keeps.of_eq (getSym_eq _ _ _)) fun ctrSym => ?_
  split
  · exact fail_keeps _
  · rename_i addr _
    refine Keeps.bind (hr.castTo_keeps _ _) fun _ => ?_
    refine Keeps.bind (hr.assignVar_keeps ctrSym) fun _ => ?_
    have hend : Keeps R' (do
        putCounter (← reload ctrSym) addr
        putOp .add
        assignVar (← reload ctrSym) : CGM Unit) := by
      refine Keeps.bind (Keeps.of_eq (reload_eq _)) fun sym => ?_
      refine Keeps.bind (hr'.putCounter_keeps sym addr) fun _ => ?_
      refine Keeps.bind (hr'.op (by decide)) fun _ => ?_
      exact Keeps.bind (Keeps.of_eq (reload_eq _)) fun sym => hr'.assignVar_keeps sym
    apply hloop
    · refine Keeps.bind (Keeps.of_eq (reload_eq _)) fun sym => ?_
      refine Keeps.bind (hr'.putCounter_keeps sym addr) fun _ => ?_
      exact Keeps.bind (visitRun_keeps he) fun _ => hr'.op (by decide)
    · refine Keeps.bind (visitRun_keeps hs) fun _ => ?_
      cases inc with
      | none => exact Keeps.bind (hr'.pushIntConst_keeps 1) fun _ => hend
      | some inc => exact Keeps.bind (visitRun_keeps (hinc inc rfl)) fun _ => hend

end

/-! ## all visitors -/

/-- what a relation has to meet for declarations, functions and jumps -/
structure FlowRules (R : Around → Codegen → Codegen → Prop) (p : Around → AST → Bool) :
    Prop where
  varDecl {a : Around} {vars : List Str} {ast : Option AST} {x : Option Visit} {i o : Bool}
    (hp : p a (.varDecl vars ast i o) = true) (h : OptKeeps (R a) x) :
    Keeps (R a) (visitVarDecl vars x i o)
  func {a : Around} {ident : Str} {args rets : List ArgName} {ast : AST} {x : Visit}
    (hp : p a (.func ident args rets ast) = true) (h : Keeps (R (a.func ident)) x) :
    Keeps (R a) (visitFunc ident args rets x)
  call {a : Around} {ident : Str} {xs : List Visit} (h : ∀ x ∈ xs, Keeps (R a) x) :
    Keeps (R a) (visitCall ident xs)
  ret {a : Around} {xs : Option (List Visit)} {only : Bool}
    (h : ∀ ys ∈ xs, ∀ y ∈ ys, Keeps (R a) y) : Keeps (R a) (visitReturn xs only)
  cond {a : Around} {x y : Visit} {z : Option Visit} (h : Keeps (R a) x) (h1 : Keeps (R a) y)
    (h2 : OptKeeps (R a) z) : Keeps (R a) (visitCond x y z)
  cases {a : Around} {x : Visit} {ys : List (Visit × Visit)} {z : Option Visit}
    (h : Keeps (R a) x) (h1 : ∀ y ∈ ys, Keeps (R a) y.1 ∧ Keeps (R a) y.2)
    (h2 : OptKeeps (R a) z) : Keeps (R a) (visitCases x ys z)
  loop {a : Around} {cond body : CGM Unit} (h1 : Keeps (R a.loop) cond)
    (h2 : Keeps (R a.loop) body) : Keeps (R a) (emitLoop cond body)
  loopBreak {a : Around} (n : Int64) : Keeps (R a) (visitLoopBreak n)
  loopNext {a : Around} (n : Int64) : Keeps (R a) (visitLoopNext n)
  label {a : Around} (ident : Str) : Keeps (R a) (visitLabel ident)
  jump {a : Around} (label : Str) (isComefrom : Bool) : Keeps (R a) (visitJump label isComefrom)

/-- **Both sets of rules make the rules for all visitors.** -/
theorem visitorRules_of {R : Around → Codegen → Codegen → Prop} {p : Around → AST → Bool}
    [∀ a, Std.Refl (R a)] [∀ a, IsTrans Codegen (R a)] (he : ∀ a, EmitRules (R a))
    (hf : FlowRules R p) : VisitorRules R p where
  const hd := Keeps.bind ((he _).const hd) fun _ => Keeps.pure _
  strConst val := Keeps.bind ((he _).constRef val) fun _ => Keeps.pure _
  var ident := (he _).pushVar_keeps ident
  varDecl hp h := hf.varDecl hp h
  assign h := (he _).visitAssign_keeps _ h
  uminus h := (he _).visitUMinus_keeps h
  binary hop h1 h2 := (he _).visitBinary_keeps hop h1 h2
  mult h1 h2 := (he _).visitMult_keeps h1 h2 _
  norm h := (he _).visitNorm_keeps h
  bool h1 h2 := (he _).visitBool_keeps h1 h2 _
  arrayAccess h h1 h2 := (he _).visitArrayAccess_keeps h h1 h2 _
  arrayAssign h h1 h2 := (he _).visitArrayAssign_keeps _ h h1 h2 _
  exprList h := (he _).visitExprList_keeps h _
  func hp h := hf.func hp h
  call h := hf.call h
  ret h := hf.ret h
  stmts h := visitStmts_keeps h
  cond h h1 h2 := hf.cond h h1 h2
  cases h h1 h2 := hf.cases h h1 h2
  loop h1 h2 := hf.loop (visitRun_keeps h1) (visitRun_keeps h2)
  rangedLoop h1 h2 h3 h4 := (he _).visitRangedLoop_keeps (he _) (fun _ _ => hf.loop) _ h1 h2 h3 h4
  loopBreak n := hf.loopBreak n
  loopNext n := hf.loopNext n
  label ident := hf.label ident
  jump label isComefrom := hf.jump label isComefrom

end MuF
