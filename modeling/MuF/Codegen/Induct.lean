import MuF.Codegen.Visit
import MuF.Codegen.Code

/-!
# Induction over visits

* `VisitorRules R p`: for each visitor, the relation `R` holds between the states before and after
  it if it does for the visits of its parts; `R` depends on what is around the node, and `p` is
  what declarations and functions may rely on;
* **`visit_keeps`**: then `R` holds for the visit of every tree all of whose nodes meet `p`.
-/

set_option linter.unusedVariables false
set_option linter.unusedSectionVars false

namespace MuF

open Exec

/-- the visit of a node that may be missing -/
def OptKeeps (R : Codegen → Codegen → Prop) (x : Option Visit) : Prop := ∀ y ∈ x, Keeps R y

/-- the visits of an index -/
def Index.Keeps (R : Codegen → Codegen → Prop) : Index → Prop
  | .list nums => ∀ num ∈ nums, Exec.Keeps R num
  | .single num => Exec.Keeps R num

/-- the visits of an index that may be missing -/
def OptIndexKeeps (R : Codegen → Codegen → Prop) (num : Option Index) : Prop :=
  ∀ i ∈ num, i.Keeps R

/-- what the visitors keep -/
structure VisitorRules (R : Around → Codegen → Codegen → Prop) (p : Around → AST → Bool) : Prop where
  const {a : Around} {d : TData} {sym : Symbol}
    (hd : (d.ty .unknown).fixedSize = some d.payload.length) :
    Keeps (R a) (visitConst (pushConst d) sym)
  strConst {a : Around} (val : Str) : Keeps (R a) (visitConst (pushStrConst val) strConst)
  var {a : Around} (ident : Str) : Keeps (R a) (pushVar ident)
  varDecl {a : Around} {vars : List Str} {ast : Option AST} {x : Option Visit} {i o : Bool}
    (hp : p a (.varDecl vars ast i o) = true) (h : OptKeeps (R a) x) :
    Keeps (R a) (visitVarDecl vars x i o)
  assign {a : Around} {idents : List Str} {x : Option Visit} (h : OptKeeps (R a) x) :
    Keeps (R a) (visitAssign idents x)
  uminus {a : Around} {x : Visit} (h : Keeps (R a) x) : Keeps (R a) (visitUMinus x)
  binary {a : Around} {op : OpCode} {x y : Visit} (hop : (Instr.op op).Plain)
    (h1 : Keeps (R a) x) (h2 : Keeps (R a) y) : Keeps (R a) (visitBinary op x y)
  mult {a : Around} {x y : Visit} {inverted : Bool} (h1 : Keeps (R a) x) (h2 : Keeps (R a) y) :
    Keeps (R a) (visitMult x y inverted)
  norm {a : Around} {x : Visit} (h : Keeps (R a) x) : Keeps (R a) (visitNorm x)
  bool {a : Around} {x : Visit} {y : Option Visit} {op : BoolNodeOp} (h1 : Keeps (R a) x)
    (h2 : OptKeeps (R a) y) : Keeps (R a) (visitBool x y op)
  arrayAccess {a : Around} {x : Visit} {num1 num2 : Option Index} {ranged12 : Bool}
    (h : Keeps (R a) x) (h1 : OptIndexKeeps (R a) num1) (h2 : OptIndexKeeps (R a) num2) :
    Keeps (R a) (visitArrayAccess x num1 num2 ranged12)
  arrayAssign {a : Around} {ident : Str} {x : Visit} {num1 num2 : Option Index} {ranged12 : Bool}
    (h : Keeps (R a) x) (h1 : OptIndexKeeps (R a) num1) (h2 : OptIndexKeeps (R a) num2) :
    Keeps (R a) (visitArrayAssign ident x num1 num2 ranged12)
  exprList {a : Around} {xs : List Visit} {ty : SymbolType} (h : ∀ x ∈ xs, Keeps (R a) x) :
    Keeps (R a) (visitExprList xs ty)
  func {a : Around} {ident : Str} {args rets : List ArgName} {ast : AST} {x : Visit}
    (hp : p a (.func ident args rets ast) = true) (h : Keeps (R (a.func ident)) x) :
    Keeps (R a) (visitFunc ident args rets x)
  call {a : Around} {ident : Str} {xs : List Visit} (h : ∀ x ∈ xs, Keeps (R a) x) :
    Keeps (R a) (visitCall ident xs)
  ret {a : Around} {xs : Option (List Visit)} {only : Bool}
    (h : ∀ ys ∈ xs, ∀ y ∈ ys, Keeps (R a) y) : Keeps (R a) (visitReturn xs only)
  stmts {a : Around} {xs : List Visit} (h : ∀ x ∈ xs, Keeps (R a) x) :
    Keeps (R a) (visitStmts xs)
  cond {a : Around} {x y : Visit} {z : Option Visit} (h : Keeps (R a) x) (h1 : Keeps (R a) y)
    (h2 : OptKeeps (R a) z) : Keeps (R a) (visitCond x y z)
  cases {a : Around} {x : Visit} {ys : List (Visit × Visit)} {z : Option Visit}
    (h : Keeps (R a) x) (h1 : ∀ y ∈ ys, Keeps (R a) y.1 ∧ Keeps (R a) y.2)
    (h2 : OptKeeps (R a) z) : Keeps (R a) (visitCases x ys z)
  loop {a : Around} {x y : Visit} (h1 : Keeps (R a.loop) x) (h2 : Keeps (R a.loop) y) :
    Keeps (R a) (visitLoop x y)
  rangedLoop {a : Around} {ident : Str} {begin stop stmt : Visit} {inc : Option Visit}
    (h1 : Keeps (R a) begin) (h2 : Keeps (R a.loop) stop) (h3 : OptKeeps (R a.loop) inc)
    (h4 : Keeps (R a.loop) stmt) : Keeps (R a) (visitRangedLoop ident begin stop inc stmt)
  loopBreak {a : Around} (n : Int64) : Keeps (R a) (visitLoopBreak n)
  loopNext {a : Around} (n : Int64) : Keeps (R a) (visitLoopNext n)
  label {a : Around} (ident : Str) : Keeps (R a) (visitLabel ident)
  jump {a : Around} (label : Str) (isComefrom : Bool) : Keeps (R a) (visitJump label isComefrom)

section
variable {R : Around → Codegen → Codegen → Prop} {p : Around → AST → Bool}

theorem CompNodeOp.opCode_plain (op : CompNodeOp) : (Instr.op op.opCode).Plain := by
  cases op <;> decide

theorem plusOp_plain (inverted : Bool) :
    (Instr.op (if inverted then .sub else .add)).Plain := by
  cases inverted <;> decide

theorem and3 {a b c : Bool} (h : (a && b && c) = true) : a = true ∧ b = true ∧ c = true := by
  simpa [and_assoc] using h

theorem and4 {a b c d : Bool} (h : (a && b && c && d) = true) :
    a = true ∧ b = true ∧ c = true ∧ d = true := by
  simpa [and_assoc] using h

variable (hr : VisitorRules R p)
include hr

mutual

/-- **Induction over visits.** -/
theorem visit_keeps (a : Around) : ∀ ast : AST, ast.all p a = true → Keeps (R a) (visit ast)
  | .uminus term, h => hr.uminus (visit_keeps a term (Bool.and_eq_true_iff.1 h).2)
  | .plus term1 term2 inverted, h =>
    hr.binary (plusOp_plain inverted) (visit_keeps a term1 (and3 h).2.1)
      (visit_keeps a term2 (and3 h).2.2)
  | .mult term1 term2 inverted, h =>
    hr.mult (visit_keeps a term1 (and3 h).2.1) (visit_keeps a term2 (and3 h).2.2)
  | .mod term1 term2, h =>
    hr.binary (by decide) (visit_keeps a term1 (and3 h).2.1) (visit_keeps a term2 (and3 h).2.2)
  | .pow term1 term2, h =>
    hr.binary (by decide) (visit_keeps a term1 (and3 h).2.1) (visit_keeps a term2 (and3 h).2.2)
  | .norm term, h => hr.norm (visit_keeps a term (Bool.and_eq_true_iff.1 h).2)
  | .varDecl vars optAssign i o, h =>
    hr.varDecl (Bool.and_eq_true_iff.1 h).1 (visitOpt_keeps a optAssign (Bool.and_eq_true_iff.1 h).2)
  | .var ident, _ => hr.var ident
  | .assign idents expr, h => hr.assign (visitOpt_keeps a expr (Bool.and_eq_true_iff.1 h).2)
  | .arrayAccess term num1 num2 ranged12, h =>
    hr.arrayAccess (visit_keeps a term (and4 h).2.1) (visitNum_keeps a num1 (and4 h).2.2.1)
      (visitNum_keeps a num2 (and4 h).2.2.2)
  | .arrayAssign ident expr num1 num2 ranged12, h =>
    hr.arrayAssign (visit_keeps a expr (and4 h).2.1) (visitNum_keeps a num1 (and4 h).2.2.1)
      (visitNum_keeps a num2 (and4 h).2.2.2)
  | .realConst val, _ => hr.const (congrArg some (Raw.length_enc val).symm)
  | .intConst val, _ => hr.const (congrArg some (Raw.length_enc val).symm)
  | .cplxConst val, _ => hr.const (congrArg some (Raw.length_enc val).symm)
  | .quatConst val, _ => hr.const (congrArg some (Raw.length_enc val).symm)
  | .boolConst val, _ => hr.const rfl
  | .strConst val, _ => hr.strConst val
  | .func ident args rets stmts, h =>
    hr.func (Bool.and_eq_true_iff.1 h).1
      (visit_keeps (a.func ident) stmts (Bool.and_eq_true_iff.1 h).2)
  | .call ident args, h => hr.call (visitList_keeps a args (Bool.and_eq_true_iff.1 h).2)
  | .ret rets only, h => hr.ret (visitOptList_keeps a rets (Bool.and_eq_true_iff.1 h).2)
  | .stmts stmts, h => hr.stmts (visitList_keeps a stmts (Bool.and_eq_true_iff.1 h).2)
  | .cond cond ifStmt elseStmt, h =>
    hr.cond (visit_keeps a cond (and4 h).2.1) (visit_keeps a ifStmt (and4 h).2.2.1)
      (visitOpt_keeps a elseStmt (and4 h).2.2.2)
  | .cases expr cases defaultStmts, h =>
    hr.cases (visit_keeps a expr (and4 h).2.1) (visitPairs_keeps a cases (and4 h).2.2.1)
      (visitOpt_keeps a defaultStmts (and4 h).2.2.2)
  | .loop cond stmt, h =>
    hr.loop (visit_keeps a.loop cond (and3 h).2.1) (visit_keeps a.loop stmt (and3 h).2.2)
  | .rangedLoop ident begin stop inc stmt, h => by
    obtain ⟨h, h4⟩ := Bool.and_eq_true_iff.1 h
    obtain ⟨-, h1, h2, h3⟩ := and4 h
    exact hr.rangedLoop (visit_keeps a begin h1) (visit_keeps a.loop stop h2)
      (visitOpt_keeps a.loop inc h3) (visit_keeps a.loop stmt h4)
  | .loopBreak n, _ => hr.loopBreak n
  | .loopNext n, _ => hr.loopNext n
  | .comp term1 term2 op, h =>
    hr.binary op.opCode_plain (visit_keeps a term1 (and3 h).2.1) (visit_keeps a term2 (and3 h).2.2)
  | .bool term1 term2 op, h =>
    hr.bool (visit_keeps a term1 (and3 h).2.1) (visitOpt_keeps a term2 (and3 h).2.2)
  | .exprList exprs ty, h => hr.exprList (visitList_keeps a exprs (Bool.and_eq_true_iff.1 h).2)
  | .label ident, _ => hr.label ident
  | .jump label isComefrom, _ => hr.jump label isComefrom

theorem visitOpt_keeps (a : Around) : ∀ ast : Option AST, allOpt p a ast = true →
    OptKeeps (R a) (visitOpt ast)
  | none, _ => by
    rintro y ⟨⟩
  | some ast, h => by
    rintro y ⟨⟩
    exact visit_keeps a ast h

theorem visitList_keeps (a : Around) : ∀ asts : List AST, allList p a asts = true →
    ∀ x ∈ visitList asts, Keeps (R a) x
  | [], _ => by simp [visitList]
  | ast :: asts, h => by
    obtain ⟨h1, h2⟩ := Bool.and_eq_true_iff.1 h
    have hx := visit_keeps a ast h1
    have hxs := visitList_keeps a asts h2
    exact List.forall_mem_cons.2 ⟨hx, hxs⟩

theorem visitOptList_keeps (a : Around) : ∀ asts : Option (List AST),
    allOptList p a asts = true → ∀ xs ∈ visitOptList asts, ∀ x ∈ xs, Keeps (R a) x
  | none, _ => by
    rintro xs ⟨⟩
  | some asts, h => by
    rintro xs ⟨⟩
    exact visitList_keeps a asts h

theorem visitPairs_keeps (a : Around) : ∀ asts : List (AST × AST), allPairs p a asts = true →
    ∀ x ∈ visitPairs asts, Keeps (R a) x.1 ∧ Keeps (R a) x.2
  | [], _ => by simp [visitPairs]
  | (ast1, ast2) :: asts, h => by
    obtain ⟨h1, h2, h3⟩ := and3 h
    have hx1 := visit_keeps a ast1 h1
    have hx2 := visit_keeps a ast2 h2
    have hxs := visitPairs_keeps a asts h3
    exact List.forall_mem_cons.2 ⟨⟨hx1, hx2⟩, hxs⟩

theorem visitNum_keeps (a : Around) : ∀ num : Option AST, allOpt p a num = true →
    OptIndexKeeps (R a) (visitNum num)
  | none, _ => by
    rintro i ⟨⟩
  | some ast, h => by
    have hx := visit_keeps a ast h
    rintro i hi
    cases ast with
    | exprList exprs arrayType =>
      cases hi
      exact visitList_keeps a exprs (Bool.and_eq_true_iff.1 h).2
    | _ =>
      cases hi
      exact hx

end

end

end MuF
