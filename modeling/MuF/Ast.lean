import MuF.Sym

/-!
# Syntax trees

* `AST`: the nodes of the syntax tree, with everything that code generation reads of them;
* `AST.all`: a condition on all nodes of a tree and what is around them.
-/

set_option linter.unusedVariables false

namespace MuF

/-- comparisons -/
inductive CompNodeOp
  | equ | neq | gt | lt | geq | leq
  deriving DecidableEq, Repr

/-- logical operations -/
inductive BoolNodeOp
  | not | and | or | xor
  deriving DecidableEq, Repr

/-- name, type and dimensions of an argument or a result of a function -/
abbrev ArgName := Str × SymbolType × List Nat

/-- syntax trees; `Option` stands for a node that may be missing -/
inductive AST
  | uminus (term : AST)
  | plus (term1 term2 : AST) (inverted : Bool)
  | mult (term1 term2 : AST) (inverted : Bool)
  | mod (term1 term2 : AST)
  | pow (term1 term2 : AST)
  | norm (term : AST)
  | varDecl (vars : List Str) (optAssign : Option AST) (intentIn intentOut : Bool)
  | var (ident : Str)
  | assign (idents : List Str) (expr : Option AST)
  | arrayAccess (term : AST) (num1 num2 : Option AST) (ranged12 : Bool)
  | arrayAssign (ident : Str) (expr : AST) (num1 num2 : Option AST) (ranged12 : Bool)
  | realConst (val : TReal)
  | intConst (val : Int64)
  | cplxConst (val : Cplx TReal)
  | quatConst (val : Quat TReal)
  | boolConst (val : Bool)
  | strConst (val : Str)
  | func (ident : Str) (args rets : List ArgName) (stmts : AST)
  | call (ident : Str) (args : List AST)
  | ret (rets : Option (List AST)) (onlyJumpToFuncEnd : Bool)
  | stmts (stmts : List AST)
  | cond (cond ifStmt : AST) (elseStmt : Option AST)
  | cases (expr : AST) (cases : List (AST × AST)) (defaultStmts : Option AST)
  | loop (cond stmt : AST)
  | rangedLoop (ident : Str) (begin stop : AST) (inc : Option AST) (stmt : AST)
  | loopBreak (numLoops : Int64)
  | loopNext (numLoops : Int64)
  | comp (term1 term2 : AST) (op : CompNodeOp)
  | bool (term1 : AST) (term2 : Option AST) (op : BoolNodeOp)
  | exprList (exprs : List AST) (arrayType : SymbolType)
  | label (ident : Str)
  | jump (label : Str) (isComefrom : Bool)

/-! ## conditions on all nodes -/

/-- what is around a node: the functions, the innermost one last, and whether there is a loop -/
structure Around where
  scope : List Str
  inLoop : Bool

def Around.loop (a : Around) : Around := { a with inLoop := true }

def Around.func (a : Around) (name : Str) : Around := ⟨a.scope ++ [name], false⟩

/-- outside of functions and loops -/
def Around.outer (a : Around) : Bool := a.scope.isEmpty && !a.inLoop

mutual

/-- `p` holds of a node and all nodes below it -/
def AST.all (p : Around → AST → Bool) (a : Around) : AST → Bool
  | .uminus term => p a (.uminus term) && term.all p a
  | .plus term1 term2 inv => p a (.plus term1 term2 inv) && term1.all p a && term2.all p a
  | .mult term1 term2 inv => p a (.mult term1 term2 inv) && term1.all p a && term2.all p a
  | .mod term1 term2 => p a (.mod term1 term2) && term1.all p a && term2.all p a
  | .pow term1 term2 => p a (.pow term1 term2) && term1.all p a && term2.all p a
  | .norm term => p a (.norm term) && term.all p a
  | .varDecl vars optAssign i o => p a (.varDecl vars optAssign i o) && allOpt p a optAssign
  | .var ident => p a (.var ident)
  | .assign idents expr => p a (.assign idents expr) && allOpt p a expr
  | .arrayAccess term num1 num2 r =>
    p a (.arrayAccess term num1 num2 r) && term.all p a && allOpt p a num1 && allOpt p a num2
  | .arrayAssign ident expr num1 num2 r =>
    p a (.arrayAssign ident expr num1 num2 r) && expr.all p a && allOpt p a num1 &&
      allOpt p a num2
  | .realConst val => p a (.realConst val)
  | .intConst val => p a (.intConst val)
  | .cplxConst val => p a (.cplxConst val)
  | .quatConst val => p a (.quatConst val)
  | .boolConst val => p a (.boolConst val)
  | .strConst val => p a (.strConst val)
  | .func ident args rets stmts => p a (.func ident args rets stmts) && stmts.all p (a.func ident)
  | .call ident args => p a (.call ident args) && allList p a args
  | .ret rets only => p a (.ret rets only) && allOptList p a rets
  | .stmts stmts => p a (.stmts stmts) && allList p a stmts
  | .cond cond ifStmt elseStmt =>
    p a (.cond cond ifStmt elseStmt) && cond.all p a && ifStmt.all p a && allOpt p a elseStmt
  | .cases expr cases defaultStmts =>
    p a (.cases expr cases defaultStmts) && expr.all p a && allPairs p a cases &&
      allOpt p a defaultStmts
  | .loop cond stmt => p a (.loop cond stmt) && cond.all p a.loop && stmt.all p a.loop
  | .rangedLoop ident begin stop inc stmt =>
    p a (.rangedLoop ident begin stop inc stmt) && begin.all p a && stop.all p a.loop &&
      allOpt p a.loop inc && stmt.all p a.loop
  | .loopBreak num => p a (.loopBreak num)
  | .loopNext num => p a (.loopNext num)
  | .comp term1 term2 op => p a (.comp term1 term2 op) && term1.all p a && term2.all p a
  | .bool term1 term2 op => p a (.bool term1 term2 op) && term1.all p a && allOpt p a term2
  | .exprList exprs ty => p a (.exprList exprs ty) && allList p a exprs
  | .label ident => p a (.label ident)
  | .jump label isComefrom => p a (.jump label isComefrom)

def allOpt (p : Around → AST → Bool) (a : Around) : Option AST → Bool
  | none => true
  | some ast => ast.all p a

def allList (p : Around → AST → Bool) (a : Around) : List AST → Bool
  | [] => true
  | ast :: asts => ast.all p a && allList p a asts

def allOptList (p : Around → AST → Bool) (a : Around) : Option (List AST) → Bool
  | none => true
  | some asts => allList p a asts

def allPairs (p : Around → AST → Bool) (a : Around) : List (AST × AST) → Bool
  | [] => true
  | (ast1, ast2) :: asts => ast1.all p a && ast2.all p a && allPairs p a asts

end

mutual

/-- no condition at all -/
theorem AST.all_true (a : Around) : ∀ ast : AST, ast.all (fun _ _ => true) a = true
  | .uminus term => by simp [AST.all, AST.all_true a term]
  | .plus term1 term2 _ => by simp [AST.all, AST.all_true a term1, AST.all_true a term2]
  | .mult term1 term2 _ => by simp [AST.all, AST.all_true a term1, AST.all_true a term2]
  | .mod term1 term2 => by simp [AST.all, AST.all_true a term1, AST.all_true a term2]
  | .pow term1 term2 => by simp [AST.all, AST.all_true a term1, AST.all_true a term2]
  | .norm term => by simp [AST.all, AST.all_true a term]
  | .varDecl _ optAssign _ _ => by simp [AST.all, allOpt_true a optAssign]
  | .var _ => rfl
  | .assign _ expr => by simp [AST.all, allOpt_true a expr]
  | .arrayAccess term num1 num2 _ => by
    simp [AST.all, AST.all_true a term, allOpt_true a num1, allOpt_true a num2]
  | .arrayAssign _ expr num1 num2 _ => by
    simp [AST.all, AST.all_true a expr, allOpt_true a num1, allOpt_true a num2]
  | .realConst _ => rfl
  | .intConst _ => rfl
  | .cplxConst _ => rfl
  | .quatConst _ => rfl
  | .boolConst _ => rfl
  | .strConst _ => rfl
  | .func ident _ _ stmts => by simp [AST.all, AST.all_true (a.func ident) stmts]
  | .call _ args => by simp [AST.all, allList_true a args]
  | .ret rets _ => by simp [AST.all, allOptList_true a rets]
  | .stmts stmts => by simp [AST.all, allList_true a stmts]
  | .cond cond ifStmt elseStmt => by
    simp [AST.all, AST.all_true a cond, AST.all_true a ifStmt, allOpt_true a elseStmt]
  | .cases expr cases defaultStmts => by
    simp [AST.all, AST.all_true a expr, allPairs_true a cases, allOpt_true a defaultStmts]
  | .loop cond stmt => by simp [AST.all, AST.all_true a.loop cond, AST.all_true a.loop stmt]
  | .rangedLoop _ begin stop inc stmt => by
    simp [AST.all, AST.all_true a begin, AST.all_true a.loop stop, allOpt_true a.loop inc,
      AST.all_true a.loop stmt]
  | .loopBreak _ => rfl
  | .loopNext _ => rfl
  | .comp term1 term2 _ => by simp [AST.all, AST.all_true a term1, AST.all_true a term2]
  | .bool term1 term2 _ => by simp [AST.all, AST.all_true a term1, allOpt_true a term2]
  | .exprList exprs _ => by simp [AST.all, allList_true a exprs]
  | .label _ => rfl
  | .jump _ _ => rfl

theorem allOpt_true (a : Around) : ∀ ast : Option AST, allOpt (fun _ _ => true) a ast = true
  | none => rfl
  | some ast => AST.all_true a ast

theorem allList_true (a : Around) : ∀ asts : List AST, allList (fun _ _ => true) a asts = true
  | [] => rfl
  | ast :: asts => by simp [allList, AST.all_true a ast, allList_true a asts]

theorem allOptList_true (a : Around) :
    ∀ asts : Option (List AST), allOptList (fun _ _ => true) a asts = true
  | none => rfl
  | some asts => allList_true a asts

theorem allPairs_true (a : Around) :
    ∀ asts : List (AST × AST), allPairs (fun _ _ => true) a asts = true
  | [] => rfl
  | (ast1, ast2) :: asts => by
    simp [allPairs, AST.all_true a ast1, AST.all_true a ast2, allPairs_true a asts]

end

/-- functions are defined outside of functions and loops -/
def funcsOutside (a : Around) : AST → Bool
  | .func _ _ _ _ => a.outer
  | _ => true

end MuF
