import MuF.Ast
import MuF.Base.Exec
import MuF.VM.Ops

/-!
# Constant folding

* `foldConsts`: an operation on two constants, with its result;
* `optConsts`: the replacement of a node, if there is one;
* `opt`: the visits of all nodes, which fold the operands after they were visited.
-/

set_option linter.unusedVariables false

namespace MuF

open Exec

/-- arithmetic and logical expressions that were optimised -/
structure OptCounts where
  arith : Nat
  logic : Nat
  deriving DecidableEq, Repr

/-- which of them an operation counts as -/
inductive OptKind
  | arith | logic
  deriving DecidableEq, Repr

/-- one more of them -/
def OptCounts.add (c : OptCounts) : OptKind → OptCounts
  | .arith => { c with arith := c.arith + 1 }
  | .logic => { c with logic := c.logic + 1 }

/-- the optimiser with its counters -/
abbrev OptM := EStateM Err OptCounts

section
variable [MathLib TReal]

/-! ## operations on constants -/

/-- an arithmetic operation on two numeric constants of one type; with complex ones or without -/
def arithConsts (op : ArithOp) (complex : Bool) (term1 term2 : AST) :
    Option (OptKind × Res AST) :=
  match term1, term2 with
  | .intConst a, .intConst b => some (.arith, (intArith op a b).map .intConst)
  | .realConst a, .realConst b => some (.arith, .ok (.realConst (realArith op a b)))
  | .cplxConst a, .cplxConst b =>
    if complex then some (.arith, .ok (.cplxConst (cplxArith op a b))) else none
  | _, _ => none

omit [MathLib TReal] in
/-- the result of a comparison -/
def compResult {α : Type} (eq lt le : α → α → Bool) (op : CompNodeOp) (a b : α) : Bool :=
  match op with
  | .equ => eq a b
  | .neq => !eq a b
  | .gt => lt b a
  | .lt => lt a b
  | .geq => le b a
  | .leq => le a b

/-- a comparison of two constants of one type; strings are only tested for equality -/
def compConsts (op : CompNodeOp) (term1 term2 : AST) : Option (OptKind × Res AST) :=
  match term1, term2 with
  | .intConst a, .intConst b =>
    some (.logic, .ok (.boolConst
      (compResult (· == ·) (fun a b => decide (a < b)) (fun a b => decide (a ≤ b)) op a b)))
  | .realConst a, .realConst b =>
    some (.logic, .ok (.boolConst
      (compResult (fun a b => MathLib.le a b && MathLib.le b a) MathLib.lt MathLib.le op a b)))
  | .strConst a, .strConst b =>
    match op with
    | .equ => some (.logic, .ok (.boolConst (a == b)))
    | .neq => some (.logic, .ok (.boolConst (a != b)))
    | _ => none
  | _, _ => none

omit [MathLib TReal] in
/-- a logical operation on two integer constants -/
def boolConsts (op : BoolNodeOp) (term1 : AST) (term2 : Option AST) :
    Option (OptKind × Res AST) :=
  match term1, term2 with
  | .intConst a, some (.intConst b) =>
    let val : Bool := match op with
      | .and => a != 0 && b != 0
      | .or => a != 0 || b != 0
      | .xor => (a ^^^ b) != 0
      | .not => a == 0
    some (.logic, .ok (.boolConst val))
  | _, _ => none

/-- an operation on constants with its result; `none` if the node stays -/
def foldConsts : AST → Option (OptKind × Res AST)
  | .plus (.strConst a) (.strConst b) inverted =>
    if inverted then none else some (.arith, .ok (.strConst (a ++ b)))
  | .plus term1 term2 inverted => arithConsts (if inverted then .sub else .add) true term1 term2
  | .mult term1 term2 inverted => arithConsts (if inverted then .div else .mul) true term1 term2
  | .mod term1 term2 => arithConsts .mod false term1 term2
  | .pow term1 term2 => arithConsts .pow true term1 term2
  | .comp term1 term2 op => compConsts op term1 term2
  | .bool term1 term2 op => boolConsts op term1 term2
  | _ => none

/-- `OptConsts` -/
def optConsts (ast : AST) : OptM (Option AST) :=
  match foldConsts ast with
  | none => pure none
  | some (kind, res) => do
    modify fun c => c.add kind
    match res with
    | .ok new => return some new
    | .error e => throw e

/-- the replacement of a node, or the node -/
def optNode (ast : AST) : OptM AST := do
  match ← optConsts ast with
  | some new => return new
  | none => return ast

/-- the same for a node that may be missing -/
def optNodeOpt : Option AST → OptM (Option AST)
  | none => return none
  | some ast => do return some (← optNode ast)

/-- the expression of the assignment of a declaration is folded again -/
def optAssignExpr : AST → OptM AST
  | .assign idents (some expr) => do return .assign idents (some (← optNode expr))
  | ast => return ast

/-! ## visits -/

mutual

/-- the visit of a node -/
def opt : AST → OptM AST
  | .uminus term => do
    let term ← opt term
    return .uminus (← optNode term)
  | .plus term1 term2 inverted => do
    let term1 ← opt term1
    let term2 ← opt term2
    let term1 ← optNode term1
    let term2 ← optNode term2
    return .plus term1 term2 inverted
  | .mult term1 term2 inverted => do
    let term1 ← opt term1
    let term2 ← opt term2
    let term1 ← optNode term1
    let term2 ← optNode term2
    return .mult term1 term2 inverted
  | .mod term1 term2 => do
    let term1 ← opt term1
    let term2 ← opt term2
    let term1 ← optNode term1
    let term2 ← optNode term2
    return .mod term1 term2
  | .pow term1 term2 => do
    let term1 ← opt term1
    let term2 ← opt term2
    let term1 ← optNode term1
    let term2 ← optNode term2
    return .pow term1 term2
  | .norm term => do
    let term ← opt term
    return .norm (← optNode term)
  | .call ident args => do return .call ident (← optFoldList args)
  | .stmts stmts => do return .stmts (← optList stmts)
  | .varDecl vars optAssign intentIn intentOut => do
    let optAssign ← optOpt optAssign
    match optAssign with
    | none => return .varDecl vars none intentIn intentOut
    | some assign => do
      return .varDecl vars (some (← optAssignExpr assign)) intentIn intentOut
  | .func ident args rets stmts => do return .func ident args rets (← opt stmts)
  | .ret rets onlyJumpToFuncEnd => do
    if onlyJumpToFuncEnd then
      return .ret rets onlyJumpToFuncEnd
    else
      return .ret (some (← optSomeList rets)) onlyJumpToFuncEnd
  | .assign idents expr => do
    let expr ← optSome expr
    return .assign idents (some (← optNode expr))
  | .rangedLoop ident begin stop inc stmt => do
    let begin ← opt begin
    let stop ← opt stop
    let inc ← optOpt inc
    let stmt ← opt stmt
    return .rangedLoop ident begin stop inc stmt
  | .arrayAccess term num1 num2 ranged12 => do
    let num1 ← optSome num1
    let num2 ← optOpt num2
    let term ← opt term
    let num1 ← optNode num1
    let num2 ← optNodeOpt num2
    let term ← optNode term
    return .arrayAccess term (some num1) num2 ranged12
  | .arrayAssign ident expr num1 num2 ranged12 => do
    let num1 ← optSome num1
    let num2 ← optOpt num2
    let expr ← opt expr
    let num1 ← optNode num1
    let num2 ← optNodeOpt num2
    let expr ← optNode expr
    return .arrayAssign ident expr (some num1) num2 ranged12
  | .comp term1 term2 op => do
    let term1 ← opt term1
    let term2 ← opt term2
    let term1 ← optNode term1
    let term2 ← optNode term2
    return .comp term1 term2 op
  | .bool term1 term2 op => do
    let term1 ← opt term1
    let term2 ← optOpt term2
    let term1 ← optNode term1
    let term2 ← optNodeOpt term2
    return .bool term1 term2 op
  | .cond cond ifStmt elseStmt => do
    let cond ← opt cond
    let ifStmt ← opt ifStmt
    let elseStmt ← optOpt elseStmt
    return .cond (← optNode cond) ifStmt elseStmt
  | .cases expr cases defaultStmts => do
    let expr ← opt expr
    let cases ← optCases cases
    let defaultStmts ← optOpt defaultStmts
    return .cases expr cases defaultStmts
  | .loop cond stmt => do
    let cond ← opt cond
    let stmt ← opt stmt
    return .loop (← optNode cond) stmt
  | .exprList exprs arrayType => do return .exprList (← optFoldList exprs) arrayType
  | .var ident => return .var ident
  | .realConst val => return .realConst val
  | .intConst val => return .intConst val
  | .cplxConst val => return .cplxConst val
  | .quatConst val => return .quatConst val
  | .boolConst val => return .boolConst val
  | .strConst val => return .strConst val
  | .loopBreak num => return .loopBreak num
  | .loopNext num => return .loopNext num
  | .label ident => return .label ident
  | .jump label isComefrom => return .jump label isComefrom

/-- a node that may be missing -/
def optOpt : Option AST → OptM (Option AST)
  | none => return none
  | some ast => do return some (← opt ast)

/-- a node that is not tested for -/
def optSome : Option AST → OptM AST
  | none => throw (.ub "null pointer")
  | some ast => opt ast

/-- nodes that are not folded -/
def optList : List AST → OptM (List AST)
  | [] => return []
  | ast :: asts => do
    let ast ← opt ast
    return ast :: (← optList asts)

/-- a list that is not tested for -/
def optSomeList : Option (List AST) → OptM (List AST)
  | none => throw (.ub "null pointer")
  | some asts => optList asts

/-- nodes that are folded, each one behind its visit -/
def optFoldList : List AST → OptM (List AST)
  | [] => return []
  | ast :: asts => do
    let ast ← opt ast
    let ast ← optNode ast
    return ast :: (← optFoldList asts)

/-- cases, whose conditions are folded behind the visit of the statements -/
def optCases : List (AST × AST) → OptM (List (AST × AST))
  | [] => return []
  | (cond, stmt) :: cases => do
    let cond ← opt cond
    let stmt ← opt stmt
    let cond ← optNode cond
    return (cond, stmt) :: (← optCases cases)

end

end

end MuF
