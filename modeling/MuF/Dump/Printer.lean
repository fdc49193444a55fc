import MuF.Base.Xml
import MuF.Parser.Context
import MuF.VM.Ops

/-!
# Output of the syntax tree

* `elem`, `single`: the tags around nodes, and nodes without content;
* `printNode`: the visits of all nodes;
* `dump`: the file with the statements of a program.
-/

set_option linter.unusedVariables false

namespace MuF

open Exec

/-- texts of numbers as output streams write them -/
structure NumText where
  real : TReal → Str
  cplx : Cplx TReal → Str
  quat : Quat TReal → Str
  real_plain : ∀ x, (real x).all Xml.plainChar = true
  cplx_plain : ∀ x, (cplx x).all Xml.plainChar = true
  quat_plain : ∀ x, (quat x).all Xml.plainChar = true

/-- an output stream: what was written, and whether it writes bools as words -/
structure Ostr where
  out : Str
  boolalpha : Bool
  deriving DecidableEq, Repr

/-- output to the stream -/
abbrev PrintM := EStateM Err Ostr

/-! ## tags -/

def ostrWrite (s : Str) : PrintM Unit := modify fun o => { o with out := o.out ++ s }

/-- an attribute with its value between quotes -/
def attr (name : String) (val : Str) : Str :=
  ascii " " ++ ascii name ++ ascii "=" ++ [34] ++ val ++ [34]

/-- a name with a number -/
def numTag (name : String) (i : Nat) : Str := ascii name ++ ascii (toString i)

/-- a node between its tags -/
def elem (tag : Str) (attrs : Str) (body : PrintM Unit) : PrintM Unit := do
  ostrWrite (ascii "<" ++ tag ++ attrs ++ ascii ">" ++ [10])
  body
  ostrWrite (ascii "</" ++ tag ++ ascii ">" ++ [10])

/-- a node without content -/
def single (tag : Str) (attrs : Str) : PrintM Unit :=
  ostrWrite (ascii "<" ++ tag ++ attrs ++ ascii " />" ++ [10])

/-- a bool as the stream writes it -/
def boolText (val : Bool) : PrintM Str := do
  let o ← get
  return ascii (if o.boolalpha then (if val then "true" else "false") else if val then "1" else "0")

/-! ## parts of nodes -/

/-- the dimensions of an argument or a result; the quote in front of each one closes the type -/
def printDims : Nat → List Nat → PrintM Unit
  | _, [] => pure ()
  | i, dim :: dims => do
    ostrWrite ([34] ++ ascii " " ++ numTag "dim" i ++ ascii "=" ++ [34] ++ ascii (toString dim) ++
      [34])
    printDims (i + 1) dims

/-- an argument or a result of a function -/
def printArgName (kind : String) (i : Nat) (arg : ArgName) : PrintM Unit := do
  ostrWrite (ascii "<" ++ numTag kind i ++ attr "name" arg.1)
  ostrWrite (ascii " type=" ++ [34] ++ ascii arg.2.1.typeName)
  printDims 0 arg.2.2
  ostrWrite (ascii " />" ++ [10])

def printArgNames (kind : String) : Nat → List ArgName → PrintM Unit
  | _, [] => pure ()
  | i, arg :: args => do
    printArgName kind i arg
    printArgNames kind (i + 1) args

/-- declared variables -/
def printVars : Nat → List Str → PrintM Unit
  | _, [] => pure ()
  | i, var :: vars => do
    single (numTag "var_" i) (attr "ident" var)
    printVars (i + 1) vars

/-- variables on the left of a multiple assignment -/
def printIdents : Nat → List Str → PrintM Unit
  | _, [] => pure ()
  | i, ident :: idents => do
    ostrWrite (ascii "<" ++ numTag "ident_" i ++ ascii ">")
    ostrWrite ident
    ostrWrite (ascii "</" ++ numTag "ident_" i ++ ascii ">" ++ [10])
    printIdents (i + 1) idents

def CompNodeOp.opName : CompNodeOp → String
  | .equ => "equ"
  | .neq => "neq"
  | .gt => "gt"
  | .lt => "lt"
  | .geq => "geq"
  | .leq => "leq"

def BoolNodeOp.opName : BoolNodeOp → String
  | .not => "not"
  | .and => "and"
  | .or => "or"
  | .xor => "xor"

/-- a constant with its type -/
def printConst (ty : String) (val : Str) : PrintM Unit :=
  single (ascii "Const") (attr "type" (ascii ty) ++ attr "val" val)

/-! ## visits -/

section
variable (num : NumText)

mutual

/-- the visit of a node -/
def printNode : AST → PrintM Unit
  | .uminus term => elem (ascii "UMinus") [] (printNode term)
  | .plus term1 term2 _ => elem (ascii "Plus") [] do
    printNode term1
    printNode term2
  | .mult term1 term2 _ => elem (ascii "Mult") [] do
    printNode term1
    printNode term2
  | .mod term1 term2 => elem (ascii "Mod") [] do
    printNode term1
    printNode term2
  | .pow term1 term2 => elem (ascii "Pow") [] do
    printNode term1
    printNode term2
  | .norm term => elem (ascii "Norm") [] (printNode term)
  | .var ident => single (ascii "Var") (attr "ident" ident)
  | .call ident args => elem (ascii "Call") (attr "ident" ident) (printList "arg_" 0 args)
  | .stmts stmts => elem (ascii "Stmts") [] (printList "stmt_" 0 stmts)
  | .varDecl vars optAssign _ _ => elem (ascii "VarDecl") [] do
    printVars 0 vars
    printOpt optAssign
  | .func ident args rets stmts => elem (ascii "Func") (attr "ident" ident) do
    printArgNames "arg_" 0 args
    printArgNames "ret_" 0 rets
    printNode stmts
  | .ret rets onlyJumpToFuncEnd =>
    if onlyJumpToFuncEnd then single (ascii "Return") [] else printRets rets
  | .assign [] _ => pure ()
  | .assign [ident] expr => elem (ascii "Assign") (attr "ident" ident) (printSome expr)
  | .assign idents expr => elem (ascii "MultiAssign") [] do
    printIdents 0 idents
    elem (ascii "rhs") [] (printSome expr)
  | .rangedLoop ident begin stop inc stmt => elem (ascii "RangedLoop") [] do
    elem (ascii "range") [] (elem (ascii "VarRange") (attr "ident" ident) do
      elem (ascii "begin") [] (printNode begin)
      elem (ascii "end") [] (printNode stop)
      printIn "inc" inc)
    elem (ascii "stmt") [] (printNode stmt)
  | .arrayAccess term num1 num2 ranged12 => do
    let ranged ← boolText ranged12
    elem (ascii "ArrayAccess") (attr "is_range_12" ranged) do
      elem (ascii "idx1") [] (printSome num1)
      printIn "idx2" num2
      elem (ascii "term") [] (printNode term)
  | .arrayAssign ident expr num1 num2 ranged12 => do
    let ranged ← boolText ranged12
    elem (ascii "ArrayAssign") (attr "ident" ident ++ attr "is_range_12" ranged) do
      elem (ascii "idx1") [] (printSome num1)
      printIn "idx2" num2
      elem (ascii "expr") [] (printNode expr)
  | .comp term1 term2 op => elem (ascii "Comp") (attr "op" (ascii op.opName)) do
    printNode term1
    printNode term2
  | .cond cond ifStmt elseStmt => elem (ascii "Cond") [] do
    elem (ascii "cond") [] (printNode cond)
    elem (ascii "if") [] (printNode ifStmt)
    printIn "else" elseStmt
  | .cases expr cases defaultStmts => elem (ascii "Cases") [] do
    elem (ascii "expr") [] (printNode expr)
    printCases cases
    printIn "default" defaultStmts
  | .bool term1 term2 op => elem (ascii "Bool") (attr "op" (ascii op.opName)) do
    printNode term1
    printOpt term2
  | .loop cond stmt => elem (ascii "Loop") [] do
    elem (ascii "cond") [] (printNode cond)
    elem (ascii "stmt") [] (printNode stmt)
  | .loopBreak numLoops => single (ascii "Break") (attr "num" (printInt numLoops))
  | .loopNext numLoops => single (ascii "Next") (attr "num" (printInt numLoops))
  | .exprList exprs _ => elem (ascii "ExprList") [] (printList "expr_" 0 exprs)
  | .strConst val => printConst "str" val
  | .realConst val => printConst "scalar" (num.real val)
  | .intConst val => printConst "integer" (printInt val)
  | .cplxConst val => printConst "complex" (num.cplx val)
  | .quatConst val => printConst "quaternion" (num.quat val)
  | .boolConst val => do
    modify fun o => { o with boolalpha := true }
    let text ← boolText val
    printConst "bool" text
  | .label ident => single (ascii "Label") (attr "ident" ident)
  | .jump label isComefrom =>
    single (ascii (if isComefrom then "Comefrom" else "Jump")) (attr "label" label)

/-- a node that may be missing -/
def printOpt : Option AST → PrintM Unit
  | none => pure ()
  | some ast => printNode ast

/-- a node that is not tested for -/
def printSome : Option AST → PrintM Unit
  | none => throw (.ub "null pointer")
  | some ast => printNode ast

/-- a node that may be missing, with its tags -/
def printIn (tag : String) : Option AST → PrintM Unit
  | none => pure ()
  | some ast => elem (ascii tag) [] (printNode ast)

/-- nodes in numTag tags -/
def printList (tag : String) : Nat → List AST → PrintM Unit
  | _, [] => pure ()
  | i, ast :: asts => do
    elem (numTag tag i) [] (printNode ast)
    printList tag (i + 1) asts

/-- returned values -/
def printRets : Option (List AST) → PrintM Unit
  | none => throw (.ub "null pointer")
  | some [] => single (ascii "Return") []
  | some [ast] => elem (ascii "Return") [] (printNode ast)
  | some (ast :: asts) => elem (ascii "MultiReturn") [] (printList "val_" 0 (ast :: asts))

def printCases : List (AST × AST) → PrintM Unit
  | [] => pure ()
  | (cond, stmts) :: cases => do
    elem (ascii "case") [] do
      elem (ascii "cond") [] (printNode cond)
      elem (ascii "stmts") [] (printNode stmts)
    printCases cases

end

/-- the statements of a program -/
def dumpStmts : List AST → PrintM Unit
  | [] => pure ()
  | stmt :: stmts => do
    printNode num stmt
    ostrWrite [10]
    dumpStmts stmts

/-- the file with the syntax tree -/
def dump (stmts : List AST) : PrintM Unit := do
  ostrWrite (ascii "<ast>" ++ [10])
  dumpStmts num stmts
  ostrWrite (ascii "</ast>" ++ [10])

end

end MuF
