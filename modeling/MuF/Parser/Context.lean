import MuF.Base.Exec
import MuF.Ast

/-!
# The state of the parser

* `ParserContext`: the symbol table, the scope, and the type and dimensions that the declaration
  in progress has set; `PM` the computations on it;
* `addScopedSymbol`: how a name of the current scope gets into the symbol table;
* `checkSymbolForConflicts`: the check of a name that is a function's.
-/

set_option linter.unusedVariables false

namespace MuF

open Exec

/-- `get_type_name` -/
def SymbolType.typeName : SymbolType → String
  | .real => "real"
  | .int => "integer"
  | .cplx => "complex"
  | .quat => "quaternion"
  | .bool => "bool"
  | .realArray => "real_array"
  | .intArray => "integer_array"
  | .cplxArray => "complex_array"
  | .quatArray => "quaternion_array"
  | .string => "string"
  | .void => "void"
  | .comp => "comp"
  | .func => "func"
  | .unknown => "unknown"

/-- the common parser state; `cerr` is what has been written to the standard error output -/
structure ParserContext where
  symbols : SymTab := []
  curscope : List Str := []
  symtype : SymbolType := .real
  symdims : List Nat := [1]
  curline : Nat := 0
  cerr : List String := []

/-- computations on the parser state -/
abbrev PM := EStateM Err ParserContext

namespace PM

/-- the target of a pointer -/
def deref {α : Type} (x : Option α) : PM α :=
  match x with
  | some a => pure a
  | none => throw (.ub "null pointer")

def writeErr (msg : String) : PM Unit := modify fun c => { c with cerr := c.cerr ++ [msg] }

end PM

namespace ParserContext

/-- `GetScopeName`; `up` is at most the number of scopes -/
def getScopeName (c : ParserContext) (up : Nat := 0) (addLastSep : Bool := true) : Str :=
  let levels := c.curscope.take (c.curscope.length - up)
  if addLastSep then levels.flatMap (· ++ scopeSep) else scopeSep.intercalate levels

/-- `FindScopedSymbol` -/
def findScopedSymbol (c : ParserContext) (name : Str) : Option Symbol :=
  c.symbols.findSymbol (c.getScopeName ++ name)

/-- `FindGlobalSymbol` -/
def findGlobalSymbol (c : ParserContext) (name : Str) : Option Symbol := c.symbols.findSymbol name

/-- change the symbol behind a name -/
def modifySym (c : ParserContext) (name : Str) (f : Symbol → Symbol) : ParserContext :=
  { c with symbols := c.symbols.modify name f }

end ParserContext

/-! ## scope, type and dimensions -/

/-- `EnterScope` -/
def enterScope (name : Str) : PM Unit := modify fun c => { c with curscope := c.curscope ++ [name] }

/-- `LeaveScope` -/
def leaveScope (name : Str) : PM Unit := do
  let c ← get
  match c.curscope.getLast? with
  | none => throw (.ub "rbegin of no scopes")
  | some curscope =>
    onlyIf (decide (curscope ≠ name)) do
      PM.writeErr ("Error in line " ++ toString c.curline ++ ": Trying to leave scope " ++
        name.text ++ ", but the top scope is " ++ curscope.text ++ ".")
    modify fun c => { c with curscope := c.curscope.dropLast }

/-- `SetSymType` -/
def setSymType (ty : SymbolType) : PM Unit := modify fun c => { c with symtype := ty }

/-- `SetSymDims` -/
def setSymDims (dims : List Nat) : PM Unit := modify fun c => { c with symdims := dims }

/-- `SetSymDim` -/
def setSymDim (dim : Nat) : PM Unit := modify fun c => { c with symdims := [dim] }

/-! ## symbols -/

/-- the part of `AddScopedSymbol` that enters the type of an argument with its function;
whether it could -/
def setArgType (sym : Symbol) : PM Bool := do
  let c ← get
  let funcname := c.getScopeName 0 false
  match c.symbols.findSymbol funcname with
  | none =>
    PM.writeErr ("Error in line " ++ toString c.curline ++ ": Could not find function " ++
      funcname.text ++ ".")
    pure false
  | some func =>
    if func.argty.length ≤ sym.argidx then do
      PM.writeErr ("Error in line " ++ toString c.curline ++ ": Function argument index " ++
        toString sym.argidx ++ " out of bounds.")
      pure false
    else do
      modify fun c => c.modifySym funcname fun func =>
        { func with argty := func.argty.set sym.argidx c.symtype }
      pure true

/-- the end of `AddScopedSymbol`: a symbol that is not in the table yet -/
def addNewSymbol (scope name : Str) : PM (Option Symbol) := do
  let c ← get
  let added := c.symbols.addSymbol scope name c.symtype c.symdims
  modify fun c => { c with symbols := added.2 }
  pure added.1

/-- `AddScopedSymbol`; `none` stands for a null pointer -/
def addScopedSymbol (name : Str) : PM (Option Symbol) := do
  let c ← get
  let scope := c.getScopeName
  match c.symbols.findSymbol (scope ++ name) with
  | some sym =>
    if sym.ty = .func then
      -- functions are not modified: the symbol is a temporary one
      pure (c.symbols.addSymbol scope name c.symtype c.symdims false).1
    else do
      modify fun c => c.modifySym (scope ++ name) fun sym =>
        { sym with ty := c.symtype, dims := c.symdims }
      let added := { sym with ty := c.symtype, dims := c.symdims }
      if sym.isArg then do
        let ok ← setArgType added
        pure (if ok then some added else none)
      else
        pure (some added)
  | none => addNewSymbol scope name

/-- `CheckSymbolForConflicts` -/
def checkSymbolForConflicts (sym : Symbol) : PM Bool := do
  if !sym.isTmp then
    pure false
  else do
    let c ← get
    match c.symbols.findSymbol sym.name with
    | none => pure true
    | some globsym =>
      if globsym.ty = .func then do
        let funcTy :=
          if globsym.retty = .comp then globsym.elems.headD globsym.retty else globsym.retty
        if funcTy ≠ sym.ty then
          throw (.throw ("Function \"" ++ globsym.name.text ++ "\" declaration mismatch: " ++
            "Return type is " ++ funcTy.typeName ++ ", but redeclaration has type " ++
            sym.ty.typeName ++ "."))
        else
          pure true
      else
        pure true

end MuF
