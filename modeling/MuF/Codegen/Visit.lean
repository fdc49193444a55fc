import MuF.Codegen.State

/-!
# Visitors

Each `visit…` is the visitor of one kind of node, given what the visits of its parts do; `visit`
ties them together over a syntax tree.

* variables and constants: `visitVarDecl`, `pushVar`, `assignVar`, `visitAssign`;
* operators: `castOperands`, `visitPlus` and the other operators;
* arrays, functions, conditionals and loops;
* `visit`: the code generation of a syntax tree.
-/

set_option linter.unusedVariables false

namespace MuF

open Exec

/-- the visit of a node: it returns a symbol for its type, if it has one -/
abbrev Visit := CGM (Option Symbol)

/-- visit without its result -/
def Visit.run_ (x : Visit) : CGM Unit := do
  let _ ← x

/-! ## variables -/

/-- the register that the address of a variable is relative to -/
def Symbol.baseReg (sym : Symbol) : VMType := if sym.isGlobal then .addrGbp else .addrBp

/-- the address of a variable -/
def putVarAddr (sym : Symbol) : CGM Unit := do
  let addr ← deref sym.addr
  putAddr sym.baseReg addr.toInt32

/-- `PushVar` -/
def pushVar (varname : Str) : Visit := do
  let sym ← getSym varname
  if sym.addr.isNone then
    fail ("ASTVar: Variable \"" ++ varname.text ++ "\" has not been declared.")
  else
    putVarAddr sym
    onlyIf (sym.ty != .func) (putOp .rdmem)
    return some sym

/-- `AssignVar` -/
def assignVar (sym : Symbol) : CGM Unit := do
  putVarAddr sym
  putOp .wrmem

/-- `ASTAssign` -/
def visitAssign (idents : List Str) (expr : Option Visit) : Visit := do
  match expr with
  | some expr => expr.run_
  | none => pure ()
  let syms ← idents.mapM fun varname => do
    let sym ← getSym varname
    if sym.addr.isNone then
      fail ("ASTAssign: Variable \"" ++ varname.text ++ "\" has not been declared.")
    else
      castTo (some sym) none true
      assignVar sym
      return sym
  return syms.head?

/-- a zero-initialised vector of the size of a symbol -/
def zeroVec {E : Type} (sym : Symbol) (zero : E) : CGM (List E) :=
  if sym.getTotalSize < 0 then
    fail "length_error"
  else
    return List.replicate sym.getTotalSize.toInt.toNat zero

/-- push the value that a variable has without an initialiser -/
def pushDefault (sym : Symbol) : CGM Unit :=
  let zero : TReal := ⟨0⟩
  match sym.ty with
  | .int => pushIntConst 0
  | .real => pushRealConst zero
  | .cplx => pushCplxConst ⟨zero, zero⟩
  | .quat => pushQuatConst ⟨zero, zero, zero, zero⟩
  | .bool => pushBoolConst 0
  | .string => pushStrConst []
  | .realArray => do pushRealVecConst (← zeroVec sym zero)
  | .intArray => do pushIntVecConst (← zeroVec sym 0)
  | .cplxArray => do pushCplxVecConst (← zeroVec sym ⟨zero, zero⟩)
  | .quatArray => do pushQuatVecConst (← zeroVec sym ⟨zero, zero, zero, zero⟩)
  | _ => pure ()

/-- types of variables that can be declared without an initialiser -/
def SymbolType.hasDefault : SymbolType → Bool
  | .int | .real | .cplx | .quat | .bool | .string
  | .realArray | .intArray | .cplxArray | .quatArray => true
  | _ => false

/-- give a variable its slot in the global or the local frame -/
def allocVar (isGlobal : Bool) (sym : Symbol) : CGM Unit := do
  modifySym sym fun sym => { sym with isGlobal := isGlobal }
  let size ← CGM.lift (getSymSize sym)
  let s ← get
  if isGlobal then do
    let top := s.globalStack + size
    modify fun s => { s with globalStack := top }
    modifySym sym fun sym => { sym with addr := some (-top).toInt64 }
  else do
    let curFunc ← deref s.curscope.getLast?
    let top := (s.localStack.lookup curFunc).getD 0 + size
    modify fun s => { s with
      localStack := (curFunc, top) :: s.localStack.filter fun p => p.1 != curFunc }
    modifySym sym fun sym => { sym with addr := some (-top).toInt64 }

/-- declaration of one variable; arguments are declared with their function -/
def declareVar (isGlobal : Bool) (optAssign : Option Visit) (intentIn intentOut : Bool)
    (varname : Str) : Visit := do
  let sym ← getSym varname true
  if sym.isArg then
    return none
  else if !(sym.isArg || sym.isRet) && (intentIn || intentOut) then
    fail ("ASTVarDecl: Variable \"" ++ varname.text ++
      "\" is not a function argument or return value, but has an intent declaration.")
  else if sym.isRet && intentIn then
    fail ("ASTVarDecl: Variable \"" ++ varname.text ++
      "\" is a function return value, but has an intent(in) declaration.")
  else if sym.addr.isSome then
    fail ("ASTVarDecl: Variable \"" ++ varname.text ++ "\" already declared.")
  else
    allocVar isGlobal sym
    let sym ← reload sym
    match optAssign with
    | some assign => assign.run_
    | none => onlyIf sym.ty.hasDefault do
        pushDefault sym
        assignVar sym
    return some sym

/-- `ASTVarDecl` -/
def visitVarDecl (vars : List Str) (optAssign : Option Visit) (intentIn intentOut : Bool) :
    Visit := do
  let s ← get
  let syms ← vars.mapM (declareVar s.curscope.isEmpty optAssign intentIn intentOut)
  return (syms.filterMap id).head?

/-! ## operators -/

/-- `ASTUMinus` -/
def visitUMinus (term : Visit) : Visit := do
  let term ← term
  putOp .usub
  return term

/-- the operands of a binary operator with a placeholder for the cast of the first one, and their
casts to a common type; the types of the operands and of the result -/
def castOperands (term1 term2 : Visit) :
    CGM (Option Symbol × Option Symbol × Option Symbol) := do
  let term1 ← term1
  let term1Pos ← tellp
  putOp .nop
  let term2 ← term2
  let term2Pos ← tellp
  let (firstTy, secondTy, resTy) := getCastSymType term1 term2
  castTo firstTy (some term1Pos)
  castTo secondTy (some term2Pos)
  return (term1, term2, resTy)

/-- a binary operator with one instruction -/
def visitBinary (op : OpCode) (term1 term2 : Visit) : Visit := do
  let (_, _, commonType) ← castOperands term1 term2
  putOp op
  return commonType

/-- `ASTPlus` -/
def visitPlus (term1 term2 : Visit) (inverted : Bool) : Visit :=
  visitBinary (if inverted then .sub else .add) term1 term2

/-- rows and columns of the two factors, if they are multiplied as matrices or vectors -/
def matMulDims (commonType term1 term2 : Option Symbol) : Option (Nat × Nat × Nat × Nat) :=
  match commonType, term1, term2 with
  | some common, some sym1, some sym2 =>
    if common.ty.isArray then
      match sym1.dims, sym2.dims with
      | [rows, cols], [dim] => some (rows, cols, dim, 1)
      | [dim], [rows, cols] => some (1, dim, rows, cols)
      | [rows1, cols1], [rows2, cols2] => some (rows1, cols1, rows2, cols2)
      | _, _ => none
    else none
  | _, _, _ => none

/-- `ASTMult` -/
def visitMult (term1 term2 : Visit) (inverted : Bool) : Visit := do
  let (term1, term2, commonType) ← castOperands term1 term2
  if inverted then
    if term2.any fun sym => sym.ty.isArray then
      fail "ASTMult: Cannot divide by array."
    else
      putOp .div
      return commonType
  else
    match matMulDims commonType term1 term2 with
    | some (rows1, cols1, rows2, cols2) => do
      pushIntConst (Int64.ofNat rows1)
      pushIntConst (Int64.ofNat cols1)
      pushIntConst (Int64.ofNat rows2)
      pushIntConst (Int64.ofNat cols2)
      putOp .matmul
      return commonType
    | none => do
      putOp .mul
      return commonType

/-- `ASTMod` -/
def visitMod (term1 term2 : Visit) : Visit := visitBinary .mod term1 term2

/-- `ASTPow` -/
def visitPow (term1 term2 : Visit) : Visit := visitBinary .pow term1 term2

/-- `ASTNorm` -/
def visitNorm (term : Visit) : Visit := do
  let term ← term
  callExternalFunc (ascii "norm")
  return term

/-- instruction of a comparison -/
def CompNodeOp.opCode : CompNodeOp → OpCode
  | .equ => .equ
  | .neq => .nequ
  | .gt => .gt
  | .lt => .lt
  | .geq => .gequ
  | .leq => .lequ

/-- `ASTComp` -/
def visitComp (term1 term2 : Visit) (op : CompNodeOp) : Visit :=
  visitBinary op.opCode term1 term2

/-- instruction of a logical operation -/
def BoolNodeOp.opCode : BoolNodeOp → OpCode
  | .not => .not
  | .and => .and
  | .or => .or
  | .xor => .xor

/-- `ASTBool` -/
def visitBool (term1 : Visit) (term2 : Option Visit) (op : BoolNodeOp) : Visit := do
  term1.run_
  match term2 with
  | some term2 => term2.run_
  | none => pure ()
  putOp op.opCode
  return none

/-! ## arrays -/

/-- an index: a list of expressions for arrays of several dimensions, or one expression -/
inductive Index
  | list (nums : List Visit)
  | single (num : Visit)

/-- an index expression, cast to an integer -/
def visitIndex (num : Visit) : CGM Unit := do
  let sym ← deref (← num)
  onlyIf (sym.ty != .int) (castTo (some intConst))

/-- the indices of an array with the given symbol from a dimension on, each multiplied with the
size of the dimensions behind it -/
def visitIndices (sym : Symbol) : Nat → List Visit → CGM Unit
  | _, [] => pure ()
  | curDim, num :: nums => do
    visitIndex num
    let dimsRest := (sym.getTotalSize (curDim + 1)).toInt64
    onlyIf (dimsRest > 1) do
      pushIntConst dimsRest
      putOp .mul
    visitIndices sym (curDim + 1) nums

/-- the position of an element; the number of additions is an unsigned difference -/
def visitElemIndex (node : String) (sym : Symbol) : Index → CGM Unit
  | .list nums => do
    if sym.dims.length ≠ nums.length then
      fail (node ++ ": Dimension mismatch.")
    else
      visitIndices sym 0 nums
      (List.replicate (UInt64.ofNat nums.length - 1).toNat ()).forM fun _ => putOp .add
  | .single num => visitIndex num

/-- the two ends of a range -/
def visitRangeIndex (node : String) (num1 num2 : Index) : CGM Unit :=
  match num1, num2 with
  | .single num1, .single num2 => do
    visitIndex num1
    visitIndex num2
  | _, _ => fail (node ++ ": Ranged multi-dimensional array access not yet supported.")

/-- `ASTArrayAccess` -/
def visitArrayAccess (term : Visit) (num1 num2 : Option Index) (ranged12 : Bool) : Visit := do
  let term ← term
  let invalid (sym : Symbol) : Visit :=
    fail ("ASTArrayAccess: Invalid array type of \"" ++ sym.name.text ++ "\".")
  match ranged12, num1, num2 with
  | false, some num1, none => do
    match num1 with
    | .list _ => do
      let sym ← deref term
      visitElemIndex "ASTArrayAccess" sym num1
    | .single num => visitIndex num
    putOp .rdarr
    let sym ← deref term
    match getArrayTypeConst sym.ty with
    | some (_, elemTy) => return some elemTy
    | none => invalid sym
  | true, some num1, some num2 => do
    visitRangeIndex "ASTArrayAccess" num1 num2
    putOp .rdarrr
    let sym ← deref term
    match getArrayTypeConst sym.ty with
    | some (arrTy, _) => return some arrTy
    | none => invalid sym
  | _, _, _ => do
    let sym ← deref term
    fail ("ASTArrayAccess: Invalid array access to \"" ++ sym.name.text ++ "\".")

/-- `ASTArrayAssign` -/
def visitArrayAssign (varname : Str) (expr : Visit) (num1 num2 : Option Index)
    (ranged12 : Bool) : Visit := do
  let sym ← getSym varname
  if sym.addr.isNone then
    fail ("ASTArrayAssign: Variable \"" ++ varname.text ++ "\" has not been declared.")
  else
    putVarAddr sym
    let expr ← expr
    match ranged12, num1, num2 with
    | false, some num1, none =>
      match getArrayTypeConst sym.ty with
      | none => fail ("ASTArrayAssign: Invalid array element type in \"" ++ varname.text ++ "\".")
      | some (_, elemTy) => do
        let exprSym ← deref expr
        onlyIf (exprSym.ty != sym.ty) (castTo (some elemTy))
        visitElemIndex "ASTArrayAssign" sym num1
        putOp .wrarr
        return expr
    | true, some num1, some num2 => do
      visitRangeIndex "ASTArrayAssign" num1 num2
      putOp .wrarrr
      return expr
    | _, _, _ => return expr

/-- instruction that makes an array of the given type -/
def makeArrOp : SymbolType → Option OpCode
  | .realArray => some .makerealarr
  | .intArray => some .makeintarr
  | .cplxArray => some .makecplxarr
  | .quatArray => some .makequatarr
  | _ => none

/-- `ASTExprList`: expressions one after the other, or an array of them -/
def visitExprList (exprs : List Visit) (arrSymTy : SymbolType) : Visit := do
  let isArr := arrSymTy != .void
  let (arrTy, elemTy) := (getArrayTypeConst arrSymTy).getD (realArrayConst, realConst)
  let syms ← exprs.mapM fun elem => do
    let sym ← elem
    onlyIf isArr (castTo (some elemTy))
    return sym
  if isArr then
    putAddr .addrMem (Int32.ofNat exprs.length)
    match makeArrOp arrSymTy with
    | none => fail "ASTExprList: Invalid array type."
    | some op => do
      putOp op
      return some { arrTy with dims := [(Int32.ofNat exprs.length).toInt64.toUInt64.toNat] }
  else
    return (syms.filterMap id).head?

/-! ## functions -/

/-- the arguments of a function from the given index and frame address on -/
def declareArgs (funcname : Str) : Nat → Int32 → List ArgName → CGM Unit
  | _, _, [] => pure ()
  | argidx, frameAddr, (argname, argtype, _) :: args => do
    let err (what : String) : CGM Unit :=
      fail ("ASTFunc: Function \"" ++ funcname.text ++ what)
    let sym ← getSym argname
    if sym.addr.isSome then
      err ("\" argument \"" ++ argname.text ++ "\" already declared.")
    else if !sym.isArg then
      err ("\" variable \"" ++ argname.text ++ "\" is not an argument.")
    else if sym.ty ≠ argtype then
      err ("\" argument \"" ++ argname.text ++ "\" type mismatch.")
    else if sym.argidx ≠ argidx then
      err ("\" argument \"" ++ argname.text ++ "\" index mismatch.")
    else
      modifySym sym fun sym => { sym with addr := some frameAddr.toInt64 }
      let size ← CGM.lift (getSymSize sym)
      declareArgs funcname (argidx + 1) (frameAddr + size) args

/-- fill in jumps to a position -/
def patchAll (target : Nat) (poss : List Nat) : CGM Unit :=
  poss.forM fun pos => patch pos (toSkip target pos)

/-- `ASTFunc` -/
def visitFunc (funcname : Str) (args rets : List ArgName) (stmts : Visit) : Visit := do
  modify fun s => { s with curscope := s.curscope ++ [funcname] }
  -- jump over the function
  let safetyJmp ← putJump .jmp
  declareArgs funcname 0 (2 * vmTypeSize .addrIp true) args
  let func ← getSym funcname
  let begin ← tellp
  modifySym func fun sym => { sym with addr := some (Int64.ofNat begin) }
  stmts.run_
  let pushret ← tellp
  rets.forM fun (retname, _, _) => (pushVar retname).run_
  let ret ← tellp
  let framesize ← getStackFrameSize (some func)
  pushIntConst framesize
  pushIntConst (Int64.ofNat args.length)
  putOp .ret
  let endFunc ← tellp
  modifySym func fun sym => { sym with endAddr := some (Int64.ofNat endFunc) }
  let s ← get
  patchAll pushret s.pushretComefroms
  modify fun s => { s with pushretComefroms := [] }
  let s ← get
  patchAll ret s.endfuncComefroms
  modify fun s => { s with endfuncComefroms := [] }
  patch safetyJmp (toSkip endFunc safetyJmp)
  seekp endFunc
  modify fun s => { s with curLoop := [], curscope := s.curscope.dropLast }
  return none

/-- `ASTCall`; the arguments are evaluated from the last one to the first one -/
def visitCall (funcname : Str) (args : List Visit) : Visit := do
  let func ← getSym funcname false (some .func)
  if args.length ≠ func.argty.length then
    fail ("ASTCall: Invalid number of function arguments for \"" ++ funcname.text ++
      "\": expected " ++ toString func.argty.length ++ ", got " ++ toString args.length ++ ".")
  else
    args.reverse.forM Visit.run_
    if func.isExternal then
      callExternalFunc funcname
      return some func
    else
      let framesize ← getStackFrameSize (some func)
      pushIntConst framesize
      putOp .push
      putTy .addrIp
      let addrPos ← tellp
      writeOut (Raw.enc (toSkip 0 addrPos))
      putOp .call
      modify fun s => { s with
        funcComefroms := s.funcComefroms ++
          [⟨funcname, addrPos, Int32.ofNat func.argty.length⟩] }
      return some func

/-- `ASTReturn` -/
def visitReturn (rets : Option (List Visit)) (onlyJumpToFuncEnd : Bool) : Visit := do
  let s ← get
  if s.curscope.isEmpty then
    fail "ASTReturn: Not in a function."
  else if onlyJumpToFuncEnd then
    if rets.isSome then
      fail ("ASTReturn: Given return values are not handled here," ++
        " but automatically pushed at the end of the function.")
    else
      let pos ← putJump .jmp
      modify fun s => { s with pushretComefroms := s.pushretComefroms ++ [pos] }
      return none
  else
    let syms ← (← deref rets).mapM fun x => x
    let pos ← putJump .jmp
    modify fun s => { s with endfuncComefroms := s.endfuncComefroms ++ [pos] }
    return (syms.filterMap id).head?

/-- `ASTStmts` -/
def visitStmts (stmts : List Visit) : Visit := do
  stmts.forM Visit.run_
  return none

/-! ## conditionals -/

/-- `ASTCond` -/
def visitCond (cond ifStmt : Visit) (elseStmt : Option Visit) : Visit := do
  cond.run_
  putOp .not
  let skipAddr ← putJump .jmpcnd
  let beforeIf ← tellp
  ifStmt.run_
  match elseStmt with
  | none => do
    let afterIf ← tellp
    patch skipAddr (streamDiff afterIf beforeIf)
    seekEnd
    return none
  | some elseStmt => do
    let skipElseAddr ← putJump .jmp
    let afterIf ← tellp
    patch skipAddr (streamDiff afterIf beforeIf)
    seekEnd
    let beforeElse ← tellp
    elseStmt.run_
    let afterElse ← tellp
    patch skipElseAddr (streamDiff afterElse beforeElse)
    seekEnd
    return none

/-- one case of a select block: the stream positions of the address of the jump behind all cases,
and behind that jump -/
def visitCase (expr cond stmts : Visit) : CGM (Nat × Nat) := do
  expr.run_
  cond.run_
  putOp .equ
  putOp .not
  let skipCaseAddr ← putJump .jmpcnd
  let beforeCase ← tellp
  stmts.run_
  let skipAfterCaseAddr ← putJump .jmp
  let afterCase ← tellp
  patch skipCaseAddr (streamDiff afterCase beforeCase)
  seekEnd
  return (skipAfterCaseAddr, afterCase)

/-- `ASTCases` -/
def visitCases (expr : Visit) (cases : List (Visit × Visit)) (defaultStmts : Option Visit) :
    Visit := do
  let jumpAddrs ← cases.mapM fun (cond, stmts) => visitCase expr cond stmts
  match defaultStmts with
  | some stmts => stmts.run_
  | none => pure ()
  let afterAll ← tellp
  jumpAddrs.forM fun (labelAddr, jumpAddr) => patch labelAddr (streamDiff afterAll jumpAddr)
  seekEnd
  return none

/-! ## loops -/

/-- a new innermost loop -/
def enterLoop : CGM Nat := do
  let s ← get
  let loopIdent := s.loopIdent + 1
  modify fun s => { s with loopIdent := loopIdent, curLoop := s.curLoop ++ [loopIdent] }
  return loopIdent

/-- fill in the saved jumps to the beginning and to the end of a loop -/
def patchLoop (loopIdent loopBegin loopEnd : Nat) : CGM Unit := do
  let s ← get
  patchAll loopBegin ((s.loopBeginComefroms.filter fun p => p.1 == loopIdent).map Prod.snd)
  modify fun s => { s with
    loopBeginComefroms := s.loopBeginComefroms.filter fun p => p.1 != loopIdent }
  let s ← get
  patchAll loopEnd ((s.loopEndComefroms.filter fun p => p.1 == loopIdent).map Prod.snd)
  modify fun s => { s with
    loopEndComefroms := s.loopEndComefroms.filter fun p => p.1 != loopIdent }

/-- leave the innermost loop -/
def leaveLoop : CGM Unit := do
  let s ← get
  let _ ← deref s.curLoop.getLast?
  modify fun s => { s with curLoop := s.curLoop.dropLast }

/-- a loop with the given condition and body -/
def emitLoop (cond body : CGM Unit) : Visit := do
  let loopIdent ← enterLoop
  let loopBegin ← tellp
  cond
  putOp .not
  let skipAddr ← putJump .jmpcnd
  let beforeBlock ← tellp
  body
  -- loop back
  putOp .push
  putTy .addrIp
  let afterBlock ← tellp
  writeOut (Raw.enc (toSkip loopBegin afterBlock))
  putOp .jmp
  let afterBlock ← tellp
  patch skipAddr (streamDiff afterBlock beforeBlock)
  patchLoop loopIdent loopBegin afterBlock
  seekEnd
  leaveLoop
  return none

/-- `ASTLoop` -/
def visitLoop (cond stmt : Visit) : Visit := emitLoop cond.run_ stmt.run_

/-- the value of a counter -/
def putCounter (sym : Symbol) (addr : Int64) : CGM Unit := do
  putAddr sym.baseReg addr.toInt32
  putOp .rdmem

/-- `ASTRangedLoop` -/
def visitRangedLoop (ctrvar : Str) (begin stop : Visit) (inc : Option Visit) (stmt : Visit) :
    Visit := do
  begin.run_
  let ctrSym ← getSym ctrvar
  match ctrSym.addr with
  | none =>
    fail ("ASTRangedLoop: Counter variable \"" ++ ctrvar.text ++ "\" has not been declared.")
  | some addr => do
    castTo (some ctrSym) none true
    assignVar ctrSym
    let cond : CGM Unit := do
      putCounter (← reload ctrSym) addr
      stop.run_
      putOp .lequ
    let body : CGM Unit := do
      stmt.run_
      match inc with
      | some inc => inc.run_
      | none => pushIntConst 1
      putCounter (← reload ctrSym) addr
      putOp .add
      assignVar (← reload ctrSym)
    emitLoop cond body

/-- the loop that a jump out of `loopDepth` inner loops is about -/
def targetLoop (curLoop : List Nat) (loopDepth : Int64) : Option Nat :=
  let size := curLoop.length
  let depth := if loopDepth.toUInt64.toNat ≥ size || loopDepth < 0 then size - 1
    else loopDepth.toInt.toNat
  curLoop[size - depth - 1]?

/-- `ASTLoopBreak` -/
def visitLoopBreak (numLoops : Int64) : Visit := do
  let s ← get
  if s.curLoop.isEmpty then
    fail "ASTLoopBreak: Not in a loop."
  else
    let loop ← deref (targetLoop s.curLoop numLoops)
    let pos ← putJump .jmp
    modify fun s => { s with loopEndComefroms := s.loopEndComefroms ++ [(loop, pos)] }
    return none

/-- `ASTLoopNext` -/
def visitLoopNext (numLoops : Int64) : Visit := do
  let s ← get
  if s.curLoop.isEmpty then
    fail "ASTLoopNext: Not in a loop."
  else
    let loop ← deref (targetLoop s.curLoop numLoops)
    let pos ← putJump .jmp
    modify fun s => { s with loopBeginComefroms := s.loopBeginComefroms ++ [(loop, pos)] }
    return none

/-! ## labels -/

/-- `ASTLabel`; the first one of a name counts -/
def visitLabel (ident : Str) : Visit := do
  let addr ← tellp
  modify fun s => { s with
    labels := if (s.labels.lookup ident).isSome then s.labels else s.labels ++ [(ident, addr)] }
  return none

/-- `ASTJump` -/
def visitJump (label : Str) (isComefrom : Bool) : Visit := do
  if isComefrom then
    fail "Comefrom is not (yet) implemented..."
  else
    let pos ← putJump .jmp
    modify fun s => { s with gotoComefroms := s.gotoComefroms ++ [(label, pos)] }
    return none

/-! ## syntax trees -/

/-- push a constant of a type -/
def visitConst (push : CGM Unit) (sym : Symbol) : Visit := do
  push
  return some sym

mutual

/-- generate the code of a syntax tree -/
def visit : AST → Visit
  | .uminus term => visitUMinus (visit term)
  | .plus term1 term2 inverted => visitPlus (visit term1) (visit term2) inverted
  | .mult term1 term2 inverted => visitMult (visit term1) (visit term2) inverted
  | .mod term1 term2 => visitMod (visit term1) (visit term2)
  | .pow term1 term2 => visitPow (visit term1) (visit term2)
  | .norm term => visitNorm (visit term)
  | .varDecl vars optAssign intentIn intentOut =>
    visitVarDecl vars (visitOpt optAssign) intentIn intentOut
  | .var ident => pushVar ident
  | .assign idents expr => visitAssign idents (visitOpt expr)
  | .arrayAccess term num1 num2 ranged12 =>
    visitArrayAccess (visit term) (visitNum num1) (visitNum num2) ranged12
  | .arrayAssign ident expr num1 num2 ranged12 =>
    visitArrayAssign ident (visit expr) (visitNum num1) (visitNum num2) ranged12
  | .realConst val => visitConst (pushRealConst val) realConst
  | .intConst val => visitConst (pushIntConst val) intConst
  | .cplxConst val => visitConst (pushCplxConst val) cplxConst
  | .quatConst val => visitConst (pushQuatConst val) quatConst
  | .boolConst val => visitConst (pushBoolConst (if val then 1 else 0)) boolConst
  | .strConst val => visitConst (pushStrConst val) strConst
  | .func ident args rets stmts => visitFunc ident args rets (visit stmts)
  | .call ident args => visitCall ident (visitList args)
  | .ret rets onlyJumpToFuncEnd => visitReturn (visitOptList rets) onlyJumpToFuncEnd
  | .stmts stmts => visitStmts (visitList stmts)
  | .cond cond ifStmt elseStmt => visitCond (visit cond) (visit ifStmt) (visitOpt elseStmt)
  | .cases expr cases defaultStmts =>
    visitCases (visit expr) (visitPairs cases) (visitOpt defaultStmts)
  | .loop cond stmt => visitLoop (visit cond) (visit stmt)
  | .rangedLoop ident begin stop inc stmt =>
    visitRangedLoop ident (visit begin) (visit stop) (visitOpt inc) (visit stmt)
  | .loopBreak numLoops => visitLoopBreak numLoops
  | .loopNext numLoops => visitLoopNext numLoops
  | .comp term1 term2 op => visitComp (visit term1) (visit term2) op
  | .bool term1 term2 op => visitBool (visit term1) (visitOpt term2) op
  | .exprList exprs arrayType => visitExprList (visitList exprs) arrayType
  | .label ident => visitLabel ident
  | .jump label isComefrom => visitJump label isComefrom

/-- a node that may be missing -/
def visitOpt : Option AST → Option Visit
  | none => none
  | some ast => some (visit ast)

/-- a list of nodes -/
def visitList : List AST → List Visit
  | [] => []
  | ast :: asts => visit ast :: visitList asts

/-- a list of nodes that may be missing -/
def visitOptList : Option (List AST) → Option (List Visit)
  | none => none
  | some asts => some (visitList asts)

/-- a list of pairs of nodes -/
def visitPairs : List (AST × AST) → List (Visit × Visit)
  | [] => []
  | (ast1, ast2) :: asts => (visit ast1, visit ast2) :: visitPairs asts

/-- an index -/
def visitNum : Option AST → Option Index
  | none => none
  | some (.exprList exprs _) => some (.list (visitList exprs))
  | some ast => some (.single (visit ast))

end

end MuF
