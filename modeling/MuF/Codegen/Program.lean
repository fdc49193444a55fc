import MuF.Codegen.Visit

/-!
# Programs

* `start`, `finish`: the code around a program, its constants, and the addresses that are known
  only at the end;
* `compile`: the code of a program.
-/

set_option linter.unusedVariables false

namespace MuF

open Exec

/-- `Start`; there is no start function, the program begins in the global scope -/
def start : CGM Unit := do
  let framesize ← getStackFrameSize none
  onlyIf (framesize > 0) do
    pushIntConst framesize
    putOp .addframe

/-- write the constants block and the addresses of the constants -/
def finishConsts : CGM Unit := do
  let consttabPos ← tellp
  let s ← get
  writeOut s.consttab.ostr
  s.constAddrs.forM fun (addrPos, constAddr) =>
    patch addrPos (Int32.ofInt (constAddr + consttabPos))

/-- fill in the address of a called function -/
def finishCall (call : FuncComefrom) : CGM Unit := do
  let sym ← getSym call.name
  match sym.addr with
  | none => fail ("Function address for \"" ++ call.name.text ++ "\" not known.")
  | some addr =>
    let numArgs := Int64.ofNat sym.argty.length
    if call.numArgs.toInt64 ≠ numArgs then
      fail ("Function \"" ++ call.name.text ++ "\" takes " ++ toString numArgs ++
        " arguments, but " ++ toString call.numArgs ++ " were given.")
    else
      patch call.pos (Int32.ofInt (addr.toInt - call.pos) - vmTypeSize .addrIp true)

/-- fill in the address of a jump to a label -/
def finishGoto (label : Str) (gotoPos : Nat) : CGM Unit := do
  let s ← get
  match s.labels.lookup label with
  | none => fail ("Label \"" ++ label.text ++ "\" not found.")
  | some labelPos => patch gotoPos (toSkip labelPos gotoPos)

/-- `Finish` -/
def finish : CGM Nat := do
  let framesize ← getStackFrameSize none
  onlyIf (framesize > 0) do
    pushIntConst framesize
    putOp .remframe
  putOp .halt
  finishConsts
  let s ← get
  s.funcComefroms.forM finishCall
  let s ← get
  s.gotoComefroms.forM fun (label, pos) => finishGoto label pos
  modify fun s => { s with gotoComefroms := [], labels := [] }
  seekEnd
  tellp

/-- generate the code of a program -/
def compile (stmts : List AST) : CGM Nat := do
  start
  (visitList stmts).forM Visit.run_
  finish

end MuF
