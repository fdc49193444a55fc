import MuF.VM.Mem
import MuF.VM.Ops

/-!
# Execution

* `callExternal`: the external functions;
* `execOp`: one instruction after its byte was fetched;
* `step`: one turn of the main loop of `VM::Run`, with interrupt requests.
-/

set_option linter.unusedVariables false

namespace MuF

open Bytes Exec

section
variable [MathLib TReal]

/-! ## operators on the stack -/

/-- a result in place of the datum on top of the stack, if there is one -/
def replaceTop (res : Res (Option TData)) : VMM Unit := do
  match ← liftE res with
  | some data => do
    let _ ← popData
    pushVal data
  | none => pure ()

/-- `OpCast` -/
def opCast (tgt : VMType) : VMM Unit := do
  let data ← topData
  let s ← get
  replaceTop (castData s.eps s.prec tgt data)

/-- `OpCastToArray` -/
def opCastToArray (tgt : VMType) (size : Int32) : VMM Unit := do
  let data ← topData
  replaceTop (castToArray tgt size data)

/-- pop two operands, the second one first, and push the result -/
def opBinary (f : TData → TData → Res TData) : VMM Unit := do
  let val2 ← popData
  let val1 ← popData
  let res ← liftE (f val1 val2)
  pushVal res

/-- unary minus -/
def opUsub : VMM Unit := do
  let val ← popData
  let res ← liftE (negate val)
  pushVal res

/-- `OpMatrixMultiplication` -/
def opMatrixMultiplication : VMM Unit := do
  let cols2 ← popInt
  let rows2 ← popInt
  let cols1 ← popInt
  let rows1 ← popInt
  let val2 ← popData
  let val1 ← popData
  let res ← liftE (matrixMultiplication rows1 cols1 rows2 cols2 val1 val2)
  pushVal res

/-- `OpLogical` -/
def opLogical (op : LogicOp) : VMM Unit := do
  let val2 ← popBool
  let val1 ← popBool
  pushBool (logical op val1 val2)

/-- logical negation -/
def opNot : VMM Unit := do
  let val ← popBool
  pushBool (!val)

/-- `OpComparison` -/
def opComparison (op : CompOp) : VMM Unit := do
  let val2 ← popData
  let val1 ← popData
  let s ← get
  let res ← liftE (comparison s.eps op val1 val2)
  pushBool res

/-- binary negation -/
def opBinNot : VMM Unit := do
  match ← popData with
  | .int x => pushVal (.int (~~~x))
  | _ => throw (.throw "Invalid data type for binary not.")

/-! ## arrays -/

/-- element of an array or string; strings give substrings -/
def arrayElem (arr : TData) (idx : Int64) : Res TData :=
  let at' {E : Type} (v : List E) (f : E → TData) : Res TData :=
    (safeArrayIndex 64 idx.toInt v.length).bind fun i =>
      match v[i.toNat]? with
      | some x => .ok (f x)
      | none => .error (.ub "index")
  match arr with
  | .realArr v => at' v .real
  | .intArr v => at' v .int
  | .cplxArr v => at' v .cplx
  | .quatArr v => at' v .quat
  | .str v => at' v fun c => .str [c]
  | _ => .error (.throw "Cannot index non-array type.")

/-- the indices from `idx1` to `idx2`, upwards or downwards, both included -/
def indexRange (idx1 idx2 : Int) : List Int :=
  if idx2 ≥ idx1 then
    (List.range ((idx2 - idx1).toNat + 1)).map fun (i : Nat) => idx1 + (i : Int)
  else
    (List.range ((idx1 - idx2).toNat + 1)).map fun (i : Nat) => idx1 - (i : Int)

/-- range of elements of an array or string -/
def arrayElemRange (arr : TData) (idx1 idx2 : Int64) : Res TData :=
  let range {E : Type} (v : List E) (f : List E → TData) : Res TData := do
    let i1 ← safeArrayIndex 64 idx1.toInt v.length
    let i2 ← safeArrayIndex 64 idx2.toInt v.length
    return f ((indexRange i1 i2).filterMap fun i => v[i.toNat]?)
  match arr with
  | .realArr v => range v .realArr
  | .intArr v => range v .intArr
  | .cplxArr v => range v .cplxArr
  | .quatArr v => range v .quatArr
  | .str v => range v .str
  | _ => .error (.throw "Cannot index non-array type.")

/-- an address moved by a 64-bit amount -/
def addrAdd (addr : Int32) (n : Int) : Int32 := Int32.ofInt (addr.toInt + n)

/-- `WriteArrayElem`; `addr` is behind the descriptor -/
def writeArrayElem (E : Type) [Elem E] (addr : Int32) (data : TData) (idx : Int64) :
    VMM Unit := do
  match (Elem.ofData data : Option E) with
  | none => throw (.throw "Array element has to be of scalar type.")
  | some val => do
    let veclen ← readMemRaw Int32 addr
    let i ← liftE (safeArrayIndex 32 idx.toInt32.toInt veclen.toInt)
    writeMemRaw (addrAdd (addr + 4) (i * Raw.size E)) val

/-- write elements one after the other, `step` bytes apart; `none` is one too many -/
def writeElems {E : Type} [Raw E] (step : Int) (err : String) : Int32 → List (Option E) → VMM Unit
  | _, [] => pure ()
  | addr, some val :: vals => do
    writeMemRaw addr val
    writeElems step err (addrAdd addr step) vals
  | addr, none :: vals => throw (.throw err)

/-- write the `num`-th values of `src` to the range of indices of an array behind its length -/
def writeRange {E : Type} [Raw E] (addr : Int32) (src : Nat → Option E) (err : String)
    (idx1 idx2 : Int64) : VMM Unit := do
  let veclen ← readMemRaw Int32 addr
  let i1 ← liftE (safeArrayIndex 32 idx1.toInt32.toInt veclen.toInt)
  let i2 ← liftE (safeArrayIndex 32 idx2.toInt32.toInt veclen.toInt)
  let delta : Int := if i2 ≥ i1 then 1 else -1
  writeElems (Raw.size E * delta) err (addrAdd (addr + 4) (i1 * Raw.size E))
    ((List.range ((i2 - i1).natAbs + 1)).map src)

/-- `WriteArrayElemRange`; `addr` is behind the descriptor -/
def writeArrayElemRange (E : Type) [Elem E] (addr : Int32) (data : TData) (idx1 idx2 : Int64) :
    VMM Unit := do
  match (Elem.ofArr data : Option (List E)), (Elem.ofData data : Option E) with
  | some vec, _ => writeRange addr (fun i => vec[i]?) "Array index out of bounds." idx1 idx2
  | none, some val => writeRange addr (fun _ => some val) "" idx1 idx2
  | none, none => throw (.throw "Array range has to be of array or scalar type.")

/-- `RDARR` -/
def opRdarr : VMM Unit := do
  let idx ← popInt
  let arr ← popData
  let res ← liftE (arrayElem arr idx)
  pushVal res

/-- `RDARRR` -/
def opRdarrr : VMM Unit := do
  let idx2 ← popInt
  let idx1 ← popInt
  let arr ← popData
  let res ← liftE (arrayElemRange arr idx1 idx2)
  pushVal res

/-- `WRARR` -/
def opWrarr : VMM Unit := do
  let idx ← popInt
  let data ← popData
  let addr ← popAddress
  let tyval ← readMemType addr
  match VMType.ofCode tyval with
  | some .realArr => writeArrayElem TReal (addr + 1) data idx
  | some .intArr => writeArrayElem Int64 (addr + 1) data idx
  | some .cplxArr => writeArrayElem (Cplx TReal) (addr + 1) data idx
  | some .quatArr => writeArrayElem (Quat TReal) (addr + 1) data idx
  | _ => throw (.throw "Cannot index non-array type.")

/-- `WRARRR` -/
def opWrarrr : VMM Unit := do
  let idx2 ← popInt
  let idx1 ← popInt
  let data ← popData
  let addr ← popAddress
  let tyval ← readMemType addr
  match VMType.ofCode tyval with
  | some .realArr => writeArrayElemRange TReal (addr + 1) data idx1 idx2
  | some .intArr => writeArrayElemRange Int64 (addr + 1) data idx1 idx2
  | some .cplxArr => writeArrayElemRange (Cplx TReal) (addr + 1) data idx1 idx2
  | some .quatArr => writeArrayElemRange (Quat TReal) (addr + 1) data idx1 idx2
  | some .str =>
    match data with
    | .str rhs =>
      writeRange (addr + 1) (fun i => rhs[i]?) "String index out of bounds." idx1 idx2
    | _ => throw (.throw "String range has to be of string type.")
  | _ => throw (.throw "Cannot index non-array type.")

/-- the elements on the stack, the last one first -/
def popElems (E : Type) [Elem E] : Nat → List E → VMM (List E)
  | 0, vec => pure vec
  | num+1, vec => do
    match (Elem.ofData (← popData) : Option E) with
    | some elem => popElems E num (elem :: vec)
    | none => throw (.throw "Wrong element type for array.")

/-- `PopArray` of individual elements -/
def popArrayElems (E : Type) [Elem E] : VMM (List E) := do
  let num ← popAddress
  if num < 0 then
    throw (.throw "length_error")
  else
    popElems E num.toInt.toNat []

/-- `MAKEREALARR`, `MAKEINTARR`, `MAKECPLXARR`, `MAKEQUATARR` -/
def opMakeArr (E : Type) [Elem E] : VMM Unit := do
  let vec ← popArrayElems E
  pushVal (Elem.toArr vec)

/-! ## external functions -/

/-- `std::get<m_realidx>(PopData())` after a cast -/
def popReal : VMM TReal := do
  opCast .real
  match ← popData with
  | .real x => return x
  | _ => throw (.throw "bad_variant_access")

/-- `std::get<m_intidx>(PopData())` after a cast -/
def popCastInt : VMM Int64 := do
  opCast .int
  popInt

/-- `std::get<m_stridx>(PopData())` -/
def popStr : VMM Str := do
  match ← popData with
  | .str x => return x
  | _ => throw (.throw "bad_variant_access")

/-- text to the standard output -/
def print (s : Str) : VMM Unit := modify fun vm => { vm with cout := vm.cout ++ s }

/-- `std::cin >> val` with a value-initialised `val` -/
def readCin {α : Type} (zero : α) (scan : Str → Bool × α × Str) : VMM α := do
  let s ← get
  if s.cin.fail then
    return zero
  else
    let (ok, val, rest) := scan s.cin.chars
    set { s with cin := ⟨rest, !ok⟩ }
    return val

/-- absolute value or norm -/
def extAbs (data : TData) : Res TData :=
  match data with
  | .real x => .ok (.real (if MathLib.lt x MathLib.zero then MathLib.neg x else x))
  -- the integer is asked for as a real
  | .int _ => .error (.throw "bad_variant_access")
  | .realArr v => .ok (.real (MathLib.norm v))
  | _ => .ok data

/-- a function of one real -/
def extReal (f : TReal → TReal) : VMM TData := do
  let arg ← popReal
  return .real (f arg)

/-- `SetISR` -/
def setISR (num addr : Int32) : VMM Unit :=
  if h : 0 ≤ num.toInt ∧ num.toInt.toNat < numInterrupts then
    modify fun s => { s with
      isrs := fun i => if i = ⟨num.toInt.toNat, h.2⟩ then some addr else s.isrs i }
  else
    throw (.ub "index of an interrupt")

/-- `CallExternal` -/
def callExternal (funcName : Str) : VMM TData :=
  if funcName = ascii "abs" ∨ funcName = ascii "fabs" ∨ funcName = ascii "norm" then do
    let data ← popData
    liftE (extAbs data)
  else if funcName = ascii "sqrt" then
    extReal MathLib.sqrt
  else if funcName = ascii "pow" then do
    let arg1 ← popReal
    let arg2 ← popReal
    return .real (MathLib.pow arg1 arg2)
  else if funcName = ascii "sin" then
    extReal MathLib.sin
  else if funcName = ascii "cos" then
    extReal MathLib.cos
  else if funcName = ascii "tan" then
    extReal MathLib.tan
  else if funcName = ascii "set_eps" then do
    let arg ← popReal
    modify fun s => { s with eps := arg }
    return .none
  else if funcName = ascii "set_prec" then do
    let arg ← popCastInt
    modify fun s => { s with prec := arg }
    return .none
  else if funcName = ascii "get_eps" then do
    let s ← get
    return .real s.eps
  else if funcName = ascii "to_string" then do
    opCast .str
    return .none
  else if funcName = ascii "strlen" then do
    opCast .str
    let arg ← popStr
    return .int (Int64.ofNat arg.length)
  else if funcName = ascii "write" then do
    opCast .str
    let arg ← popStr
    print (arg ++ [10])
    return .none
  else if funcName = ascii "write_no_cr" then do
    opCast .str
    let arg ← popStr
    print arg
    return .none
  else if funcName = ascii "read_real" then do
    opCast .str
    let arg ← popStr
    print arg
    let val ← readCin MathLib.zero MathLib.scan
    return .real val
  else if funcName = ascii "read_integer" then do
    opCast .str
    let arg ← popStr
    print arg
    let val ← readCin 0 scanInt
    return .int val
  else if funcName = ascii "set_isr" then do
    let num ← popCastInt
    let addr ← popAddress
    setISR num.toInt32 addr
    return .none
  else if funcName = ascii "sleep" then do
    let _ ← popCastInt
    return .none
  else if funcName = ascii "set_timer" then do
    let delay ← popCastInt
    modify fun s => { s with
      timerTicks := if delay < 0 then s.timerTicks else delay
      timerRunning := 0 ≤ delay }
    return .none
  else if funcName = ascii "set_debug" then do
    let arg ← popCastInt
    modify fun s => { s with debug := arg != 0 }
    return .none
  else
    return .none

/-! ## control flow -/

/-- `CALL` -/
def opCall : VMM Unit := do
  let funcaddr ← popAddress
  let framesize ← popInt
  let s ← get
  pushAddress s.ip .addrMem
  pushAddress s.bp .addrMem
  modify fun s => { s with
    bp := s.sp
    sp := Int32.ofInt (s.sp.toInt - framesize.toInt)
    ip := funcaddr }

/-- pop values while there are some above the frame; every pop moves the stack pointer upwards, so
that the number of bytes of the memory bounds their number -/
def popRetvals (framesize : Int64) : Nat → List TData → VMM (List TData)
  | 0, _ => throw (.ub "more values than bytes")
  | fuel+1, retvals => do
    let s ← get
    if s.sp.toInt64 + framesize < s.bp.toInt64 then
      let val ← popData
      popRetvals framesize fuel (retvals ++ [val])
    else
      return retvals

/-- pop `num` data -/
def popDatas : Nat → VMM Unit
  | 0 => pure ()
  | num+1 => do
    let _ ← popData
    popDatas num

/-- push data, the first one first -/
def pushDatas : List TData → VMM Unit
  | [] => pure ()
  | val :: vals => do
    pushData val .unknown false
    pushDatas vals

/-- `RET` -/
def opRet : VMM Unit := do
  let numArgs ← popInt
  let framesize ← popInt
  let s ← get
  let retvals ← popRetvals framesize (s.memsize.toInt.toNat + 1) []
  let s ← get
  onlyIf s.zeropoppedvals (memset s.sp.toInt (s.bp - s.sp).toInt)
  modify fun s => { s with sp := s.bp }
  let bp ← popAddress
  modify fun s => { s with bp := bp }
  let ip ← popAddress
  modify fun s => { s with ip := ip }
  popDatas numArgs.toInt.toNat
  pushDatas retvals

/-- `ADDFRAME` -/
def opAddframe : VMM Unit := do
  let framesize ← popInt
  modify fun s => { s with sp := Int32.ofInt (s.sp.toInt - framesize.toInt) }

/-- `REMFRAME` -/
def opRemframe : VMM Unit := do
  let framesize ← popInt
  let s ← get
  onlyIf s.zeropoppedvals (memset s.sp.toInt framesize.toInt)
  modify fun s => { s with sp := Int32.ofInt (s.sp.toInt + framesize.toInt) }

/-- `PUSH` -/
def opPush : VMM Unit := do
  let s ← get
  let (ty, val) ← readMemData s.ip
  let size ← getDataSize val
  modify fun s => { s with ip := s.ip + (size + 1) }
  pushData val ty true

/-- `RDMEM` -/
def opRdmem : VMM Unit := do
  let addr ← popAddress
  let (ty, val) ← readMemData addr
  pushData val ty true

/-- `WRMEM` -/
def opWrmem : VMM Unit := do
  let addr ← popAddress
  let val ← popData
  writeMemData addr val

/-- `JMP` -/
def opJmp : VMM Unit := do
  let addr ← popAddress
  modify fun s => { s with ip := addr }

/-- `JMPCND` -/
def opJmpcnd : VMM Unit := do
  let addr ← popAddress
  let cond ← popBool
  onlyIf cond (modify fun s => { s with ip := addr })

/-- `EXTCALL` -/
def opExtcall : VMM Unit := do
  let funcname ← popStr
  let retval ← callExternal funcname
  pushData retval .unknown false

/-- casts to arrays pop the number of elements first -/
def opToArr (tgt : VMType) : VMM Unit := do
  let size ← popAddress
  opCastToArray tgt size

/-! ## the main loop -/

/-- what the main loop does after an instruction -/
inductive Status
  /-- goes on -/
  | running
  /-- ends, `Run` returns true -/
  | halted
  /-- ends at an unknown instruction, `Run` returns false -/
  | invalid
  deriving DecidableEq, Repr

/-- an instruction that is not the last one -/
def andGoOn (x : VMM Unit) : VMM Status := do
  x
  return .running

/-- one instruction after its byte was fetched -/
def execOp (op : Option OpCode) : VMM Status :=
  match op with
  | some .halt => pure .halted
  | some .nop => pure .running
  | some .push => andGoOn opPush
  | some .wrmem => andGoOn opWrmem
  | some .rdmem => andGoOn opRdmem
  | some .rdarr => andGoOn opRdarr
  | some .rdarrr => andGoOn opRdarrr
  | some .wrarr => andGoOn opWrarr
  | some .wrarrr => andGoOn opWrarrr
  | some .makerealarr => andGoOn (opMakeArr TReal)
  | some .makeintarr => andGoOn (opMakeArr Int64)
  | some .makecplxarr => andGoOn (opMakeArr (Cplx TReal))
  | some .makequatarr => andGoOn (opMakeArr (Quat TReal))
  | some .usub => andGoOn opUsub
  | some .add => andGoOn (opBinary (arithmetic .add))
  | some .sub => andGoOn (opBinary (arithmetic .sub))
  | some .mul => andGoOn (opBinary (arithmetic .mul))
  | some .div => andGoOn (opBinary (arithmetic .div))
  | some .mod => andGoOn (opBinary (arithmetic .mod))
  | some .pow => andGoOn (opBinary (arithmetic .pow))
  | some .matmul => andGoOn opMatrixMultiplication
  | some .and => andGoOn (opLogical .and)
  | some .or => andGoOn (opLogical .or)
  | some .xor => andGoOn (opLogical .xor)
  | some .not => andGoOn opNot
  | some .gt => andGoOn (opComparison .gt)
  | some .lt => andGoOn (opComparison .lt)
  | some .gequ => andGoOn (opComparison .gequ)
  | some .lequ => andGoOn (opComparison .lequ)
  | some .equ => andGoOn (opComparison .equ)
  | some .nequ => andGoOn (opComparison .nequ)
  | some .binand => andGoOn (opBinary (binary .and))
  | some .binor => andGoOn (opBinary (binary .or))
  | some .binxor => andGoOn (opBinary (binary .xor))
  | some .binnot => andGoOn opBinNot
  | some .shl => andGoOn (opBinary (binary .shl))
  | some .shr => andGoOn (opBinary (binary .shr))
  | some .rotl => andGoOn (opBinary (binary .rotl))
  | some .rotr => andGoOn (opBinary (binary .rotr))
  | some .tor => andGoOn (opCast .real)
  | some .toi => andGoOn (opCast .int)
  | some .toc => andGoOn (opCast .cplx)
  | some .toq => andGoOn (opCast .quat)
  | some .tob => andGoOn (opCast .bool)
  | some .tos => andGoOn (opCast .str)
  | some .torealarr => andGoOn (opToArr .realArr)
  | some .tointarr => andGoOn (opToArr .intArr)
  | some .tocplxarr => andGoOn (opToArr .cplxArr)
  | some .toquatarr => andGoOn (opToArr .quatArr)
  | some .jmp => andGoOn opJmp
  | some .jmpcnd => andGoOn opJmpcnd
  | some .call => andGoOn opCall
  | some .ret => andGoOn opRet
  | some .extcall => andGoOn opExtcall
  | some .addframe => andGoOn opAddframe
  | some .remframe => andGoOn opRemframe
  | some .invalid | none => pure .invalid

/-- `RequestInterrupt` -/
def VM.requestInterrupt (s : VM) (num : Fin numInterrupts) : VM :=
  { s with irqs := fun i => if i = num then true else s.irqs i }

/-- the first requested interrupt among those given that has a service routine; requests up to it
are taken back -/
def VM.takeIrq : List (Fin numInterrupts) → VM → Option Int32 × VM
  | [], s => (none, s)
  | i :: is, s =>
    if s.irqs i then
      let s' := { s with irqs := fun j => if j = i then false else s.irqs j }
      match s.isrs i with
      | some addr => (some addr, s')
      | none => VM.takeIrq is s'
    else
      VM.takeIrq is s

/-- the next instruction: a call of an interrupt service routine or the byte at `ip` -/
def fetch : VMM (Option OpCode) := do
  let s ← get
  let (isr, s') := VM.takeIrq (List.finRange numInterrupts) s
  set s'
  match isr with
  | some addr => do
    pushAddress addr .addrMem
    return some .call
  | none => do
    let bs ← readBytes s'.ip.toInt 1
    modify fun s => { s with ip := s.ip + 1 }
    return OpCode.ofCode (bs.headD 0)

/-- the instruction pointer wraps around at the end of the memory -/
def wrapIp : VMM Unit := do
  let s ← get
  if s.ip ≥ s.memsize then
    if s.memsize = 0 then
      throw (.ub "modulo zero")
    else
      set { s with ip := s.ip % s.memsize }
  else
    pure ()

/-- one turn of the main loop -/
def step : VMM Status := do
  checkPointerBounds
  let op ← fetch
  let status ← execOp op
  if status = .invalid then
    return status
  else
    wrapIp
    return status

end

end MuF
