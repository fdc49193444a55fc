import MuF.VM.State

/-!
# Memory and stack operations

The operations of `mem.h` and of the first half of `vm.cpp`, with the checks they make:

* raw values: `topRaw`, `popRaw`, `pushRaw`, `readMemRaw`, `writeMemRaw`;
* strings, complex numbers, quaternions and arrays;
* addresses and bools;
* data with their descriptor: `topData`, `popData`, `pushData`, `readMemData`, `writeMemData`.
-/

set_option linter.unusedVariables false

namespace MuF

open Bytes Exec

/-- `sizeof` as an address -/
abbrev sizeOf32 (α : Type) [Raw α] : Int32 := Int32.ofNat (Raw.size α)

/-- move the stack pointer -/
def moveSp (n : Int32) : VMM Unit := modify fun s => { s with sp := s.sp + n }

/-! ## raw values -/

/-- `ReadMemRaw` of a primitive type, a complex number or a quaternion -/
def readMemRaw (α : Type) [Raw α] (addr : Int32) : VMM α := do
  checkMemoryBounds addr (sizeOf32 α)
  let bs ← readBytes addr.toInt (Raw.size α)
  return Raw.dec bs

/-- `WriteMemRaw` of a primitive type, a complex number or a quaternion -/
def writeMemRaw {α : Type} [Raw α] (addr : Int32) (val : α) : VMM Unit := do
  checkMemoryBounds addr (sizeOf32 α)
  writeBytes addr.toInt (Raw.enc val)

/-- `TopRaw`, `TopComplex`, `TopQuaternion` -/
def topRaw (α : Type) [Raw α] (spOffs : Int32) : VMM α := do
  let s ← get
  let addr := s.sp + spOffs
  checkMemoryBounds addr (sizeOf32 α)
  let bs ← readBytes addr.toInt (Raw.size α)
  return Raw.dec bs

/-- `PopRaw`, `PopComplex`, `PopQuaternion` -/
def popRaw (α : Type) [Raw α] : VMM α := do
  let s ← get
  checkMemoryBounds s.sp (sizeOf32 α)
  let bs ← readBytes s.sp.toInt (Raw.size α)
  onlyIf s.zeropoppedvals (writeBytes s.sp.toInt (List.replicate (Raw.size α) 0))
  moveSp (sizeOf32 α)
  return Raw.dec bs

/-- `PushRaw`: the bounds are checked above the stack pointer -/
def pushRaw {α : Type} [Raw α] (val : α) : VMM Unit := do
  let s ← get
  checkMemoryBounds s.sp (sizeOf32 α)
  moveSp (-sizeOf32 α)
  writeBytes (s.sp - sizeOf32 α).toInt (Raw.enc val)

/-- the descriptor of a pushed datum -/
def pushDescr (ty : VMType) : VMM Unit := pushRaw ty.code

/-- `PushComplex`, `PushQuaternion`: the bounds are checked below the stack pointer -/
def pushTuple {α : Type} [Raw α] (val : α) (ty : VMType) (raw : Bool) : VMM Unit := do
  let s ← get
  checkMemoryBounds s.sp (-sizeOf32 α)
  moveSp (-sizeOf32 α)
  writeBytes (s.sp - sizeOf32 α).toInt (Raw.enc val)
  onlyIf (!raw) (pushDescr ty)

/-- `PushComplex` -/
def pushComplex (val : Cplx TReal) (raw : Bool) : VMM Unit := pushTuple val .cplx raw

/-- `PushQuaternion` -/
def pushQuaternion (val : Quat TReal) (raw : Bool) : VMM Unit := pushTuple val .quat raw

/-! ## strings and arrays

Strings and arrays are both a length followed by the elements, and their operations differ in the
element type only. -/

section
variable (E : Type) [Raw E]

/-- a container of `num` elements from the bytes at index `a`; its constructor takes a `size_t`,
so that a negative number asks for more than it can hold -/
def readElems (a : Int) (num : Int32) : VMM (List E) := do
  if num < 0 then
    throw (.throw "length_error")
  else
    let bs ← readBytes a (num.toInt.toNat * Raw.size E)
    return decElems E num.toInt.toNat bs

variable {E} in
/-- `memcpy` of a container's elements to index `a`; the number of bytes is an address -/
def copyElems (a : Int) (v : List E) (n : Int32) : VMM Unit :=
  if n < 0 then
    throw (.ub "write outside of the memory")
  else
    writeBytes a ((encElems v).take n.toInt.toNat)

/-- the bytes of popped elements are zeroed, by one `memset` if the type allows it -/
def clearElems (pod : Bool) (a : Int) (num : Int32) : VMM Unit :=
  if pod then
    memset a (num * sizeOf32 E).toInt
  else
    writeBytes a (List.replicate (num.toInt.toNat * Raw.size E) 0)

/-- pop a length and as many elements -/
def popSeq (pod : Bool) : VMM (List E) := do
  let num ← popRaw Int32
  let s ← get
  checkMemoryBounds s.sp (num * sizeOf32 E)
  let vec ← readElems E s.sp.toInt num
  moveSp (num * sizeOf32 E)
  onlyIf s.zeropoppedvals (clearElems E pod s.sp.toInt num)
  return vec

/-- the length and as many elements at an offset from the stack pointer -/
def topSeq (spOffs : Int32) : VMM (List E) := do
  let num ← topRaw Int32 spOffs
  let s ← get
  let addr := s.sp + spOffs + 4
  checkMemoryBounds addr (num * sizeOf32 E)
  readElems E addr.toInt num

variable {E} in
/-- push elements, their number and the descriptor -/
def pushSeq (vec : List E) (ty : VMType) (raw : Bool) : VMM Unit := do
  let num := Int32.ofNat vec.length
  let s ← get
  checkMemoryBounds s.sp (-num * sizeOf32 E)
  moveSp (-(num * sizeOf32 E))
  copyElems (s.sp - num * sizeOf32 E).toInt vec (num * sizeOf32 E)
  pushRaw num
  onlyIf (!raw) (pushDescr ty)

/-- read a length and as many elements -/
def readSeq (addr : Int32) : VMM (List E) := do
  let num ← readMemRaw Int32 addr
  checkMemoryBounds (addr + 4) (num * sizeOf32 E)
  readElems E (addr + 4).toInt num

variable {E} in
/-- write the number of elements and the elements -/
def writeSeq (addr : Int32) (vec : List E) : VMM Unit := do
  let num := Int32.ofNat vec.length
  checkMemoryBounds addr (4 + num * sizeOf32 E)
  writeMemRaw addr num
  copyElems (addr + 4).toInt vec (num * sizeOf32 E)

end

/-- `PopString` -/
def popString : VMM Str := popSeq UInt8 true

/-- `TopString` -/
def topString (spOffs : Int32) : VMM Str := topSeq UInt8 spOffs

/-- `PushString` -/
def pushString (str : Str) (raw : Bool) : VMM Unit := pushSeq str .str raw

/-- `ReadMemRaw` of a string -/
def readMemStr (addr : Int32) : VMM Str := readSeq UInt8 addr

/-- `WriteMemRaw` of a string -/
def writeMemStr (addr : Int32) (str : Str) : VMM Unit := writeSeq addr str

/-- `PopArray` with raw elements -/
def popArray (E : Type) [Elem E] : VMM (List E) := popSeq E (Elem.isPod E)

/-- `TopArray` -/
def topArray (E : Type) [Elem E] (spOffs : Int32) : VMM (List E) := topSeq E spOffs

/-- `PushArray` -/
def pushArray {E : Type} [Elem E] (vec : List E) (raw : Bool) : VMM Unit :=
  pushSeq vec (Elem.arrTy E) raw

/-- `ReadArrayRaw` -/
def readArrayRaw (E : Type) [Elem E] (addr : Int32) : VMM (List E) := readSeq E addr

/-- `WriteArray` -/
def writeArray {E : Type} [Elem E] (addr : Int32) (vec : List E) (raw : Bool) : VMM Unit :=
  if raw then
    writeSeq addr vec
  else do
    writeMemRaw addr (Elem.arrTy E).code
    writeSeq (addr + 1) vec

/-! ## addresses -/

/-- the register an address is relative to; `none` for descriptors of other types -/
def VM.base (s : VM) : VMType → Option Int32
  | .addrMem => some 0
  | .addrIp => some s.ip
  | .addrSp => some s.sp
  | .addrBp => some s.bp
  | .addrGbp => some s.gbp
  | _ => none

/-- `PopAddress` -/
def popAddress : VMM Int32 := do
  let regval ← popRaw UInt8
  let addr ← popRaw Int32
  let s ← get
  match (VMType.ofCode regval).bind s.base with
  | some reg => return addr + reg
  | none => throw (.throw "Unknown address base register.")

/-- `PushAddress` -/
def pushAddress (addr : Int32) (ty : VMType) : VMM Unit := do
  pushRaw addr
  pushDescr ty

/-! ## data with their descriptor -/

/-- error of an operation on a descriptor it does not know -/
def unknownType (what : String) (tyval : UInt8) : Err :=
  .throw s!"{what}: Data type {tyval} ({vmTypeName tyval}) not yet implemented."

/-- the datum of a descriptor, by the readers for fixed-width values and for strings and arrays -/
def dataOf (raw : (α : Type) → [Raw α] → VMM α)
    (seq : (E : Type) → [Raw E] → (pod : Bool) → VMM (List E)) (what : String) (tyval : UInt8) :
    VMM TData := do
  match VMType.ofCode tyval with
  | some .real => return .real (← raw TReal)
  | some .int => return .int (← raw Int64)
  | some .cplx => return .cplx (← raw (Cplx TReal))
  | some .quat => return .quat (← raw (Quat TReal))
  | some .bool => return .bool (← raw UInt8)
  | some .addrMem | some .addrIp | some .addrSp | some .addrBp | some .addrGbp =>
    return .addr (← raw Int32)
  | some .str => return .str (← seq UInt8 true)
  | some .realArr => return .realArr (← seq TReal (Elem.isPod TReal))
  | some .intArr => return .intArr (← seq Int64 (Elem.isPod Int64))
  | some .cplxArr => return .cplxArr (← seq (Cplx TReal) (Elem.isPod (Cplx TReal)))
  | some .quatArr => return .quatArr (← seq (Quat TReal) (Elem.isPod (Quat TReal)))
  | some .unknown | none => throw (unknownType what tyval)

/-- `TopData` -/
def topData : VMM TData := do
  let tyval ← topRaw UInt8 0
  dataOf (fun α _ => topRaw α 1) (fun E _ _ => topSeq E 1) "TopData" tyval

/-- `PopData` -/
def popData : VMM TData := do
  let tyval ← popRaw UInt8
  dataOf (fun α _ => popRaw α) (fun E _ pod => popSeq E pod) "PopData" tyval

/-- `PushData` -/
def pushData (data : TData) (ty : VMType) (errOnUnknown : Bool) : VMM Unit :=
  match data with
  | .real x => do pushRaw x; pushDescr .real
  | .int x => do pushRaw x; pushDescr .int
  | .cplx x => pushComplex x false
  | .quat x => pushQuaternion x false
  | .bool x => do pushRaw x; pushDescr .bool
  | .addr x => do pushRaw x; pushDescr ty
  | .str x => pushString x false
  | .realArr x => pushArray x false
  | .intArr x => pushArray x false
  | .cplxArr x => pushArray x false
  | .quatArr x => pushArray x false
  | .none => if errOnUnknown then throw (unknownType "PushData" ty.code) else pure ()

/-- `PushData` with its default arguments -/
def pushVal (data : TData) : VMM Unit := pushData data .unknown true

/-- `ReadMemType` -/
def readMemType (addr : Int32) : VMM UInt8 := readMemRaw UInt8 addr

/-- `ReadMemData` -/
def readMemData (addr : Int32) : VMM (VMType × TData) := do
  let tyval ← readMemType addr
  let data ← dataOf (fun α _ => readMemRaw α (addr + 1)) (fun E _ _ => readSeq E (addr + 1))
    s!"ReadMemData at address {addr}" tyval
  return ((VMType.ofCode tyval).getD .unknown, data)

/-- a descriptor and a value behind it, of a primitive type, a complex number or a quaternion -/
def writeMemTagged {α : Type} [Raw α] (addr : Int32) (ty : VMType) (val : α) : VMM Unit := do
  writeMemRaw addr ty.code
  writeMemRaw (addr + 1) val

/-- `WriteMemData` -/
def writeMemData (addr : Int32) (data : TData) : VMM Unit :=
  match data with
  | .real x => writeMemTagged addr .real x
  | .int x => writeMemTagged addr .int x
  | .cplx x => writeMemTagged addr .cplx x
  | .quat x => writeMemTagged addr .quat x
  | .bool x => writeMemTagged addr .bool x
  | .str x => do
    writeMemRaw addr VMType.str.code
    writeMemStr (addr + 1) x
  | .realArr x => writeArray addr x false
  | .intArr x => writeArray addr x false
  | .cplxArr x => writeArray addr x false
  | .quatArr x => writeArray addr x false
  | .none | .addr _ => throw (.throw "WriteMemData: Data type not yet implemented.")

/-! ## bools -/

/-- `PopBool` -/
def popBool : VMM Bool := do
  match ← popData with
  | .bool x => return x != 0
  | .int x => return x != 0
  | _ => throw (.throw "Data type not convertible to bool.")

/-- `PushBool` -/
def pushBool (val : Bool) : VMM Unit := pushVal (.bool (if val then 1 else 0))

/-- `std::get<m_intidx>(PopData())` -/
def popInt : VMM Int64 := do
  match ← popData with
  | .int x => return x
  | _ => throw (.throw "bad_variant_access")

/-- `GetDataSize` -/
def getDataSize (data : TData) : VMM Int32 :=
  match data with
  | .real _ | .int _ => pure 8
  | .cplx _ => pure 16
  | .quat _ => pure 32
  | .bool _ => pure 1
  | .addr _ => pure 4
  | .str s => pure (Int32.ofNat (4 + s.length))
  | _ => throw (.throw "GetDataSize: Data type not yet implemented.")

end MuF
