import MuF.Base.Exec
import MuF.VM.Types

/-!
# State of the virtual machine

* `Err`: how an operation fails, by a C++ exception or by undefined behaviour (an access outside
  the allocated memory among others);
* `VM`: memory, registers and options; `VMM` the computations on it;
* `checkMemoryBounds`, `checkPointerBounds`, and the accesses `readBytes`, `writeBytes`, `memset`
  to the allocated memory itself, which nothing checks.
-/

set_option linter.unusedVariables false

namespace MuF

open Bytes Exec

/-- failures -/
inductive Err
  /-- an exception with its message -/
  | throw (msg : String)
  /-- undefined behaviour -/
  | ub (what : String)
  deriving DecidableEq, Repr

/-- what the implementation leaves open: `sizeof(t_data)`, which has room for a quaternion and
the index of the variant -/
class Platform where
  sizeofData : Nat
  sizeofData_ge : 33 ≤ sizeofData

/-- a common layout: the quaternion, the index and padding to eight bytes -/
abbrev Platform.packed : Platform := ⟨40, Nat.le_of_ble_eq_true rfl⟩

/-- number of interrupts -/
def numInterrupts : Nat := 16

/-- the standard input: the characters that are left, and whether a conversion has failed -/
structure Cin where
  chars : Str
  fail : Bool
  deriving DecidableEq, Repr

/-- memory, registers and options of the machine -/
structure VM where
  mem : Mem
  memsize : Int32
  ip : Int32
  sp : Int32
  bp : Int32
  gbp : Int32
  /-- address range of the code, `-1` if none is set -/
  codeRange : Int32 × Int32
  checks : Bool
  zeropoppedvals : Bool
  debug : Bool
  eps : TReal
  prec : Int64
  irqs : Fin numInterrupts → Bool
  isrs : Fin numInterrupts → Option Int32
  timerRunning : Bool
  timerTicks : Int64
  cout : Str
  cin : Cin

/-- operations of the machine -/
abbrev VMM := EStateM Err VM

/-- result of a computation that does not touch the machine -/
def liftE {α : Type} : Except Err α → VMM α
  | .ok a => pure a
  | .error e => throw e

/-! ## bounds checks -/

/-- the condition under which `CheckMemoryBounds` accepts an address and a size -/
def VM.inBounds (s : VM) (addr size : Int32) : Bool :=
  let newAddr := addr + size
  !(newAddr > s.memsize || newAddr < 0 || addr < 0)

/-- `CheckMemoryBounds` -/
def checkMemoryBounds (addr size : Int32) : VMM Unit := do
  let s ← get
  if s.checks && !s.inBounds addr size then
    throw (.throw (s!"Attempted memory access out of bounds: {addr} + {size} = {addr + size}" ++
      s!" > {s.memsize}."))
  else
    pure ()

/-- a register outside the memory, or a data register inside the code range -/
def VM.badPointer (s : VM) (reg : Int32) (data : Bool) : Bool :=
  let chkC := 0 ≤ s.codeRange.1 && 0 ≤ s.codeRange.2
  let inCode := s.codeRange.1 ≤ reg && reg < s.codeRange.2
  reg > s.memsize || reg < 0 || (chkC && (inCode == data))

/-- one of the checks of `CheckPointerBounds` -/
def checkPointer (name : String) (reg : Int32) (data : Bool) : VMM Unit := do
  let s ← get
  if s.badPointer reg data then
    throw (.throw s!"{name} {reg.toInt} is out of memory bounds.")
  else
    pure ()

/-- `CheckPointerBounds` -/
def checkPointerBounds : VMM Unit := do
  let s ← get
  onlyIf s.checks do
    checkPointer "Instruction pointer" s.ip false
    checkPointer "Stack pointer" s.sp true
    checkPointer "Base pointer" s.bp true
    checkPointer "Global base pointer" s.gbp true

/-! ## access to the allocated memory -/

/-- the bytes of an access are allocated; an access of no bytes is none -/
def VM.allocated (s : VM) (a : Int) (n : Nat) : Bool :=
  n = 0 || (0 ≤ a && a + n ≤ s.memsize.toInt)

/-- read `n` bytes at index `a` of the memory -/
def readBytes (a : Int) (n : Nat) : VMM (List UInt8) := do
  let s ← get
  if s.allocated a n then
    return read s.mem a n
  else
    throw (.ub "read outside of the memory")

/-- write bytes at index `a` of the memory -/
def writeBytes (a : Int) (bs : List UInt8) : VMM Unit := do
  let s ← get
  if s.allocated a bs.length then
    set { s with mem := write s.mem a bs }
  else
    throw (.ub "write outside of the memory")

/-- `memset(mem + a, 0, n)`; a negative number of bytes is a huge one for `memset` -/
def memset (a n : Int) : VMM Unit :=
  if n < 0 then
    throw (.ub "write outside of the memory")
  else
    writeBytes a (List.replicate n.toNat 0)

/-! ## initialisation -/

/-- `Reset`: registers at the end of the memory, with room for one value, memory all `HALT` -/
def VM.reset [Platform] (s : VM) : VM :=
  { s with
    ip := 0
    sp := s.memsize - (Int32.ofNat Platform.sizeofData + 1)
    bp := s.memsize
    gbp := s.memsize
    mem := fun _ => OpCode.halt.code
    codeRange := (-1, -1) }

/-- `VM::VM` -/
def VM.init [Platform] (memsize : Int32) (eps : TReal) (cin : Str) : VM :=
  VM.reset
    { mem := fun _ => 0, memsize, ip := 0, sp := 0, bp := 0, gbp := 0, codeRange := (-1, -1)
      checks := true, zeropoppedvals := false, debug := false, eps, prec := 6
      irqs := fun _ => false, isrs := fun _ => none, timerRunning := false, timerTicks := 250
      cout := [], cin := ⟨cin, false⟩ }

/-- `UpdateCodeRange` -/
def VM.updateCodeRange (s : VM) (fst lst : Int32) : VM :=
  if s.codeRange.1 < 0 || s.codeRange.2 < 0 then
    { s with codeRange := (fst, lst) }
  else
    { s with codeRange := (min s.codeRange.1 fst, max s.codeRange.2 lst) }

/-- `SetMem` of one byte -/
def setMemByte (addr : Int32) (data : UInt8) : VMM Unit := do
  checkMemoryBounds addr 1
  let s ← get
  if s.memsize = 0 then
    throw (.ub "modulo zero")
  else
    writeBytes (addr % s.memsize).toInt [data]

/-- `SetMem` of a sequence of bytes -/
def setMemBytes (addr : Int32) : List UInt8 → VMM Unit
  | [] => pure ()
  | b :: bs => do
    setMemByte addr b
    setMemBytes (addr + 1) bs

/-- `SetMem`; code also updates the code range -/
def setMem (addr : Int32) (data : List UInt8) (isCode : Bool) : VMM Unit := do
  onlyIf isCode (modify fun s => s.updateCodeRange addr (addr + Int32.ofNat data.length))
  setMemBytes addr data

end MuF
