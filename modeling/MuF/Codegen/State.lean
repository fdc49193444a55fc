import MuF.Base.Exec
import MuF.Ast

/-!
# State of the code generator

* `OStr`: an output stream with its put position, which `seekp` moves back to fill in addresses;
* `ConstTab`: the table of string constants;
* `Codegen`: the members of the code generator, `CGM` the computations on it;
* `getSym`, `getStackFrameSize`, `castTo`: what all the visitors use.
-/

set_option linter.unusedVariables false

namespace MuF

open Exec

/-! ## output -/

/-- an output stream: what was written and the put position -/
structure OStr where
  buf : List UInt8
  pos : Nat
  deriving Repr

/-- write bytes at the put position, over what is there -/
def OStr.write (o : OStr) (bs : List UInt8) : OStr :=
  { buf := o.buf.take o.pos ++ bs ++ o.buf.drop (o.pos + bs.length), pos := o.pos + bs.length }

/-- constants table: strings with their positions, and the bytes of the table -/
structure ConstTab where
  consts : List (Str × Nat)
  ostr : List UInt8
  deriving Repr

/-- `AddConst` of a string: its position, which is the one it already has if it is known -/
def ConstTab.addConst (tab : ConstTab) (constval : Str) : Nat × ConstTab :=
  match tab.consts.lookup constval with
  | some pos => (pos, tab)
  | none =>
    let pos := tab.ostr.length
    let len := Int32.ofNat constval.length
    (pos, { consts := tab.consts ++ [(constval, pos)]
            ostr := tab.ostr ++ [VMType.str.code] ++ Raw.enc len ++
              constval.take len.toInt.toNat })

/-! ## state -/

/-- a call whose address is filled in later: the name, the stream position, the number of
arguments -/
structure FuncComefrom where
  name : Str
  pos : Nat
  numArgs : Int32
  deriving Repr

/-- the code generator -/
structure Codegen where
  syms : SymTab
  consttab : ConstTab
  ostr : OStr
  /-- names of the functions around the current node, the innermost one last -/
  curscope : List Str
  /-- number of bytes of the local variables so far -/
  localStack : List (Str × Int32)
  globalStack : Int32
  funcComefroms : List FuncComefrom
  pushretComefroms : List Nat
  endfuncComefroms : List Nat
  constAddrs : List (Nat × Int)
  loopIdent : Nat
  curLoop : List Nat
  loopBeginComefroms : List (Nat × Nat)
  loopEndComefroms : List (Nat × Nat)
  labels : List (Str × Nat)
  gotoComefroms : List (Str × Nat)

/-- `Codegen::Codegen` -/
def Codegen.init (syms : SymTab) : Codegen :=
  { syms, consttab := ⟨[], []⟩, ostr := ⟨[], 0⟩, curscope := [], localStack := []
    globalStack := 0, funcComefroms := [], pushretComefroms := [], endfuncComefroms := []
    constAddrs := [], loopIdent := 0, curLoop := [], loopBeginComefroms := []
    loopEndComefroms := [], labels := [], gotoComefroms := [] }

/-- operations of the code generator -/
abbrev CGM := EStateM Err Codegen

/-- result of a computation that does not touch the code generator -/
def CGM.lift {α : Type} : Except Err α → CGM α
  | .ok a => pure a
  | .error e => throw e

/-- a C++ exception -/
def fail {α : Type} (msg : String) : CGM α := throw (.throw msg)

/-- the value of a pointer or an optional that is used without a test -/
def deref {α : Type} (x : Option α) : CGM α :=
  match x with
  | some a => pure a
  | none => throw (.ub "empty")

/-- `m_ostr->write` -/
def writeOut (bs : List UInt8) : CGM Unit := modify fun s => { s with ostr := s.ostr.write bs }

/-- an instruction byte -/
def putOp (op : OpCode) : CGM Unit := writeOut [op.code]

/-- a descriptor byte -/
def putTy (ty : VMType) : CGM Unit := writeOut [ty.code]

/-- `m_ostr->tellp` -/
def tellp : CGM Nat := do
  let s ← get
  return s.ostr.pos

/-- `m_ostr->seekp` -/
def seekp (pos : Nat) : CGM Unit := modify fun s => { s with ostr := { s.ostr with pos := pos } }

/-- `m_ostr->seekp(0, std::ios_base::end)` -/
def seekEnd : CGM Unit :=
  modify fun s => { s with ostr := { s.ostr with pos := s.ostr.buf.length } }

/-- an address operand -/
def putAddr (ty : VMType) (addr : Int32) : CGM Unit := do
  putOp .push
  putTy ty
  writeOut (Raw.enc addr)

/-- the difference of two stream positions as an address -/
def streamDiff (p q : Nat) : Int32 := Int32.ofInt ((p : Int) - q)

/-- number of bytes to skip from behind the address at `pos` and its jump instruction -/
def toSkip (target pos : Nat) : Int32 := streamDiff target pos - vmTypeSize .addrIp true

/-- write an address over the one at a stream position -/
def patch (pos : Nat) (addr : Int32) : CGM Unit := do
  seekp pos
  writeOut (Raw.enc addr)

/-- an address to be filled in later and the instruction that uses it; the position of the
address -/
def putJump (op : OpCode) : CGM Nat := do
  putOp .push
  putTy .addrIp
  let pos ← tellp
  writeOut (Raw.enc (0 : Int32))
  putOp op
  return pos

/-! ## symbols -/

/-- change a symbol of the table -/
def modifySym (sym : Symbol) (f : Symbol → Symbol) : CGM Unit :=
  modify fun s => { s with syms := s.syms.modify sym.scopedName f }

/-- the symbol as it is now -/
def reload (sym : Symbol) : CGM Symbol := do
  let s ← get
  return (s.syms.findSymbol sym.scopedName).getD sym

/-- find a symbol that has the given type, if one is given -/
def SymTab.findTyped (tab : SymTab) (name : Str) (ty : Option SymbolType) : Option Symbol :=
  (tab.findSymbol name).filter fun sym => ty.all fun t => sym.ty == t

/-- `GetSym` -/
def getSym (name : Str) (nameAlreadyScoped : Bool := false) (ty : Option SymbolType := none) :
    CGM Symbol := do
  let s ← get
  let scopedName := if nameAlreadyScoped then [] else
    (s.curscope.flatMap fun scope => scope ++ scopeSep) ++ name
  let sym := if scopedName ≠ [] then s.syms.findTyped scopedName ty else none
  match sym <|> s.syms.findTyped name ty with
  | some sym => return sym
  | none => fail ("GetSym: \"" ++ Str.text scopedName ++ "\" does not have an associated symbol.")

/-- dummy symbol for constants of a type -/
def constSym (ty : SymbolType) (name : String) : Symbol := { ty, isTmp := true, name := ascii name }

def realConst : Symbol := constSym .real "<real>"
def intConst : Symbol := constSym .int "<integer>"
def cplxConst : Symbol := constSym .cplx "<complex>"
def quatConst : Symbol := constSym .quat "<quaternion>"
def boolConst : Symbol := constSym .bool "<bool>"
def strConst : Symbol := constSym .string "<string>"
def realArrayConst : Symbol := constSym .realArray "<array_real>"
def intArrayConst : Symbol := constSym .intArray "<array_integer>"
def cplxArrayConst : Symbol := constSym .cplxArray "<array_complex>"
def quatArrayConst : Symbol := constSym .quatArray "<array_quaternion>"

/-- `GetTypeConst` -/
def getTypeConst : SymbolType → Option Symbol
  | .real => some realConst
  | .int => some intConst
  | .cplx => some cplxConst
  | .quat => some quatConst
  | .realArray => some realArrayConst
  | .intArray => some intArrayConst
  | .cplxArray => some cplxArrayConst
  | .quatArray => some quatArrayConst
  | .bool => some boolConst
  | .string => some strConst
  | _ => none

/-- `IsArray` -/
def SymbolType.isArray : SymbolType → Bool
  | .realArray | .intArray | .cplxArray | .quatArray => true
  | _ => false

/-- `GetArrayTypeConst`: the array and its elements -/
def getArrayTypeConst : SymbolType → Option (Symbol × Symbol)
  | .string => some (strConst, strConst)
  | .realArray => some (realArrayConst, realConst)
  | .intArray => some (intArrayConst, intConst)
  | .cplxArray => some (cplxArrayConst, cplxConst)
  | .quatArray => some (quatArrayConst, quatConst)
  | _ => none

/-- sum of the sizes of symbols that are not functions -/
def sumSymSizes : List Symbol → Except Err Int64
  | [] => .ok 0
  | sym :: syms =>
    if sym.ty = .func then sumSymSizes syms
    else do
      let size ← getSymSize sym
      let rest ← sumSymSizes syms
      return size.toInt64 + rest

/-- `GetStackFrameSize` of a function, or of the global variables -/
def getStackFrameSize (func : Option Symbol) : CGM Int64 := do
  let s ← get
  let scope := match func with
    | some func => func.scopedName ++ scopeSep
    | none => []
  CGM.lift (sumSymSizes (s.syms.findSymbolsWithSameScope scope))

/-! ## constants -/

/-- a constant operand -/
def pushConst (d : TData) : CGM Unit := do
  putOp .push
  putTy (d.ty .unknown)
  writeOut d.payload

/-- `PushRealConst` -/
def pushRealConst (val : TReal) : CGM Unit := pushConst (.real val)

/-- `PushIntConst` -/
def pushIntConst (val : Int64) : CGM Unit := pushConst (.int val)

/-- `PushCplxConst` -/
def pushCplxConst (val : Cplx TReal) : CGM Unit := pushConst (.cplx val)

/-- `PushQuatConst` -/
def pushQuatConst (val : Quat TReal) : CGM Unit := pushConst (.quat val)

/-- `PushBoolConst` -/
def pushBoolConst (val : UInt8) : CGM Unit := pushConst (.bool val)

/-- `PushVecSize` -/
def pushVecSize (size : Nat) : CGM Unit := putAddr .addrMem (Int32.ofNat size)

/-- constants of one type, their number and the instruction that makes an array of them -/
def pushVecConst {E : Type} (push : E → CGM Unit) (make : OpCode) (vec : List E) : CGM Unit := do
  vec.forM push
  pushVecSize vec.length
  putOp make

/-- `PushRealVecConst` -/
def pushRealVecConst : List TReal → CGM Unit := pushVecConst pushRealConst .makerealarr

/-- `PushIntVecConst` -/
def pushIntVecConst : List Int64 → CGM Unit := pushVecConst pushIntConst .makeintarr

/-- `PushCplxVecConst` -/
def pushCplxVecConst : List (Cplx TReal) → CGM Unit := pushVecConst pushCplxConst .makecplxarr

/-- `PushQuatVecConst` -/
def pushQuatVecConst : List (Quat TReal) → CGM Unit := pushVecConst pushQuatConst .makequatarr

/-- the address of a string in the constants table, relative to the position of the operand, to
which the position of the table is added later, and its dereferencing -/
def putConstRef (val : Str) : CGM Unit := do
  let s ← get
  let (strAddr, tab) := s.consttab.addConst val
  modify fun s => { s with consttab := tab }
  putOp .push
  putTy .addrIp
  let addrPos ← tellp
  let strAddr : Int := (strAddr : Int) - addrPos - (vmTypeSize .addrIp true).toInt
  modify fun s => { s with constAddrs := s.constAddrs ++ [(addrPos, strAddr)] }
  writeOut (Raw.enc (Int32.ofInt strAddr))
  putOp .rdmem

/-- `PushStrConst` -/
def pushStrConst (val : Str) : CGM Unit := putConstRef val

/-- `CallExternal` -/
def callExternalFunc (funcname : Str) : CGM Unit := do
  putConstRef funcname
  putOp .extcall

/-! ## casts -/

/-- the cast instruction to the type of a symbol, and whether it is one to an array -/
def castOp (ty : SymbolType) (allowArrayCast : Bool) : OpCode × Bool :=
  match ty with
  | .real => (.tor, false)
  | .int => (.toi, false)
  | .cplx => (.toc, false)
  | .quat => (.toq, false)
  | .string => (.tos, false)
  | .bool => (.tob, false)
  | .realArray => if allowArrayCast then (.torealarr, true) else (.nop, false)
  | .intArray => if allowArrayCast then (.tointarr, true) else (.nop, false)
  | .cplxArray => if allowArrayCast then (.tocplxarr, true) else (.nop, false)
  | .quatArray => if allowArrayCast then (.toquatarr, true) else (.nop, false)
  | _ => (.nop, false)

/-- `CastTo`, at the end of the stream or over the placeholder at `pos` -/
def castTo (tyTo : Option Symbol) (pos : Option Nat := none) (allowArrayCast : Bool := false) :
    CGM Unit :=
  match tyTo with
  | none => pure ()
  | some tyTo => do
    let (op, toArr) := castOp tyTo.ty allowArrayCast
    onlyIf toArr (putAddr .addrMem tyTo.getTotalSize)
    match pos with
    | none => putOp op
    | some pos => do
      seekp pos
      putOp op
      seekEnd

/-- `GetCastSymType`: the casts of the two operands and the type of the result -/
def getCastSymType (term1 term2 : Option Symbol) :
    Option Symbol × Option Symbol × Option Symbol :=
  match term1, term2 with
  | some sym1, some sym2 =>
    let ty1 := sym1.ty
    let ty2 := sym2.ty
    let term1 := if ty1 = .func then getTypeConst sym1.retty else some sym1
    let term2 := if ty2 = .func then getTypeConst sym2.retty else some sym2
    if ty1 = ty2 then (none, none, term1)
    else match ty1, ty2 with
      | .int, .real => (term2, none, term2)
      | .real, .int => (none, term1, term1)
      | .int, .cplx => (term2, none, term2)
      | .cplx, .int => (none, term1, term1)
      | .real, .cplx => (term2, none, term2)
      | .cplx, .real => (none, term1, term1)
      | .string, .real => (none, term1, term1)
      | .string, .int => (none, term1, term1)
      | .real, .string => (term2, none, term2)
      | .int, .string => (term2, none, term2)
      | .realArray, .real => (none, none, term1)
      | .realArray, .int => (none, some realConst, term1)
      | .real, .realArray => (none, none, term2)
      | .int, .realArray => (some realConst, none, term2)
      | .intArray, .int => (none, none, term1)
      | .intArray, .real => (none, some intConst, term1)
      | .int, .intArray => (none, none, term2)
      | .real, .intArray => (some intConst, none, term2)
      | .cplxArray, .cplx => (none, none, term1)
      | .cplxArray, .int => (none, some cplxConst, term1)
      | .cplxArray, .real => (none, some cplxConst, term1)
      | .cplx, .cplxArray => (none, none, term2)
      | .int, .cplxArray => (some cplxConst, none, term2)
      | .real, .cplxArray => (some cplxConst, none, term2)
      | .quat, .realArray => (none, none, term2)
      | _, _ => (none, term1, term1)
  | _, _ => (none, none, none)

/-! ## operations that only read -/

theorem deref_eq {α : Type} (x : Option α) : Keeps Eq (deref x) := by
  cases x with
  | none => exact Keeps.throw _
  | some a => exact Keeps.pure a

theorem deref_ok {α : Type} {x : Option α} {s s' : Codegen} {a : α}
    (h : (deref x).run s = .ok a s') : x = some a ∧ s' = s := by
  cases x with
  | none => cases h
  | some b =>
    cases h
    exact ⟨rfl, rfl⟩

theorem lift_eq {α : Type} (x : Except Err α) : Keeps Eq (CGM.lift x) := by
  cases x with
  | error e => exact Keeps.throw e
  | ok a => exact Keeps.pure a

theorem lift_ok {α : Type} {x : Except Err α} {s s' : Codegen} {a : α}
    (h : (CGM.lift x).run s = .ok a s') : x = .ok a ∧ s' = s := by
  cases x with
  | error e => cases h
  | ok b =>
    cases h
    exact ⟨rfl, rfl⟩

theorem reload_eq (sym : Symbol) : Keeps Eq (reload sym) :=
  Keeps.bind Keeps.get fun s => Keeps.pure _

theorem getStackFrameSize_eq (func : Option Symbol) : Keeps Eq (getStackFrameSize func) :=
  Keeps.bind Keeps.get fun s => lift_eq _

/-- the name of a symbol in the scope of the current function -/
def Codegen.scoped (s : Codegen) (name : Str) : Str :=
  (s.curscope.flatMap fun scope => scope ++ scopeSep) ++ name

theorem findTyped_some {tab : SymTab} {name : Str} {ty : Option SymbolType} {sym : Symbol}
    (h : tab.findTyped name ty = some sym) :
    tab.findSymbol name = some sym ∧ ∀ t, ty = some t → sym.ty = t := by
  obtain ⟨h1, h2⟩ := Option.filter_eq_some_iff.1 h
  refine ⟨h1, ?_⟩
  rintro t rfl
  simpa using h2

/-- `getSym` finds a symbol by its scoped name or by the name itself -/
theorem getSym_ok {name : Str} {b : Bool} {ty : Option SymbolType} {s s' : Codegen}
    {sym : Symbol} (h : (getSym name b ty).run s = .ok sym s') :
    s' = s ∧ (∀ t, ty = some t → sym.ty = t) ∧
      ∃ key, s.syms.findSymbol key = some sym ∧ (key = name ∨ b = false ∧ key = s.scoped name) := by
  unfold getSym at h
  rw [run_get_bind] at h
  dsimp only at h
  generalize e : (_ <|> s.syms.findTyped name ty) = found at h
  cases found with
  | none => cases h
  | some sym' =>
    cases h
    refine ⟨rfl, ?_⟩
    rw [Option.orElse_eq_orElse, Option.orElse_eq_or, Option.or_eq_some_iff] at e
    rcases e with e | ⟨-, e⟩
    · obtain ⟨hne, e⟩ := Option.ite_none_right_eq_some.1 e
      obtain ⟨h1, h2⟩ := findTyped_some e
      refine ⟨h2, _, h1, Or.inr ?_⟩
      cases b
      · exact ⟨rfl, rfl⟩
      · exact absurd rfl hne
    · obtain ⟨h1, h2⟩ := findTyped_some e
      exact ⟨h2, name, h1, Or.inl rfl⟩

theorem getSym_eq (name : Str) (b : Bool) (ty : Option SymbolType) :
    Keeps Eq (getSym name b ty) := fun s a s' h => (getSym_ok h).1.symm

end MuF
