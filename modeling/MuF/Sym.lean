import MuF.VM.State

/-!
# Symbols and the symbol table

* `Symbol`: an entry of the table, with its total element count `getTotalSize`;
* `SymTab`: the table, scoped names with their symbols;
* `getSymSize`: the size of a symbol's slot in a stack frame.
-/

set_option linter.unusedVariables false

namespace MuF

/-- symbol types -/
inductive SymbolType
  | void
  | real | int | cplx | quat
  | bool | string
  | realArray | intArray | cplxArray | quatArray
  | comp | func | unknown
  deriving DecidableEq, Repr

/-- symbols; of the elements of a compound type only the types are used -/
structure Symbol where
  name : Str := []
  scopedName : Str := []
  scopeName : Str := []
  extName : Option Str := none
  ty : SymbolType := .void
  dims : List Nat := [1]
  isArg : Bool := false
  isRet : Bool := false
  argidx : Nat := 0
  retidx : Nat := 0
  argty : List SymbolType := []
  retty : SymbolType := .void
  retdims : List Nat := [1]
  elems : List SymbolType := []
  isTmp : Bool := false
  isExternal : Bool := false
  isRecursive : Bool := false
  isGlobal : Bool := false
  addr : Option Int64 := none
  endAddr : Option Int64 := none
  deriving DecidableEq, Repr

/-- `get_total_size`: the product is accumulated in an `int` -/
def Symbol.getTotalSize (sym : Symbol) (startDim : Nat := 0) : Int32 :=
  (sym.dims.drop startDim).foldl (fun i j => i * Int32.ofNat j) 1

/-- `get_scopenameseparator` -/
def scopeSep : Str := ascii "::"

/-! ## symbol table -/

/-- symbol table: scoped names, each once, with their symbols -/
abbrev SymTab := List (Str × Symbol)

/-- `FindSymbol` -/
def SymTab.findSymbol (tab : SymTab) (name : Str) : Option Symbol := tab.lookup name

/-- `AddSymbol`; `none` in place of a symbol if the name is taken -/
def SymTab.addSymbol (tab : SymTab) (scope name : Str) (ty : SymbolType) (dims : List Nat)
    (addToTable : Bool := true) : Option Symbol × SymTab :=
  let scopedName := scope ++ name
  let sym : Symbol :=
    { name, scopedName, scopeName := scope, ty, dims, isTmp := !addToTable }
  if !addToTable then
    (some sym, tab)
  else if (tab.findSymbol scopedName).isSome then
    (none, tab)
  else
    (some sym, tab ++ [(scopedName, sym)])

/-- `AddFunc`; `none` in place of a symbol if the name is taken -/
def SymTab.addFunc (tab : SymTab) (scope name : Str) (retty : SymbolType)
    (argty : List SymbolType) (retdims : Option (List Nat)) (rettypes : Option (List SymbolType))
    (isExternal isRecursive : Bool) : Option Symbol × SymTab :=
  let scopedName := scope ++ name
  let sym : Symbol :=
    { name, scopedName, scopeName := scope, ty := .func, argty, retty, isExternal, isRecursive
      retdims := retdims.getD [1], elems := rettypes.getD [] }
  if (tab.findSymbol scopedName).isSome then
    (none, tab)
  else
    (some sym, tab ++ [(scopedName, sym)])

/-- change the symbol behind a name -/
def SymTab.modify (tab : SymTab) (name : Str) (f : Symbol → Symbol) : SymTab :=
  tab.map fun p => if p.1 = name then (p.1, f p.2) else p

/-- `FindSymbolsWithSameScope` -/
def SymTab.findSymbolsWithSameScope (tab : SymTab) (scope : Str) (noArgs : Bool := true) :
    List Symbol :=
  (tab.map Prod.snd).filter fun sym => !(noArgs && sym.isArg) && sym.scopeName == scope

section
variable {T tab : SymTab} {name : Str} {f : Symbol → Symbol}

theorem SymTab.findSymbol_cons (key : Str) (sym : Symbol) (tab : SymTab) (name : Str) :
    SymTab.findSymbol ((key, sym) :: tab) name =
      if name = key then some sym else tab.findSymbol name := by
  unfold SymTab.findSymbol
  rw [List.lookup_cons]
  by_cases h : name = key
  · rw [if_pos h, beq_iff_eq.2 h]
  · rw [if_neg h, beq_eq_false_iff_ne.2 h]

theorem SymTab.findSymbol_modify (tab : SymTab) (name name' : Str) (f : Symbol → Symbol) :
    (tab.modify name f).findSymbol name' =
      if name' = name then (tab.findSymbol name').map f else tab.findSymbol name' := by
  induction tab with
  | nil => simp [SymTab.modify, SymTab.findSymbol]
  | cons p tab ih =>
    obtain ⟨key, sym⟩ := p
    have e : SymTab.modify ((key, sym) :: tab) name f =
        (key, if key = name then f sym else sym) :: SymTab.modify tab name f := by
      unfold SymTab.modify
      rw [List.map_cons]
      split <;> rfl
    rw [e, SymTab.findSymbol_cons, SymTab.findSymbol_cons, ih]
    by_cases h1 : name' = key <;> by_cases h2 : name' = name
    · rw [if_pos h1, if_pos h1, if_pos h2, if_pos (h1.symm.trans h2)]
      rfl
    · rw [if_pos h1, if_pos h1, if_neg h2, if_neg fun h => h2 (h1.trans h)]
    · rw [if_neg h1, if_neg h1, if_pos h2]
    · rw [if_neg h1, if_neg h1, if_neg h2]

/-- a symbol without what the code generator sets -/
def Symbol.declared (sym : Symbol) : Symbol :=
  { sym with isGlobal := false, addr := none, endAddr := none }

/-- the names and declarations of a table -/
def SymTab.declared (tab : SymTab) : SymTab := tab.map fun p => (p.1, p.2.declared)

theorem SymTab.declared_modify (hf : ∀ sym, (f sym).declared = sym.declared) :
    (tab.modify name f).declared = tab.declared := by
  unfold SymTab.declared SymTab.modify
  rw [List.map_map]
  apply List.map_congr_left
  intro p hp
  simp only [Function.comp_apply]
  split
  · rw [hf]
  · rfl

theorem SymTab.findSymbol_declared (tab : SymTab) (name : Str) :
    tab.declared.findSymbol name = (tab.findSymbol name).map Symbol.declared := by
  induction tab with
  | nil => rfl
  | cons p tab ih =>
    have e : SymTab.declared (p :: tab) = (p.1, p.2.declared) :: SymTab.declared tab := rfl
    rw [e, SymTab.findSymbol_cons, ih, ← Prod.eta p, SymTab.findSymbol_cons]
    split <;> rfl

/-- the symbol of a name in a table with the same declarations -/
theorem SymTab.find_of_declared (h : tab.declared = T.declared) {sym : Symbol}
    (hs : tab.findSymbol name = some sym) :
    ∃ sym', T.findSymbol name = some sym' ∧ sym'.declared = sym.declared := by
  have e : T.declared.findSymbol name = some sym.declared := by
    rw [← h, SymTab.findSymbol_declared, hs]
    rfl
  rw [SymTab.findSymbol_declared] at e
  exact Option.map_eq_some_iff.1 e

end

/-! ## slots -/

/-- `GetSymSize` -/
def getSymSize (sym : Symbol) : Except Err Int32 :=
  match sym.ty with
  | .real => .ok (vmTypeSize .real true)
  | .int => .ok (vmTypeSize .int true)
  | .cplx => .ok (vmTypeSize .cplx true)
  | .quat => .ok (vmTypeSize .quat true)
  | .realArray => .ok (getVmVecRealSize sym.getTotalSize true true)
  | .intArray => .ok (getVmVecIntSize sym.getTotalSize true true)
  | .cplxArray => .ok (getVmVecCplxSize sym.getTotalSize true true)
  | .quatArray => .ok (getVmVecQuatSize sym.getTotalSize true true)
  | .bool => .ok (vmTypeSize .bool true)
  | .string =>
    match sym.dims with
    | dim :: _ => .ok (getVmStrSize (Int32.ofNat dim) true true)
    | [] => .error (.ub "dims[0] of no dimensions")
  | _ => .error (.throw ("Invalid symbol type for \"" ++ sym.name.text ++ "\"."))

end MuF
