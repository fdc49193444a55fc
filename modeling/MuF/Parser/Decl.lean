import MuF.Parser.Context

/-!
# Semantic actions of declarations

The parser library calls the action of a rule for every matched prefix of the rule's symbols, and
for a prefix before it goes on to the symbols that follow.

* `Node`: the nodes that semantic actions get and return;
* `Action`, `runRule`: semantic actions, and their calls along a rule;
* `scalarDecl`, `arrayDecl`, `strDecl`, `strDimDecl`: the actions of the declaration rules, with
  one name for each rule;
* `VarList`, `Decl`: the declaration statements of the grammar; `parseVariables`, `declare` run their
  actions;
* `Header`, `beginFunc`, `endFunc`: the scope of a function;
* `DeclItem`, `parseItem`, `parse`: sequences of declarations in global and function scopes.
-/

set_option linter.unusedVariables false

namespace MuF

open Exec

/-! ## nodes and actions -/

/-- what a semantic action gets and returns: a null pointer, a terminal whose node is not read, or
a node -/
inductive Node
  | null
  | token
  | strConst (val : Str)
  | numConst (val : Int64)
  | numConstList (vals : List Int64)
  | misc (recursive intentIn intentOut : Bool)
  | varDecl (vars : List Str) (optAssign : Option (Str × AST)) (intentIn intentOut : Bool)
  | argNames (names : List Str)
  | expr (ast : AST)

namespace Node

/-! `dynamic_pointer_cast` to the classes of nodes -/

def asStrConst : Node → Option Str
  | .strConst val => some val
  | _ => none

def asNumConst : Node → Option Int64
  | .numConst val => some val
  | _ => none

def asNumConstList : Node → Option (List Int64)
  | .numConstList vals => some vals
  | _ => none

def asMisc : Node → Option (Bool × Bool × Bool)
  | .misc r i o => some (r, i, o)
  | _ => none

def asVarDecl : Node → Option (List Str × Option (Str × AST) × Bool × Bool)
  | .varDecl vars a i o => some (vars, a, i, o)
  | _ => none

def asExpr : Node → Option AST
  | .expr ast => some ast
  | _ => none

def isNull : Node → Bool
  | .null => true
  | _ => false

end Node

/-- semantic actions: whether the rule is matched in full, and the nodes of the matched symbols -/
abbrev Action := Bool → List Node → PM Node

/-- `args[idx]` -/
def argNode (args : List Node) (idx : Nat) : Node := args.getD idx .null

/-- the calls of a rule's action: after each symbol, with the nodes so far -/
def runRule (act : Action) (done : List Node) : List (PM Node) → PM Node
  | [] => act true done
  | [sym] => do
    let node ← sym
    act true (done ++ [node])
  | sym :: syms => do
    let node ← sym
    let _ ← act false (done ++ [node])
    runRule act (done ++ [node]) syms

/-! ## lists of variables -/

/-- the end of the three rules for lists of variables: register the name, and add it to the list
if it is not a function's -/
def addVariable (name : Str) (lst : Node) : PM Node := do
  match ← addScopedSymbol name with
  | none => pure lst
  | some sym =>
    if ← checkSymbolForConflicts sym then
      pure lst
    else do
      let (vars, optAssign, i, o) ← PM.deref lst.asVarDecl
      pure (.varDecl (sym.scopedName :: vars) optAssign i o)

/-- `variables -> ident , variables` -/
def variablesAction : Action := fun fullMatch args => do
  if !fullMatch then
    pure .null
  else do
    let name ← PM.deref (argNode args 0).asStrConst
    addVariable name (argNode args 2)

/-- `variables -> ident` -/
def variableAction : Action := fun fullMatch args => do
  if !fullMatch then
    pure .null
  else do
    let name ← PM.deref (argNode args 0).asStrConst
    addVariable name (.varDecl [] none false false)

/-- `variables -> ident = expression` -/
def variableAssignAction : Action := fun fullMatch args => do
  if !fullMatch then
    pure .null
  else do
    let name ← PM.deref (argNode args 0).asStrConst
    let term ← PM.deref (argNode args 2).asExpr
    addVariable name (.varDecl [] (some (name, term)) false false)

/-- `int_constants -> sym_int , int_constants` -/
def intConstantsAction : Action := fun fullMatch args => do
  if !fullMatch then
    pure .null
  else do
    let val ← PM.deref (argNode args 0).asNumConst
    let vals ← PM.deref (argNode args 2).asNumConstList
    pure (.numConstList (val :: vals))

/-- `int_constants -> sym_int` -/
def intConstantAction : Action := fun fullMatch args => do
  if !fullMatch then
    pure .null
  else do
    let val ← PM.deref (argNode args 0).asNumConst
    pure (.numConstList [val])

/-! ## declarations -/

/-- the end of the declaration rules: the variables, with the optional intent -/
def declIntent (vars options : Node) : PM Node := do
  if options.isNull then
    pure vars
  else do
    let (_, i, o) ← PM.deref options.asMisc
    let (names, optAssign, _, _) ← PM.deref vars.asVarDecl
    pure (.varDecl names optAssign i o)

/-- `T_decl opt_intent type_sep variables` -/
def scalarDecl (ty : SymbolType) : Action := fun fullMatch args => do
  onlyIf (args.length = 1) (setSymType ty)
  if !fullMatch then
    pure .null
  else
    declIntent (argNode args 3) (argNode args 1)

/-- `static_cast<std::size_t>` of a dimension -/
def dimSize (dim : Int64) : Nat := dim.toUInt64.toNat

/-- `T_decl , dimension ( dims ) opt_intent type_sep variables` -/
def arrayDecl (ty : SymbolType) : Action := fun fullMatch args => do
  onlyIf (args.length = 6) do
    let dims ← PM.deref (argNode args 4).asNumConstList
    setSymType ty
    setSymDims (dims.map dimSize)
  if !fullMatch then
    pure .null
  else
    declIntent (argNode args 8) (argNode args 6)

def intDecl : Action := scalarDecl .int
def realDecl : Action := scalarDecl .real
def cplxDecl : Action := scalarDecl .cplx
def quatDecl : Action := scalarDecl .quat
def boolDecl : Action := scalarDecl .bool
def intArrayDecl : Action := arrayDecl .intArray
def realArrayDecl : Action := arrayDecl .realArray
def cplxArrayDecl : Action := arrayDecl .cplxArray
def quatArrayDecl : Action := arrayDecl .quatArray

/-- `default_string_size` -/
def defaultStringSize : Nat := 128

/-- `str_decl opt_intent type_sep variables`; the type is set after the separator -/
def strDecl : Action := fun fullMatch args => do
  onlyIf (args.length = 3) do
    setSymType .string
    setSymDim defaultStringSize
  if !fullMatch then
    pure .null
  else
    declIntent (argNode args 3) (argNode args 1)

/-- `str_decl , dimension ( sym_int ) opt_intent type_sep variables` -/
def strDimDecl : Action := fun fullMatch args => do
  onlyIf (args.length = 6) do
    let dim ← PM.deref (argNode args 4).asNumConst
    setSymType .string
    setSymDim (dimSize dim)
  if !fullMatch then
    pure .null
  else
    declIntent (argNode args 8) (argNode args 6)

/-- `opt_intent` with one of the two intents -/
def intentAction (intentIn intentOut : Bool) : Action := fun fullMatch args => do
  if !fullMatch then
    pure .null
  else
    pure (.misc true intentIn intentOut)

/-! ## declaration statements -/

/-- the intents of arguments and results -/
inductive Intent
  | intentIn | intentOut
  deriving DecidableEq, Repr

/-- `opt_intent` -/
def optIntent : Option Intent → PM Node
  | none => pure .null
  | some .intentIn => runRule (intentAction true false) [] (List.replicate 5 (pure .token))
  | some .intentOut => runRule (intentAction false true) [] (List.replicate 5 (pure .token))

/-- lists of variables, with an assignment to the last one only -/
inductive VarList
  | one (name : Str)
  | assign (name : Str) (term : AST)
  | more (name : Str) (vars : VarList)

def VarList.names : VarList → List Str
  | .one name => [name]
  | .assign name _ => [name]
  | .more name vars => name :: vars.names

/-- `variables`; the actions of an expression register no symbols -/
def parseVariables : VarList → PM Node
  | .one name => runRule variableAction [] [pure (.strConst name)]
  | .assign name term =>
    runRule variableAssignAction [] [pure (.strConst name), pure .token, pure (.expr term)]
  | .more name vars =>
    runRule variablesAction [] [pure (.strConst name), pure .token, parseVariables vars]

/-- `int_constants` -/
def intConstants (dim : Int64) : List Int64 → PM Node
  | [] => runRule intConstantAction [] [pure (.numConst dim)]
  | dim' :: dims =>
    runRule intConstantsAction [] [pure (.numConst dim), pure .token, intConstants dim' dims]

/-- what stands before the variables: one constructor for each rule -/
inductive Form
  | int | real | cplx | quat | bool
  | intArray (dim : Int64) (dims : List Int64)
  | realArray (dim : Int64) (dims : List Int64)
  | cplxArray (dim : Int64)
  | quatArray (dim : Int64)
  | str
  | strDim (dim : Int64)
  deriving DecidableEq, Repr

/-- the action of the rule -/
def Form.action : Form → Action
  | .int => intDecl
  | .real => realDecl
  | .cplx => cplxDecl
  | .quat => quatDecl
  | .bool => boolDecl
  | .intArray _ _ => intArrayDecl
  | .realArray _ _ => realArrayDecl
  | .cplxArray _ => cplxArrayDecl
  | .quatArray _ => quatArrayDecl
  | .str => strDecl
  | .strDim _ => strDimDecl

/-- the other rule that starts with the same symbol -/
def Form.sibling : Form → Option Action
  | .int => some intArrayDecl
  | .real => some realArrayDecl
  | .cplx => some cplxArrayDecl
  | .quat => some quatArrayDecl
  | .bool => none
  | .intArray _ _ => some intDecl
  | .realArray _ _ => some realDecl
  | .cplxArray _ => some cplxDecl
  | .quatArray _ => some quatDecl
  | .str => some strDimDecl
  | .strDim _ => some strDecl

/-- the symbol between the brackets of `dimension`, if the rule has any: `sym_int` for complex and
quaternion arrays, as for strings -/
def Form.bracket : Form → Option (PM Node)
  | .intArray dim dims => some (intConstants dim dims)
  | .realArray dim dims => some (intConstants dim dims)
  | .cplxArray dim => some (pure (.numConst dim))
  | .quatArray dim => some (pure (.numConst dim))
  | .strDim dim => some (pure (.numConst dim))
  | _ => none

/-- declaration statements -/
structure Decl where
  form : Form
  intent : Option Intent
  vars : VarList

/-- the first symbol, `T_decl`; with `shared` the library also calls the action of the other rule
that it is a prefix of -/
def firstSymbol (shared : Bool) (sibling : Option Action) : PM Node := do
  match sibling with
  | some act => onlyIf shared (act false [.token] >>= fun _ => pure ⟨⟩)
  | none => pure ⟨⟩
  pure .token

/-- the symbols of the rule -/
def Decl.syms (shared : Bool) (d : Decl) : List (PM Node) :=
  match d.form.bracket with
  | none =>
    [firstSymbol shared d.form.sibling, optIntent d.intent, pure .token, parseVariables d.vars]
  | some dims =>
    [firstSymbol shared d.form.sibling, pure .token, pure .token, pure .token, dims, pure .token,
      optIntent d.intent, pure .token, parseVariables d.vars]

/-- the actions of a declaration statement -/
def declare (shared : Bool) (d : Decl) : PM Node := runRule d.form.action [] (d.syms shared)

/-! ## scopes of functions -/

/-- the head of a procedure (`rets = none`) or of a function -/
structure Header where
  recursive : Bool
  name : Str
  args : List Str
  rets : Option (List Str)

/-- register arguments or results, which `mark` marks with their position -/
def registerSyms (mark : Nat → Symbol → Symbol) (idx : Nat) : List Str → PM Unit
  | [] => pure ⟨⟩
  | name :: names => do
    let sym ← PM.deref (← addScopedSymbol name)
    -- the symbol of a name that is a function's is a temporary one
    onlyIf (!sym.isTmp) (modify fun c => c.modifySym sym.scopedName (mark idx))
    registerSyms mark (idx + 1) names

/-- mark an argument -/
def markArg (idx : Nat) (sym : Symbol) : Symbol := { sym with isArg := true, argidx := idx }

/-- mark a result -/
def markRet (idx : Nat) (sym : Symbol) : Symbol := { sym with isRet := true, retidx := idx }

/-- the part of the rules before the statements: `EnterScope`, the arguments, the results and the
function -/
def beginFunc (h : Header) : PM Unit := do
  enterScope h.name
  registerSyms markArg 0 h.args
  registerSyms markRet 0 (h.rets.getD [])
  let c ← get
  let scope := c.getScopeName 1
  let retty := if h.rets.isSome then SymbolType.comp else .void
  let added := c.symbols.addFunc scope h.name retty (h.args.map fun _ => .unknown) none
    (h.rets.map fun rets => rets.map fun _ => .unknown) false h.recursive
  onlyIf (!added.1.isSome) do
    PM.writeErr ("Symbol \"" ++ (scope ++ h.name).text ++ "\" is already in the symbol table.")
  modify fun c => { c with symbols := added.2 }

/-- the loop of `update_func_arg_types` and `update_func_ret_types`: with `isOf` what is not an
argument (a result) ends it, `idxOf` is the position, and `setTy` enters a type there -/
def updateTypes (what : String) (isOf : Symbol → Bool) (idxOf : Symbol → Nat)
    (tysOf : Symbol → List SymbolType) (setTys : List SymbolType → Symbol → Symbol)
    (funcName : Str) : List Str → PM Unit
  | [] => pure ⟨⟩
  | ident :: idents => do
    let c ← get
    match (c.findScopedSymbol ident).filter isOf with
    | none => PM.writeErr ("Cannot find " ++ what ++ " symbol \"" ++ ident.text ++ "\".")
    | some sym => do
      let func ← PM.deref (c.findGlobalSymbol funcName)
      if (tysOf func).length ≤ idxOf sym then
        throw (.ub "type of an argument out of range")
      else do
        modify fun c => c.modifySym funcName (setTys ((tysOf func).set (idxOf sym) sym.ty))
        updateTypes what isOf idxOf tysOf setTys funcName idents

/-- `update_func_arg_types` -/
def updateFuncArgTypes (args : List Str) (funcName : Str) : PM Unit := do
  let c ← get
  match c.findGlobalSymbol funcName with
  | none => throw (.throw ("Unknown function \"" ++ funcName.text ++ "\"."))
  | some func =>
    if func.argty.length ≠ args.length then
      throw (.throw ("Mismatch in number of arguments for function \"" ++ funcName.text ++ "\"."))
    else
      updateTypes "argument" Symbol.isArg Symbol.argidx Symbol.argty
        (fun tys sym => { sym with argty := tys }) funcName args

/-- `update_func_ret_types` -/
def updateFuncRetTypes (rets : List Str) (funcName : Str) : PM Unit := do
  let c ← get
  match c.findGlobalSymbol funcName with
  | none => throw (.throw ("Unknown function \"" ++ funcName.text ++ "\"."))
  | some func =>
    if func.elems.length ≠ rets.length then
      throw (.throw ("Mismatch in number of return values for function \"" ++ funcName.text ++
        "\"."))
    else
      updateTypes "return" Symbol.isRet Symbol.retidx Symbol.elems
        (fun tys sym => { sym with elems := tys }) funcName rets

/-- the part of the rules after the statements -/
def endFunc (h : Header) : PM Unit := do
  let c ← get
  updateFuncArgTypes h.args (c.getScopeName 1 ++ h.name)
  match h.rets with
  | some rets => updateFuncRetTypes rets (c.getScopeName 1 ++ h.name)
  | none => pure ⟨⟩
  leaveScope h.name

/-! ## sequences of declarations -/

/-- a declaration, or the begin or the end of a function around declarations -/
inductive DeclItem
  | decl (d : Decl)
  | beginFunc (h : Header)
  | endFunc (h : Header)

def parseItem (shared : Bool) : DeclItem → PM Unit
  | .decl d => declare shared d >>= fun _ => pure ⟨⟩
  | .beginFunc h => beginFunc h
  | .endFunc h => endFunc h

/-- the actions of a sequence of declarations -/
def parse (shared : Bool) : List DeclItem → PM Unit
  | [] => pure ⟨⟩
  | item :: items => do
    parseItem shared item
    parse shared items

end MuF
