import MuF.Ast
import MuF.Base.Flow
import MuF.VM.Ops

/-!
# Integer programs

What programs of integers and truth values mean, without the code that is generated for them:

* `Val`, `Store`: values, and the values of the variables;
* `eval`: the value of an expression, if it has one;
* `AST.exec`: what a statement does to the variables;
* `exprTy`, `AST.typed`: the programs whose types are right.
-/

set_option linter.unusedVariables false

namespace MuF

/-! ## values -/

/-- values -/
inductive Val
  | int (val : Int64)
  | bool (val : Bool)
  deriving DecidableEq, Repr

/-- their types -/
inductive ValTy
  | int | bool
  deriving DecidableEq, Repr

def Val.ty : Val → ValTy
  | .int _ => .int
  | .bool _ => .bool

/-- the values of the variables -/
abbrev Store := Str → Option Val

def Store.set (σ : Store) (name : Str) (v : Val) : Store := fun x => if x = name then some v else σ x

/-! ## expressions -/

/-- integer operations; a quotient that is not defined or not representable has no value, and
neither has a power with a negative exponent -/
def intValue (op : ArithOp) (i j : Int64) : Option Int64 :=
  match op with
  | .add => some (i + j)
  | .sub => some (i - j)
  | .mul => some (i * j)
  | .div => if j = 0 ∨ (i = Int64.minValue ∧ j = -1) then none else some (i / j)
  | .mod => if j = 0 ∨ (i = Int64.minValue ∧ j = -1) then none else some (i % j)
  | .pow => if j < 0 then none else some (Int64.ofInt (i.toInt ^ j.toInt.toNat))

def CompNodeOp.holds (op : CompNodeOp) (i j : Int64) : Bool :=
  match op with
  | .equ => decide (i = j)
  | .neq => decide (i ≠ j)
  | .gt => decide (j < i)
  | .lt => decide (i < j)
  | .geq => decide (j ≤ i)
  | .leq => decide (i ≤ j)

def Val.asInt : Val → Option Int64
  | .int i => some i
  | .bool _ => none

def Val.asBool : Val → Option Bool
  | .int _ => none
  | .bool b => some b

/-- an operation on two integers -/
def onInts (f : Int64 → Int64 → Option Val) (v w : Option Val) : Option Val :=
  (v.bind Val.asInt).bind fun i => (w.bind Val.asInt).bind fun j => f i j

def arithValue (op : ArithOp) : Option Val → Option Val → Option Val :=
  onInts fun i j => (intValue op i j).map .int

/-- an operation on two truth values -/
def onBools (f : Bool → Bool → Bool) (v w : Option Val) : Option Val :=
  (v.bind Val.asBool).bind fun a => (w.bind Val.asBool).map fun b => .bool (f a b)

/-- `not` has one operand, the other operations have two -/
def boolValue (op : BoolNodeOp) (v : Option Val) (w : Option (Option Val)) : Option Val :=
  match op, w with
  | .not, none => (v.bind Val.asBool).map fun a => .bool (!a)
  | .and, some w => onBools (· && ·) v w
  | .or, some w => onBools (· || ·) v w
  | .xor, some w => onBools (· ^^ ·) v w
  | _, _ => none

mutual

/-- the value of an expression -/
def eval (σ : Store) : AST → Option Val
  | .intConst val => some (.int val)
  | .boolConst val => some (.bool val)
  | .var ident => σ ident
  | .uminus term => ((eval σ term).bind Val.asInt).map fun i => .int (-i)
  | .plus term1 term2 inverted =>
    arithValue (if inverted then .sub else .add) (eval σ term1) (eval σ term2)
  | .mult term1 term2 inverted =>
    arithValue (if inverted then .div else .mul) (eval σ term1) (eval σ term2)
  | .mod term1 term2 => arithValue .mod (eval σ term1) (eval σ term2)
  | .pow term1 term2 => arithValue .pow (eval σ term1) (eval σ term2)
  | .comp term1 term2 op =>
    onInts (fun i j => some (.bool (op.holds i j))) (eval σ term1) (eval σ term2)
  | .bool term1 term2 op => boolValue op (eval σ term1) (evalOpt σ term2)
  | _ => none

/-- the value of an operand that may be missing -/
def evalOpt (σ : Store) : Option AST → Option (Option Val)
  | none => none
  | some term => some (eval σ term)

end

/-! ## statements -/

/-- exits from loops, with the number of loops that are left before the one they are about -/
inductive Exit
  | brk (n : Nat)
  | nxt (n : Nat)
  deriving DecidableEq, Repr

/-- what an exit means for the innermost loop -/
def Exit.turn : Exit → Flow.Turn Exit
  | .brk 0 => .stop
  | .brk (n + 1) => .out (.brk n)
  | .nxt 0 => .again
  | .nxt (n + 1) => .out (.nxt n)

/-- the loops that `break` and `next` leave, of `d` loops; too many and negative numbers mean the
outermost loop -/
def exitDepth (numLoops : Int64) (d : Nat) : Nat :=
  if numLoops < 0 then d - 1 else min numLoops.toInt.toNat (d - 1)

/-- the truth value of a condition -/
def testOf (cond : AST) (σ : Store) : Option Bool := (eval σ cond).bind Val.asBool

/-- an assignment -/
def assignTo (ident : Str) (expr : AST) : Flow.Prog Exit Store :=
  Flow.act fun σ => (eval σ expr).map (σ.set ident)

/-- the condition under which a counted loop goes on -/
def countCond (ident : Str) (stop : AST) : AST := .comp (.var ident) stop .leq

/-- the counter of the next turn; the increment is one if there is none -/
def countNext (ident : Str) (inc : Option AST) : AST :=
  .plus (inc.getD (.intConst 1)) (.var ident) false

mutual

/-- what a statement inside of `d` loops does -/
def AST.exec : AST → Nat → Flow.Prog Exit Store
  | .assign [ident] (some expr), _ => assignTo ident expr
  | .stmts stmts, d => execList stmts d
  | .cond cond ifStmt elseStmt, d =>
    Flow.cond (testOf cond) (ifStmt.exec d) (execOpt elseStmt d)
  | .cases expr cases defaultStmts, d => execCases cases expr (execOpt defaultStmts d) d
  | .loop cond stmt, d => Flow.loop (testOf cond) Exit.turn (stmt.exec (d + 1))
  | .rangedLoop ident begin stop inc stmt, d =>
    Flow.seq (assignTo ident begin)
      (Flow.loop (testOf (countCond ident stop)) Exit.turn
        (Flow.seq (stmt.exec (d + 1)) (assignTo ident (countNext ident inc))))
  | .loopBreak numLoops, d => Flow.leave (.brk (exitDepth numLoops d))
  | .loopNext numLoops, d => Flow.leave (.nxt (exitDepth numLoops d))
  | _, _ => fun _ _ => .stuck

/-- a branch that may be missing -/
def execOpt : Option AST → Nat → Flow.Prog Exit Store
  | none, _ => Flow.skip
  | some stmt, d => stmt.exec d

/-- statements one after the other -/
def execList : List AST → Nat → Flow.Prog Exit Store
  | [], _ => Flow.skip
  | stmt :: stmts, d => Flow.seq (stmt.exec d) (execList stmts d)

/-- the first case that is equal to the selector, or what is behind the cases -/
def execCases : List (AST × AST) → AST → Flow.Prog Exit Store → Nat → Flow.Prog Exit Store
  | [], _, rest, _ => rest
  | (val, stmt) :: cases, expr, rest, d =>
    Flow.cond (testOf (.comp expr val .equ)) (stmt.exec d) (execCases cases expr rest d)

end

/-! ## types -/

section
variable (Γ : Str → Option ValTy)

/-- the type of an operation on two operands of the type `t` -/
def opTy (t u : ValTy) (ty1 ty2 : Option ValTy) : Option ValTy :=
  if ty1 = some t ∧ ty2 = some t then some u else none

def boolTy (op : BoolNodeOp) (ty1 : Option ValTy) (ty2 : Option (Option ValTy)) : Option ValTy :=
  match op, ty2 with
  | .not, none => opTy .bool .bool ty1 ty1
  | .and, some ty2 | .or, some ty2 | .xor, some ty2 => opTy .bool .bool ty1 ty2
  | _, _ => none

mutual

/-- the type of an expression -/
def exprTy : AST → Option ValTy
  | .intConst _ => some .int
  | .boolConst _ => some .bool
  | .var ident => Γ ident
  | .uminus term => opTy .int .int (exprTy term) (exprTy term)
  | .plus term1 term2 _ | .mult term1 term2 _ | .mod term1 term2 | .pow term1 term2 =>
    opTy .int .int (exprTy term1) (exprTy term2)
  | .comp term1 term2 _ => opTy .int .bool (exprTy term1) (exprTy term2)
  | .bool term1 term2 op => boolTy op (exprTy term1) (exprTyOpt term2)
  | _ => none

/-- the type of an operand that may be missing -/
def exprTyOpt : Option AST → Option (Option ValTy)
  | none => none
  | some term => some (exprTy term)

end

mutual

/-- the types in a statement are right; `loops` are the loops around it, the innermost one first,
where `true` stands for a counted one, which `next` is not used for -/
def AST.typed : AST → List Bool → Bool
  | .assign [ident] (some expr), _ => (Γ ident).isSome && exprTy Γ expr == Γ ident
  | .stmts stmts, loops => typedList stmts loops
  | .cond cond ifStmt elseStmt, loops =>
    exprTy Γ cond == some .bool && ifStmt.typed loops && typedOpt elseStmt loops
  | .cases expr cases defaultStmts, loops =>
    exprTy Γ expr == some .int && typedCases cases loops && typedOpt defaultStmts loops
  | .loop cond stmt, loops => exprTy Γ cond == some .bool && stmt.typed (false :: loops)
  | .rangedLoop ident begin stop inc stmt, loops =>
    exprTy Γ begin == Γ ident && exprTy Γ (countCond ident stop) == some .bool &&
      exprTy Γ (countNext ident inc) == Γ ident && stmt.typed (true :: loops)
  | .loopBreak numLoops, loops => !loops.isEmpty
  | .loopNext numLoops, loops => loops[exitDepth numLoops loops.length]? == some false
  | _, _ => false

def typedOpt : Option AST → List Bool → Bool
  | none, _ => true
  | some stmt, loops => stmt.typed loops

def typedList : List AST → List Bool → Bool
  | [], _ => true
  | stmt :: stmts, loops => stmt.typed loops && typedList stmts loops

def typedCases : List (AST × AST) → List Bool → Bool
  | [], _ => true
  | (val, stmt) :: cases, loops =>
    exprTy Γ val == some .int && stmt.typed loops && typedCases cases loops

end

/-- the values of the variables have their types -/
def Store.Typed (σ : Store) : Prop := ∀ x v, σ x = some v → Γ x = some v.ty

end

/-! ## values have the types of their expressions -/

section
variable {Γ : Str → Option ValTy} {σ : Store}

theorem asInt_some {v : Option Val} {i : Int64} (h : v.bind Val.asInt = some i) :
    v = some (.int i) := by
  obtain ⟨w, rfl, hw⟩ := Option.bind_eq_some_iff.1 h
  cases w with
  | int j => cases hw; rfl
  | bool b => cases hw

theorem asBool_some {v : Option Val} {b : Bool} (h : v.bind Val.asBool = some b) :
    v = some (.bool b) := by
  obtain ⟨w, rfl, hw⟩ := Option.bind_eq_some_iff.1 h
  cases w with
  | int j => cases hw
  | bool c => cases hw; rfl

theorem onInts_some {f : Int64 → Int64 → Option Val} {v w : Option Val} {x : Val}
    (h : onInts f v w = some x) : ∃ i j, v = some (.int i) ∧ w = some (.int j) ∧ f i j = some x := by
  obtain ⟨i, hi, h⟩ := Option.bind_eq_some_iff.1 h
  obtain ⟨j, hj, h⟩ := Option.bind_eq_some_iff.1 h
  exact ⟨i, j, asInt_some hi, asInt_some hj, h⟩

theorem arithValue_some {op : ArithOp} {v w : Option Val} {x : Val}
    (h : arithValue op v w = some x) :
    ∃ i j k, v = some (.int i) ∧ w = some (.int j) ∧ intValue op i j = some k ∧ x = .int k := by
  obtain ⟨i, j, hi, hj, h⟩ := onInts_some h
  obtain ⟨k, hk, rfl⟩ := Option.map_eq_some_iff.1 h
  exact ⟨i, j, k, hi, hj, hk, rfl⟩

theorem onBools_some {f : Bool → Bool → Bool} {v w : Option Val} {x : Val}
    (h : onBools f v w = some x) :
    ∃ a b, v = some (.bool a) ∧ w = some (.bool b) ∧ x = .bool (f a b) := by
  obtain ⟨a, ha, h⟩ := Option.bind_eq_some_iff.1 h
  obtain ⟨b, hb, rfl⟩ := Option.map_eq_some_iff.1 h
  exact ⟨a, b, asBool_some ha, asBool_some hb, rfl⟩

theorem testOf_some {cond : AST} {b : Bool} (h : testOf cond σ = some b) :
    eval σ cond = some (.bool b) := asBool_some h

theorem opTy_some {t u r : ValTy} {ty1 ty2 : Option ValTy} (h : opTy t u ty1 ty2 = some r) :
    ty1 = some t ∧ ty2 = some t ∧ r = u := by
  unfold opTy at h
  split at h
  · next hc =>
    cases h
    exact ⟨hc.1, hc.2, rfl⟩
  · cases h

theorem boolTy_some {op : BoolNodeOp} {ty1 : Option ValTy} {ty2 : Option (Option ValTy)}
    {r : ValTy} (h : boolTy op ty1 ty2 = some r) : ty1 = some .bool ∧ r = .bool ∧
      (op = .not ∧ ty2 = none ∨ op ≠ .not ∧ ty2 = some (some .bool)) := by
  cases op <;> cases ty2 <;> first
    | cases h
    | (obtain ⟨h1, h2, h3⟩ := opTy_some h
       subst h1 h2 h3
       simp)
    | (obtain ⟨h1, h2, h3⟩ := opTy_some h
       subst h3
       simp [h1])

theorem boolValue_some {op : BoolNodeOp} {v : Option Val} {w : Option (Option Val)} {x : Val}
    (h : boolValue op v w = some x) : ∃ b, x = .bool b := by
  unfold boolValue at h
  split at h
  · obtain ⟨a, -, rfl⟩ := Option.map_eq_some_iff.1 h
    exact ⟨_, rfl⟩
  · obtain ⟨a, b, -, -, rfl⟩ := onBools_some h
    exact ⟨_, rfl⟩
  · obtain ⟨a, b, -, -, rfl⟩ := onBools_some h
    exact ⟨_, rfl⟩
  · obtain ⟨a, b, -, -, rfl⟩ := onBools_some h
    exact ⟨_, rfl⟩
  · cases h

/-- **The value of an expression** has its type. -/
theorem eval_ty (hσ : σ.Typed Γ) (ast : AST) {t : ValTy} {v : Val} (ht : exprTy Γ ast = some t)
    (hv : eval σ ast = some v) : v.ty = t := by
  cases ast <;> unfold exprTy at ht <;> unfold eval at hv <;> first
    | cases ht; cases hv; rfl
    | cases ht
    | skip
  case uminus term =>
    obtain ⟨i, -, rfl⟩ := Option.map_eq_some_iff.1 hv
    exact (opTy_some ht).2.2.symm
  case var ident =>
    have h := hσ ident v hv
    rw [ht] at h
    exact (Option.some.inj h).symm
  case comp term1 term2 op =>
    obtain ⟨i, j, -, -, h⟩ := onInts_some hv
    cases h
    exact (opTy_some ht).2.2.symm
  case bool term1 term2 op =>
    obtain ⟨b, rfl⟩ := boolValue_some hv
    exact (boolTy_some ht).2.1.symm
  all_goals
    obtain ⟨i, j, k, -, -, -, rfl⟩ := arithValue_some hv
    exact (opTy_some ht).2.2.symm

theorem Store.Typed.set (hσ : σ.Typed Γ) {name : Str} {v : Val} (h : Γ name = some v.ty) :
    (σ.set name v).Typed Γ := by
  intro x w hw
  unfold Store.set at hw
  by_cases hx : x = name
  · rw [if_pos hx] at hw
    cases hw
    rw [hx, h]
  · rw [if_neg hx] at hw
    exact hσ x w hw

end

end MuF
