import MuF.Opt.Fixpoint
import MuF.VM.Divisions
import MuF.VM.Interrupts

/-!
# Integer divisions of the optimiser

* `AST.value`: the value of an expression over constants;
* `AST.fault`: the division with no quotient, or the missing node, that a pass comes to first;
* `opt_fares`: a pass fails there, and otherwise it has a result;
* **`divisions_iff`**: the divisions of the machine and of the optimiser.
-/

set_option linter.unusedVariables false

namespace MuF

open Exec

section
variable [MathLib TReal]

/-! ## values -/

omit [MathLib TReal] in
/-- the node, if it is a constant -/
def AST.asConst (ast : AST) : Option AST := if ast.isConst then some ast else none

/-- an operation on two values -/
def foldTwo (f : AST → AST → AST) (val1 val2 : Option AST) : Option AST :=
  match val1, val2 with
  | some k1, some k2 =>
    match foldConsts (f k1 k2) with
    | some (_, .ok new) => some new
    | _ => none
  | _, _ => none

mutual

/-- the value of an expression over constants -/
def AST.value : AST → Option AST
  | .plus term1 term2 inverted => foldTwo (fun a b => .plus a b inverted) term1.value term2.value
  | .mult term1 term2 inverted => foldTwo (fun a b => .mult a b inverted) term1.value term2.value
  | .mod term1 term2 => foldTwo .mod term1.value term2.value
  | .pow term1 term2 => foldTwo .pow term1.value term2.value
  | .comp term1 term2 op => foldTwo (fun a b => .comp a b op) term1.value term2.value
  | .bool term1 term2 op => foldTwo (fun a b => .bool a (some b) op) term1.value (valueOpt term2)
  | .realConst val => some (.realConst val)
  | .intConst val => some (.intConst val)
  | .cplxConst val => some (.cplxConst val)
  | .quatConst val => some (.quatConst val)
  | .boolConst val => some (.boolConst val)
  | .strConst val => some (.strConst val)
  | .uminus _ | .norm _ | .varDecl _ _ _ _ | .var _ | .assign _ _ | .arrayAccess _ _ _ _
  | .arrayAssign _ _ _ _ _ | .func _ _ _ _ | .call _ _ | .ret _ _ | .stmts _ | .cond _ _ _
  | .cases _ _ _ | .loop _ _ | .rangedLoop _ _ _ _ _ | .loopBreak _ | .loopNext _
  | .exprList _ _ | .label _ | .jump _ _ => none

/-- the value of a node that may be missing -/
def valueOpt : Option AST → Option AST
  | none => none
  | some ast => ast.value

end

/-! ## faults -/

/-- what is wrong with two integers below a division -/
def divFault : AST → AST → Option Err
  | .intConst a, .intConst b => if noQuotient a b then some divError else none
  | _, _ => none

/-- the same for two values -/
def twoFault (bad : AST → AST → Option Err) (val1 val2 : Option AST) : Option Err :=
  match val1, val2 with
  | some k1, some k2 => bad k1 k2
  | _, _ => none

/-- a division of integers with no quotient, where a node is folded -/
def AST.foldFault : AST → Option Err
  | .mult term1 term2 true | .mod term1 term2 => twoFault divFault term1.value term2.value
  | _ => none

/-- the same for a node that may be missing -/
def foldFaultOpt : Option AST → Option Err
  | none => none
  | some ast => ast.foldFault

/-- a node that is not there -/
def missing : Err := .ub "null pointer"

mutual

/-- what a pass fails with: a division of integers with no quotient, or a missing node -/
def AST.fault : AST → Option Err
  | .uminus term | .norm term => term.fault.or term.foldFault
  | .plus term1 term2 _ | .mult term1 term2 _ | .mod term1 term2 | .pow term1 term2
  | .comp term1 term2 _ =>
    term1.fault.or (term2.fault.or (term1.foldFault.or term2.foldFault))
  | .call _ args | .exprList args _ => faultArgs args
  | .stmts stmts => faultList stmts
  | .varDecl _ optAssign _ _ => faultOpt optAssign
  | .func _ _ _ stmts => stmts.fault
  | .ret rets onlyJumpToFuncEnd => if onlyJumpToFuncEnd then none else faultRets rets
  | .assign _ expr => (faultSome expr).or (foldFaultOpt expr)
  | .rangedLoop _ begin stop inc stmt =>
    begin.fault.or (stop.fault.or ((faultOpt inc).or stmt.fault))
  | .arrayAccess term num1 num2 _ | .arrayAssign _ term num1 num2 _ =>
    (faultSome num1).or ((faultOpt num2).or (term.fault.or
      ((foldFaultOpt num1).or ((foldFaultOpt num2).or term.foldFault))))
  | .bool term1 term2 _ =>
    term1.fault.or ((faultOpt term2).or (term1.foldFault.or (foldFaultOpt term2)))
  | .cond cond ifStmt elseStmt =>
    cond.fault.or (ifStmt.fault.or ((faultOpt elseStmt).or cond.foldFault))
  | .cases expr cases defaultStmts =>
    expr.fault.or ((faultCases cases).or (faultOpt defaultStmts))
  | .loop cond stmt => cond.fault.or (stmt.fault.or cond.foldFault)
  | .var _ | .realConst _ | .intConst _ | .cplxConst _ | .quatConst _ | .boolConst _
  | .strConst _ | .loopBreak _ | .loopNext _ | .label _ | .jump _ _ => none

def faultOpt : Option AST → Option Err
  | none => none
  | some ast => ast.fault

def faultSome : Option AST → Option Err
  | none => some missing
  | some ast => ast.fault

def faultList : List AST → Option Err
  | [] => none
  | ast :: asts => ast.fault.or (faultList asts)

def faultRets : Option (List AST) → Option Err
  | none => some missing
  | some asts => faultList asts

def faultArgs : List AST → Option Err
  | [] => none
  | ast :: asts => ast.fault.or (ast.foldFault.or (faultArgs asts))

def faultCases : List (AST × AST) → Option Err
  | [] => none
  | (cond, stmt) :: cases =>
    cond.fault.or (stmt.fault.or (cond.foldFault.or (faultCases cases)))

end

/-! ## operations -/

/-- the failure of a replacement -/
def foldError : Option (OptKind × Res AST) → Option Err
  | some (_, .error e) => some e
  | _ => none

/-- a node with two operands that is folded for constants, and fails as given -/
structure IsOp (f : AST → AST → AST) (bad : AST → AST → Option Err) : Prop where
  notConst : ∀ a b, (f a b).isConst = false
  consts : ∀ a b p, foldConsts (f a b) = some p → a.isConst = true ∧ b.isConst = true
  error : ∀ a b, foldError (foldConsts (f a b)) = bad a b

omit [MathLib TReal] in
theorem asConst_of {ast : AST} (h : ast.isConst = true) : ast.asConst = some ast := if_pos h

omit [MathLib TReal] in
theorem asConst_none {ast : AST} (h : ast.isConst = false) : ast.asConst = none := by
  rw [AST.asConst, h]
  rfl

/-- a node that is kept -/
theorem optNode_stays {ast : AST} (h : kept ast = true) {P : AST → Prop} (hP : P ast) :
    Fares none P (optNode ast) := fun c => ⟨ast, c, optNode_kept h c, hP⟩

/-- a node with two operands behind their visits -/
theorem optNode_two {f : AST → AST → AST} {bad : AST → AST → Option Err} (h : IsOp f bad)
    (u1 u2 : AST) : Fares (twoFault bad u1.asConst u2.asConst)
      (fun u => u.asConst = foldTwo f u1.asConst u2.asConst) (optNode (f u1 u2)) := by
  cases hf : foldConsts (f u1 u2) with
  | none =>
    have hk : kept (f u1 u2) = true := Option.isNone_iff_eq_none.2 hf
    by_cases hc : u1.isConst = true ∧ u2.isConst = true
    · have he := h.error u1 u2
      rw [hf] at he
      rw [asConst_of hc.1, asConst_of hc.2, twoFault, ← he, foldTwo, hf]
      exact optNode_stays hk (asConst_none (h.notConst u1 u2))
    · have e1 : twoFault bad u1.asConst u2.asConst = none := by
        unfold AST.asConst
        split <;> split <;> first | rfl | exact absurd ⟨‹_›, ‹_›⟩ hc
      have e2 : foldTwo f u1.asConst u2.asConst = none := by
        unfold AST.asConst
        split <;> split <;> first | rfl | exact absurd ⟨‹_›, ‹_›⟩ hc
      rw [e1, e2]
      exact optNode_stays hk (asConst_none (h.notConst u1 u2))
  | some p =>
    obtain ⟨kind, res⟩ := p
    obtain ⟨hc1, hc2⟩ := h.consts u1 u2 _ hf
    have he := h.error u1 u2
    rw [hf] at he
    rw [asConst_of hc1, asConst_of hc2, twoFault, ← he, foldTwo, hf]
    intro c
    cases res with
    | error e =>
      refine ⟨c.add kind, ?_⟩
      rw [optNode, optConsts, hf]
      rfl
    | ok new =>
      refine ⟨new, c.add kind, ?_, asConst_of (foldConsts_const hf)⟩
      rw [optNode, optConsts, hf]
      rfl

theorem arithConsts_consts {op : ArithOp} {complex : Bool} {a b : AST} {p : OptKind × Res AST}
    (h : arithConsts op complex a b = some p) : a.isConst = true ∧ b.isConst = true := by
  unfold arithConsts at h
  split at h
  · exact ⟨rfl, rfl⟩
  · exact ⟨rfl, rfl⟩
  · exact ⟨rfl, rfl⟩
  · cases h

omit [MathLib TReal] in
theorem divFault_left {a : AST} (h : ∀ x, a ≠ .intConst x) (b : AST) : divFault a b = none := by
  cases a with
  | intConst x => exact absurd rfl (h x)
  | _ => rfl

omit [MathLib TReal] in
theorem divFault_right {b : AST} (h : ∀ x, b ≠ .intConst x) (a : AST) : divFault a b = none := by
  cases b with
  | intConst x => exact absurd rfl (h x)
  | _ => cases a <;> rfl

omit [MathLib TReal] in
theorem intArith_error (op : ArithOp) (a b : Int64) :
    foldError (some (.arith, (intArith op a b).map .intConst)) =
      if op.divides then divFault (.intConst a) (.intConst b) else none := by
  have h := intArith_divides op a b
  cases hr : intArith op a b with
  | ok k =>
    rw [hr] at h
    have hn : (op.divides && noQuotient a b) = false := by
      rw [← Bool.not_eq_true, ← h]
      exact nofun
    cases ho : op.divides with
    | false => rfl
    | true =>
      rw [ho, Bool.true_and] at hn
      rw [divFault, hn]
      rfl
  | error e =>
    have he : e = divError := by
      unfold intArith at hr
      cases op <;> dsimp only at hr <;> first | cases hr | skip
      all_goals
        split at hr
        · cases hr
          rfl
        · cases hr
    rw [hr, he] at h
    obtain ⟨ho, hq⟩ := Bool.and_eq_true_iff.1 (h.1 rfl)
    rw [ho, divFault, hq, he]
    rfl

theorem arithConsts_error (op : ArithOp) (complex : Bool) (a b : AST) :
    foldError (arithConsts op complex a b) = if op.divides then divFault a b else none := by
  unfold arithConsts
  split
  · exact intArith_error op _ _
  · rw [divFault_left (by intro x h; cases h), ite_self]
    rfl
  · rw [divFault_left (by intro x h; cases h), ite_self]
    cases complex <;> rfl
  · next h1 h2 h3 =>
    have hd : divFault a b = none := by
      cases a with
      | intConst x => exact divFault_right (fun y hy => h1 x y rfl hy) _
      | _ => rfl
    rw [hd, ite_self]
    rfl

/-- the operators of one node -/
theorem isOp_arith {f : AST → AST → AST} (op : ArithOp) (complex : Bool)
    (hn : ∀ a b, (f a b).isConst = false)
    (hf : ∀ a b, foldConsts (f a b) = arithConsts op complex a b) :
    IsOp f fun a b => if op.divides then divFault a b else none where
  notConst := hn
  consts a b p h := by
    rw [hf] at h
    exact arithConsts_consts h
  error a b := by rw [hf, arithConsts_error]

/-- a sum of other constants than strings -/
theorem foldConsts_plus (a b : AST) (inverted : Bool) :
    (∃ x y, a = .strConst x ∧ b = .strConst y) ∨ foldConsts (.plus a b inverted) =
      arithConsts (if inverted then .sub else .add) true a b := by
  cases a with
  | strConst x =>
    cases b with
    | strConst y => exact Or.inl ⟨x, y, rfl, rfl⟩
    | _ => exact Or.inr rfl
  | _ => exact Or.inr rfl

theorem isOp_plus (inverted : Bool) : IsOp (fun a b => .plus a b inverted) fun _ _ => none where
  notConst a b := rfl
  consts a b p h := by
    rcases foldConsts_plus a b inverted with ⟨x, y, rfl, rfl⟩ | e
    · exact ⟨rfl, rfl⟩
    · rw [e] at h
      exact arithConsts_consts h
  error a b := by
    rcases foldConsts_plus a b inverted with ⟨x, y, rfl, rfl⟩ | e
    · cases inverted <;> rfl
    · rw [e, arithConsts_error]
      cases inverted <;> rfl

theorem isOp_mult : IsOp (fun a b => .mult a b false) fun _ _ => none :=
  isOp_arith .mul true (fun a b => rfl) fun a b => rfl

theorem isOp_div : IsOp (fun a b => .mult a b true) divFault :=
  isOp_arith .div true (fun a b => rfl) fun a b => rfl

theorem isOp_mod : IsOp .mod divFault :=
  isOp_arith .mod false (fun a b => rfl) fun a b => rfl

theorem isOp_pow : IsOp .pow fun _ _ => none :=
  isOp_arith .pow true (fun a b => rfl) fun a b => rfl

theorem isOp_comp (op : CompNodeOp) : IsOp (fun a b => .comp a b op) fun _ _ => none where
  notConst a b := rfl
  consts a b p h := by
    replace h : compConsts op a b = some p := h
    unfold compConsts at h
    split at h
    · exact ⟨rfl, rfl⟩
    · exact ⟨rfl, rfl⟩
    · exact ⟨rfl, rfl⟩
    · cases h
  error a b := by
    show foldError (compConsts op a b) = none
    unfold compConsts
    split
    · rfl
    · rfl
    · split <;> rfl
    · rfl

theorem isOp_bool (op : BoolNodeOp) : IsOp (fun a b => .bool a (some b) op) fun _ _ => none where
  notConst a b := rfl
  consts a b p h := by
    replace h : boolConsts op a (some b) = some p := h
    unfold boolConsts at h
    split at h
    · next hb =>
      cases hb
      exact ⟨rfl, rfl⟩
    · cases h
  error a b := by
    show foldError (boolConsts op a (some b)) = none
    unfold boolConsts
    split <;> rfl

/-! ## one pass -/

/-- what comes out of a visit is folded like the node itself -/
def Folds (ast t : AST) : Prop :=
  Fares ast.foldFault (fun u => u.asConst = ast.value) (optNode t)

/-- the same for a node that may be missing -/
def FoldsOpt (x y : Option AST) : Prop :=
  Fares (foldFaultOpt x) (fun u => u.bind AST.asConst = valueOpt x) (optNodeOpt y)

/-- the same for a node that is not tested for -/
def FoldsSome (x : Option AST) (t : AST) : Prop :=
  Fares (foldFaultOpt x) (fun u => u.asConst = valueOpt x) (optNode t)

/-- a node that is no operation, and no constant -/
theorem folds_none {ast t : AST} (h1 : ast.foldFault = none) (h2 : ast.value = none)
    (h3 : kept t = true) (h4 : t.isConst = false) : Folds ast t := by
  rw [Folds, h1, h2]
  exact optNode_stays h3 (asConst_none h4)

theorem foldsOpt_some {ast t : AST} (h : Folds ast t) : FoldsOpt (some ast) (some t) :=
  Fares.bind_pure h fun u hu => hu

theorem foldsOpt_none : FoldsOpt none none := Fares.pure rfl

/-- two operands, which are visited, and then folded -/
theorem optTwo_fares {ast1 ast2 : AST} {x1 x2 : OptM AST} {f : AST → AST → AST} {P : AST → Prop}
    (h1 : Fares ast1.fault (Folds ast1) x1) (h2 : Fares ast2.fault (Folds ast2) x2)
    (hP : ∀ u1 u2, u1.asConst = ast1.value → u2.asConst = ast2.value → P (f u1 u2)) :
    Fares (ast1.fault.or (ast2.fault.or (ast1.foldFault.or ast2.foldFault))) P (do
      let term1 ← x1
      let term2 ← x2
      let term1 ← optNode term1
      let term2 ← optNode term2
      return f term1 term2) :=
  h1.bind fun t1 f1 => h2.bind fun t2 f2 => f1.bind fun u1 e1 => f2.bind_pure fun u2 e2 =>
    hP u1 u2 e1 e2

/-- the indices and the expression of an element, which are visited, and then folded -/
theorem optElem_fares {num1 num2 : Option AST} {ast : AST} {x1 x3 : OptM AST}
    {x2 : OptM (Option AST)} {f : AST → Option AST → AST → AST} {P : AST → Prop}
    (h1 : Fares (faultSome num1) (FoldsSome num1) x1)
    (h2 : Fares (faultOpt num2) (FoldsOpt num2) x2) (h3 : Fares ast.fault (Folds ast) x3)
    (hP : ∀ n1 n2 u, P (f n1 n2 u)) :
    Fares ((faultSome num1).or ((faultOpt num2).or (ast.fault.or
      ((foldFaultOpt num1).or ((foldFaultOpt num2).or ast.foldFault))))) P (do
      let num1 ← x1
      let num2 ← x2
      let term ← x3
      let num1 ← optNode num1
      let num2 ← optNodeOpt num2
      let term ← optNode term
      return f num1 num2 term) :=
  h1.bind fun t1 f1 => h2.bind fun t2 f2 => h3.bind fun t3 f3 => f1.bind fun n1 _ =>
    f2.bind fun n2 _ => f3.bind_pure fun u _ => hP n1 n2 u

theorem folds_two {f : AST → AST → AST} {bad : AST → AST → Option Err} (h : IsOp f bad)
    {ast ast1 ast2 u1 u2 : AST} (h1 : u1.asConst = ast1.value) (h2 : u2.asConst = ast2.value)
    (hb : ast.foldFault = twoFault bad ast1.value ast2.value)
    (hv : ast.value = foldTwo f ast1.value ast2.value) : Folds ast (f u1 u2) := by
  rw [Folds, hb, hv, ← h1, ← h2]
  exact optNode_two h u1 u2

omit [MathLib TReal] in
theorem twoFault_none (val1 val2 : Option AST) : none = twoFault (fun _ _ => none) val1 val2 := by
  unfold twoFault
  split <;> rfl

mutual

/-- **A pass** fails at the first fault, and otherwise it has a result. -/
theorem opt_fares : ∀ ast : AST, Fares ast.fault (Folds ast) (opt ast)
  | .uminus term => by
    rw [AST.fault, opt]
    exact (opt_fares term).bind fun t ht => ht.bind_pure fun u hu => folds_none rfl rfl rfl rfl
  | .norm term => by
    rw [AST.fault, opt]
    exact (opt_fares term).bind fun t ht => ht.bind_pure fun u hu => folds_none rfl rfl rfl rfl
  | .plus term1 term2 inverted => by
    rw [AST.fault, opt]
    exact optTwo_fares (opt_fares term1) (opt_fares term2) fun u1 u2 h1 h2 =>
      folds_two (isOp_plus inverted) h1 h2 (twoFault_none _ _) rfl
  | .mult term1 term2 inverted => by
    rw [AST.fault, opt]
    refine optTwo_fares (opt_fares term1) (opt_fares term2) fun u1 u2 h1 h2 => ?_
    cases inverted with
    | false => exact folds_two isOp_mult h1 h2 (twoFault_none _ _) rfl
    | true => exact folds_two isOp_div h1 h2 rfl rfl
  | .mod term1 term2 => by
    rw [AST.fault, opt]
    exact optTwo_fares (opt_fares term1) (opt_fares term2) fun u1 u2 h1 h2 =>
      folds_two isOp_mod h1 h2 rfl rfl
  | .pow term1 term2 => by
    rw [AST.fault, opt]
    exact optTwo_fares (opt_fares term1) (opt_fares term2) fun u1 u2 h1 h2 =>
      folds_two isOp_pow h1 h2 (twoFault_none _ _) rfl
  | .comp term1 term2 op => by
    rw [AST.fault, opt]
    exact optTwo_fares (opt_fares term1) (opt_fares term2) fun u1 u2 h1 h2 =>
      folds_two (isOp_comp op) h1 h2 (twoFault_none _ _) rfl
  | .bool term1 term2 op => by
    rw [AST.fault, opt]
    refine (opt_fares term1).bind fun t1 f1 => (optOpt_fares term2).bind fun t2 f2 =>
      f1.bind fun u1 h1 => f2.bind_pure fun u2 h2 => ?_
    cases u2 with
    | none =>
      -- an operation on one operand stays
      have hv : AST.value (.bool term1 term2 op) = none := by
        rw [AST.value, ← h2]
        unfold foldTwo
        cases term1.value <;> rfl
      have hk : kept (.bool u1 none op) = true := by
        cases u1 <;> rfl
      exact folds_none rfl hv hk rfl
    | some u2 =>
      rw [Folds, AST.value, ← h1, ← h2]
      have h := optNode_two (isOp_bool op) u1 u2
      rwa [← twoFault_none] at h
  | .call ident args => by
    rw [AST.fault, opt]
    exact (optFoldList_fares args).bind_pure fun _ _ => folds_none rfl rfl rfl rfl
  | .exprList exprs arrayType => by
    rw [AST.fault, opt]
    exact (optFoldList_fares exprs).bind_pure fun _ _ => folds_none rfl rfl rfl rfl
  | .stmts stmts => by
    rw [AST.fault, opt]
    exact (optList_fares stmts).bind_pure fun _ _ => folds_none rfl rfl rfl rfl
  | .varDecl vars optAssign intentIn intentOut => by
    rw [AST.fault, opt]
    have ha := (optOpt_fares optAssign).and fun c t c' h => optOpt_folded optAssign h
    rw [← Option.or_none (o := faultOpt optAssign)]
    refine ha.bind fun assign h => ?_
    cases assign with
    | none => exact Fares.pure (folds_none rfl rfl rfl rfl)
    | some assign =>
      -- the expression was folded by the visit of the assignment
      intro c
      refine ⟨.varDecl vars (some assign) intentIn intentOut, c, ?_, folds_none rfl rfl rfl rfl⟩
      rw [bind_ok (optAssignExpr_kept h.1 c)]
      rfl
  | .func ident args rets stmts => by
    rw [AST.fault, opt]
    exact (opt_fares stmts).bind_pure fun _ _ => folds_none rfl rfl rfl rfl
  | .ret rets onlyJumpToFuncEnd => by
    rw [AST.fault, opt]
    cases onlyJumpToFuncEnd with
    | true => exact Fares.pure (folds_none rfl rfl rfl rfl)
    | false => exact (optSomeList_fares rets).bind_pure fun _ _ => folds_none rfl rfl rfl rfl
  | .assign idents expr => by
    rw [AST.fault, opt]
    exact (optSome_fares expr).bind fun t ht => ht.bind_pure fun u hu => folds_none rfl rfl rfl rfl
  | .rangedLoop ident begin stop inc stmt => by
    rw [AST.fault, opt]
    exact (opt_fares begin).bind fun _ _ => (opt_fares stop).bind fun _ _ =>
      (optOpt_fares inc).bind fun _ _ => (opt_fares stmt).bind_pure fun _ _ =>
        folds_none rfl rfl rfl rfl
  | .arrayAccess term num1 num2 ranged12 => by
    rw [AST.fault, opt]
    exact optElem_fares (optSome_fares num1) (optOpt_fares num2) (opt_fares term) fun _ _ _ =>
      folds_none rfl rfl rfl rfl
  | .arrayAssign ident expr num1 num2 ranged12 => by
    rw [AST.fault, opt]
    exact optElem_fares (optSome_fares num1) (optOpt_fares num2) (opt_fares expr) fun _ _ _ =>
      folds_none rfl rfl rfl rfl
  | .cond cond ifStmt elseStmt => by
    rw [AST.fault, opt]
    exact (opt_fares cond).bind fun t ht => (opt_fares ifStmt).bind fun _ _ =>
      (optOpt_fares elseStmt).bind fun _ _ => ht.bind_pure fun u hu => folds_none rfl rfl rfl rfl
  | .cases expr cases_ defaultStmts => by
    rw [AST.fault, opt]
    exact (opt_fares expr).bind fun _ _ => (optCases_fares cases_).bind fun _ _ =>
      (optOpt_fares defaultStmts).bind_pure fun _ _ => folds_none rfl rfl rfl rfl
  | .loop cond stmt => by
    rw [AST.fault, opt]
    exact (opt_fares cond).bind fun t ht => (opt_fares stmt).bind fun _ _ =>
      ht.bind_pure fun u hu => folds_none rfl rfl rfl rfl
  | .realConst _ | .intConst _ | .cplxConst _ | .quatConst _ | .boolConst _ | .strConst _ => by
    rw [AST.fault, opt]
    exact Fares.pure (optNode_stays rfl rfl)
  | .var _ | .loopBreak _ | .loopNext _ | .label _ | .jump _ _ => by
    rw [AST.fault, opt]
    exact Fares.pure (folds_none rfl rfl rfl rfl)

theorem optOpt_fares : ∀ x : Option AST, Fares (faultOpt x) (FoldsOpt x) (optOpt x)
  | none => by
    rw [faultOpt, optOpt]
    exact Fares.pure foldsOpt_none
  | some ast => by
    rw [faultOpt, optOpt]
    exact (opt_fares ast).bind_pure fun t ht => foldsOpt_some ht

theorem optSome_fares : ∀ x : Option AST, Fares (faultSome x) (FoldsSome x) (optSome x)
  | none => by
    rw [faultSome, optSome]
    exact Fares.throw _
  | some ast => by
    rw [faultSome, optSome]
    exact opt_fares ast

theorem optList_fares : ∀ asts : List AST, Fares (faultList asts) (fun _ => True) (optList asts)
  | [] => by
    rw [faultList, optList]
    exact Fares.pure trivial
  | ast :: asts => by
    rw [faultList, optList]
    exact (opt_fares ast).bind fun _ _ => (optList_fares asts).bind_pure fun _ _ => trivial

theorem optSomeList_fares : ∀ x : Option (List AST),
    Fares (faultRets x) (fun _ => True) (optSomeList x)
  | none => by
    rw [faultRets, optSomeList]
    exact Fares.throw _
  | some asts => by
    rw [faultRets, optSomeList]
    exact optList_fares asts

theorem optFoldList_fares : ∀ asts : List AST,
    Fares (faultArgs asts) (fun _ => True) (optFoldList asts)
  | [] => by
    rw [faultArgs, optFoldList]
    exact Fares.pure trivial
  | ast :: asts => by
    rw [faultArgs, optFoldList]
    exact (opt_fares ast).bind fun t ht => ht.bind fun _ _ =>
      (optFoldList_fares asts).bind_pure fun _ _ => trivial

theorem optCases_fares : ∀ cases : List (AST × AST),
    Fares (faultCases cases) (fun _ => True) (optCases cases)
  | [] => by
    rw [faultCases, optCases]
    exact Fares.pure trivial
  | (cond, stmt) :: cases => by
    rw [faultCases, optCases]
    exact (opt_fares cond).bind fun t ht => (opt_fares stmt).bind fun _ _ => ht.bind fun _ _ =>
      (optCases_fares cases).bind_pure fun _ _ => trivial

end

/-- **A pass** divides out of the domain of the division if this is the first fault. -/
theorem opt_divides {ast : AST} {c : OptCounts} :
    Fails divError (opt ast) c ↔ ast.fault = some divError :=
  (opt_fares ast).fails_iff

/-! ## the machine and the optimiser -/

/-- **No integer division out of its domain**: no turn of any run of the machine has one if and only
if no run comes to operands with no quotient, no elements or a bad length below a division or an
index, and no pass of the optimiser has one if and only if the tree has no constants with no
quotient where it folds. -/
theorem divisions_iff [LibThrows TReal] :
    (∀ s : VM, ¬ s.StopsByDivision ↔ ∀ u, s.Reaches u → ¬ Says badStep u) ∧
    ∀ (ast : AST) (c : OptCounts), ¬ Fails divError (opt ast) c ↔ ast.fault ≠ some divError :=
  ⟨fun s => s.not_stops_iff, fun ast c => not_congr opt_divides⟩

end

/-- `x = a / b` -/
def quotient (a b : Int64) : AST := .assign [[120]] (some (.mult (.intConst a) (.intConst b) true))

/-- a machine with a program that pushes two data, and goes on with one more instruction -/
def vmProgram (op : OpCode) (x y : TData) : VM :=
  after (setMem 0 (OpCode.push.code :: x.bytes .unknown ++ OpCode.push.code :: y.bytes .unknown ++
    [op.code]) true) (@VM.init Platform.packed 256 ⟨0⟩ [])

theorem divisions_quotient :
    (¬ @VM.StopsByDivision (MathLib.absent ⟨0⟩) (vmProgram .div (.int 7) (.int 2)) ↔
      ∀ u, @VM.Reaches (MathLib.absent ⟨0⟩) (vmProgram .div (.int 7) (.int 2)) u →
        ¬ Says badStep u) ∧
    ¬ Fails divError (@opt (MathLib.absent ⟨0⟩) (quotient 7 2)) (⟨0, 0⟩ : OptCounts) := by
  have h := @divisions_iff (MathLib.absent ⟨0⟩) (LibThrows.absent (⟨0⟩ : TReal))
  exact ⟨h.1 _, (h.2 _ _).2 (by decide)⟩

theorem stops_of_returns {s : VM}
    (h1 : returns (@step (MathLib.absent ⟨0⟩)) s .running = true)
    (h2 : returns (@step (MathLib.absent ⟨0⟩)) (after (@step (MathLib.absent ⟨0⟩)) s)
      .running = true)
    (h3 : failsBy divError (@step (MathLib.absent ⟨0⟩)) (after (@step (MathLib.absent ⟨0⟩))
      (after (@step (MathLib.absent ⟨0⟩)) s)) = true) :
    @VM.StopsByDivision (MathLib.absent ⟨0⟩) s := by
  refine ⟨_, ?_, fails_of h3⟩
  apply Relation.ReflTransGen.tail
  · exact Relation.ReflTransGen.single (Or.inl (run_eq_after h1))
  · exact Or.inl (run_eq_after h2)

/-- a division by zero and an element of an empty string stop the machine, and a division by zero
stops the optimiser -/
theorem divisions_by_zero :
    @VM.StopsByDivision (MathLib.absent ⟨0⟩) (vmProgram .div (.int 1) (.int 0)) ∧
    @VM.StopsByDivision (MathLib.absent ⟨0⟩) (vmProgram .mod (.int Int64.minValue) (.int (-1))) ∧
    @VM.StopsByDivision (MathLib.absent ⟨0⟩) (vmProgram .rdarr (.str []) (.int 0)) ∧
    Fails divError (@opt (MathLib.absent ⟨0⟩) (quotient 1 0)) (⟨0, 0⟩ : OptCounts) := by
  refine ⟨stops_of_returns ?_ ?_ ?_, stops_of_returns ?_ ?_ ?_, stops_of_returns ?_ ?_ ?_, _, rfl⟩
  all_goals decide +kernel

end MuF
