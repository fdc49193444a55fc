import MuF.Opt.Consts

/-!
# One pass is enough

* `AST.folded`: no operation on constants is left where the optimiser looks for one;
* `opt_folded`: a pass gives such a tree;
* `folded_opt`: a pass does nothing with such a tree;
* **`opt_fixpoint`**: a second pass does nothing.
-/

set_option linter.unusedVariables false

namespace MuF

open Exec

section
variable [MathLib TReal]

/-! ## trees without operations on constants -/

/-- the node stays -/
def kept (ast : AST) : Bool := (foldConsts ast).isNone

mutual

/-- no operation on constants is left below a node, where the optimiser looks for one -/
def AST.folded : AST → Bool
  | .uminus term | .norm term => term.folded && kept term
  | .plus term1 term2 _ | .mult term1 term2 _ | .mod term1 term2 | .pow term1 term2
  | .comp term1 term2 _ => term1.folded && kept term1 && (term2.folded && kept term2)
  | .call _ args | .exprList args _ => foldedArgs args
  | .stmts stmts => foldedList stmts
  | .varDecl _ optAssign _ _ => foldedOpt optAssign
  | .func _ _ _ stmts => stmts.folded
  | .ret rets onlyJumpToFuncEnd => onlyJumpToFuncEnd || foldedRets rets
  | .assign _ expr => foldedSome expr
  | .rangedLoop _ begin stop inc stmt =>
    begin.folded && stop.folded && foldedOpt inc && stmt.folded
  | .arrayAccess term num1 num2 _ =>
    foldedSome num1 && foldedOptArg num2 && (term.folded && kept term)
  | .arrayAssign _ expr num1 num2 _ =>
    foldedSome num1 && foldedOptArg num2 && (expr.folded && kept expr)
  | .bool term1 term2 _ => term1.folded && kept term1 && foldedOptArg term2
  | .cond cond ifStmt elseStmt =>
    cond.folded && kept cond && ifStmt.folded && foldedOpt elseStmt
  | .cases expr cases defaultStmts =>
    expr.folded && foldedCases cases && foldedOpt defaultStmts
  | .loop cond stmt => cond.folded && kept cond && stmt.folded
  | .var _ | .realConst _ | .intConst _ | .cplxConst _ | .quatConst _ | .boolConst _
  | .strConst _ | .loopBreak _ | .loopNext _ | .label _ | .jump _ _ => true

/-- a node that may be missing -/
def foldedOpt : Option AST → Bool
  | none => true
  | some ast => ast.folded

/-- a node that may be missing, and is folded -/
def foldedOptArg : Option AST → Bool
  | none => true
  | some ast => ast.folded && kept ast

/-- a node that is folded -/
def foldedSome : Option AST → Bool
  | none => false
  | some ast => ast.folded && kept ast

def foldedList : List AST → Bool
  | [] => true
  | ast :: asts => ast.folded && foldedList asts

def foldedRets : Option (List AST) → Bool
  | none => false
  | some asts => foldedList asts

def foldedArgs : List AST → Bool
  | [] => true
  | ast :: asts => ast.folded && kept ast && foldedArgs asts

def foldedCases : List (AST × AST) → Bool
  | [] => true
  | (cond, stmt) :: cases => cond.folded && kept cond && stmt.folded && foldedCases cases

end

/-! ## folding -/

/-- constants -/
def AST.isConst : AST → Bool
  | .realConst _ | .intConst _ | .cplxConst _ | .quatConst _ | .boolConst _ | .strConst _ => true
  | _ => false

omit [MathLib TReal] in
theorem map_const {α : Type} {f : α → AST} (hf : ∀ a, (f a).isConst = true) {x : Res α} {new : AST}
    (h : x.map f = .ok new) : new.isConst = true := by
  cases x with
  | error e => cases h
  | ok a =>
    cases h
    exact hf a

theorem arithConsts_const {op : ArithOp} {complex : Bool} {term1 term2 new : AST} {kind : OptKind}
    (h : arithConsts op complex term1 term2 = some (kind, .ok new)) : new.isConst = true := by
  unfold arithConsts at h
  split at h
  · exact map_const (fun _ => rfl) (congrArg Prod.snd (Option.some.inj h))
  · cases h
    rfl
  · split at h
    · cases h
      rfl
    · cases h
  · cases h

theorem compConsts_const {op : CompNodeOp} {term1 term2 new : AST} {kind : OptKind}
    (h : compConsts op term1 term2 = some (kind, .ok new)) : new.isConst = true := by
  unfold compConsts at h
  split at h
  · cases h
    rfl
  · cases h
    rfl
  · split at h
    · cases h
      rfl
    · cases h
      rfl
    · cases h
  · cases h

omit [MathLib TReal] in
theorem boolConsts_const {op : BoolNodeOp} {term1 new : AST} {term2 : Option AST} {kind : OptKind}
    (h : boolConsts op term1 term2 = some (kind, .ok new)) : new.isConst = true := by
  unfold boolConsts at h
  split at h
  · cases h
    rfl
  · cases h

/-- **A replacement** is a constant. -/
theorem foldConsts_const {ast new : AST} {kind : OptKind}
    (h : foldConsts ast = some (kind, .ok new)) : new.isConst = true := by
  unfold foldConsts at h
  split at h
  · split at h
    · cases h
    · cases h
      rfl
  · exact arithConsts_const h
  · exact arithConsts_const h
  · exact arithConsts_const h
  · exact arithConsts_const h
  · exact compConsts_const h
  · exact boolConsts_const h
  · cases h

theorem const_folded {ast : AST} (h : ast.isConst = true) :
    ast.folded = true ∧ kept ast = true := by
  cases ast <;> first | exact ⟨rfl, rfl⟩ | cases h

section
variable {ast t : AST} {c c' : OptCounts}

theorem optNode_kept (h : kept ast = true) (c : OptCounts) : (optNode ast).run c = .ok ast c := by
  have hn : foldConsts ast = none := Option.isNone_iff_eq_none.1 h
  rw [optNode, optConsts, hn]
  rfl

/-- a node is folded behind its visit -/
theorem optNode_folded (hf : ast.folded = true) (h : (optNode ast).run c = .ok t c') :
    t.folded = true ∧ kept t = true := by
  cases hn : foldConsts ast with
  | none =>
    have hk : kept ast = true := Option.isNone_iff_eq_none.2 hn
    rw [optNode_kept hk] at h
    cases h
    exact ⟨hf, hk⟩
  | some p =>
    obtain ⟨kind, res⟩ := p
    rw [optNode, optConsts, hn] at h
    cases res with
    | error e => cases h
    | ok new =>
      cases h
      exact const_folded (foldConsts_const hn)

theorem optNodeOpt_folded {x y : Option AST} (hf : foldedOpt x = true)
    (h : (optNodeOpt x).run c = .ok y c') : foldedOptArg y = true := by
  cases x with
  | none =>
    cases h
    rfl
  | some ast =>
    obtain ⟨t, c1, h1, h2⟩ := bind_eq_ok.1 h
    cases h2
    exact Bool.and_eq_true_iff.2 (optNode_folded hf h1)

theorem optNodeOpt_kept {x : Option AST} (h : foldedOptArg x = true) (c : OptCounts) :
    (optNodeOpt x).run c = .ok x c := by
  cases x with
  | none => rfl
  | some ast =>
    rw [optNodeOpt, bind_ok (optNode_kept (Bool.and_eq_true_iff.1 h).2 c)]
    rfl

/-! ## one pass -/

/-- two operands -/
theorem optTwo_folded {x1 x2 : OptM AST} {f : AST → AST → AST}
    (h1 : ∀ {t c c'}, x1.run c = .ok t c' → t.folded = true)
    (h2 : ∀ {t c c'}, x2.run c = .ok t c' → t.folded = true)
    (h : (do
      let term1 ← x1
      let term2 ← x2
      let term1 ← optNode term1
      let term2 ← optNode term2
      return f term1 term2 : OptM AST).run c = .ok t c') :
    ∃ u1 u2, t = f u1 u2 ∧ (u1.folded && kept u1 && (u2.folded && kept u2)) = true := by
  obtain ⟨t1, c1, e1, h⟩ := bind_eq_ok.1 h
  obtain ⟨t2, c2, e2, h⟩ := bind_eq_ok.1 h
  obtain ⟨u1, c3, e3, h⟩ := bind_eq_ok.1 h
  obtain ⟨u2, c4, e4, h⟩ := bind_eq_ok.1 h
  cases h
  obtain ⟨f1, k1⟩ := optNode_folded (h1 e1) e3
  obtain ⟨f2, k2⟩ := optNode_folded (h2 e2) e4
  exact ⟨u1, u2, rfl, by simp [f1, k1, f2, k2]⟩

/-- an element, with its indices and what is accessed or assigned -/
theorem optElem_folded {x1 x3 : OptM AST} {x2 : OptM (Option AST)}
    {f : AST → Option AST → AST → AST} (h1 : ∀ {t c c'}, x1.run c = .ok t c' → t.folded = true)
    (h2 : ∀ {t c c'}, x2.run c = .ok t c' → foldedOpt t = true)
    (h3 : ∀ {t c c'}, x3.run c = .ok t c' → t.folded = true)
    (h : (do
      let num1 ← x1
      let num2 ← x2
      let term ← x3
      let num1 ← optNode num1
      let num2 ← optNodeOpt num2
      let term ← optNode term
      return f num1 num2 term : OptM AST).run c = .ok t c') :
    ∃ n1 n2 u, t = f n1 n2 u ∧
      (foldedSome (some n1) && foldedOptArg n2 && (u.folded && kept u)) = true := by
  obtain ⟨t1, c1, e1, h⟩ := bind_eq_ok.1 h
  obtain ⟨t2, c2, e2, h⟩ := bind_eq_ok.1 h
  obtain ⟨t3, c3, e3, h⟩ := bind_eq_ok.1 h
  obtain ⟨n1, c4, e4, h⟩ := bind_eq_ok.1 h
  obtain ⟨n2, c5, e5, h⟩ := bind_eq_ok.1 h
  obtain ⟨u, c6, e6, h⟩ := bind_eq_ok.1 h
  cases h
  obtain ⟨f1, k1⟩ := optNode_folded (h1 e1) e4
  have f2 := optNodeOpt_folded (h2 e2) e5
  obtain ⟨f3, k3⟩ := optNode_folded (h3 e3) e6
  exact ⟨n1, n2, u, rfl, by simp [foldedSome, f1, k1, f2, f3, k3]⟩

/-- the assignment of a declaration is folded by its visit -/
theorem optAssignExpr_folded (hf : ast.folded = true) (h : (optAssignExpr ast).run c = .ok t c') :
    t = ast := by
  unfold optAssignExpr at h
  split at h
  · next idents expr =>
    have hk : foldedSome (some expr) = true := by rwa [AST.folded] at hf
    rw [bind_ok (optNode_kept (Bool.and_eq_true_iff.1 hk).2 c)] at h
    cases h
    rfl
  · cases h
    rfl

mutual

/-- **A pass** leaves no operation on constants. -/
theorem opt_folded : ∀ (ast : AST) {t : AST} {c c' : OptCounts}, (opt ast).run c = .ok t c' →
    t.folded = true
  | .uminus term, t, c, c', h | .norm term, t, c, c', h => by
    rw [opt] at h
    obtain ⟨t1, c1, e1, h⟩ := bind_eq_ok.1 h
    obtain ⟨u1, c2, e2, h⟩ := bind_eq_ok.1 h
    cases h
    obtain ⟨f1, k1⟩ := optNode_folded (opt_folded term e1) e2
    rw [AST.folded, f1, k1]
    rfl
  | .plus term1 term2 _, t, c, c', h | .mult term1 term2 _, t, c, c', h
  | .mod term1 term2, t, c, c', h | .pow term1 term2, t, c, c', h
  | .comp term1 term2 _, t, c, c', h => by
    rw [opt] at h
    obtain ⟨u1, u2, rfl, hf⟩ := optTwo_folded (opt_folded term1) (opt_folded term2) h
    exact hf
  | .call ident args, t, c, c', h | .exprList args _, t, c, c', h => by
    rw [opt] at h
    obtain ⟨args', c1, e1, h⟩ := bind_eq_ok.1 h
    cases h
    exact optFoldList_folded args e1
  | .stmts stmts, t, c, c', h => by
    rw [opt] at h
    obtain ⟨stmts', c1, e1, h⟩ := bind_eq_ok.1 h
    cases h
    exact optList_folded stmts e1
  | .varDecl vars optAssign intentIn intentOut, t, c, c', h => by
    rw [opt] at h
    obtain ⟨assign, c1, e1, h⟩ := bind_eq_ok.1 h
    have hf := optOpt_folded optAssign e1
    cases assign with
    | none =>
      cases h
      rfl
    | some assign =>
      obtain ⟨assign', c2, e2, h⟩ := bind_eq_ok.1 h
      cases h
      rw [optAssignExpr_folded hf e2]
      exact hf
  | .func ident args rets stmts, t, c, c', h => by
    rw [opt] at h
    obtain ⟨stmts', c1, e1, h⟩ := bind_eq_ok.1 h
    cases h
    have hf := opt_folded stmts e1
    rw [AST.folded]
    exact hf
  | .ret rets onlyJumpToFuncEnd, t, c, c', h => by
    rw [opt] at h
    cases onlyJumpToFuncEnd with
    | true =>
      cases h
      rfl
    | false =>
      obtain ⟨rets', c1, e1, h⟩ := bind_eq_ok.1 h
      cases h
      exact optSomeList_folded rets e1
  | .assign idents expr, t, c, c', h => by
    rw [opt] at h
    obtain ⟨t1, c1, e1, h⟩ := bind_eq_ok.1 h
    obtain ⟨u1, c2, e2, h⟩ := bind_eq_ok.1 h
    cases h
    exact Bool.and_eq_true_iff.2 (optNode_folded (optSome_folded expr e1) e2)
  | .rangedLoop ident begin stop inc stmt, t, c, c', h => by
    rw [opt] at h
    obtain ⟨t1, c1, e1, h⟩ := bind_eq_ok.1 h
    obtain ⟨t2, c2, e2, h⟩ := bind_eq_ok.1 h
    obtain ⟨t3, c3, e3, h⟩ := bind_eq_ok.1 h
    obtain ⟨t4, c4, e4, h⟩ := bind_eq_ok.1 h
    cases h
    rw [AST.folded, opt_folded begin e1, opt_folded stop e2, optOpt_folded inc e3,
      opt_folded stmt e4]
    rfl
  | .arrayAccess term num1 num2 _, t, c, c', h => by
    rw [opt] at h
    obtain ⟨n1, n2, u, rfl, hf⟩ :=
      optElem_folded (optSome_folded num1) (optOpt_folded num2) (opt_folded term) h
    exact hf
  | .arrayAssign ident expr num1 num2 _, t, c, c', h => by
    rw [opt] at h
    obtain ⟨n1, n2, u, rfl, hf⟩ :=
      optElem_folded (optSome_folded num1) (optOpt_folded num2) (opt_folded expr) h
    exact hf
  | .bool term1 term2 op, t, c, c', h => by
    rw [opt] at h
    obtain ⟨t1, c1, e1, h⟩ := bind_eq_ok.1 h
    obtain ⟨t2, c2, e2, h⟩ := bind_eq_ok.1 h
    obtain ⟨u1, c3, e3, h⟩ := bind_eq_ok.1 h
    obtain ⟨u2, c4, e4, h⟩ := bind_eq_ok.1 h
    cases h
    obtain ⟨f1, k1⟩ := optNode_folded (opt_folded term1 e1) e3
    rw [AST.folded, f1, k1, optNodeOpt_folded (optOpt_folded term2 e2) e4]
    rfl
  | .cond cond ifStmt elseStmt, t, c, c', h => by
    rw [opt] at h
    obtain ⟨t1, c1, e1, h⟩ := bind_eq_ok.1 h
    obtain ⟨t2, c2, e2, h⟩ := bind_eq_ok.1 h
    obtain ⟨t3, c3, e3, h⟩ := bind_eq_ok.1 h
    obtain ⟨u1, c4, e4, h⟩ := bind_eq_ok.1 h
    cases h
    obtain ⟨f1, k1⟩ := optNode_folded (opt_folded cond e1) e4
    rw [AST.folded, f1, k1, opt_folded ifStmt e2, optOpt_folded elseStmt e3]
    rfl
  | .cases expr cases_ defaultStmts, t, c, c', h => by
    rw [opt] at h
    obtain ⟨t1, c1, e1, h⟩ := bind_eq_ok.1 h
    obtain ⟨t2, c2, e2, h⟩ := bind_eq_ok.1 h
    obtain ⟨t3, c3, e3, h⟩ := bind_eq_ok.1 h
    cases h
    rw [AST.folded, opt_folded expr e1, optCases_folded cases_ e2, optOpt_folded defaultStmts e3]
    rfl
  | .loop cond stmt, t, c, c', h => by
    rw [opt] at h
    obtain ⟨t1, c1, e1, h⟩ := bind_eq_ok.1 h
    obtain ⟨t2, c2, e2, h⟩ := bind_eq_ok.1 h
    obtain ⟨u1, c3, e3, h⟩ := bind_eq_ok.1 h
    cases h
    obtain ⟨f1, k1⟩ := optNode_folded (opt_folded cond e1) e3
    rw [AST.folded, f1, k1, opt_folded stmt e2]
    rfl
  | .var _, t, c, c', h | .realConst _, t, c, c', h | .intConst _, t, c, c', h
  | .cplxConst _, t, c, c', h | .quatConst _, t, c, c', h | .boolConst _, t, c, c', h
  | .strConst _, t, c, c', h | .loopBreak _, t, c, c', h | .loopNext _, t, c, c', h
  | .label _, t, c, c', h | .jump _ _, t, c, c', h => by
    rw [opt] at h
    cases h
    rfl
termination_by structural ast => ast

theorem optOpt_folded : ∀ (x : Option AST) {y : Option AST} {c c' : OptCounts},
    (optOpt x).run c = .ok y c' → foldedOpt y = true
  | none, y, c, c', h => by
    cases h
    rfl
  | some ast, y, c, c', h => by
    rw [optOpt] at h
    obtain ⟨t, c1, e1, h⟩ := bind_eq_ok.1 h
    cases h
    exact opt_folded ast e1
termination_by structural x => x

theorem optSome_folded : ∀ (x : Option AST) {t : AST} {c c' : OptCounts},
    (optSome x).run c = .ok t c' → t.folded = true
  | none, t, c, c', h => by cases h
  | some ast, t, c, c', h => by
    rw [optSome] at h
    exact opt_folded ast h
termination_by structural x => x

theorem optList_folded : ∀ (asts : List AST) {ts : List AST} {c c' : OptCounts},
    (optList asts).run c = .ok ts c' → foldedList ts = true
  | [], ts, c, c', h => by
    cases h
    rfl
  | ast :: asts, ts, c, c', h => by
    rw [optList] at h
    obtain ⟨t1, c1, e1, h⟩ := bind_eq_ok.1 h
    obtain ⟨t2, c2, e2, h⟩ := bind_eq_ok.1 h
    cases h
    exact Bool.and_eq_true_iff.2 ⟨opt_folded ast e1, optList_folded asts e2⟩
termination_by structural asts => asts

theorem optSomeList_folded : ∀ (x : Option (List AST)) {ts : List AST} {c c' : OptCounts},
    (optSomeList x).run c = .ok ts c' → foldedList ts = true
  | none, ts, c, c', h => by cases h
  | some asts, ts, c, c', h => by
    rw [optSomeList] at h
    exact optList_folded asts h
termination_by structural x => x

theorem optFoldList_folded : ∀ (asts : List AST) {ts : List AST} {c c' : OptCounts},
    (optFoldList asts).run c = .ok ts c' → foldedArgs ts = true
  | [], ts, c, c', h => by
    cases h
    rfl
  | ast :: asts, ts, c, c', h => by
    rw [optFoldList] at h
    obtain ⟨t1, c1, e1, h⟩ := bind_eq_ok.1 h
    obtain ⟨u1, c2, e2, h⟩ := bind_eq_ok.1 h
    obtain ⟨t3, c3, e3, h⟩ := bind_eq_ok.1 h
    cases h
    refine Bool.and_eq_true_iff.2 ⟨?_, optFoldList_folded asts e3⟩
    exact Bool.and_eq_true_iff.2 (optNode_folded (opt_folded ast e1) e2)
termination_by structural asts => asts

theorem optCases_folded : ∀ (asts : List (AST × AST)) {ts : List (AST × AST)} {c c' : OptCounts},
    (optCases asts).run c = .ok ts c' → foldedCases ts = true
  | [], ts, c, c', h => by
    cases h
    rfl
  | (cond, stmt) :: asts, ts, c, c', h => by
    rw [optCases] at h
    obtain ⟨t1, c1, e1, h⟩ := bind_eq_ok.1 h
    obtain ⟨t2, c2, e2, h⟩ := bind_eq_ok.1 h
    obtain ⟨u1, c3, e3, h⟩ := bind_eq_ok.1 h
    obtain ⟨t4, c4, e4, h⟩ := bind_eq_ok.1 h
    cases h
    obtain ⟨f1, k1⟩ := optNode_folded (opt_folded cond e1) e3
    rw [foldedCases, f1, k1, opt_folded stmt e2, optCases_folded asts e4]
    rfl
termination_by structural asts => asts

end

/-! ## the next pass -/

/-- two operands that stay -/
theorem optTwo_kept {x1 x2 : OptM AST} {f : AST → AST → AST} {t1 t2 : AST} {c : OptCounts}
    (h : (t1.folded && kept t1 && (t2.folded && kept t2)) = true)
    (h1 : t1.folded = true → x1.run c = .ok t1 c) (h2 : t2.folded = true → x2.run c = .ok t2 c) :
    (do
      let term1 ← x1
      let term2 ← x2
      let term1 ← optNode term1
      let term2 ← optNode term2
      return f term1 term2 : OptM AST).run c = .ok (f t1 t2) c := by
  simp only [Bool.and_eq_true] at h
  rw [bind_ok (h1 h.1.1), bind_ok (h2 h.2.1), bind_ok (optNode_kept h.1.2 c),
    bind_ok (optNode_kept h.2.2 c)]
  rfl

/-- an element that stays -/
theorem optElem_kept {x1 x3 : OptM AST} {x2 : OptM (Option AST)} {f : AST → Option AST → AST → AST}
    {n1 u : AST} {n2 : Option AST} {c : OptCounts}
    (h : (foldedSome (some n1) && foldedOptArg n2 && (u.folded && kept u)) = true)
    (h1 : n1.folded = true → x1.run c = .ok n1 c)
    (h2 : foldedOptArg n2 = true → x2.run c = .ok n2 c)
    (h3 : u.folded = true → x3.run c = .ok u c) :
    (do
      let num1 ← x1
      let num2 ← x2
      let term ← x3
      let num1 ← optNode num1
      let num2 ← optNodeOpt num2
      let term ← optNode term
      return f num1 num2 term : OptM AST).run c = .ok (f n1 n2 u) c := by
  simp only [foldedSome, Bool.and_eq_true] at h
  rw [bind_ok (h1 h.1.1.1), bind_ok (h2 h.1.2), bind_ok (h3 h.2.1),
    bind_ok (optNode_kept h.1.1.2 c), bind_ok (optNodeOpt_kept h.1.2 c),
    bind_ok (optNode_kept h.2.2 c)]
  rfl

theorem optAssignExpr_kept {ast : AST} (hf : ast.folded = true) (c : OptCounts) :
    (optAssignExpr ast).run c = .ok ast c := by
  unfold optAssignExpr
  split
  · next idents expr =>
    have hk : foldedSome (some expr) = true := by rwa [AST.folded] at hf
    rw [bind_ok (optNode_kept (Bool.and_eq_true_iff.1 hk).2 c)]
    rfl
  · rfl

mutual

/-- **A pass** does nothing with such a tree. -/
theorem folded_opt : ∀ (ast : AST), ast.folded = true → ∀ c : OptCounts,
    (opt ast).run c = .ok ast c
  | .uminus term, h, c | .norm term, h, c => by
    rw [AST.folded, Bool.and_eq_true_iff] at h
    rw [opt, bind_ok (folded_opt term h.1 c), bind_ok (optNode_kept h.2 c)]
    rfl
  | .plus term1 term2 _, h, c | .mult term1 term2 _, h, c | .mod term1 term2, h, c
  | .pow term1 term2, h, c | .comp term1 term2 _, h, c => by
    rw [AST.folded] at h
    rw [opt]
    exact optTwo_kept h (fun hf => folded_opt term1 hf c) (fun hf => folded_opt term2 hf c)
  | .call ident args, h, c | .exprList args _, h, c => by
    rw [AST.folded] at h
    rw [opt, bind_ok (folded_optFoldList args h c)]
    rfl
  | .stmts stmts, h, c => by
    rw [AST.folded] at h
    rw [opt, bind_ok (folded_optList stmts h c)]
    rfl
  | .varDecl vars none intentIn intentOut, h, c => by
    rw [opt]
    rfl
  | .varDecl vars (some assign) intentIn intentOut, h, c => by
    rw [AST.folded, foldedOpt] at h
    have ha : (optOpt (some assign)).run c = .ok (some assign) c := by
      rw [optOpt, bind_ok (folded_opt assign h c)]
      rfl
    rw [opt, bind_ok ha, bind_ok (optAssignExpr_kept h c)]
    rfl
  | .func ident args rets stmts, h, c => by
    rw [AST.folded] at h
    rw [opt, bind_ok (folded_opt stmts h c)]
    rfl
  | .ret rets true, h, c => by
    rw [opt]
    rfl
  | .ret none false, h, c => by
    rw [AST.folded] at h
    cases h
  | .ret (some rets) false, h, c => by
    rw [AST.folded] at h
    rw [opt]
    exact bind_ok (folded_optList rets h c)
  | .assign idents none, h, c => by
    rw [AST.folded] at h
    cases h
  | .assign idents (some expr), h, c => by
    rw [AST.folded, foldedSome, Bool.and_eq_true_iff] at h
    rw [opt, optSome, bind_ok (folded_opt expr h.1 c), bind_ok (optNode_kept h.2 c)]
    rfl
  | .rangedLoop ident begin stop inc stmt, h, c => by
    simp only [AST.folded, Bool.and_eq_true] at h
    rw [opt, bind_ok (folded_opt begin h.1.1.1 c), bind_ok (folded_opt stop h.1.1.2 c),
      bind_ok (folded_optOpt inc h.1.2 c), bind_ok (folded_opt stmt h.2 c)]
    rfl
  | .arrayAccess term none num2 _, h, c => by
    rw [AST.folded] at h
    cases h
  | .arrayAccess term (some num1) num2 _, h, c => by
    rw [AST.folded] at h
    rw [opt, optSome]
    exact optElem_kept h (fun hf => folded_opt num1 hf c) (fun hf => folded_optArg num2 hf c)
      (fun hf => folded_opt term hf c)
  | .arrayAssign ident expr none num2 _, h, c => by
    rw [AST.folded] at h
    cases h
  | .arrayAssign ident expr (some num1) num2 _, h, c => by
    rw [AST.folded] at h
    rw [opt, optSome]
    exact optElem_kept h (fun hf => folded_opt num1 hf c) (fun hf => folded_optArg num2 hf c)
      (fun hf => folded_opt expr hf c)
  | .bool term1 term2 op, h, c => by
    simp only [AST.folded, Bool.and_eq_true] at h
    rw [opt, bind_ok (folded_opt term1 h.1.1 c), bind_ok (folded_optArg term2 h.2 c),
      bind_ok (optNode_kept h.1.2 c), bind_ok (optNodeOpt_kept h.2 c)]
    rfl
  | .cond cond ifStmt elseStmt, h, c => by
    simp only [AST.folded, Bool.and_eq_true] at h
    rw [opt, bind_ok (folded_opt cond h.1.1.1 c), bind_ok (folded_opt ifStmt h.1.2 c),
      bind_ok (folded_optOpt elseStmt h.2 c), bind_ok (optNode_kept h.1.1.2 c)]
    rfl
  | .cases expr cases_ defaultStmts, h, c => by
    simp only [AST.folded, Bool.and_eq_true] at h
    rw [opt, bind_ok (folded_opt expr h.1.1 c), bind_ok (folded_optCases cases_ h.1.2 c),
      bind_ok (folded_optOpt defaultStmts h.2 c)]
    rfl
  | .loop cond stmt, h, c => by
    simp only [AST.folded, Bool.and_eq_true] at h
    rw [opt, bind_ok (folded_opt cond h.1.1 c), bind_ok (folded_opt stmt h.2 c),
      bind_ok (optNode_kept h.1.2 c)]
    rfl
  | .var _, h, c | .realConst _, h, c | .intConst _, h, c | .cplxConst _, h, c
  | .quatConst _, h, c | .boolConst _, h, c | .strConst _, h, c | .loopBreak _, h, c
  | .loopNext _, h, c | .label _, h, c | .jump _ _, h, c => by
    rw [opt]
    rfl
termination_by structural ast => ast

theorem folded_optOpt : ∀ (x : Option AST), foldedOpt x = true → ∀ c : OptCounts,
    (optOpt x).run c = .ok x c
  | none, h, c => by
    rw [optOpt]
    rfl
  | some ast, h, c => by
    rw [foldedOpt] at h
    rw [optOpt, bind_ok (folded_opt ast h c)]
    rfl
termination_by structural x => x

theorem folded_optArg : ∀ (x : Option AST), foldedOptArg x = true → ∀ c : OptCounts,
    (optOpt x).run c = .ok x c
  | none, h, c => by
    rw [optOpt]
    rfl
  | some ast, h, c => by
    rw [foldedOptArg, Bool.and_eq_true_iff] at h
    rw [optOpt, bind_ok (folded_opt ast h.1 c)]
    rfl
termination_by structural x => x

theorem folded_optList : ∀ (asts : List AST), foldedList asts = true → ∀ c : OptCounts,
    (optList asts).run c = .ok asts c
  | [], h, c => by
    rw [optList]
    rfl
  | ast :: asts, h, c => by
    rw [foldedList, Bool.and_eq_true_iff] at h
    rw [optList, bind_ok (folded_opt ast h.1 c), bind_ok (folded_optList asts h.2 c)]
    rfl
termination_by structural asts => asts

theorem folded_optFoldList : ∀ (asts : List AST), foldedArgs asts = true → ∀ c : OptCounts,
    (optFoldList asts).run c = .ok asts c
  | [], h, c => by
    rw [optFoldList]
    rfl
  | ast :: asts, h, c => by
    simp only [foldedArgs, Bool.and_eq_true] at h
    rw [optFoldList, bind_ok (folded_opt ast h.1.1 c), bind_ok (optNode_kept h.1.2 c),
      bind_ok (folded_optFoldList asts h.2 c)]
    rfl
termination_by structural asts => asts

theorem folded_optCases : ∀ (asts : List (AST × AST)), foldedCases asts = true →
    ∀ c : OptCounts, (optCases asts).run c = .ok asts c
  | [], h, c => by
    rw [optCases]
    rfl
  | (cond, stmt) :: asts, h, c => by
    simp only [foldedCases, Bool.and_eq_true] at h
    rw [optCases, bind_ok (folded_opt cond h.1.1.1 c), bind_ok (folded_opt stmt h.1.2 c),
      bind_ok (optNode_kept h.1.1.2 c), bind_ok (folded_optCases asts h.2 c)]
    rfl
termination_by structural asts => asts

end

end

/-- **One pass is enough**: no operation on constants is left where the optimiser looks for one,
and the next pass changes nothing and counts nothing. -/
theorem opt_fixpoint {ast t : AST} {c c' : OptCounts} (h : (opt ast).run c = .ok t c') :
    t.folded = true ∧ ∀ d : OptCounts, (opt t).run d = .ok t d :=
  ⟨opt_folded ast h, folded_opt t (opt_folded ast h)⟩

end

/-- a loop over `(1 + 2) * 3 > x`, and its assignment `x = (7 / 2) % 2` -/
def loopOfConsts : AST :=
  .loop (.comp (.mult (.plus (.intConst 1) (.intConst 2) false) (.intConst 3) false)
    (.var [120]) .gt)
    (.assign [[120]] (some (.mod (.mult (.intConst 7) (.intConst 2) true) (.intConst 2))))

/-- the same behind a pass -/
def loopOfConstsOpt : AST :=
  .loop (.comp (.intConst 9) (.var [120]) .gt) (.assign [[120]] (some (.intConst 1)))

theorem opt_fixpoint_loop :
    (@opt (MathLib.absent ⟨0⟩) loopOfConsts).run ⟨0, 0⟩ = .ok loopOfConstsOpt ⟨4, 0⟩ ∧
    @AST.folded (MathLib.absent ⟨0⟩) loopOfConstsOpt = true ∧
    ∀ d : OptCounts, (@opt (MathLib.absent ⟨0⟩) loopOfConstsOpt).run d = .ok loopOfConstsOpt d :=
  have h : (@opt (MathLib.absent ⟨0⟩) loopOfConsts).run ⟨0, 0⟩ = .ok loopOfConstsOpt ⟨4, 0⟩ := by
    rfl
  ⟨h, @opt_fixpoint (MathLib.absent ⟨0⟩) _ _ _ _ h⟩

end MuF
