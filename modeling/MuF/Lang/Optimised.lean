import MuF.Lang.Whole
import MuF.Opt.Fixpoint

/-!
# Optimised programs

The optimiser keeps what integer programs mean:

* `KeepsMeaning`: a node with its value, its type and what it does, in place of another one;
* `foldConsts_means`: the result of an operation on constants;
* `opt_means`: the visit of a node;
* **`optimised_runs`**: the code of an optimised program does what the program means.
-/

set_option linter.unusedVariables false

namespace MuF

open Bytes Exec

/-! ## nodes in place of others -/

/-- the second node means what the first one means, if that means something -/
structure KeepsMeaning (ast ast' : AST) : Prop where
  value : ∀ σ v, eval σ ast = some v → eval σ ast' = some v
  type : ∀ Γ t, exprTy Γ ast = some t → exprTy Γ ast' = some t
  exec : ∀ d, Flow.Refines (ast.exec d) (ast'.exec d)
  typed : ∀ Γ loops, ast.typed Γ loops = true → ast'.typed Γ loops = true
  need : ast'.need ≤ ast.need

section
variable {ast ast' ast'' : AST}

theorem KeepsMeaning.refl (ast : AST) : KeepsMeaning ast ast :=
  ⟨fun _ _ h => h, fun _ _ h => h, fun _ => Flow.Refines.refl _, fun _ _ h => h, Nat.le_refl _⟩

theorem KeepsMeaning.trans (h : KeepsMeaning ast ast') (h' : KeepsMeaning ast' ast'') :
    KeepsMeaning ast ast'' :=
  ⟨fun σ v hv => h'.value σ v (h.value σ v hv), fun Γ t ht => h'.type Γ t (h.type Γ t ht),
    fun d => (h.exec d).trans (h'.exec d), fun Γ loops ht => h'.typed Γ loops (h.typed Γ loops ht),
    Nat.le_trans h'.need h.need⟩

/-- expressions do nothing -/
theorem KeepsMeaning.ofExpr (hv : ∀ σ v, eval σ ast = some v → eval σ ast' = some v)
    (ht : ∀ Γ t, exprTy Γ ast = some t → exprTy Γ ast' = some t)
    (he : ∀ d n σ, ast.exec d n σ = .stuck) (hty : ∀ Γ loops, ast.typed Γ loops = false)
    (hn : ast'.need ≤ ast.need) : KeepsMeaning ast ast' :=
  ⟨hv, ht, fun d => Flow.Refines.stuck (he d) _, fun Γ loops h => (Bool.eq_false_iff.1 (hty Γ loops) h).elim,
    hn⟩

/-- statements have no value -/
theorem KeepsMeaning.ofStmt (hv : ∀ σ, eval σ ast = none) (ht : ∀ Γ, exprTy Γ ast = none)
    (he : ∀ d, Flow.Refines (ast.exec d) (ast'.exec d))
    (hty : ∀ Γ loops, ast.typed Γ loops = true → ast'.typed Γ loops = true)
    (hn : ast'.need ≤ ast.need) : KeepsMeaning ast ast' :=
  ⟨fun σ v h => (Option.some_ne_none v (h.symm.trans (hv σ))).elim,
    fun Γ t h => (Option.some_ne_none t (h.symm.trans (ht Γ))).elim, he, hty, hn⟩

/-- nodes that no integer program has -/
theorem KeepsMeaning.ofOther (hv : ∀ σ, eval σ ast = none) (ht : ∀ Γ, exprTy Γ ast = none)
    (he : ∀ d n σ, ast.exec d n σ = .stuck) (hty : ∀ Γ loops, ast.typed Γ loops = false)
    (hn : ast'.need ≤ ast.need) : KeepsMeaning ast ast' :=
  KeepsMeaning.ofStmt hv ht (fun d => Flow.Refines.stuck (he d) _)
    (fun Γ loops h => (Bool.eq_false_iff.1 (hty Γ loops) h).elim) hn

end

/-! ## expressions -/

section
variable {v v' w w' : Option Val}

theorem onInts_mono {f : Int64 → Int64 → Option Val} {x : Val} (hv : ∀ y, v = some y → v' = some y)
    (hw : ∀ y, w = some y → w' = some y) (h : onInts f v w = some x) : onInts f v' w' = some x := by
  obtain ⟨i, j, h1, h2, h3⟩ := onInts_some h
  rw [hv _ h1, hw _ h2]
  exact h3

theorem onBools_mono {f : Bool → Bool → Bool} {x : Val} (hv : ∀ y, v = some y → v' = some y)
    (hw : ∀ y, w = some y → w' = some y) (h : onBools f v w = some x) : onBools f v' w' = some x := by
  obtain ⟨a, b, h1, h2, rfl⟩ := onBools_some h
  rw [hv _ h1, hw _ h2]
  rfl

theorem opTy_mono {t u r : ValTy} {ty1 ty2 ty1' ty2' : Option ValTy}
    (h1 : ∀ t, ty1 = some t → ty1' = some t) (h2 : ∀ t, ty2 = some t → ty2' = some t)
    (h : opTy t u ty1 ty2 = some r) : opTy t u ty1' ty2' = some r := by
  obtain ⟨e1, e2, rfl⟩ := opTy_some h
  rw [opTy, if_pos ⟨h1 _ e1, h2 _ e2⟩]

end

section
variable {term1 term2 term1' term2' : AST}

theorem KeepsMeaning.uminus (h : KeepsMeaning term1 term1') :
    KeepsMeaning (.uminus term1) (.uminus term1') := by
  refine KeepsMeaning.ofExpr (fun σ v hv => ?_) (fun Γ t ht => ?_) (fun _ _ _ => rfl)
    (fun _ _ => rfl) h.need
  · unfold eval at hv ⊢
    obtain ⟨i, hi, rfl⟩ := Option.map_eq_some_iff.1 hv
    rw [h.value _ _ (asInt_some hi)]
    rfl
  · unfold exprTy at ht ⊢
    exact opTy_mono (h.type Γ) (h.type Γ) ht

section
variable (h1 : KeepsMeaning term1 term1') (h2 : KeepsMeaning term2 term2')

include h1 h2 in
/-- operations with two operands -/
theorem KeepsMeaning.binary {ast ast' : AST} {f : Int64 → Int64 → Option Val} {u : ValTy}
    (hv : ∀ σ, eval σ ast = onInts f (eval σ term1) (eval σ term2))
    (hv' : ∀ σ, eval σ ast' = onInts f (eval σ term1') (eval σ term2'))
    (ht : ∀ Γ, exprTy Γ ast = opTy .int u (exprTy Γ term1) (exprTy Γ term2))
    (ht' : ∀ Γ, exprTy Γ ast' = opTy .int u (exprTy Γ term1') (exprTy Γ term2'))
    (he : ∀ d n σ, ast.exec d n σ = .stuck) (hty : ∀ Γ loops, ast.typed Γ loops = false)
    (hn : ast.need = term1.need + term2.need + 9) (hn' : ast'.need = term1'.need + term2'.need + 9) :
    KeepsMeaning ast ast' := by
  have n1 := h1.need
  have n2 := h2.need
  refine KeepsMeaning.ofExpr (fun σ v h => ?_) (fun Γ t h => ?_) he hty (by omega)
  · rw [hv] at h
    rw [hv']
    exact onInts_mono (h1.value σ) (h2.value σ) h
  · rw [ht] at h
    rw [ht']
    exact opTy_mono (h1.type Γ) (h2.type Γ) h

include h1 h2

theorem KeepsMeaning.plus (inverted : Bool) :
    KeepsMeaning (.plus term1 term2 inverted) (.plus term1' term2' inverted) :=
  h1.binary h2 (fun _ => rfl) (fun _ => rfl) (fun _ => rfl) (fun _ => rfl) (fun _ _ _ => rfl)
    (fun _ _ => rfl) rfl rfl

theorem KeepsMeaning.mult (inverted : Bool) :
    KeepsMeaning (.mult term1 term2 inverted) (.mult term1' term2' inverted) :=
  h1.binary h2 (fun _ => rfl) (fun _ => rfl) (fun _ => rfl) (fun _ => rfl) (fun _ _ _ => rfl)
    (fun _ _ => rfl) rfl rfl

theorem KeepsMeaning.mod : KeepsMeaning (.mod term1 term2) (.mod term1' term2') :=
  h1.binary h2 (fun _ => rfl) (fun _ => rfl) (fun _ => rfl) (fun _ => rfl) (fun _ _ _ => rfl)
    (fun _ _ => rfl) rfl rfl

theorem KeepsMeaning.pow : KeepsMeaning (.pow term1 term2) (.pow term1' term2') :=
  h1.binary h2 (fun _ => rfl) (fun _ => rfl) (fun _ => rfl) (fun _ => rfl) (fun _ _ _ => rfl)
    (fun _ _ => rfl) rfl rfl

theorem KeepsMeaning.comp (op : CompNodeOp) :
    KeepsMeaning (.comp term1 term2 op) (.comp term1' term2' op) :=
  h1.binary h2 (fun _ => rfl) (fun _ => rfl) (fun _ => rfl) (fun _ => rfl) (fun _ _ _ => rfl)
    (fun _ _ => rfl) rfl rfl

end

theorem KeepsMeaning.bool {x y : Option AST} (h1 : KeepsMeaning term1 term1')
    (h2 : Option.Rel KeepsMeaning x y) (op : BoolNodeOp) :
    KeepsMeaning (.bool term1 x op) (.bool term1' y op) := by
  cases h2 with
  | none =>
    refine KeepsMeaning.ofExpr (fun σ v h => ?_) (fun Γ t h => ?_) (fun _ _ _ => rfl) (fun _ _ => rfl)
      (Nat.add_le_add_right h1.need _)
    · unfold eval at h ⊢
      cases op with
      | not =>
        obtain ⟨a, ha, rfl⟩ := Option.map_eq_some_iff.1 h
        rw [h1.value _ _ (asBool_some ha)]
        rfl
      | _ => cases h
    · unfold exprTy at h ⊢
      cases op with
      | not => exact opTy_mono (h1.type Γ) (h1.type Γ) h
      | _ => cases h
  | some h2 =>
    refine KeepsMeaning.ofExpr (fun σ v h => ?_) (fun Γ t h => ?_) (fun _ _ _ => rfl) (fun _ _ => rfl)
      (Nat.add_le_add_right (Nat.add_le_add h1.need h2.need) _)
    · unfold eval at h ⊢
      cases op with
      | not => cases h
      | _ => exact onBools_mono (h1.value σ) (h2.value σ) h
    · unfold exprTy at h ⊢
      cases op with
      | not => cases h
      | _ => exact opTy_mono (h1.type Γ) (h2.type Γ) h

end

/-! ## statements -/

section
variable {guard guard' stmt stmt' expr expr' : AST} {x y : Option AST}

/-- nodes that may be missing -/
theorem optional_trans {x y z : Option AST} (h : Option.Rel KeepsMeaning x y)
    (h' : Option.Rel KeepsMeaning y z) : Option.Rel KeepsMeaning x z := by
  cases h with
  | none => exact h'
  | some h =>
    cases h' with
    | some h' => exact .some (h.trans h')

theorem KeepsMeaning.test (h : KeepsMeaning guard guard') (σ : Store) (b : Bool)
    (hb : testOf guard σ = some b) : testOf guard' σ = some b := by
  unfold testOf
  rw [h.value σ _ (testOf_some hb)]
  rfl

theorem KeepsMeaning.assignTo (h : KeepsMeaning expr expr') (ident : Str) :
    Flow.Refines (assignTo ident expr) (MuF.assignTo ident expr') := by
  refine Flow.Refines.act fun σ σ' hs => ?_
  obtain ⟨v, hv, rfl⟩ := Option.map_eq_some_iff.1 hs
  rw [h.value σ v hv]
  rfl

theorem KeepsMeaning.assign (h : KeepsMeaning expr expr') :
    ∀ idents : List Str, KeepsMeaning (.assign idents (some expr)) (.assign idents (some expr'))
  | [ident] => by
    refine KeepsMeaning.ofStmt (fun _ => rfl) (fun _ => rfl) (fun d => h.assignTo ident)
      (fun Γ loops ht => ?_) (Nat.add_le_add_right h.need _)
    unfold AST.typed at ht ⊢
    obtain ⟨hx, ht⟩ := Bool.and_eq_true_iff.1 ht
    obtain ⟨t, hΓ⟩ := Option.isSome_iff_exists.1 hx
    rw [hΓ] at ht ⊢
    rw [h.type Γ t (eq_of_beq ht)]
    exact beq_self_eq_true _
  | [] | _ :: _ :: _ =>
    KeepsMeaning.ofOther (fun _ => rfl) (fun _ => rfl) (fun _ _ _ => rfl) (fun _ _ => rfl)
      (Nat.add_le_add_right h.need _)

/-- branches -/
theorem execOpt_refines (h : Option.Rel KeepsMeaning x y) (d : Nat) :
    Flow.Refines (execOpt x d) (execOpt y d) := by
  cases h with
  | none => exact Flow.Refines.refl _
  | some h => exact h.exec d

theorem typedOpt_keeps {Γ : Str → Option ValTy} {loops : List Bool} (h : Option.Rel KeepsMeaning x y)
    (ht : typedOpt Γ x loops = true) : typedOpt Γ y loops = true := by
  cases h with
  | none => exact ht
  | some h => exact h.typed Γ loops ht

theorem needOpt_le (h : Option.Rel KeepsMeaning x y) : needOpt y ≤ needOpt x := by
  cases h with
  | none => exact Nat.le_refl _
  | some h => exact h.need

theorem type_beq {Γ : Str → Option ValTy} {t : ValTy} (h : KeepsMeaning expr expr')
    (ht : (exprTy Γ expr == some t) = true) : (exprTy Γ expr' == some t) = true := by
  rw [h.type Γ t (eq_of_beq ht)]
  exact beq_self_eq_true _

theorem KeepsMeaning.cond (hc : KeepsMeaning guard guard') (h : KeepsMeaning stmt stmt')
    (hx : Option.Rel KeepsMeaning x y) : KeepsMeaning (.cond guard stmt x) (.cond guard' stmt' y) := by
  refine KeepsMeaning.ofStmt (fun _ => rfl) (fun _ => rfl) (fun d => ?_) (fun Γ loops ht => ?_) ?_
  · exact Flow.Refines.cond hc.test (h.exec d) (execOpt_refines hx d)
  · unfold AST.typed at ht ⊢
    simp only [Bool.and_eq_true] at ht ⊢
    exact ⟨⟨type_beq hc ht.1.1, h.typed Γ loops ht.1.2⟩, typedOpt_keeps hx ht.2⟩
  · have n1 := hc.need
    have n2 := h.need
    have n3 := needOpt_le hx
    show _ + _ + _ + 7 ≤ _ + _ + _ + 7
    omega

theorem KeepsMeaning.loop (hc : KeepsMeaning guard guard') (h : KeepsMeaning stmt stmt') :
    KeepsMeaning (.loop guard stmt) (.loop guard' stmt') := by
  refine KeepsMeaning.ofStmt (fun _ => rfl) (fun _ => rfl) (fun d => ?_) (fun Γ loops ht => ?_) ?_
  · exact Flow.Refines.loop hc.test (h.exec (d + 1))
  · unfold AST.typed at ht ⊢
    simp only [Bool.and_eq_true] at ht ⊢
    exact ⟨type_beq hc ht.1, h.typed Γ _ ht.2⟩
  · exact Nat.add_le_add_right (Nat.add_le_add hc.need h.need) _

/-- the counter of the next turn -/
theorem countNext_means (h : Option.Rel KeepsMeaning x y) (ident : Str) :
    KeepsMeaning (countNext ident x) (countNext ident y) := by
  cases h with
  | none => exact KeepsMeaning.refl _
  | some h => exact h.plus (KeepsMeaning.refl _) false

theorem KeepsMeaning.rangedLoop {begin begin' stop stop' : AST} (ident : Str)
    (hb : KeepsMeaning begin begin') (hs : KeepsMeaning stop stop') (hx : Option.Rel KeepsMeaning x y)
    (h : KeepsMeaning stmt stmt') :
    KeepsMeaning (.rangedLoop ident begin stop x stmt) (.rangedLoop ident begin' stop' y stmt') := by
  have hc : KeepsMeaning (countCond ident stop) (countCond ident stop') :=
    (KeepsMeaning.refl _).comp hs .leq
  have hi := countNext_means hx ident
  refine KeepsMeaning.ofStmt (fun _ => rfl) (fun _ => rfl) (fun d => ?_) (fun Γ loops ht => ?_) ?_
  · exact (hb.assignTo ident).seq
      (Flow.Refines.loop hc.test ((h.exec (d + 1)).seq (hi.assignTo ident)))
  · unfold AST.typed at ht ⊢
    simp only [Bool.and_eq_true] at ht ⊢
    obtain ⟨⟨⟨t1, t2⟩, t3⟩, t4⟩ := ht
    -- the counter has a type, as the condition has one
    obtain ⟨hΓ, -, -⟩ := opTy_some (eq_of_beq t2)
    have hΓ : Γ ident = some .int := hΓ
    rw [hΓ] at t1 t3 ⊢
    exact ⟨⟨⟨type_beq hb t1, type_beq hc t2⟩, type_beq hi t3⟩, h.typed Γ _ t4⟩
  · have n1 := hb.need
    have n2 := hs.need
    have n3 := needOpt_le hx
    have n4 := h.need
    show _ + _ + _ + _ + 80 ≤ _ + _ + _ + _ + 80
    omega

/-- **Statements** one after the other. -/
theorem KeepsMeaning.stmts {xs ys : List AST} (h : List.Forall₂ KeepsMeaning xs ys) :
    (∀ d, Flow.Refines (execList xs d) (execList ys d)) ∧
      (∀ Γ loops, typedList Γ xs loops = true → typedList Γ ys loops = true) ∧
      needList ys ≤ needList xs := by
  induction h with
  | nil => exact ⟨fun _ => Flow.Refines.refl _, fun _ _ h => h, Nat.le_refl _⟩
  | cons hx hxs ih =>
    refine ⟨fun d => (hx.exec d).seq (ih.1 d), fun Γ loops ht => ?_, Nat.add_le_add hx.need ih.2.2⟩
    obtain ⟨h1, h2⟩ := Bool.and_eq_true_iff.1 ht
    exact Bool.and_eq_true_iff.2 ⟨hx.typed Γ loops h1, ih.2.1 Γ loops h2⟩

/-- a case, with its value and its statement -/
def KeepsCase (p q : AST × AST) : Prop := KeepsMeaning p.1 q.1 ∧ KeepsMeaning p.2 q.2

/-- **Cases**, for a selector. -/
theorem KeepsMeaning.caseList {ps qs : List (AST × AST)} (he : KeepsMeaning expr expr')
    (h : List.Forall₂ KeepsCase ps qs) :
    (∀ d {rest rest' : Flow.Prog Exit Store}, Flow.Refines rest rest' →
      Flow.Refines (execCases ps expr rest d) (execCases qs expr' rest' d)) ∧
      (∀ Γ loops, typedCases Γ ps loops = true → typedCases Γ qs loops = true) ∧
      needCases qs ≤ needCases ps := by
  induction h with
  | nil => exact ⟨fun _ _ _ h => h, fun _ _ h => h, Nat.le_refl _⟩
  | cons hp hps ih =>
    obtain ⟨h1, h2⟩ := hp
    refine ⟨fun d rest rest' hr => ?_, fun Γ loops ht => ?_,
      Nat.add_le_add (Nat.add_le_add h1.need h2.need) ih.2.2⟩
    · exact Flow.Refines.cond (he.comp h1 .equ).test (h2.exec d) (ih.1 d hr)
    · unfold typedCases at ht ⊢
      simp only [Bool.and_eq_true] at ht ⊢
      exact ⟨⟨type_beq h1 ht.1.1, h2.typed Γ loops ht.1.2⟩, ih.2.1 Γ loops ht.2⟩

theorem KeepsMeaning.cases {ps qs : List (AST × AST)} (he : KeepsMeaning expr expr')
    (h : List.Forall₂ KeepsCase ps qs) (hx : Option.Rel KeepsMeaning x y) :
    KeepsMeaning (.cases expr ps x) (.cases expr' qs y) := by
  obtain ⟨h1, h2, h3⟩ := he.caseList h
  refine KeepsMeaning.ofStmt (fun _ => rfl) (fun _ => rfl) (fun d => ?_) (fun Γ loops ht => ?_) ?_
  · exact h1 d (execOpt_refines hx d)
  · unfold AST.typed at ht ⊢
    simp only [Bool.and_eq_true] at ht ⊢
    exact ⟨⟨type_beq he ht.1.1, h2 Γ loops ht.1.2⟩, typedOpt_keeps hx ht.2⟩
  · show _ + _ * _ + _ ≤ _ + _ * _ + _
    rw [h.length_eq]
    exact Nat.add_le_add (Nat.add_le_add h3 (Nat.mul_le_mul_left _ (Nat.add_le_add_right he.need _)))
      (needOpt_le hx)

end

/-! ## constants -/

theorem const_need {ast : AST} (h : ast.isConst = true) : ast.need = 9 := by
  cases ast <;> first | rfl | cases h

theorem compResult_holds (op : CompNodeOp) (i j : Int64) :
    compResult (· == ·) (fun a b => decide (a < b)) (fun a b => decide (a ≤ b)) op i j = op.holds i j := by
  cases op <;> simp [compResult, CompNodeOp.holds, BEq.beq]

section
variable [MathLib TReal] {op : ArithOp} {complex : Bool} {term1 term2 new : AST} {kind : OptKind}

/-- operations on constants of integers give what they mean -/
theorem arithConsts_value (h : arithConsts op complex term1 term2 = some (kind, .ok new)) (σ : Store)
    (v : Val) (hv : arithValue op (eval σ term1) (eval σ term2) = some v) : eval σ new = some v := by
  obtain ⟨i, j, k, h1, h2, h3, rfl⟩ := arithValue_some hv
  unfold arithConsts at h
  split at h
  · cases h1
    cases h2
    rw [intArith_value h3] at h
    cases h
    rfl
  · cases h1
  · cases h1
  · cases h

theorem arithConsts_type (h : arithConsts op complex term1 term2 = some (kind, .ok new))
    (Γ : Str → Option ValTy) (t : ValTy)
    (ht : opTy .int .int (exprTy Γ term1) (exprTy Γ term2) = some t) : exprTy Γ new = some t := by
  obtain ⟨h1, h2, rfl⟩ := opTy_some ht
  unfold arithConsts at h
  split at h
  · next a b =>
    cases hr : intArith op a b with
    | error e =>
      rw [hr] at h
      cases h
    | ok k =>
      rw [hr] at h
      cases h
      rfl
  · cases h1
  · cases h1
  · cases h

theorem arithConsts_means {ast : AST} (h : arithConsts op complex term1 term2 = some (kind, .ok new))
    (hv : ∀ σ, eval σ ast = arithValue op (eval σ term1) (eval σ term2))
    (ht : ∀ Γ, exprTy Γ ast = opTy .int .int (exprTy Γ term1) (exprTy Γ term2))
    (he : ∀ d n σ, ast.exec d n σ = .stuck) (hty : ∀ Γ loops, ast.typed Γ loops = false)
    (hn : 9 ≤ ast.need) : KeepsMeaning ast new := by
  refine KeepsMeaning.ofExpr (fun σ v h1 => ?_) (fun Γ t h1 => ?_) he hty ?_
  · rw [hv] at h1
    exact arithConsts_value h σ v h1
  · rw [ht] at h1
    exact arithConsts_type h Γ t h1
  · exact Nat.le_trans (Nat.le_of_eq (const_need (arithConsts_const h))) hn

theorem compConsts_means {cmp : CompNodeOp} (h : compConsts cmp term1 term2 = some (kind, .ok new)) :
    KeepsMeaning (.comp term1 term2 cmp) new := by
  refine KeepsMeaning.ofExpr (fun σ v hv => ?_) (fun Γ t ht => ?_) (fun _ _ _ => rfl) (fun _ _ => rfl) ?_
  · obtain ⟨i, j, h1, h2, h3⟩ := onInts_some hv
    unfold compConsts at h
    split at h
    · cases h1
      cases h2
      cases h3
      cases h
      rw [eval, compResult_holds]
    · cases h1
    · cases h1
    · cases h
  · obtain ⟨h1, h2, rfl⟩ := opTy_some ht
    unfold compConsts at h
    split at h
    · cases h
      rfl
    · cases h1
    · cases h1
    · cases h
  · rw [const_need (compConsts_const h)]
    exact Nat.le_add_left 9 _

omit [MathLib TReal] in
/-- truth values are not folded -/
theorem boolConsts_means {x : Option AST} {op : BoolNodeOp}
    (h : boolConsts op term1 x = some (kind, .ok new)) : KeepsMeaning (.bool term1 x op) new := by
  have hn : new.need ≤ (AST.bool term1 x op).need := by
    rw [const_need (boolConsts_const h)]
    exact Nat.le_add_left 9 _
  unfold boolConsts at h
  split at h
  · refine KeepsMeaning.ofExpr (fun σ v hv => ?_) (fun Γ t ht => ?_) (fun _ _ _ => rfl)
      (fun _ _ => rfl) hn
    · cases op <;> cases hv
    · cases op <;> cases ht
  · cases h

/-- **An operation on constants** means its result. -/
theorem foldConsts_means {ast : AST} (h : foldConsts ast = some (kind, .ok new)) :
    KeepsMeaning ast new := by
  unfold foldConsts at h
  split at h
  · split at h
    · cases h
    · cases h
      exact KeepsMeaning.ofOther (fun _ => rfl) (fun _ => rfl) (fun _ _ _ => rfl) (fun _ _ => rfl)
        (Nat.le_add_left 9 _)
  · exact arithConsts_means h (fun _ => rfl) (fun _ => rfl) (fun _ _ _ => rfl) (fun _ _ => rfl)
      (Nat.le_add_left 9 _)
  · exact arithConsts_means h (fun _ => rfl) (fun _ => rfl) (fun _ _ _ => rfl) (fun _ _ => rfl)
      (Nat.le_add_left 9 _)
  · exact arithConsts_means h (fun _ => rfl) (fun _ => rfl) (fun _ _ _ => rfl) (fun _ _ => rfl)
      (Nat.le_add_left 9 _)
  · exact arithConsts_means h (fun _ => rfl) (fun _ => rfl) (fun _ _ _ => rfl) (fun _ _ => rfl)
      (Nat.le_add_left 9 _)
  · exact compConsts_means h
  · exact boolConsts_means h
  · cases h

theorem optNode_means {ast t : AST} {c c' : OptCounts} (h : (optNode ast).run c = .ok t c') :
    KeepsMeaning ast t := by
  cases hn : foldConsts ast with
  | none =>
    rw [optNode, optConsts, hn] at h
    cases h
    exact KeepsMeaning.refl _
  | some p =>
    obtain ⟨kind, res⟩ := p
    rw [optNode, optConsts, hn] at h
    cases res with
    | error e => cases h
    | ok new =>
      cases h
      exact foldConsts_means hn

theorem optNodeOpt_means {x y : Option AST} {c c' : OptCounts} (h : (optNodeOpt x).run c = .ok y c') :
    Option.Rel KeepsMeaning x y := by
  cases x with
  | none =>
    cases h
    exact .none
  | some ast =>
    obtain ⟨t, c1, h1, h2⟩ := bind_eq_ok.1 h
    cases h2
    exact .some (optNode_means h1)

/-- two operands -/
theorem optTwo_means {x1 x2 : OptM AST} {f : AST → AST → AST} {t term1 term2 : AST}
    {c c' : OptCounts} (h1 : ∀ {t c c'}, x1.run c = .ok t c' → KeepsMeaning term1 t)
    (h2 : ∀ {t c c'}, x2.run c = .ok t c' → KeepsMeaning term2 t)
    (h : (do
      let term1 ← x1
      let term2 ← x2
      let term1 ← optNode term1
      let term2 ← optNode term2
      return f term1 term2 : OptM AST).run c = .ok t c') :
    ∃ u1 u2, t = f u1 u2 ∧ KeepsMeaning term1 u1 ∧ KeepsMeaning term2 u2 := by
  obtain ⟨t1, c1, e1, h⟩ := bind_eq_ok.1 h
  obtain ⟨t2, c2, e2, h⟩ := bind_eq_ok.1 h
  obtain ⟨u1, c3, e3, h⟩ := bind_eq_ok.1 h
  obtain ⟨u2, c4, e4, h⟩ := bind_eq_ok.1 h
  cases h
  exact ⟨u1, u2, rfl, (h1 e1).trans (optNode_means e3), (h2 e2).trans (optNode_means e4)⟩

/-! ## visits -/

mutual

/-- **A pass** keeps what a node means. -/
theorem opt_means : ∀ (ast : AST) {t : AST} {c c' : OptCounts}, (opt ast).run c = .ok t c' →
    KeepsMeaning ast t
  | .uminus term, t, c, c', h => by
    rw [opt] at h
    obtain ⟨t1, c1, e1, h⟩ := bind_eq_ok.1 h
    obtain ⟨u1, c2, e2, h⟩ := bind_eq_ok.1 h
    cases h
    exact ((opt_means term e1).trans (optNode_means e2)).uminus
  | .plus term1 term2 inverted, t, c, c', h => by
    rw [opt] at h
    obtain ⟨u1, u2, rfl, h1, h2⟩ := optTwo_means (opt_means term1) (opt_means term2) h
    exact h1.plus h2 inverted
  | .mult term1 term2 inverted, t, c, c', h => by
    rw [opt] at h
    obtain ⟨u1, u2, rfl, h1, h2⟩ := optTwo_means (opt_means term1) (opt_means term2) h
    exact h1.mult h2 inverted
  | .mod term1 term2, t, c, c', h => by
    rw [opt] at h
    obtain ⟨u1, u2, rfl, h1, h2⟩ := optTwo_means (opt_means term1) (opt_means term2) h
    exact h1.mod h2
  | .pow term1 term2, t, c, c', h => by
    rw [opt] at h
    obtain ⟨u1, u2, rfl, h1, h2⟩ := optTwo_means (opt_means term1) (opt_means term2) h
    exact h1.pow h2
  | .comp term1 term2 op, t, c, c', h => by
    rw [opt] at h
    obtain ⟨u1, u2, rfl, h1, h2⟩ := optTwo_means (opt_means term1) (opt_means term2) h
    exact h1.comp h2 op
  | .bool term1 term2 op, t, c, c', h => by
    rw [opt] at h
    obtain ⟨t1, c1, e1, h⟩ := bind_eq_ok.1 h
    obtain ⟨t2, c2, e2, h⟩ := bind_eq_ok.1 h
    obtain ⟨u1, c3, e3, h⟩ := bind_eq_ok.1 h
    obtain ⟨u2, c4, e4, h⟩ := bind_eq_ok.1 h
    cases h
    exact KeepsMeaning.bool ((opt_means term1 e1).trans (optNode_means e3))
      (optional_trans (optOpt_means term2 e2) (optNodeOpt_means e4)) op
  | .stmts stmts, t, c, c', h => by
    rw [opt] at h
    obtain ⟨stmts', c1, e1, h⟩ := bind_eq_ok.1 h
    cases h
    obtain ⟨h1, h2, h3⟩ := KeepsMeaning.stmts (optList_means stmts e1)
    exact KeepsMeaning.ofStmt (fun _ => rfl) (fun _ => rfl) h1 h2 h3
  | .assign idents expr, t, c, c', h => by
    rw [opt] at h
    obtain ⟨t1, c1, e1, h⟩ := bind_eq_ok.1 h
    obtain ⟨u1, c2, e2, h⟩ := bind_eq_ok.1 h
    cases h
    obtain ⟨x, rfl, h1⟩ := optSome_means expr e1
    exact (h1.trans (optNode_means e2)).assign idents
  | .cond cond ifStmt elseStmt, t, c, c', h => by
    rw [opt] at h
    obtain ⟨t1, c1, e1, h⟩ := bind_eq_ok.1 h
    obtain ⟨t2, c2, e2, h⟩ := bind_eq_ok.1 h
    obtain ⟨t3, c3, e3, h⟩ := bind_eq_ok.1 h
    obtain ⟨u1, c4, e4, h⟩ := bind_eq_ok.1 h
    cases h
    exact ((opt_means cond e1).trans (optNode_means e4)).cond (opt_means ifStmt e2)
      (optOpt_means elseStmt e3)
  | .cases expr cases_ defaultStmts, t, c, c', h => by
    rw [opt] at h
    obtain ⟨t1, c1, e1, h⟩ := bind_eq_ok.1 h
    obtain ⟨t2, c2, e2, h⟩ := bind_eq_ok.1 h
    obtain ⟨t3, c3, e3, h⟩ := bind_eq_ok.1 h
    cases h
    exact (opt_means expr e1).cases (optCases_means cases_ e2) (optOpt_means defaultStmts e3)
  | .loop cond stmt, t, c, c', h => by
    rw [opt] at h
    obtain ⟨t1, c1, e1, h⟩ := bind_eq_ok.1 h
    obtain ⟨t2, c2, e2, h⟩ := bind_eq_ok.1 h
    obtain ⟨u1, c3, e3, h⟩ := bind_eq_ok.1 h
    cases h
    exact ((opt_means cond e1).trans (optNode_means e3)).loop (opt_means stmt e2)
  | .rangedLoop ident begin stop inc stmt, t, c, c', h => by
    rw [opt] at h
    obtain ⟨t1, c1, e1, h⟩ := bind_eq_ok.1 h
    obtain ⟨t2, c2, e2, h⟩ := bind_eq_ok.1 h
    obtain ⟨t3, c3, e3, h⟩ := bind_eq_ok.1 h
    obtain ⟨t4, c4, e4, h⟩ := bind_eq_ok.1 h
    cases h
    exact KeepsMeaning.rangedLoop ident (opt_means begin e1) (opt_means stop e2)
      (optOpt_means inc e3) (opt_means stmt e4)
  | .varDecl vars optAssign intentIn intentOut, t, c, c', h => by
    rw [opt] at h
    obtain ⟨assign, c1, e1, h⟩ := bind_eq_ok.1 h
    cases assign with
    | none =>
      cases h
      exact KeepsMeaning.ofOther (fun _ => rfl) (fun _ => rfl) (fun _ _ _ => rfl) (fun _ _ => rfl)
        (Nat.le_refl 9)
    | some assign =>
      obtain ⟨assign', c2, e2, h⟩ := bind_eq_ok.1 h
      cases h
      exact KeepsMeaning.ofOther (fun _ => rfl) (fun _ => rfl) (fun _ _ _ => rfl) (fun _ _ => rfl)
        (Nat.le_refl 9)
  -- the other nodes are not in integer programs
  | .norm term, t, c, c', h => by
    rw [opt] at h
    obtain ⟨t1, c1, e1, h⟩ := bind_eq_ok.1 h
    obtain ⟨u1, c2, e2, h⟩ := bind_eq_ok.1 h
    cases h
    exact KeepsMeaning.ofOther (fun _ => rfl) (fun _ => rfl) (fun _ _ _ => rfl) (fun _ _ => rfl)
      (Nat.le_refl 9)
  | .call ident args, t, c, c', h | .exprList args _, t, c, c', h => by
    rw [opt] at h
    obtain ⟨args', c1, e1, h⟩ := bind_eq_ok.1 h
    cases h
    exact KeepsMeaning.ofOther (fun _ => rfl) (fun _ => rfl) (fun _ _ _ => rfl) (fun _ _ => rfl)
      (Nat.le_refl 9)
  | .func ident args rets stmts, t, c, c', h => by
    rw [opt] at h
    obtain ⟨stmts', c1, e1, h⟩ := bind_eq_ok.1 h
    cases h
    exact KeepsMeaning.ofOther (fun _ => rfl) (fun _ => rfl) (fun _ _ _ => rfl) (fun _ _ => rfl)
      (Nat.le_refl 9)
  | .ret rets onlyJumpToFuncEnd, t, c, c', h => by
    rw [opt] at h
    cases onlyJumpToFuncEnd with
    | true =>
      cases h
      exact KeepsMeaning.refl _
    | false =>
      obtain ⟨rets', c1, e1, h⟩ := bind_eq_ok.1 h
      cases h
      exact KeepsMeaning.ofOther (fun _ => rfl) (fun _ => rfl) (fun _ _ _ => rfl) (fun _ _ => rfl)
        (Nat.le_refl 9)
  | .arrayAccess term num1 num2 _, t, c, c', h | .arrayAssign _ term num1 num2 _, t, c, c', h => by
    rw [opt] at h
    obtain ⟨t1, c1, e1, h⟩ := bind_eq_ok.1 h
    obtain ⟨t2, c2, e2, h⟩ := bind_eq_ok.1 h
    obtain ⟨t3, c3, e3, h⟩ := bind_eq_ok.1 h
    obtain ⟨n1, c4, e4, h⟩ := bind_eq_ok.1 h
    obtain ⟨n2, c5, e5, h⟩ := bind_eq_ok.1 h
    obtain ⟨u, c6, e6, h⟩ := bind_eq_ok.1 h
    cases h
    exact KeepsMeaning.ofOther (fun _ => rfl) (fun _ => rfl) (fun _ _ _ => rfl) (fun _ _ => rfl)
      (Nat.le_refl 9)
  | .var _, t, c, c', h | .realConst _, t, c, c', h | .intConst _, t, c, c', h
  | .cplxConst _, t, c, c', h | .quatConst _, t, c, c', h | .boolConst _, t, c, c', h
  | .strConst _, t, c, c', h | .loopBreak _, t, c, c', h | .loopNext _, t, c, c', h
  | .label _, t, c, c', h | .jump _ _, t, c, c', h => by
    rw [opt] at h
    cases h
    exact KeepsMeaning.refl _
termination_by structural ast => ast

theorem optOpt_means : ∀ (x : Option AST) {y : Option AST} {c c' : OptCounts},
    (optOpt x).run c = .ok y c' → Option.Rel KeepsMeaning x y
  | none, y, c, c', h => by
    cases h
    exact .none
  | some ast, y, c, c', h => by
    rw [optOpt] at h
    obtain ⟨t, c1, e1, h⟩ := bind_eq_ok.1 h
    cases h
    exact .some (opt_means ast e1)
termination_by structural x => x

theorem optSome_means : ∀ (x : Option AST) {t : AST} {c c' : OptCounts},
    (optSome x).run c = .ok t c' → ∃ ast, x = some ast ∧ KeepsMeaning ast t
  | none, t, c, c', h => by cases h
  | some ast, t, c, c', h => by
    rw [optSome] at h
    exact ⟨ast, rfl, opt_means ast h⟩
termination_by structural x => x

theorem optList_means : ∀ (asts : List AST) {ts : List AST} {c c' : OptCounts},
    (optList asts).run c = .ok ts c' → List.Forall₂ KeepsMeaning asts ts
  | [], ts, c, c', h => by
    cases h
    exact .nil
  | ast :: asts, ts, c, c', h => by
    rw [optList] at h
    obtain ⟨t1, c1, e1, h⟩ := bind_eq_ok.1 h
    obtain ⟨t2, c2, e2, h⟩ := bind_eq_ok.1 h
    cases h
    exact .cons (opt_means ast e1) (optList_means asts e2)
termination_by structural asts => asts

theorem optCases_means : ∀ (asts : List (AST × AST)) {ts : List (AST × AST)} {c c' : OptCounts},
    (optCases asts).run c = .ok ts c' → List.Forall₂ KeepsCase asts ts
  | [], ts, c, c', h => by
    cases h
    exact .nil
  | (cond, stmt) :: asts, ts, c, c', h => by
    rw [optCases] at h
    obtain ⟨t1, c1, e1, h⟩ := bind_eq_ok.1 h
    obtain ⟨t2, c2, e2, h⟩ := bind_eq_ok.1 h
    obtain ⟨u1, c3, e3, h⟩ := bind_eq_ok.1 h
    obtain ⟨t4, c4, e4, h⟩ := bind_eq_ok.1 h
    cases h
    exact .cons ⟨(opt_means cond e1).trans (optNode_means e3), opt_means stmt e2⟩
      (optCases_means asts e4)
termination_by structural asts => asts

end

/-! ## programs -/

/-- declarations without initial values stay -/
theorem optList_declarations {stmts prog : List AST} {c c' : OptCounts} : ∀ {decls : List (List Str)},
    (optList (declarations decls ++ stmts)).run c = .ok prog c' →
    ∃ stmts', prog = declarations decls ++ stmts' ∧ (optList stmts).run c = .ok stmts' c'
  | [] => fun h => ⟨prog, rfl, h⟩
  | vars :: decls => by
    intro h
    rw [declarations, List.map_cons, List.cons_append, optList] at h
    obtain ⟨t, c1, h1, h⟩ := bind_eq_ok.1 h
    obtain ⟨ts, c2, h2, h⟩ := bind_eq_ok.1 h
    cases h
    cases h1
    obtain ⟨stmts', rfl, h3⟩ := optList_declarations h2
    exact ⟨stmts', rfl, h3⟩

/-- **The machine does what a program means, if its code is that of the optimised program.** -/
theorem optimised_runs {T : SymTab} {decls : List (List Str)} {stmts prog : List AST} {c c' : OptCounts}
    {n : Nat} {f : Codegen} {v : VM} (hT : T.Parsed) (hi : T.Integral)
    (hx : ∀ x ∈ decls.flatten, (T.globalTy x).isSome = true)
    (ht : typedList (declaredTy T.globalTy decls.flatten) stmts [] = true)
    (ho : (optList (declarations decls ++ stmts)).run c = .ok prog c')
    (hc : (compile prog).run (Codegen.init T) = .ok n f)
    (hv : v.Here f.ostr.buf v.sp.toInt 0 []) (hg : v.sp.toInt ≤ v.gbp.toInt)
    (hroom : (f.ostr.buf.length : Int) + T.frame [] + needList stmts + 23 ≤ v.sp.toInt) :
    (∀ σ, Flow.Ends (execList stmts 0) (zeroStore T.globalTy decls.flatten) σ →
      ∃ w u u', Relation.ReflTransGen VM.Turn v w ∧ w.InSlots f.slotOf (v.sp.toInt - T.frame []) σ ∧
        Relation.ReflTransGen VM.Turn w u ∧ u.sp = v.sp ∧ step.run u = .ok .halted u') ∧
    (Flow.Diverges (execList stmts 0) (zeroStore T.globalTy decls.flatten) →
      ∀ k, Flow.Far VM.Turn k v) := by
  obtain ⟨stmts', rfl, h⟩ := optList_declarations ho
  obtain ⟨hexec, htyped, hneed⟩ := KeepsMeaning.stmts (optList_means stmts h)
  exact compiled_runs hT hi hx (htyped _ _ ht) hc hv hg (by omega) (hexec 0)

end

/-! ### constants in a loop -/

/-- a loop to a bound that is computed from constants, adding up a number that is -/
def constStmts : List AST :=
  let s : AST := .var (ascii "s")
  let two : AST := .mult (.intConst 6) (.intConst 3) true
  [.rangedLoop (ascii "i") (.intConst 1) (.plus (.intConst 1) two false) none
    (.cond (.comp two (.intConst 2) .equ)
      (.assign [ascii "s"] (some (.plus s (.pow (.intConst 3) two) false))) none)]

/-- the same without operations on constants -/
def foldedStmts : List AST :=
  let s : AST := .var (ascii "s")
  [.rangedLoop (ascii "i") (.intConst 1) (.plus (.intConst 1) (.intConst 2) false) none
    (.cond (.boolConst true)
      (.assign [ascii "s"] (some (.plus s (.intConst 9) false))) none)]

/-- the machine has the sum 27 in the slot of `s` when it is done -/
theorem optimised_runs_sum : ∃ (f : Codegen) (slot : VarSlot) (w u u' : VM),
    (∃ n, (compile (declarations [[ascii "i", ascii "s"]] ++ foldedStmts)).run
      (Codegen.init sumSyms) = .ok n f) ∧
    Relation.ReflTransGen (@VM.Turn (MathLib.absent ⟨0⟩)) (vmOn f.ostr.buf) w ∧
      f.slotOf (ascii "s") = some slot ∧
      At w.mem (w.slotAddr slot).toInt ((Data.int 27 : TData).bytes .unknown) ∧
      Relation.ReflTransGen (@VM.Turn (MathLib.absent ⟨0⟩)) w u ∧
      (@step (MathLib.absent ⟨0⟩)).run u = .ok .halted u' := by
  have hT : sumSyms.Parsed := SymTab.parsed_of (by decide +kernel)
  have hi : sumSyms.Integral := by
    unfold SymTab.Integral
    decide +kernel
  have ho : (@optList (MathLib.absent ⟨0⟩) (declarations [[ascii "i", ascii "s"]] ++ constStmts)).run
      ⟨0, 0⟩ = .ok (declarations [[ascii "i", ascii "s"]] ++ foldedStmts) ⟨4, 1⟩ := rfl
  obtain ⟨n, f, hc, hf⟩ := endsIn_ok (show endsIn
    (compile (declarations [[ascii "i", ascii "s"]] ++ foldedStmts)) (Codegen.init sumSyms)
    (fun f => decide (f.ostr.buf.length < 3000)) = true by decide +kernel)
  have hlen : f.ostr.buf.length < 3000 := of_decide_eq_true hf
  obtain ⟨σ, hσ, hs⟩ := doneIn_ok (show doneIn (execList constStmts 0 5
    (zeroStore sumSyms.globalTy [ascii "i", ascii "s"]))
    (fun σ => decide (σ (ascii "s") = some (.int 27))) = true by decide +kernel)
  have hsp : (vmOn f.ostr.buf).sp.toInt = 4055 := rfl
  have hgbp : (vmOn f.ostr.buf).gbp.toInt = 4096 := rfl
  have hframe : sumSyms.frame [] = 18 := by decide +kernel
  have hneed : needList constStmts ≤ 500 := by decide +kernel
  obtain ⟨w, u, u', h1, h2, h3, -, h4⟩ := (@optimised_runs (MathLib.absent ⟨0⟩) sumSyms
    [[ascii "i", ascii "s"]] constStmts _ _ _ n f (vmOn f.ostr.buf) hT hi (by decide +kernel)
    (by decide +kernel) ho hc (here_vmOn (by omega)) (by omega) (by rw [hsp, hframe]; omega)).1 σ
    ⟨5, hσ⟩
  obtain ⟨slot, hslot, -⟩ := h2.slot (of_decide_eq_true hs)
  exact ⟨f, slot, w, u, u', ⟨n, hc⟩, h1, hslot, h2.value _ slot _ hslot (of_decide_eq_true hs), h3, h4⟩

end MuF
