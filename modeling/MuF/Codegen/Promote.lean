import MuF.Codegen.Casts
import MuF.Codegen.Elements

/-!
# Promotion of numbers

* `numType`, `knownOf`: the type of an expression, and what the code generator knows of it;
* `Promoted`: in the code of an expression the narrower operands are cast to the wider type;
* `promotes`: the condition for this;
* `YieldsNum`: code that leaves a number of a type on the stack;
* **`promotion_iff`**: the condition is the exact one.
-/

set_option linter.unusedVariables false

namespace MuF

open Bytes Exec Layout

/-! ## types of expressions -/

/-- the type of the values of an expression: constants, variables, elements, calls, and operations
on them -/
def numType (s : Codegen) : AST → Option NumTy
  | .intConst _ => some .int
  | .realConst _ => some .real
  | .cplxConst _ => some .cplx
  | .quatConst _ => some .quat
  | .var ident => (s.resolve ident none).bind fun sym => sym.ty.num
  | .arrayAccess (.var ident) (some _) none false =>
    (s.resolve ident none).bind fun sym => sym.ty.elemNum
  | .call ident _ => (s.resolve ident (some .func)).bind Symbol.result
  | .plus term1 term2 _ | .mult term1 term2 _ =>
    (numType s term1).bind fun a => (numType s term2).bind (wider a)
  | _ => none

/-- what is known of an operation of the type `v`: its type, unless one of the operands is not known
or the first one is a call of a function that does not have its result as type -/
def Known.op (v : Option NumTy) : Known → Known → Known
  | .nothing, _ | _, .nothing | .call none, _ => .nothing
  | _, _ => .ofRet v

/-- what is known of an expression -/
def knownOf (s : Codegen) : AST → Known
  | .call ident _ => .call ((s.resolve ident (some .func)).bind fun func => func.retty.num)
  | .plus term1 term2 inverted =>
    .op (numType s (.plus term1 term2 inverted)) (knownOf s term1) (knownOf s term2)
  | .mult term1 term2 inverted =>
    .op (numType s (.mult term1 term2 inverted)) (knownOf s term1) (knownOf s term2)
  | ast => ((numType s ast).map Known.type).getD .nothing

def Known.isType : Known → Bool
  | .type _ => true
  | _ => false

def Known.isResult : Known → Bool
  | .call (some _) => true
  | _ => false

/-- the operands have one type, or the code generator finds the cast of the narrower one -/
def pairOk (v1 : NumTy) (k1 : Known) (v2 : NumTy) (k2 : Known) : Bool :=
  v1 == v2 ||
    (decide (v1.rank < v2.rank) && (k1.isType && k2.isType && v2 != .quat)) ||
    (decide (v2.rank < v1.rank) && (k1.isType && k2 != .nothing || k1.isResult && k2.isType))

/-- the operands of all operations of an expression do -/
def promotes (s : Codegen) : AST → Bool
  | .plus term1 term2 _ | .mult term1 term2 _ =>
    promotes s term1 && promotes s term2 &&
      ((numType s term1).any fun v1 => (numType s term2).any fun v2 =>
        pairOk v1 (knownOf s term1) v2 (knownOf s term2))
  | _ => true

/-! ## casts in the code -/

/-- the operands of an instruction at `q` have the wider type, with the cast of the first one at
`m1` and the cast of the second one, if there is one, at `m2` -/
def Converted (code : List UInt8) (v1 v2 : Option NumTy) (m1 m2 q : Nat) : Prop :=
  ∃ a b t, v1 = some a ∧ v2 = some b ∧ wider a b = some t ∧
    (code[m1]? = some t.cast.code ∨ a = t ∧ code[m1]? = some OpCode.nop.code) ∧
    (q = m2 + 1 ∧ code[m2]? = some t.cast.code ∨ q = m2 ∧ b = t)

/-- the instruction of a sum or difference -/
def plusOp (inverted : Bool) : OpCode := if inverted then .sub else .add

/-- the instruction of a product or quotient -/
def multOp (inverted : Bool) : OpCode := if inverted then .div else .mul

/-- the operands of an operation, and the operation itself, are cast to the wider type -/
def OpPromoted (code : List UInt8) (op : OpCode) (whole x1 x2 : Visit) (v1 v2 : Option NumTy)
    (s : Codegen) (P1 P2 : Codegen → Prop) : Prop :=
  ∃ r1 s1 r2 s2 r s', x1.run s = .ok r1 s1 ∧ x2.run (s1.put .nop) = .ok r2 s2 ∧
    whole.run s = .ok r s' ∧ P1 s ∧ P2 (s1.put .nop) ∧
    code[s'.ostr.pos - 1]? = some op.code ∧
    Converted code v1 v2 s1.ostr.pos s2.ostr.pos (s'.ostr.pos - 1)

/-- in the code of an expression, whose visit begins in the state `s`, the operands of every
instruction are cast to the wider type -/
def Promoted (code : List UInt8) : AST → Codegen → Prop
  | .plus term1 term2 inverted, s =>
    OpPromoted code (plusOp inverted) (visit (.plus term1 term2 inverted)) (visit term1)
      (visit term2) (numType s term1) (numType s term2) s (Promoted code term1)
      (Promoted code term2)
  | .mult term1 term2 inverted, s =>
    OpPromoted code (multOp inverted) (visit (.mult term1 term2 inverted)) (visit term1)
      (visit term2) (numType s term1) (numType s term2) s (Promoted code term1)
      (Promoted code term2)
  | _, _ => True

/-! ## the condition -/

/-- what is known agrees with the type -/
def Known.Fits (v : NumTy) : Known → Prop
  | .type t => t = v
  | .call (some t) => t = v
  | _ => True

/-- what can be known of an operand -/
def knowns (v : NumTy) : List Known := [.type v, .call (some v), .call none, .nothing]

theorem mem_knowns {v : NumTy} {k : Known} (h : k.Fits v) : k ∈ knowns v := by
  rcases k with t | r | _
  · obtain rfl : t = v := h
    simp [knowns]
  · cases r with
    | none => simp [knowns]
    | some t =>
      obtain rfl : t = v := h
      simp [knowns]
  · simp [knowns]

/-- the casts are right -/
def CastsRight (c1 c2 : Option NumTy) (v1 v2 t : NumTy) : Prop :=
  (c1 = some t ∨ c1 = none ∧ v1 = t) ∧ (c2 = some t ∨ c2 = none ∧ v2 = t)

instance (c1 c2 : Option NumTy) (v1 v2 t : NumTy) : Decidable (CastsRight c1 c2 v1 v2 t) :=
  inferInstanceAs (Decidable (_ ∧ _))

/-- the numeric types -/
def numTypes : List NumTy := [.int, .real, .cplx, .quat]

theorem mem_numTypes (t : NumTy) : t ∈ numTypes := by
  cases t <;> decide

/-- all types and all that can be known of them -/
theorem pairOk_knowns : ∀ v1 ∈ numTypes, ∀ v2 ∈ numTypes, ∀ t ∈ numTypes, wider v1 v2 = some t →
    ∀ k1 ∈ knowns v1, ∀ k2 ∈ knowns v2,
      (pairOk v1 k1 v2 k2 = true ↔ CastsRight (castsOf k1 k2).1 (castsOf k1 k2).2.1 v1 v2 t) ∧
      (pairOk v1 k1 v2 k2 = true → (castsOf k1 k2).2.2 = .op (some t) k1 k2) := by
  decide +kernel

/-- **The casts of two operands** are right under the condition, and only then. -/
theorem pairOk_iff {v1 v2 t : NumTy} {k1 k2 : Known} (ht : wider v1 v2 = some t) (h1 : k1.Fits v1)
    (h2 : k2.Fits v2) :
    pairOk v1 k1 v2 k2 = true ↔ CastsRight (castsOf k1 k2).1 (castsOf k1 k2).2.1 v1 v2 t :=
  (pairOk_knowns v1 (mem_numTypes v1) v2 (mem_numTypes v2) t (mem_numTypes t) ht k1
    (mem_knowns h1) k2 (mem_knowns h2)).1

theorem pairOk_op {v1 v2 t : NumTy} {k1 k2 : Known} (ht : wider v1 v2 = some t) (h1 : k1.Fits v1)
    (h2 : k2.Fits v2) (h : pairOk v1 k1 v2 k2 = true) :
    (castsOf k1 k2).2.2 = .op (some t) k1 k2 :=
  (pairOk_knowns v1 (mem_numTypes v1) v2 (mem_numTypes v2) t (mem_numTypes t) ht k1
    (mem_knowns h1) k2 (mem_knowns h2)).2 h

theorem cast_inj {a t : NumTy} (h : a.cast.code = t.cast.code) : a = t := by
  cases a <;> cases t <;> first | rfl | exact absurd h (by decide)

theorem cast_ne_nop (t : NumTy) : t.cast.code ≠ OpCode.nop.code := by
  cases t <;> decide

theorem castCode_eq {c : Option NumTy} {t : NumTy} : castCode c = t.cast.code ↔ c = some t := by
  cases c with
  | none => exact ⟨fun h => absurd h.symm (cast_ne_nop t), fun h => by cases h⟩
  | some a => exact ⟨fun h => congrArg some (cast_inj h), fun h => by cases h; rfl⟩

theorem castCode_nop {c : Option NumTy} : castCode c = OpCode.nop.code ↔ c = none := by
  cases c with
  | none => exact ⟨fun _ => rfl, fun _ => rfl⟩
  | some a => exact ⟨fun h => absurd h (cast_ne_nop a), fun h => by cases h⟩

/-- the bytes of the casts tell which ones there are -/
theorem converted_iff {code : List UInt8} {c1 c2 : Option NumTy} {a b t : NumTy} {m1 m2 q : Nat}
    (ht : wider a b = some t) (h1 : code[m1]? = some (castCode c1))
    (h2 : ∀ x ∈ c2, code[m2]? = some x.cast.code) (hq : q = m2 + if c2.isSome then 1 else 0) :
    Converted code (some a) (some b) m1 m2 q ↔ CastsRight c1 c2 a b t := by
  have hsome {x y : UInt8} : some x = some y ↔ x = y := Option.some_inj
  have key : Converted code (some a) (some b) m1 m2 q ↔
      (code[m1]? = some t.cast.code ∨ a = t ∧ code[m1]? = some OpCode.nop.code) ∧
        (q = m2 + 1 ∧ code[m2]? = some t.cast.code ∨ q = m2 ∧ b = t) := by
    constructor
    · rintro ⟨a', b', t', ha, hb, ht', h⟩
      cases ha
      cases hb
      rw [ht] at ht'
      cases ht'
      exact h
    · exact fun h => ⟨a, b, t, rfl, rfl, ht, h⟩
  rw [key, h1, hsome, hsome, castCode_eq, castCode_nop]
  refine and_congr (or_congr_right and_comm) ?_
  cases c2 with
  | none =>
    have hq : q = m2 := hq
    refine ⟨?_, ?_⟩
    · rintro (⟨h, -⟩ | ⟨-, h⟩)
      · omega
      · exact Or.inr ⟨rfl, h⟩
    · rintro (h | ⟨-, h⟩)
      · cases h
      · exact Or.inr ⟨hq, h⟩
  | some x =>
    have hq : q = m2 + 1 := hq
    rw [h2 x rfl]
    refine ⟨?_, ?_⟩
    · rintro (⟨-, h⟩ | ⟨h, -⟩)
      · exact Or.inl (congrArg some (cast_inj (Option.some.inj h)))
      · omega
    · rintro (h | ⟨h, -⟩)
      · cases h
        exact Or.inl ⟨hq, rfl⟩
      · cases h

/-! ## types in other states -/

section
variable {s s' : Codegen}

/-- what depends on the declaration of a symbol only -/
theorem resolve_bind {α : Type} (hd : s'.syms.declared = s.syms.declared)
    (hc : s'.curscope = s.curscope) (name : Str) (ty : Option SymbolType) (f : Symbol → Option α)
    (hf : ∀ sym, f sym.declared = f sym) : (s'.resolve name ty).bind f = (s.resolve name ty).bind f := by
  have e : (s'.resolve name ty).map Symbol.declared = (s.resolve name ty).map Symbol.declared := by
    unfold Codegen.resolve
    rw [← SymTab.resolve_declared, ← SymTab.resolve_declared, hd, hc]
  have hb (x : Option Symbol) : x.bind f = (x.map Symbol.declared).bind f := by
    cases x with
    | none => rfl
    | some sym => exact (hf sym).symm
  rw [hb, e, ← hb]

theorem numType_congr (hd : s'.syms.declared = s.syms.declared) (hc : s'.curscope = s.curscope)
    (ast : AST) : numType s' ast = numType s ast := by
  cases ast with
  | plus term1 term2 inverted =>
    rw [numType, numType, numType_congr hd hc term1, numType_congr hd hc term2]
  | mult term1 term2 inverted =>
    rw [numType, numType, numType_congr hd hc term1, numType_congr hd hc term2]
  | var ident => exact resolve_bind hd hc ident none _ fun _ => rfl
  | call ident args => exact resolve_bind hd hc ident (some .func) _ fun _ => rfl
  | arrayAccess term num1 num2 ranged12 =>
    cases term with
    | var ident =>
      cases num1 <;> cases num2 <;> cases ranged12 <;>
        first | rfl | exact resolve_bind hd hc ident none _ fun _ => rfl
    | _ => rfl
  | _ => rfl

theorem knownOf_congr (hd : s'.syms.declared = s.syms.declared) (hc : s'.curscope = s.curscope)
    (ast : AST) : knownOf s' ast = knownOf s ast := by
  have hn := numType_congr hd hc ast
  cases ast with
  | plus term1 term2 inverted =>
    rw [knownOf, knownOf, knownOf_congr hd hc term1, knownOf_congr hd hc term2, hn]
  | mult term1 term2 inverted =>
    rw [knownOf, knownOf, knownOf_congr hd hc term1, knownOf_congr hd hc term2, hn]
  | call ident args =>
    exact congrArg Known.call (resolve_bind hd hc ident (some .func) _ fun _ => rfl)
  | _ => exact congrArg (fun t : Option NumTy => (t.map Known.type).getD .nothing) hn

theorem promotes_congr (hd : s'.syms.declared = s.syms.declared) (hc : s'.curscope = s.curscope)
    (ast : AST) : promotes s' ast = promotes s ast := by
  cases ast with
  | plus term1 term2 inverted =>
    rw [promotes, promotes, promotes_congr hd hc term1, promotes_congr hd hc term2,
      numType_congr hd hc, numType_congr hd hc, knownOf_congr hd hc, knownOf_congr hd hc]
  | mult term1 term2 inverted =>
    rw [promotes, promotes, promotes_congr hd hc term1, promotes_congr hd hc term2,
      numType_congr hd hc, numType_congr hd hc, knownOf_congr hd hc, knownOf_congr hd hc]
  | _ => rfl

end

/-! ## knowledge and types -/

section
variable {s s' : Codegen}

/-- an operation has a type if its operands do -/
theorem numType_op {term1 term2 : AST} {v : NumTy}
    (h : ((numType s term1).bind fun a => (numType s term2).bind (wider a)) = some v) :
    ∃ a b, numType s term1 = some a ∧ numType s term2 = some b ∧ wider a b = some v := by
  obtain ⟨a, ha, h⟩ := Option.bind_eq_some_iff.1 h
  obtain ⟨b, hb, h⟩ := Option.bind_eq_some_iff.1 h
  exact ⟨a, b, ha, hb, h⟩

/-- the condition for one operation -/
theorem promotes_op {term1 term2 : AST} {a b : NumTy} (ha : numType s term1 = some a)
    (hb : numType s term2 = some b) :
    (promotes s term1 && promotes s term2 &&
      ((numType s term1).any fun v1 => (numType s term2).any fun v2 =>
        pairOk v1 (knownOf s term1) v2 (knownOf s term2))) = true ↔
      promotes s term1 = true ∧ promotes s term2 = true ∧
        pairOk a (knownOf s term1) b (knownOf s term2) = true := by
  rw [ha, hb]
  simp [and_assoc]

theorem fits_type {ast : AST} {v : NumTy} (h : numType s ast = some v) :
    (((numType s ast).map Known.type).getD .nothing).Fits v := by
  rw [h]
  rfl

theorem op_fits (v : NumTy) (k1 k2 : Known) : (Known.op (some v) k1 k2).Fits v := by
  rcases k1 with t1 | (_ | t1) | _ <;> rcases k2 with t2 | (_ | t2) | _ <;> first | rfl | trivial

/-- **What is known agrees with the type.** -/
theorem known_fits {ast : AST} {v : NumTy} (hv : numType s ast = some v) :
    (knownOf s ast).Fits v := by
  cases ast with
  | plus term1 term2 inverted =>
    rw [knownOf, hv]
    exact op_fits v _ _
  | mult term1 term2 inverted =>
    rw [knownOf, hv]
    exact op_fits v _ _
  | call ident args =>
    obtain ⟨func, hf, hr⟩ := Option.bind_eq_some_iff.1 hv
    rw [knownOf, hf, Option.bind_some]
    cases hn : func.retty.num with
    | none => trivial
    | some t =>
      have e : func.retty = t.sym := SymbolType.num_sym hn
      have hres : func.result = func.retty.num := by
        unfold Symbol.result
        rw [e]
        cases t <;> rfl
      rw [hres, hn] at hr
      exact Option.some.inj hr
  | _ => exact fits_type hv

/-! ## the symbols of operands -/

theorem of_type {ast : AST} {v : NumTy} {r : Option Symbol} (h : numType s ast = some v)
    (hr : ∃ x, r = some x ∧ x.ty = v.sym) :
    (((numType s ast).map Known.type).getD .nothing).Of r := by
  rw [h]
  exact hr

theorem visitConst_ok {push : CGM Unit} {sym : Symbol} {r : Option Symbol}
    (h : (visitConst push sym).run s = .ok r s') : r = some sym := by
  obtain ⟨_, s1, -, h⟩ := bind_eq_ok.1 h
  cases h
  rfl

theorem visitCall_ok {ident : Str} {args : List Visit} {r : Option Symbol}
    (h : (visitCall ident args).run s = .ok r s') :
    ∃ func, r = some func ∧ s.resolve ident (some .func) = some func := by
  obtain ⟨func, s1, h1, h⟩ := bind_eq_ok.1 h
  refine ⟨func, ?_, getSym_resolve h1⟩
  split at h
  · cases h
  · obtain ⟨_, s2, -, h⟩ := bind_eq_ok.1 h
    split at h
    · obtain ⟨_, s3, -, h⟩ := bind_eq_ok.1 h
      cases h
      rfl
    · obtain ⟨_, s3, -, h⟩ := bind_eq_ok.1 h
      obtain ⟨_, s4, -, h⟩ := bind_eq_ok.1 h
      obtain ⟨_, s5, -, h⟩ := bind_eq_ok.1 h
      obtain ⟨_, s6, -, h⟩ := bind_eq_ok.1 h
      obtain ⟨_, s7, -, h⟩ := bind_eq_ok.1 h
      obtain ⟨_, s8, -, h⟩ := bind_eq_ok.1 h
      obtain ⟨_, s9, -, h⟩ := bind_eq_ok.1 h
      obtain ⟨_, s10, -, h⟩ := bind_eq_ok.1 h
      cases h
      rfl

theorem findTyped_ty {tab : SymTab} {name : Str} {ty : SymbolType} {sym : Symbol}
    (h : tab.findTyped name (some ty) = some sym) : sym.ty = ty := by
  have hf := (Option.filter_eq_some_iff.1 h).2
  exact beq_iff_eq.1 hf

theorem resolve_ty {name : Str} {ty : SymbolType} {sym : Symbol}
    (h : s.resolve name (some ty) = some sym) : sym.ty = ty := by
  unfold Codegen.resolve SymTab.resolve at h
  rcases (Option.orElse_eq_some _ _ _).1 h with h | ⟨-, h⟩
  · split at h
    · exact findTyped_ty h
    · cases h
  · exact findTyped_ty h

/-- the symbol of an element has the type of the elements -/
theorem access_type {ident : Str} {num : AST} {r : Option Symbol} {v : NumTy}
    (hn : ((s.resolve ident none).bind fun sym => sym.ty.elemNum) = some v)
    (h : (visit (ElemUse.access.ast ident num)).run s = .ok r s') :
    ∃ x, r = some x ∧ x.ty = v.sym := by
  obtain ⟨sym, hres, hv⟩ := Option.bind_eq_some_iff.1 hn
  obtain ⟨ix, hix, -⟩ := visitNum_exprs num
  have h : (visitArrayAccess (pushVar ident) (some ix) none false).run s = .ok r s' := by
    rw [ElemUse.ast, visit, visit, hix, visitNum] at h
    exact h
  obtain ⟨term, s1, h1, h2⟩ := bind_eq_ok.1 h
  obtain ⟨sym', rfl, hres'⟩ := pushVar_ok h1
  obtain rfl : sym = sym' := Option.some.inj (hres.symm.trans hres')
  obtain ⟨s3, h5⟩ : ∃ s3, (do putOp .rdarr; elementType (← deref (some sym)) : Visit).run s3 =
      .ok r s' := by
    cases ix with
    | list nums =>
      have h2 : (do
          visitElemIndex "ASTArrayAccess" sym (.list nums)
          putOp .rdarr
          elementType (← deref (some sym)) : Visit).run s1 = .ok r s' := h2
      obtain ⟨_, s3, -, h4⟩ := bind_eq_ok.1 h2
      exact ⟨s3, h4⟩
    | single num =>
      obtain ⟨_, s3, -, h4⟩ := bind_eq_ok.1 h2
      exact ⟨s3, h4⟩
  obtain ⟨_, s4, -, h6⟩ := bind_eq_ok.1 h5
  have h6 : (elementType sym).run s4 = .ok r s' := h6
  unfold elementType at h6
  split at h6
  · rename_i arrTy elemTy hty
    cases h6
    refine ⟨elemTy, rfl, ?_⟩
    revert hty hv
    cases sym.ty <;> rintro ⟨⟩ ⟨⟩ <;> rfl
  · cases h6

/-- **The symbol of an operand** that is not an operation. -/
theorem leaf_known {ast : AST} {v : NumTy} {r : Option Symbol} (hn : numType s ast = some v)
    (h : (visit ast).run s = .ok r s') (h1 : ∀ a b i, ast ≠ .plus a b i)
    (h2 : ∀ a b i, ast ≠ .mult a b i) : (knownOf s ast).Of r := by
  cases ast with
  | plus a b i => exact absurd rfl (h1 a b i)
  | mult a b i => exact absurd rfl (h2 a b i)
  | intConst x =>
    rw [visit] at h
    exact ⟨intConst, visitConst_ok h, rfl⟩
  | realConst x =>
    rw [visit] at h
    exact ⟨realConst, visitConst_ok h, rfl⟩
  | cplxConst x =>
    rw [visit] at h
    exact ⟨cplxConst, visitConst_ok h, rfl⟩
  | quatConst x =>
    rw [visit] at h
    exact ⟨quatConst, visitConst_ok h, rfl⟩
  | var ident =>
    rw [visit] at h
    obtain ⟨sym, rfl, hres⟩ := pushVar_ok h
    have hv : ((s.resolve ident none).bind fun sym => sym.ty.num) = some v := hn
    rw [hres] at hv
    exact of_type hn ⟨sym, rfl, SymbolType.num_sym hv⟩
  | arrayAccess term num1 num2 ranged12 =>
    cases term with
    | var ident =>
      cases num1 with
      | none => cases hn
      | some num =>
        cases num2 with
        | some num2 => cases hn
        | none =>
          cases ranged12 with
          | true => cases hn
          | false => exact of_type hn (access_type hn h)
    | _ => cases hn
  | call ident args =>
    rw [visit] at h
    obtain ⟨func, rfl, hres⟩ := visitCall_ok h
    have hty := resolve_ty hres
    rw [knownOf, hres, Option.bind_some]
    rw [numType, hres, Option.bind_some] at hn
    cases hr : func.retty.num with
    | some t => exact ⟨func, rfl, hty, SymbolType.num_sym hr⟩
    | none =>
      refine ⟨func, rfl, hty, ?_⟩
      unfold Symbol.result at hn
      split at hn
      · rename_i hc _
        rw [hc]
        rfl
      · rw [hr] at hn
        cases hn
  | _ => cases hn

end

/-! ## the code of expressions -/

section
variable {s s' : Codegen} {H K : Holes} {l : List Event} {r : Option Symbol} {x1 x2 : Visit}
  {op : OpCode}

/-- the parts of the visit of an operation -/
def OpRun (op : OpCode) (x1 x2 : Visit) (s : Codegen) (r : Option Symbol) (s' : Codegen) : Prop :=
  ∃ r1 s1 r2 s2 s3 s4, x1.run s = .ok r1 s1 ∧ x2.run (s1.put .nop) = .ok r2 s2 ∧
    (castTo (getCastSymType r1 r2).1 (some s1.ostr.pos)).run s2 = .ok () s3 ∧
    (castTo (getCastSymType r1 r2).2.1 (some s2.ostr.pos)).run s3 = .ok () s4 ∧
    s' = s4.put op ∧ r = (getCastSymType r1 r2).2.2

theorem visitBinary_ok (h : (visitBinary op x1 x2).run s = .ok r s') : OpRun op x1 x2 s r s' := by
  obtain ⟨c, s4, h1, h2⟩ := bind_eq_ok.1 h
  obtain ⟨r1, s1, r2, s2, s3, e1, e2, e3, e4, rfl⟩ := castOperands_ok h1
  obtain ⟨_, s5, h3, h4⟩ := bind_eq_ok.1 h2
  rw [run_putOp] at h3
  cases h3
  cases h4
  exact ⟨r1, s1, r2, s2, s3, s4, e1, e2, e3, e4, rfl, rfl⟩

/-- a number is no matrix -/
theorem matMulDims_num {k : Known} {common : Option Symbol} (h : k.Of common)
    (hk : ∀ o, k ≠ .call o) (r1 r2 : Option Symbol) : matMulDims common r1 r2 = none := by
  cases k with
  | nothing =>
    obtain rfl : common = none := h
    rfl
  | type t =>
    obtain ⟨x, rfl, hx⟩ := h
    have hn : x.ty.isArray = false := by
      rw [hx]
      cases t <;> rfl
    cases r1 with
    | none => rfl
    | some sym1 =>
      cases r2 with
      | none => rfl
      | some sym2 =>
        rw [matMulDims, hn]
        rfl
  | call o => exact absurd rfl (hk o)

theorem casts_no_call (k1 k2 : Known) (o : Option NumTy) : (castsOf k1 k2).2.2 ≠ .call o := by
  rcases k1 with t1 | (_ | t1) | _ <;> rcases k2 with t2 | (_ | t2) | _ <;>
    first | (intro h; cases h) | (cases t1 <;> cases t2 <;> (intro h; cases h))

theorem visitMult_ok {inverted : Bool}
    (hk : ∀ r1 s1 r2 s2, x1.run s = .ok r1 s1 → x2.run (s1.put .nop) = .ok r2 s2 →
      ∃ k1 k2, (castsOf k1 k2).2.2.Of (getCastSymType r1 r2).2.2)
    (h : (visitMult x1 x2 inverted).run s = .ok r s') : OpRun (multOp inverted) x1 x2 s r s' := by
  obtain ⟨c, s4, h1, h2⟩ := bind_eq_ok.1 h
  obtain ⟨r1, s1, r2, s2, s3, e1, e2, e3, e4, rfl⟩ := castOperands_ok h1
  refine ⟨r1, s1, r2, s2, s3, s4, e1, e2, e3, e4, ?_⟩
  have hput {op : OpCode} {c : Option Symbol}
      (h : (do putOp op; return c : Visit).run s4 = .ok r s') : s' = s4.put op ∧ r = c := by
    obtain ⟨_, s5, h3, h4⟩ := bind_eq_ok.1 h
    rw [run_putOp] at h3
    cases h3
    cases h4
    exact ⟨rfl, rfl⟩
  cases inverted with
  | true =>
    have h2 : (if (r2.any fun sym => sym.ty.isArray) = true then
        fail "ASTMult: Cannot divide by array."
        else do putOp .div; return (getCastSymType r1 r2).2.2 : Visit).run s4 = .ok r s' := h2
    split at h2
    · cases h2
    · exact hput h2
  | false =>
    obtain ⟨k1, k2, hk⟩ := hk r1 s1 r2 s2 e1 e2
    have hd := matMulDims_num hk (casts_no_call k1 k2) r1 r2
    dsimp only at h2
    rw [if_neg (by simp), hd] at h2
    exact hput h2

/-- what a visit leaves as it is -/
theorem visit_context {ast : AST} (hv : (visit ast).run s = .ok r s') (h : Stage s H l) :
    s'.syms.declared = s.syms.declared ∧ s'.curscope = s.curscope := by
  have hx : Keeps Lays (visit ast) := visit_keeps lays_rules ⟨[], false⟩ ast (AST.all_true _ ast)
  obtain ⟨H', ⟨⟨m, e⟩, -⟩, -⟩ := run_lays hx hv h.atEnd h.isOpen
  exact ⟨emits_declared e.emits, e.curscope⟩

/-- the visit of an expression has what is known of it under the condition, and its code has the
casts if and only if the condition holds -/
def VisitNum (s : Codegen) (ast : AST) (r : Option Symbol) (s' : Codegen) : Prop :=
  (∃ k : Known, k.Of r ∧ (promotes s ast = true → k = knownOf s ast)) ∧
    ∀ H l K, Draft s H l K → Adds s H l K s' K fun code =>
      (Promoted code ast s ↔ promotes s ast = true)

/-- the state in front of the second operand -/
theorem second_stage {term1 : AST} {r1 : Option Symbol} {s1 : Codegen} (hst : Stage s H l)
    (e1 : (visit term1).run s = .ok r1 s1) :
    (∃ H l, Stage (s1.put .nop) H l) ∧ (s1.put .nop).syms.declared = s.syms.declared ∧
      (s1.put .nop).curscope = s.curscope := by
  have hx : Keeps Lays (visit term1) :=
    visit_keeps lays_rules ⟨[], false⟩ term1 (AST.all_true _ term1)
  obtain ⟨H1, l1, -, -, hst1, -⟩ := hst.visit hx e1
  obtain ⟨H2, l2, -, -, hst2, -⟩ := hst1.write [OpCode.nop.code]
  have hc := visit_context e1 hst
  exact ⟨⟨H2, _, hst2⟩, hc.1, hc.2⟩

/-- the visits of the two operands -/
theorem operands_num {term1 term2 : AST} {a b : NumTy} (hst : Stage s H l)
    (ih1 : ∀ s s' r H l, Stage s H l → numType s term1 = some a → (visit term1).run s = .ok r s' →
      VisitNum s term1 r s')
    (ih2 : ∀ s s' r H l, Stage s H l → numType s term2 = some b → (visit term2).run s = .ok r s' →
      VisitNum s term2 r s')
    (ha : numType s term1 = some a) (hb : numType s term2 = some b) :
    (∀ r1 s1, (visit term1).run s = .ok r1 s1 → VisitNum s term1 r1 s1) ∧
      ∀ r1 s1 r2 s2, (visit term1).run s = .ok r1 s1 →
        (visit term2).run (s1.put .nop) = .ok r2 s2 → VisitNum (s1.put .nop) term2 r2 s2 := by
  refine ⟨fun r1 s1 e1 => ih1 s s1 r1 H l hst ha e1, fun r1 s1 r2 s2 e1 e2 => ?_⟩
  obtain ⟨⟨H2, l2, hst2⟩, hd, hc⟩ := second_stage hst e1
  have hb' : numType (s1.put .nop) term2 = some b := by
    rw [numType_congr hd hc, hb]
  exact ih2 _ s2 r2 H2 l2 hst2 hb' e2

/-- the visit of a product or quotient of numbers -/
theorem mult_run {term1 term2 : AST} {inverted : Bool}
    (h1 : ∀ r1 s1, (visit term1).run s = .ok r1 s1 → VisitNum s term1 r1 s1)
    (h2 : ∀ r1 s1 r2 s2, (visit term1).run s = .ok r1 s1 →
      (visit term2).run (s1.put .nop) = .ok r2 s2 → VisitNum (s1.put .nop) term2 r2 s2)
    (hv : (visit (.mult term1 term2 inverted)).run s = .ok r s') :
    OpRun (multOp inverted) (visit term1) (visit term2) s r s' := by
  rw [visit] at hv
  refine visitMult_ok (fun r1 s1 r2 s2 e1 e2 => ?_) hv
  obtain ⟨⟨k1, hk1, -⟩, -⟩ := h1 r1 s1 e1
  obtain ⟨⟨k2, hk2, -⟩, -⟩ := h2 r1 s1 r2 s2 e1 e2
  exact ⟨k1, k2, (casts_known hk1 hk2).2.2⟩

/-- the visit of a sum or difference -/
theorem plus_run {term1 term2 : AST} {inverted : Bool}
    (hv : (visit (.plus term1 term2 inverted)).run s = .ok r s') :
    OpRun (plusOp inverted) (visit term1) (visit term2) s r s' := by
  rw [visit] at hv
  exact visitBinary_ok hv

/-- **One operation**, whose operands have casts if and only if the condition holds. -/
theorem opRun_num {whole : Visit} {term1 term2 : AST} {a b v : NumTy}
    (ha : numType s term1 = some a) (hb : numType s term2 = some b) (ht : wider a b = some v)
    (h1 : ∀ r1 s1, (visit term1).run s = .ok r1 s1 → VisitNum s term1 r1 s1)
    (h2 : ∀ r1 s1 r2 s2, (visit term1).run s = .ok r1 s1 →
      (visit term2).run (s1.put .nop) = .ok r2 s2 → VisitNum (s1.put .nop) term2 r2 s2)
    (hw : whole.run s = .ok r s') (hop : OpRun op (visit term1) (visit term2) s r s')
    (hst : Stage s H l) {P : Prop}
    (hP : P ↔ promotes s term1 = true ∧ promotes s term2 = true ∧
      pairOk a (knownOf s term1) b (knownOf s term2) = true) :
    (∃ k : Known, k.Of r ∧ (P → k = .op (some v) (knownOf s term1) (knownOf s term2))) ∧
      ∀ H l K, Draft s H l K → Adds s H l K s' K fun code =>
        (OpPromoted code op whole (visit term1) (visit term2) (numType s term1) (numType s term2) s
          (Promoted code term1) (Promoted code term2) ↔ P) := by
  obtain ⟨r1, s1, r2, s2, s3, s4, e1, e2, e3, e4, rfl, rfl⟩ := hop
  obtain ⟨-, hd, hc⟩ := second_stage hst e1
  obtain ⟨⟨k1, hk1, hf1⟩, a1⟩ := h1 r1 s1 e1
  obtain ⟨⟨k2, hk2, hf2⟩, a2⟩ := h2 r1 s1 r2 s2 e1 e2
  rw [promotes_congr hd hc, knownOf_congr hd hc] at hf2
  obtain ⟨c1, c2, c3⟩ := casts_known hk1 hk2
  have f1 := known_fits ha
  have f2 := known_fits hb
  refine ⟨⟨_, c3, fun hp => ?_⟩, fun H l K d => ?_⟩
  · obtain ⟨p1, p2, p3⟩ := hP.1 hp
    rw [hf1 p1, hf2 p2]
    exact pairOk_op ht f1 f2 p3
  obtain ⟨hpos, hadds⟩ := castOperands_code d c1 c2 a1 a2 e3 e4
  refine (hadds.bind fun H' l' d' => d'.write [op.code]).mono ?_
  rintro code ⟨⟨p1, p2, m1, m2⟩, hq⟩
  rw [promotes_congr hd hc] at p2
  obtain ⟨H4, l4, d4, -⟩ := id hadds
  have hpos' : (s4.put op).ostr.pos - 1 = s4.ostr.pos := by
    rw [Codegen.put, pos_write d4.toStage]
    rfl
  have hconv (q1 : promotes s term1 = true) (q2 : promotes s term2 = true) :
      Converted code (some a) (some b) s1.ostr.pos s2.ostr.pos s4.ostr.pos ↔
        pairOk a (knownOf s term1) b (knownOf s term2) = true := by
    rw [pairOk_iff ht f1 f2, ← hf1 q1, ← hf2 q2]
    exact converted_iff ht (sits_cons.1 m1).1 (fun x hx => (sits_cons.1 (m2 x hx)).1) hpos
  rw [ha, hb, hP]
  constructor
  · rintro ⟨r1', s1', r2', s2', r', s'', e1', e2', ew, q1, q2, -, q3⟩
    rw [e1] at e1'
    cases e1'
    rw [e2] at e2'
    cases e2'
    rw [hw] at ew
    cases ew
    rw [hpos'] at q3
    have q1 := p1.1 q1
    have q2 := p2.1 q2
    exact ⟨q1, q2, (hconv q1 q2).1 q3⟩
  · rintro ⟨q1, q2, q3⟩
    refine ⟨r1, s1, r2, s2, _, _, e1, e2, hw, p1.2 q1, p2.2 q2, ?_⟩
    rw [hpos']
    exact ⟨(sits_cons.1 hq).1, (hconv q1 q2).2 q3⟩

/-- **Expressions** have casts if and only if the condition holds. -/
theorem visit_num (ast : AST) : ∀ {s s' : Codegen} {r : Option Symbol} {v : NumTy} {H : Holes}
    {l : List Event}, Stage s H l → numType s ast = some v → (visit ast).run s = .ok r s' →
    VisitNum s ast r s' := by
  intro s s' r v H l hst hn hv
  have hleaf (h1 : ∀ a b i, ast ≠ .plus a b i) (h2 : ∀ a b i, ast ≠ .mult a b i)
      (hp : ∀ code, Promoted code ast s ↔ promotes s ast = true) : VisitNum s ast r s' := by
    refine ⟨⟨_, leaf_known hn hv h1 h2, fun _ => rfl⟩, fun H l K d => ?_⟩
    have hx : Keeps Lays (visit ast) := visit_keeps lays_rules ⟨[], false⟩ ast (AST.all_true _ ast)
    exact (d.visit hx hv).mono fun code _ => hp code
  cases ast with
  | plus term1 term2 inverted =>
    obtain ⟨a, b, ha, hb, ht⟩ := numType_op hn
    obtain ⟨h1, h2⟩ := operands_num hst (fun s s' r H l h => visit_num term1 h)
      (fun s s' r H l h => visit_num term2 h) ha hb
    have hone := opRun_num ha hb ht h1 h2 hv (plus_run hv) hst (promotes_op ha hb)
    rw [← hn] at hone
    exact hone
  | mult term1 term2 inverted =>
    obtain ⟨a, b, ha, hb, ht⟩ := numType_op hn
    obtain ⟨h1, h2⟩ := operands_num hst (fun s s' r H l h => visit_num term1 h)
      (fun s s' r H l h => visit_num term2 h) ha hb
    have hone := opRun_num ha hb ht h1 h2 hv (mult_run h1 h2 hv) hst (promotes_op ha hb)
    rw [← hn] at hone
    exact hone
  | _ =>
    refine hleaf (fun _ _ _ h => by cases h) (fun _ _ _ h => by cases h) fun code => ?_
    unfold Promoted promotes
    exact ⟨fun _ => rfl, fun _ => trivial⟩

end

/-! ## runs -/

/-- the type of a number -/
def Data.num : TData → Option NumTy
  | .int _ => some .int
  | .real _ => some .real
  | .cplx _ => some .cplx
  | .quat _ => some .quat
  | _ => .none

/-- the tag of a number in memory -/
def NumTy.tag : NumTy → VMType
  | .int => .int
  | .real => .real
  | .cplx => .cplx
  | .quat => .quat

section
variable {x y : TData} {a b t : NumTy}

theorem num_wf (h : x.num = some t) : x.wf .unknown = true := by
  cases x <;> first | rfl | cases h

theorem num_size (h : x.num = some t) : x.size ≤ 33 := by
  cases x with
  | int i => exact (by decide : 9 ≤ 33)
  | real i => exact (by decide : 9 ≤ 33)
  | cplx i => exact (by decide : 17 ≤ 33)
  | quat i => exact (by decide : 33 ≤ 33)
  | _ => cases h

variable [MathLib TReal]

/-- a cast to the wider type -/
theorem castData_num (eps : TReal) (prec : Int64) (ht : wider a b = some t ∨ wider b a = some t)
    (hx : x.num = some a) :
    castData eps prec t.tag x = .ok none ∧ x.num = some t ∨
      ∃ y, castData eps prec t.tag x = .ok (some y) ∧ y.num = some t := by
  cases x <;> cases hx <;> cases b <;> rcases ht with ht | ht <;> cases ht <;>
    first | exact Or.inl ⟨rfl, rfl⟩ | exact Or.inr ⟨_, rfl, rfl⟩

/-- the arithmetic instructions of expressions -/
def ArithOp.code : ArithOp → OpCode
  | .add => .add
  | .sub => .sub
  | .mul => .mul
  | .div => .div
  | .mod => .mod
  | .pow => .pow

theorem execOp_arith (op : ArithOp) :
    execOp (some op.code) = andGoOn (opBinary (arithmetic op)) := by
  cases op <;> rfl

omit [MathLib TReal] in
theorem intArith_num (op : ArithOp) (i j : Int64) :
    (∃ k, intArith op i j = .ok k) ∨ intArith op i j = .error divError := by
  cases op <;> simp only [intArith] <;> first | exact Or.inl ⟨_, rfl⟩ | skip
  all_goals
    split
    · exact Or.inr rfl
    · exact Or.inl ⟨_, rfl⟩

/-- **Operands of one type** have a result of this type, or there is none. -/
theorem arithmetic_num (op : ArithOp) (hx : x.num = some t) (hy : y.num = some t) :
    (∃ d, arithmetic op x y = .ok d ∧ d.num = some t) ∨ arithmetic op x y = .error divError := by
  cases x <;> cases hx <;> cases y <;> cases hy
  · rename_i i j
    exact Or.inl ⟨.real (realArith op i j), by cases op <;> rfl, rfl⟩
  · rename_i i j
    have e : arithmetic op (.int i : TData) (.int j) = (intArith op i j).map .int := by
      cases op <;> rfl
    rw [e]
    rcases intArith_num op i j with ⟨k, hk⟩ | hk
    · rw [hk]
      exact Or.inl ⟨.int k, rfl, rfl⟩
    · rw [hk]
      exact Or.inr rfl
  · rename_i i j
    exact Or.inl ⟨.cplx (cplxArith op i j), by cases op <;> rfl, rfl⟩
  · rename_i i j
    exact Or.inl ⟨.quat (quatArith op i j), by cases op <;> rfl, rfl⟩

end

section
variable [MathLib TReal] {s : VM} {base : Int} {E : VM → Prop} {code : List UInt8}
  {b m m1 m2 q need need1 need2 : Nat} {ds : List Item} {x : TData} {ty : VMType}
  {a c t v : NumTy}

/-- from everywhere at `b` with `E` the machine comes to `m` with one more number of the type `v` on
the stack, or stops with an integer division, where it needs `need` bytes -/
def YieldsNum (base : Int) (E : VM → Prop) (code : List UInt8) (b m : Nat) (v : NumTy)
    (need : Nat) : Prop :=
  ∀ s ds, (code.length : Int) + need + sizes ds ≤ base → s.Here code base b ds → E s →
    (∃ u x ty, s.Turns u ∧ u.Here code base m ((x, ty) :: ds) ∧ E u ∧ x.num = some v) ∨
      ∃ u w, s.Turns u ∧ step.run u = .error divError w

omit [MathLib TReal] in
theorem sizes_num (hx : x.num = some v) (ty : VMType) (ds : List Item) :
    sizes ((x, ty) :: ds) ≤ 33 + sizes ds := by
  rw [sizes_cons]
  exact Nat.add_le_add_right (num_size hx) _

/-- **A cast** to the wider type. -/
theorem VM.Here.widen (h : s.Here code base m ((x, ty) :: ds)) (hx : x.num = some a)
    (ht : wider a c = some t ∨ wider c a = some t)
    (hm : code[m]? = some t.cast.code ∨ a = t ∧ code[m]? = some OpCode.nop.code)
    (hroom : (code.length : Int) + 33 + sizes ds ≤ base) :
    ∃ u y ty', step.run s = .ok .running u ∧ u.Here code base (m + 1) ((y, ty') :: ds) ∧
      SameAbove base s u ∧ y.num = some t := by
  rcases hm with hm | ⟨rfl, hm⟩
  · have hcast : execOp (some t.cast) = andGoOn (opCast t.tag) := by
      cases t <;> rfl
    have hsize {y : TData} (hy : y.num = some t) :
        (code.length : Int) + y.size + sizes ds ≤ base := by
      have := num_size hy
      omega
    rcases castData_num s.eps s.prec ht hx with ⟨hc, hy⟩ | ⟨y, hc, hy⟩
    · obtain ⟨u, hu, hh, hsame⟩ :=
        h.cast t.cast hm hcast (Or.inl ⟨hc, rfl, rfl⟩) (num_wf hy) (hsize hy)
      exact ⟨u, x, ty, hu, hh, hsame, hy⟩
    · obtain ⟨u, hu, hh, hsame⟩ :=
        h.cast t.cast hm hcast (Or.inr ⟨hc, rfl⟩) (num_wf hy) (hsize hy)
      exact ⟨u, y, .unknown, hu, hh, hsame, hy⟩
  · have h1 := h.withIp (m + 1)
    exact ⟨_, x, ty, h.turn hm rfl h1 (lt_length hm), h1, (SameAbove.refl base s).withIp _, hx⟩

/-- **The run of an operation** whose operands have the casts. -/
theorem yields_op (hE : Stable base E) (op : ArithOp) (h1 : YieldsNum base E code b m1 a need1)
    (h2 : YieldsNum base E code (m1 + 1) m2 c need2) (ht : wider a c = some t)
    (hc : Converted code (some a) (some c) m1 m2 q) (hop : code[q]? = some op.code.code) :
    YieldsNum base E code b (q + 1) t (need1 + need2 + 66) := by
  intro s ds hroom h hs
  push_cast at hroom
  obtain ⟨a', c', t', ha, hc', ht', hm1, hm2⟩ := hc
  cases ha
  cases hc'
  rw [ht] at ht'
  cases ht'
  -- the first operand and its cast
  rcases h1 s ds (by omega) h hs with ⟨s1, x, ty1, r1, hh1, e1, hx⟩ | hstop
  swap
  · exact Or.inr hstop
  obtain ⟨s2, x', ty1', r2, hh2, same2, hx'⟩ := hh1.widen hx (Or.inl ht) hm1 (by omega)
  have e2 : E s2 := hE _ _ same2 e1
  have hsz := sizes_num hx' ty1' ds
  -- the second operand and its cast
  rcases h2 s2 _ (by omega) hh2 e2 with ⟨s3, y, ty2, r3, hh3, e3, hy⟩ | ⟨u, w, r3, hstop⟩
  swap
  · exact Or.inr ⟨u, w, (r1.trans (VM.Turns.single r2)).trans r3, hstop⟩
  have r13 : s.Turns s3 := (r1.trans (VM.Turns.single r2)).trans r3
  obtain ⟨s4, y', ty2', r4, hh4, e4, hy'⟩ : ∃ s4 y' ty2', s3.Turns s4 ∧
      s4.Here code base q ((y', ty2') :: (x', ty1') :: ds) ∧ E s4 ∧ y'.num = some t := by
    rcases hm2 with ⟨rfl, hm2⟩ | ⟨rfl, rfl⟩
    · obtain ⟨s4, y', ty2', r4, hh4, same4, hy'⟩ :=
        hh3.widen hy (Or.inr ht) (Or.inl hm2) (by omega)
      exact ⟨s4, y', ty2', VM.Turns.single r4, hh4, hE _ _ same4 e3, hy'⟩
    · exact ⟨s3, y, ty2, Relation.ReflTransGen.refl, hh3, e3, hy⟩
  -- the operation
  rcases arithmetic_num op hx' hy' with ⟨d, hd, hnum⟩ | herr
  · have hsize := num_size hnum
    obtain ⟨s5, r5, hh5, same5⟩ :=
      hh4.binary op.code hop (execOp_arith op) hd (num_wf hnum) (by omega)
    exact Or.inl ⟨s5, d, .unknown, (r13.trans r4).trans (VM.Turns.single r5), hh5,
      hE _ _ same5 e4, hnum⟩
  · have hh4' : s4.Here code base q ([(y', ty2'), (x', ty1')] ++ ds) := hh4
    have hrun := opBinary_error (hh4'.withIp (q + 1)).holds.left herr
    have hgo := congrArg (fun z => z.run { s4 with ip := Int32.ofNat (q + 1) }) (execOp_arith op)
    rw [andGoOn] at hgo
    exact Or.inr ⟨s4, _, r13.trans r4, hh4.stop hop (hgo.trans (bind_error hrun))⟩

end

/-! ## promotion -/

/-- the operands of an expression that are no operations yield numbers of their types -/
def OperandsYield [MathLib TReal] (base : Int) (E : VM → Prop) (code : List UInt8) (need : Nat) :
    AST → Codegen → Prop
  | .plus term1 term2 _, s | .mult term1 term2 _, s =>
    OperandsYield base E code need term1 s ∧ ∀ r1 s1, (visit term1).run s = .ok r1 s1 →
      OperandsYield base E code need term2 (s1.put .nop)
  | ast, s => ∀ v r s', numType s ast = some v → (visit ast).run s = .ok r s' →
    YieldsNum base E code s.ostr.pos s'.ostr.pos v need

/-- the bytes that an expression needs -/
def numNeed (need : Nat) : AST → Nat
  | .plus term1 term2 _ | .mult term1 term2 _ => numNeed need term1 + numNeed need term2 + 66
  | _ => need

section
variable [MathLib TReal] {s s' : Codegen} {H : Holes} {l : List Event} {r : Option Symbol}
  {base : Int} {E : VM → Prop} {code : List UInt8} {need need1 need2 : Nat}

/-- the run of an operation, from the runs of its operands -/
theorem opPromoted_yields (hE : Stable base E) (op : ArithOp) {whole x1 x2 : Visit}
    {v1 v2 : Option NumTy} {a b v : NumTy} {P1 P2 : Codegen → Prop} (ha : v1 = some a)
    (hb : v2 = some b) (ht : wider a b = some v) (hw : whole.run s = .ok r s')
    (hop : OpRun op.code x1 x2 s r s')
    (hp : OpPromoted code op.code whole x1 x2 v1 v2 s P1 P2)
    (h1 : ∀ r1 s1, x1.run s = .ok r1 s1 → P1 s →
      YieldsNum base E code s.ostr.pos s1.ostr.pos a need1)
    (h2 : ∀ r1 s1 r2 s2, x1.run s = .ok r1 s1 → x2.run (s1.put .nop) = .ok r2 s2 →
      P2 (s1.put .nop) → YieldsNum base E code (s1.ostr.pos + 1) s2.ostr.pos b need2) :
    YieldsNum base E code s.ostr.pos s'.ostr.pos v (need1 + need2 + 66) := by
  obtain ⟨r1, s1, r2, s2, r', s'', e1, e2, ew, p1, p2, hq, hc⟩ := hp
  rw [hw] at ew
  cases ew
  have hpos : ∃ q, s'.ostr.pos = q + 1 := by
    obtain ⟨-, -, -, -, -, s4, -, -, -, -, rfl, -⟩ := hop
    exact ⟨s4.ostr.pos, rfl⟩
  obtain ⟨q, hpos⟩ := hpos
  rw [hpos, Nat.add_sub_cancel] at hq hc
  rw [ha, hb] at hc
  rw [hpos]
  exact yields_op hE op (h1 r1 s1 e1 p1) (h2 r1 s1 r2 s2 e1 e2 p2) ht hc hq

omit [MathLib TReal] in
theorem plusOp_code (inverted : Bool) : ∃ op : ArithOp, plusOp inverted = op.code := by
  cases inverted
  · exact ⟨.add, rfl⟩
  · exact ⟨.sub, rfl⟩

omit [MathLib TReal] in
theorem multOp_code (inverted : Bool) : ∃ op : ArithOp, multOp inverted = op.code := by
  cases inverted
  · exact ⟨.mul, rfl⟩
  · exact ⟨.div, rfl⟩

/-- **The run of an expression** whose operands have the casts. -/
theorem promoted_yields (hE : Stable base E) (ast : AST) : ∀ {s s' : Codegen} {r : Option Symbol}
    {v : NumTy} {H : Holes} {l : List Event}, Stage s H l → numType s ast = some v →
    (visit ast).run s = .ok r s' → Promoted code ast s → OperandsYield base E code need ast s →
    YieldsNum base E code s.ostr.pos s'.ostr.pos v (numNeed need ast) := by
  intro s s' r v H l hst hn hv hp hy
  -- the second operand, in the state in which it is visited
  have hsecond {term1 term2 : AST} {b : NumTy} (hb : numType s term2 = some b)
      (ih : ∀ s s' r H l, Stage s H l → numType s term2 = some b → (visit term2).run s = .ok r s' →
        Promoted code term2 s → OperandsYield base E code need term2 s →
        YieldsNum base E code s.ostr.pos s'.ostr.pos b (numNeed need term2))
      (hy2 : ∀ r1 s1, (visit term1).run s = .ok r1 s1 →
        OperandsYield base E code need term2 (s1.put .nop)) :
      ∀ r1 s1 r2 s2, (visit term1).run s = .ok r1 s1 → (visit term2).run (s1.put .nop) = .ok r2 s2 →
        Promoted code term2 (s1.put .nop) →
        YieldsNum base E code (s1.ostr.pos + 1) s2.ostr.pos b (numNeed need term2) := by
    intro r1 s1 r2 s2 e1 e2 p2
    obtain ⟨⟨H2, l2, hst2⟩, hd, hc⟩ := second_stage hst e1
    have hb' : numType (s1.put .nop) term2 = some b := by
      rw [numType_congr hd hc, hb]
    exact ih _ s2 r2 H2 l2 hst2 hb' e2 p2 (hy2 r1 s1 e1)
  cases ast with
  | plus term1 term2 inverted =>
    obtain ⟨a, b, ha, hb, ht⟩ := numType_op hn
    obtain ⟨op, hcode⟩ := plusOp_code inverted
    rw [Promoted, hcode] at hp
    rw [OperandsYield] at hy
    have hrun := plus_run hv
    rw [hcode] at hrun
    exact opPromoted_yields hE op ha hb ht hv hrun hp
      (fun r1 s1 e1 p1 => promoted_yields hE term1 hst ha e1 p1 hy.1)
      (hsecond hb (fun s s' r H l => promoted_yields hE term2) hy.2)
  | mult term1 term2 inverted =>
    obtain ⟨a, b, ha, hb, ht⟩ := numType_op hn
    obtain ⟨op, hcode⟩ := multOp_code inverted
    obtain ⟨h1, h2⟩ := operands_num hst (fun s s' r H l h => visit_num term1 h)
      (fun s s' r H l h => visit_num term2 h) ha hb
    rw [Promoted, hcode] at hp
    rw [OperandsYield] at hy
    have hrun := mult_run h1 h2 hv
    rw [hcode] at hrun
    exact opPromoted_yields hE op ha hb ht hv hrun hp
      (fun r1 s1 e1 p1 => promoted_yields hE term1 hst ha e1 p1 hy.1)
      (hsecond hb (fun s s' r H l => promoted_yields hE term2) hy.2)
  | _ =>
    unfold OperandsYield at hy
    exact hy v r s' hn hv

end

/-- operands are promoted to the wider type: the code has the casts, and a run with operands of the
types yields a value of the type of the expression -/
structure Promotes [MathLib TReal] (code : List UInt8) (ast : AST) (v : NumTy) (s s' : Codegen) :
    Prop where
  casts : Promoted code ast s
  runs : ∀ (base : Int) (E : VM → Prop) (need : Nat), Stable base E →
    OperandsYield base E code need ast s →
    YieldsNum base E code s.ostr.pos s'.ostr.pos v (numNeed need ast)

/-- the code of an expression has the casts if and only if the condition holds -/
theorem promoted_code {syms : SymTab} {s s' : Codegen} {H : Holes} {l : List Event}
    (he : Emits (Codegen.init syms) [] l s H) (hs : s.AtEnd) (ho : Open s H) {ast : AST} {v : NumTy}
    {ret : Option Symbol} (hn : numType s ast = some v) (hv : (visit ast).run s = .ok ret s')
    {x : CGM Unit} {n : Nat} {f : Codegen} (hx : Keeps Lays x)
    (hf : (do x; finish).run s' = .ok n f) :
    Stage s H l ∧ (Promoted f.ostr.buf ast s ↔ promotes s ast = true) := by
  have hst : Stage s H l := ⟨emits_sited he [] (sited_init syms), hs, ho⟩
  exact ⟨hst, (((visit_num ast hst hn hv).2 H l [] hst.draft).finish hx hf).1⟩

/-- **Numeric promotion.**  At every point of the code generation, and however it goes on, the
operands of all operations of an expression are cast to the wider type if and only if the code
generator knows their types. -/
theorem promotion_iff [MathLib TReal] {syms : SymTab} {s s' : Codegen} {H : Holes} {l : List Event}
    (he : Emits (Codegen.init syms) [] l s H) (hs : s.AtEnd) (ho : Open s H) {ast : AST} {v : NumTy}
    {ret : Option Symbol} (hn : numType s ast = some v) (hv : (visit ast).run s = .ok ret s')
    (x : CGM Unit) (n : Nat) (f : Codegen) (hx : Keeps Lays x)
    (hf : (do x; finish).run s' = .ok n f) :
    Promotes f.ostr.buf ast v s s' ↔ promotes s ast = true := by
  obtain ⟨hst, hiff⟩ := promoted_code he hs ho hn hv hx hf
  refine ⟨fun h => hiff.1 h.casts, fun h => ?_⟩
  have hp := hiff.2 h
  exact ⟨hp, fun base E need hE hy => promoted_yields hE ast hst hn hv hp hy⟩

/-! ### constants -/

/-- the code of a sum has the instruction `op` at `q`, after `Finish` -/
def sumCode (term1 term2 : AST) (s : Codegen) (q : Nat) (op : OpCode) : Bool :=
  endsIn (visit (.plus term1 term2 false)) s fun s' => endsIn finish s' fun f =>
    decide (f.ostr.buf[q]? = some op.code)

theorem sumCode_ok {term1 term2 : AST} {s : Codegen} {q : Nat} {op : OpCode}
    (h : sumCode term1 term2 s q op = true) :
    ∃ ret s' n f, (visit (.plus term1 term2 false)).run s = .ok ret s' ∧
      finish.run s' = .ok n f ∧ f.ostr.buf[q]? = some op.code := by
  obtain ⟨ret, s', hv, hc⟩ := endsIn_ok h
  obtain ⟨n, f, hf, hq⟩ := endsIn_ok hc
  exact ⟨ret, s', n, f, hv, hf, of_decide_eq_true hq⟩

theorem emits_none (s : Codegen) (H : Holes) : Emits s H [] s H :=
  .refl _ _

/-- a quaternion -/
def quatOne : Quat TReal := ⟨⟨1⟩, ⟨0⟩, ⟨0⟩, ⟨0⟩⟩

/-- of an integer and a quaternion, the quaternion is cast to the integer -/
theorem promotion_quat : ∃ ret s' n f,
    (visit (.plus (.intConst 1) (.quatConst quatOne) false)).run (Codegen.init []) = .ok ret s' ∧
    finish.run s' = .ok n f ∧ f.ostr.buf[45]? = some OpCode.toi.code ∧
    ¬ @Promotes (MathLib.absent ⟨0⟩) f.ostr.buf (.plus (.intConst 1) (.quatConst quatOne) false)
      .quat (Codegen.init []) s' := by
  obtain ⟨ret, s', n, f, hv, hf, hq⟩ :=
    sumCode_ok (show sumCode (.intConst 1) (.quatConst quatOne) (Codegen.init []) 45 .toi = true by
      decide +kernel)
  have h := (promoted_code (emits_none _ []) rfl (open_init _) rfl hv (Keeps.pure ()) hf).2
  refine ⟨ret, s', n, f, hv, hf, hq, fun hp => ?_⟩
  have hcasts := @Promotes.casts (MathLib.absent ⟨0⟩) _ _ _ _ _ hp
  exact absurd (h.1 hcasts) (by decide)

/-- a constant yields its number -/
theorem yields_const [MathLib TReal] {base : Int} {code : List UInt8} {b : Nat} {d : TData}
    {v : NumTy} (hc : Sits code b (OpCode.push.code :: d.bytes .unknown))
    (hd : d.isOperand = true) (hv : d.num = some v) :
    YieldsNum base (fun _ => True) code b (b + (1 + d.size)) v d.size := by
  intro s ds hroom h _
  obtain ⟨t, ht, hh, -⟩ := h.push hc hd (num_wf hv) (by omega)
  exact Or.inl ⟨t, d, .unknown, VM.Turns.single ht, hh, trivial, hv⟩

/-- the constants 1 and 0 as operands of a sum -/
def constPositions : Bool :=
  endsIn (visit (.intConst 1)) (Codegen.init []) fun s1 => decide (s1.ostr.pos = 10) &&
    endsIn (visit (.realConst ⟨0⟩)) (s1.put .nop) fun s2 =>
      decide ((s1.put .nop).ostr.pos = 11) && decide (s2.ostr.pos = 21)

/-- the constants are in the code -/
def constsSit (s' : Codegen) : Bool :=
  endsIn finish s' fun f => decide (Sits f.ostr.buf 0 (intCode 1)) &&
    decide (Sits f.ostr.buf 11 (OpCode.push.code :: (Data.real ⟨0⟩ : TData).bytes .unknown))

/-- an integer and a real: the sum yields a real -/
theorem promotion_real : ∃ ret s' n f,
    (visit (.plus (.intConst 1) (.realConst ⟨0⟩) false)).run (Codegen.init []) = .ok ret s' ∧
    finish.run s' = .ok n f ∧
    @Promotes (MathLib.absent ⟨0⟩) f.ostr.buf (.plus (.intConst 1) (.realConst ⟨0⟩) false)
      .real (Codegen.init []) s' ∧
    ∀ base, @YieldsNum (MathLib.absent ⟨0⟩) base (fun _ => True) f.ostr.buf 0 s'.ostr.pos .real
      84 := by
  obtain ⟨ret, s', hv, hc⟩ := endsIn_ok (show endsIn
    (visit (.plus (.intConst 1) (.realConst ⟨0⟩) false)) (Codegen.init []) constsSit = true by
      decide +kernel)
  obtain ⟨n, f, hf, hc⟩ := endsIn_ok hc
  obtain ⟨c1, c2⟩ := Bool.and_eq_true_iff.1 hc
  have h := (@promotion_iff (MathLib.absent ⟨0⟩) [] (Codegen.init []) s' [] [] (emits_none _ []) rfl
    (open_init _) (.plus (.intConst 1) (.realConst ⟨0⟩) false) .real ret rfl hv (pure ()) n f
    (Keeps.pure ()) hf).2 (by decide)
  refine ⟨ret, s', n, f, hv, hf, h, fun base => ?_⟩
  -- the operands are constants
  obtain ⟨_, s1, e1, hp⟩ := endsIn_ok (show constPositions = true by decide +kernel)
  obtain ⟨p1, hp⟩ := Bool.and_eq_true_iff.1 hp
  obtain ⟨_, s2, e2, hp⟩ := endsIn_ok hp
  obtain ⟨p2, p3⟩ := Bool.and_eq_true_iff.1 hp
  refine @Promotes.runs (MathLib.absent ⟨0⟩) _ _ _ _ _ h base _ 9 (fun _ _ _ _ => trivial) ?_
  unfold OperandsYield
  refine ⟨?_, fun r1 t1 ht1 => ?_⟩
  · unfold OperandsYield
    intro v r t hn ht
    rw [e1] at ht
    cases ht
    cases hn
    rw [of_decide_eq_true p1]
    exact @yields_const (MathLib.absent ⟨0⟩) base _ 0 _ _ (of_decide_eq_true c1) rfl rfl
  · rw [e1] at ht1
    cases ht1
    unfold OperandsYield
    intro v r t hn ht
    rw [e2] at ht
    cases ht
    cases hn
    rw [of_decide_eq_true p2, of_decide_eq_true p3]
    exact @yields_const (MathLib.absent ⟨0⟩) base _ 11 _ _ (of_decide_eq_true c2) rfl rfl

end MuF
