import MuF.Codegen.Cases
import MuF.Codegen.Induct

/-!
# The casts of operands

* `NumTy`, `wider`: numeric types and the wider of two;
* `Known`: what the code generator knows of the type of an operand;
* `casts_known`: which casts it finds from this;
* `castOperands_code`: the code of two operands with their casts.
-/

set_option linter.unusedVariables false

namespace MuF

open Bytes Exec Layout

/-! ## numeric types -/

/-- numeric types -/
inductive NumTy
  | int | real | cplx | quat
  deriving DecidableEq, Repr

/-- their number in the order of widths -/
def NumTy.rank : NumTy → Nat
  | .int => 0
  | .real => 1
  | .cplx | .quat => 2

/-- the wider of two types; complex numbers and quaternions have none -/
def wider : NumTy → NumTy → Option NumTy
  | .cplx, .quat | .quat, .cplx => none
  | a, b => if a.rank ≤ b.rank then some b else some a

def NumTy.sym : NumTy → SymbolType
  | .int => .int
  | .real => .real
  | .cplx => .cplx
  | .quat => .quat

/-- the instruction that casts to it -/
def NumTy.cast : NumTy → OpCode
  | .int => .toi
  | .real => .tor
  | .cplx => .toc
  | .quat => .toq

def SymbolType.num : SymbolType → Option NumTy
  | .int => some .int
  | .real => some .real
  | .cplx => some .cplx
  | .quat => some .quat
  | _ => none

/-- the type of the elements of an array -/
def SymbolType.elemNum : SymbolType → Option NumTy
  | .intArray => some .int
  | .realArray => some .real
  | .cplxArray => some .cplx
  | .quatArray => some .quat
  | _ => none

/-- the type of the one result of a function -/
def Symbol.result (func : Symbol) : Option NumTy :=
  match func.retty, func.elems with
  | .comp, [ty] => ty.num
  | ty, _ => ty.num

theorem SymbolType.num_sym {ty : SymbolType} {t : NumTy} (h : ty.num = some t) : ty = t.sym := by
  cases ty <;> cases h <;> rfl

/-! ## what is known of an operand -/

/-- what the symbol of an operand tells of its type: the type, that it is a call, with the type of
the result if the function has it as its type, or nothing -/
inductive Known
  | type (t : NumTy)
  | call (retty : Option NumTy)
  | nothing
  deriving DecidableEq, Repr

/-- what is known if a call is taken for its result -/
def Known.ofRet : Option NumTy → Known
  | some t => .type t
  | none => .nothing

/-- the symbol of an operand tells this -/
def Known.Of (sym : Option Symbol) : Known → Prop
  | .type t => ∃ x, sym = some x ∧ x.ty = t.sym
  | .call (some t) => ∃ x, sym = some x ∧ x.ty = .func ∧ x.retty = t.sym
  | .call none => ∃ x, sym = some x ∧ x.ty = .func ∧ getTypeConst x.retty = none
  | .nothing => sym = none

/-- the casts of the two operands, and what is known of the result -/
def castsOf : Known → Known → Option NumTy × Option NumTy × Known
  | .nothing, _ | _, .nothing => (none, none, .nothing)
  | .type a, .type b =>
    if a = b then (none, none, .type a)
    else match a, b with
      | .int, .real | .int, .cplx | .real, .cplx => (some b, none, .type b)
      | _, _ => (none, some a, .type a)
  | .type a, .call _ => (none, some a, .type a)
  | .call r, .type _ => (none, r, .ofRet r)
  | .call r, .call _ => (none, none, .ofRet r)

/-- a symbol with a type to cast to, or none -/
def CastSym (sym : Option Symbol) (t : Option NumTy) : Prop :=
  sym.map Symbol.ty = t.map NumTy.sym

theorem getTypeConst_sym (t : NumTy) : ∃ x, getTypeConst t.sym = some x ∧ x.ty = t.sym := by
  cases t <;> exact ⟨_, rfl, rfl⟩

/-- what is known of two symbols, neither of which is missing -/
theorem casts_types {x y : Symbol} {t1 t2 : NumTy} (h1 : x.ty = t1.sym) (h2 : y.ty = t2.sym) :
    CastSym (getCastSymType (some x) (some y)).1 (castsOf (.type t1) (.type t2)).1 ∧
      CastSym (getCastSymType (some x) (some y)).2.1 (castsOf (.type t1) (.type t2)).2.1 ∧
      (castsOf (.type t1) (.type t2)).2.2.Of (getCastSymType (some x) (some y)).2.2 := by
  cases t1 <;> cases t2 <;> simp [getCastSymType, castsOf, CastSym, Known.Of, NumTy.sym] at h1 h2 ⊢ <;>
    simp [h1, h2]

/-- the type of the result of a call -/
theorem casts_ret {x : Symbol} {r : Option NumTy} (h : (Known.call r).Of (some x)) :
    x.ty = .func ∧ CastSym (getTypeConst x.retty) r ∧ (Known.ofRet r).Of (getTypeConst x.retty) := by
  cases r with
  | none =>
    obtain ⟨y, hy, h1, h2⟩ := h
    cases hy
    rw [h2]
    exact ⟨h1, rfl, rfl⟩
  | some t =>
    obtain ⟨y, hy, h1, h2⟩ := h
    cases hy
    obtain ⟨z, hz, hz'⟩ := getTypeConst_sym t
    rw [h2, hz]
    exact ⟨h1, congrArg some hz', z, rfl, hz'⟩

/-- **The casts** depend on what is known of the operands only. -/
theorem casts_known {sym1 sym2 : Option Symbol} {k1 k2 : Known} (h1 : k1.Of sym1)
    (h2 : k2.Of sym2) :
    CastSym (getCastSymType sym1 sym2).1 (castsOf k1 k2).1 ∧
      CastSym (getCastSymType sym1 sym2).2.1 (castsOf k1 k2).2.1 ∧
      (castsOf k1 k2).2.2.Of (getCastSymType sym1 sym2).2.2 := by
  cases k1 with
  | nothing =>
    obtain rfl : sym1 = none := h1
    exact ⟨rfl, rfl, rfl⟩
  | type t1 =>
    obtain ⟨x, rfl, hx⟩ := h1
    cases k2 with
    | nothing =>
      obtain rfl : sym2 = none := h2
      exact ⟨rfl, rfl, rfl⟩
    | type t2 =>
      obtain ⟨y, rfl, hy⟩ := h2
      exact casts_types hx hy
    | call r2 =>
      have hy' : ∃ y, sym2 = some y ∧ y.ty = .func := by
        cases r2 with
        | none => exact h2.imp fun y hy => ⟨hy.1, hy.2.1⟩
        | some t => exact h2.imp fun y hy => ⟨hy.1, hy.2.1⟩
      obtain ⟨y, rfl, hy⟩ := hy'
      have hcast : getCastSymType (some x) (some y) = (none, some x, some x) := by
        cases t1 <;> simp [getCastSymType, hx, hy, NumTy.sym]
      rw [hcast]
      exact ⟨rfl, congrArg some hx, x, rfl, hx⟩
  | call r1 =>
    have hx' : ∃ x, sym1 = some x := by
      cases r1 with
      | none => exact h1.imp fun x hx => hx.1
      | some t => exact h1.imp fun x hx => hx.1
    obtain ⟨x, rfl⟩ := hx'
    obtain ⟨hx, hc, hk⟩ := casts_ret h1
    cases k2 with
    | nothing =>
      obtain rfl : sym2 = none := h2
      exact ⟨rfl, rfl, rfl⟩
    | type t2 =>
      obtain ⟨y, rfl, hy⟩ := h2
      have hcast : getCastSymType (some x) (some y) =
          (none, getTypeConst x.retty, getTypeConst x.retty) := by
        cases t2 <;> simp [getCastSymType, hx, hy, NumTy.sym]
      rw [hcast]
      exact ⟨rfl, hc, hk⟩
    | call r2 =>
      have hy' : ∃ y, sym2 = some y ∧ y.ty = .func := by
        cases r2 with
        | none => exact h2.imp fun y hy => ⟨hy.1, hy.2.1⟩
        | some t => exact h2.imp fun y hy => ⟨hy.1, hy.2.1⟩
      obtain ⟨y, rfl, hy⟩ := hy'
      have hcast : getCastSymType (some x) (some y) = (none, none, getTypeConst x.retty) := by
        simp [getCastSymType, hx, hy]
      rw [hcast]
      exact ⟨rfl, rfl, hk⟩

/-! ## the code of two operands -/

/-- an instruction is emitted -/
def Codegen.put (s : Codegen) (op : OpCode) : Codegen :=
  { s with ostr := s.ostr.write [op.code] }

/-- a cast, or the placeholder -/
def castCode : Option NumTy → UInt8
  | some t => t.cast.code
  | none => OpCode.nop.code

section
variable {s s1 s2 s' : Codegen} {H K : Holes} {l : List Event} {P1 P2 : List UInt8 → Prop}
  {x1 x2 : Visit} {r1 r2 ty : Option Symbol} {t t1 t2 : Option NumTy}

/-- the parts of `castOperands` -/
theorem castOperands_ok {r : Option Symbol × Option Symbol × Option Symbol}
    (h : (castOperands x1 x2).run s = .ok r s') :
    ∃ r1 s1 r2 s2 s3, x1.run s = .ok r1 s1 ∧ x2.run (s1.put .nop) = .ok r2 s2 ∧
      (castTo (getCastSymType r1 r2).1 (some s1.ostr.pos)).run s2 = .ok () s3 ∧
      (castTo (getCastSymType r1 r2).2.1 (some s2.ostr.pos)).run s3 = .ok () s' ∧
      r = (r1, r2, (getCastSymType r1 r2).2.2) := by
  obtain ⟨r1, s1, h1, h⟩ := bind_eq_ok.1 h
  obtain ⟨pos1, s1', hp, h⟩ := bind_eq_ok.1 h
  cases hp
  obtain ⟨_, s1'', hp, h⟩ := bind_eq_ok.1 h
  rw [run_putOp] at hp
  cases hp
  obtain ⟨r2, s2, h2, h⟩ := bind_eq_ok.1 h
  obtain ⟨pos2, s2', hp, h⟩ := bind_eq_ok.1 h
  cases hp
  obtain ⟨_, s3, h3, h⟩ := bind_eq_ok.1 h
  obtain ⟨_, s4, h4, h⟩ := bind_eq_ok.1 h
  cases h
  exact ⟨r1, s1, r2, s2, s3, h1, h2, h3, h4, rfl⟩

theorem castSym_none {sym : Option Symbol} (h : CastSym sym none) : sym = none :=
  Option.map_eq_none_iff.1 h

theorem castSym_some {sym : Option Symbol} {t : NumTy} (h : CastSym sym (some t)) :
    ∃ x, sym = some x ∧ x.ty = t.sym :=
  Option.map_eq_some_iff.1 h

theorem castOp_sym {x : Symbol} {t : NumTy} (h : x.ty = t.sym) : (castOp x.ty false).1 = t.cast := by
  rw [h]
  cases t <;> rfl

/-- **The cast of the first operand** is put over the placeholder. -/
theorem Draft.castAt (h : Draft s1 H l K) {u : Unit} (hc : CastSym ty t)
    (ha : ∀ H l K, Draft (s1.put .nop) H l K → Adds (s1.put .nop) H l K s2 K P2)
    (hr : (castTo ty (some s1.ostr.pos)).run s2 = .ok u s') :
    s'.ostr.pos = s2.ostr.pos ∧ Adds s1 H l K s' K fun code =>
      P2 code ∧ Sits code s1.ostr.pos [castCode t] := by
  cases t with
  | none =>
    rw [castSym_none hc] at hr
    cases hr
    refine ⟨rfl, ((h.write [OpCode.nop.code]).bind fun H' l' d => ha H' l' K d).mono ?_⟩
    exact fun code hcode => ⟨hcode.2, hcode.1⟩
  | some t =>
    obtain ⟨x, rfl, hx⟩ := castSym_some hc
    have a2 := (h.hole [OpCode.nop.code]).bind fun H' l' d => ha H' l' _ d
    obtain ⟨H2, l2, d2, -⟩ := id a2
    rw [run_castTo_at, castOp_sym hx] at hr
    have e := (EStateM.Result.ok.inj hr).2
    have hlen : ((⟨s2.ostr.buf, s1.ostr.pos⟩ : OStr).write [t.cast.code]).buf.length =
        s2.ostr.buf.length := by
      obtain ⟨cs, hl, hf⟩ := d2.own _ List.mem_cons_self
      have hin := hf.inside
      rw [hl] at hin
      exact length_fill s2.ostr.buf hin
    have he : s2.ostr.pos = s2.ostr.buf.length := d2.atEnd
    have ho : s'.ostr =
        ⟨((⟨s2.ostr.buf, s1.ostr.pos⟩ : OStr).write [t.cast.code]).buf, s2.ostr.buf.length⟩ := by
      rw [← e]
      exact congrArg (OStr.mk _) hlen
    have hs : s' = { s2 with ostr := s'.ostr } := by rw [← e]
    have hperm : ((s1.ostr.pos, [OpCode.nop.code].length) :: K).Perm
        ((s1.ostr.pos, [t.cast.code].length) :: K) := List.Perm.refl _
    have a3 := a2.bind fun H' l' d => d.fill hperm ho hs
    exact ⟨(congrArg OStr.pos ho).trans he.symm, a3.mono fun code hcode => ⟨hcode.1.2, hcode.2⟩⟩

/-- **The cast of the second operand** is at the end. -/
theorem Draft.castEnd (h : Draft s H l K) {u : Unit} (hc : CastSym ty t)
    (hr : (castTo ty (some s.ostr.pos)).run s = .ok u s') :
    s'.ostr.pos = s.ostr.pos + (if t.isSome then 1 else 0) ∧ Adds s H l K s' K fun code =>
      ∀ a ∈ t, Sits code s.ostr.pos [a.cast.code] := by
  cases t with
  | none =>
    rw [castSym_none hc] at hr
    cases hr
    exact ⟨rfl, (Adds.refl h).mono fun code _ a ha => by cases ha⟩
  | some t =>
    obtain ⟨x, rfl, hx⟩ := castSym_some hc
    have he : s.ostr.pos = s.ostr.buf.length := h.atEnd
    have hrun : (castTo (some x)).run s = .ok () (s.put t.cast) := by
      rw [Codegen.put, ← castOp_sym hx]
      unfold castTo
      dsimp only
      rw [castOp_false, run_onlyIf_false_bind]
      rfl
    rw [he, castTo_end _ he, hrun] at hr
    cases hr
    refine ⟨pos_write h.toStage _, (h.write [t.cast.code]).mono fun code hcode a ha => ?_⟩
    cases ha
    exact hcode

/-- **The code of two operands** with their casts. -/
theorem castOperands_code {s3 : Codegen} (h : Draft s H l K) {c1 c2 : Option Symbol}
    (hc1 : CastSym c1 t1) (hc2 : CastSym c2 t2)
    (ha1 : ∀ H l K, Draft s H l K → Adds s H l K s1 K P1)
    (ha2 : ∀ H l K, Draft (s1.put .nop) H l K → Adds (s1.put .nop) H l K s2 K P2)
    (h3 : (castTo c1 (some s1.ostr.pos)).run s2 = .ok () s3)
    (h4 : (castTo c2 (some s2.ostr.pos)).run s3 = .ok () s') :
    s'.ostr.pos = s2.ostr.pos + (if t2.isSome then 1 else 0) ∧ Adds s H l K s' K fun code =>
      P1 code ∧ P2 code ∧ Sits code s1.ostr.pos [castCode t1] ∧
        ∀ a ∈ t2, Sits code s2.ostr.pos [a.cast.code] := by
  have a1 := ha1 H l K h
  obtain ⟨H1, l1, d1, -⟩ := id a1
  obtain ⟨p3, -⟩ := d1.castAt hc1 ha2 h3
  have a3 := a1.bind fun H' l' d => (d.castAt hc1 ha2 h3).2
  obtain ⟨H3, l3, d3, -⟩ := id a3
  rw [← p3] at h4
  obtain ⟨p4, -⟩ := d3.castEnd hc2 h4
  have a4 := a3.bind fun H' l' d => (d.castEnd hc2 h4).2
  rw [p3] at p4 a4
  exact ⟨p4, a4.mono fun code hcode => ⟨hcode.1.1, hcode.1.2.1, hcode.1.2.2, hcode.2⟩⟩

end

end MuF
