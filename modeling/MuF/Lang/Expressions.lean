import MuF.Lang.Machine
import MuF.Codegen.Cases
import MuF.Codegen.Promote

/-!
# The code of expressions

* `AST.need`: enough stack for the code of a tree;
* `Makes`: what a visit puts into the code, however code generation goes on;
* `Evals`: a fragment of the code computes the value of an expression;
* **`visit_evals`**: the code of an expression does.
-/

set_option linter.unusedVariables false

namespace MuF

open Bytes Exec

/-! ## the stack -/

mutual

/-- bytes of stack that are enough for the code of a tree -/
def AST.need : AST → Nat
  | .uminus term => term.need
  | .plus term1 term2 _ | .mult term1 term2 _ | .mod term1 term2 | .pow term1 term2
  | .comp term1 term2 _ => term1.need + term2.need + 9
  | .bool term1 term2 _ => term1.need + needOpt term2 + 9
  | .assign _ expr => needOpt expr + 14
  | .stmts stmts => needList stmts
  | .cond cond ifStmt elseStmt => cond.need + ifStmt.need + needOpt elseStmt + 7
  | .cases expr cases defaultStmts =>
    needCases cases + cases.length * (expr.need + 16) + needOpt defaultStmts
  | .loop cond stmt => cond.need + stmt.need + 7
  | .rangedLoop _ begin stop inc stmt =>
    begin.need + stop.need + needOpt inc + stmt.need + 80
  | _ => 9

def needOpt : Option AST → Nat
  | none => 0
  | some ast => ast.need

def needList : List AST → Nat
  | [] => 0
  | ast :: asts => ast.need + needList asts

def needCases : List (AST × AST) → Nat
  | [] => 0
  | (val, stmt) :: cases => val.need + stmt.need + needCases cases

end

/-! ## variables of the code generator -/

def SymbolType.val : SymbolType → Option ValTy
  | .int => some .int
  | .bool => some .bool
  | _ => none

def ValTy.sym : ValTy → SymbolType
  | .int => .int
  | .bool => .bool

theorem SymbolType.val_some {ty : SymbolType} {t : ValTy} (h : ty.val = some t) : ty = t.sym := by
  cases ty <;> cases h <;> rfl

/-- the slot of a variable that is an integer or a truth value -/
def Codegen.slotOf (s : Codegen) (name : Str) : Option VarSlot :=
  (s.resolve name none).bind fun sym => sym.addr.bind fun addr =>
    sym.ty.val.map fun t => ⟨t, sym.isGlobal, addr.toInt32⟩

/-- the code generator has these slots, and the symbols are under their names -/
structure Codegen.HasSlots (s : Codegen) (F : VarSlots) : Prop where
  slot : ∀ x slot, F x = some slot → s.slotOf x = some slot
  keyed : ∀ key sym, s.syms.findSymbol key = some sym → sym.scopedName = key

/-- only the output is different -/
def OnlyWrites (s s' : Codegen) : Prop := s' = { s with ostr := s'.ostr }

section
variable {s s' s'' : Codegen} {H K : Holes} {l : List Event} {P Q : List UInt8 → Prop} {F : VarSlots}

theorem OnlyWrites.trans (h : OnlyWrites s s') (h' : OnlyWrites s' s'') : OnlyWrites s s'' := by
  unfold OnlyWrites at h h' ⊢
  rw [h'.trans (congrArg (fun t : Codegen => { t with ostr := s''.ostr }) h)]

/-- the slots depend on the symbols and the scope -/
theorem Codegen.HasSlots.congr (hF : s.HasSlots F) (h1 : s'.syms = s.syms)
    (h2 : s'.curscope = s.curscope) : s'.HasSlots F := by
  refine ⟨fun x slot hx => ?_, fun key sym hk => hF.keyed key sym (h1 ▸ hk)⟩
  have e : s'.slotOf x = s.slotOf x := by
    unfold Codegen.slotOf Codegen.resolve
    rw [h1, h2]
  rw [e]
  exact hF.slot x slot hx

theorem OnlyWrites.hasSlots (h : OnlyWrites s s') (hF : s.HasSlots F) : s'.HasSlots F := by
  unfold OnlyWrites at h
  exact hF.congr (by rw [h]) (by rw [h])

theorem slotOf_some {x : Str} {slot : VarSlot} (h : s.slotOf x = some slot) :
    ∃ sym addr, s.resolve x none = some sym ∧ sym.addr = some addr ∧ sym.ty = slot.ty.sym ∧
      sym.isGlobal = slot.isGlobal ∧ addr.toInt32 = slot.addr := by
  obtain ⟨sym, h1, h⟩ := Option.bind_eq_some_iff.1 h
  obtain ⟨addr, h2, h⟩ := Option.bind_eq_some_iff.1 h
  obtain ⟨t, h3, rfl⟩ := Option.map_eq_some_iff.1 h
  exact ⟨sym, addr, h1, h2, SymbolType.val_some h3, rfl, rfl⟩

/-! ## what a visit puts into the code -/

/-- without the jumps out of loops that are still open -/
def Codegen.bare (s : Codegen) : Codegen :=
  { s with loopBeginComefroms := [], loopEndComefroms := [] }

/-- code generation is between two visits -/
def Between (s : Codegen) : Prop := ∃ H l, Stage s.bare H l

/-- whatever is open, the code has what was emitted between the two states, if the holes `L` are
filled in later -/
def MakesOpen (s s' : Codegen) (L : Holes) (P : List UInt8 → Prop) : Prop :=
  ∀ H l K, Draft s.bare H l K → Adds s.bare H l K s'.bare (L ++ K) P

/-- the code has what was emitted between the two states -/
abbrev Makes (s s' : Codegen) (P : List UInt8 → Prop) : Prop := MakesOpen s s' [] P

variable {L L' : Holes}

theorem Makes.refl (s : Codegen) : Makes s s fun _ => True := fun _ _ _ d => Adds.refl d

theorem MakesOpen.mono (h : MakesOpen s s' L P) (hq : ∀ code, P code → Q code) : MakesOpen s s' L Q :=
  fun H l K d => (h H l K d).mono hq

theorem MakesOpen.bind (h : MakesOpen s s' L P) (h' : MakesOpen s' s'' L' Q) :
    MakesOpen s s'' (L' ++ L) fun code => P code ∧ Q code := by
  intro H l K d
  rw [List.append_assoc]
  exact (h H l K d).bind fun H' l' d' => h' H' l' _ d'

theorem MakesOpen.perm (h : MakesOpen s s' L P) (hp : L.Perm L') : MakesOpen s s' L' P := by
  intro H l K d
  exact ((h H l K d).bind fun H' l' d' => d'.perm (hp.append_right K)).mono fun code hc => hc.1

theorem Makes.write (s : Codegen) (bs : List UInt8) :
    Makes s { s with ostr := s.ostr.write bs } fun code => Sits code s.ostr.pos bs :=
  fun _ _ _ d => d.write bs

/-- code generation goes on behind what was emitted -/
theorem MakesOpen.between (h : MakesOpen s s' L P) (hs : Between s) : Between s' := by
  obtain ⟨H, l, hst⟩ := hs
  obtain ⟨H', l', d, -⟩ := h H l [] hst.draft
  exact ⟨H', l', d.toStage⟩

theorem pos_put (hs : Between s) (bs : List UInt8) :
    (s.ostr.write bs).pos = s.ostr.pos + bs.length := by
  obtain ⟨H, l, hst⟩ := hs
  exact pos_write hst bs

theorem stage_atEnd (hs : Between s) : s.ostr.pos = s.ostr.buf.length := by
  obtain ⟨H, l, hst⟩ := hs
  exact hst.atEnd

/-- the address of a variable -/
theorem putVarAddr_makes (hs : Between s) {sym : Symbol} {slot : VarSlot} {addr : Int64}
    (ha : sym.addr = some addr) (hg : sym.isGlobal = slot.isGlobal) (hadr : addr.toInt32 = slot.addr)
    {u : Unit} (h : (putVarAddr sym).run s = .ok u s') : OnlyWrites s s' ∧
      s'.ostr.pos = s.ostr.pos + 6 ∧ Makes s s' fun code =>
        Sits code s.ostr.pos (OpCode.push.code :: (Data.addr slot.addr : TData).bytes slot.reg) := by
  obtain ⟨a, s1, h1, h⟩ := bind_eq_ok.1 h
  obtain ⟨e, e1⟩ := deref_ok h1
  rw [ha] at e
  cases e
  rw [e1, run_putAddr _ _ (stage_atEnd hs)] at h
  have hreg : sym.baseReg = slot.reg := by
    unfold Symbol.baseReg VarSlot.reg
    rw [hg]
  rw [hreg, hadr] at h
  cases h
  exact ⟨rfl, pos_put hs _, Makes.write s _⟩

theorem putOp_makes (hs : Between s) {op : OpCode} {u : Unit}
    (h : (putOp op).run s = .ok u s') : OnlyWrites s s' ∧ s'.ostr.pos = s.ostr.pos + 1 ∧
      Makes s s' fun code => code[s.ostr.pos]? = some op.code := by
  rw [run_putOp] at h
  cases h
  exact ⟨rfl, pos_put hs _, (Makes.write s _).mono fun code hc => (sits_cons.1 hc).1⟩

theorem pushConst_makes (hs : Between s) {d : TData} {u : Unit}
    (h : (pushConst d).run s = .ok u s') : OnlyWrites s s' ∧
      s'.ostr.pos = s.ostr.pos + (1 + d.size) ∧ Makes s s' fun code =>
        Sits code s.ostr.pos (OpCode.push.code :: d.bytes .unknown) := by
  rw [run_pushConst d (stage_atEnd hs)] at h
  cases h
  refine ⟨rfl, ?_, Makes.write s _⟩
  have hl : (OpCode.push.code :: d.bytes .unknown).length = 1 + d.size := by
    rw [List.length_cons, Data.length_bytes, Nat.add_comm]
  exact hl ▸ pos_put hs (OpCode.push.code :: d.bytes .unknown)

end

/-! ## fragments that compute a value -/

section
variable [MathLib TReal]

/-- with the variables in their slots the fragment leaves the value on the stack, if there is one -/
def Evals (F : VarSlots) (ast : AST) (code : List UInt8) (b m : Nat) : Prop :=
  ∀ (base : Int) (s : VM) (ds : List Item) (σ : Store) (v : Val),
    (code.length : Int) + ast.need + sizes ds ≤ base → s.Here code base b ds →
    s.InSlots F base σ → eval σ ast = some v →
    ∃ t, Relation.TransGen VM.Turn s t ∧ t.Here code base m (v.item :: ds) ∧ SameAbove base s t

variable {F : VarSlots} {ast term1 term2 : AST} {code : List UInt8} {b m m1 m2 q : Nat}

/-- a constant -/
theorem Evals.const {v : Val} (hc : Sits code b (OpCode.push.code :: v.data.bytes .unknown))
    (he : ∀ σ, eval σ ast = some v) (hn : 9 ≤ ast.need) : Evals F ast code b (b + (1 + v.data.size)) := by
  intro base s ds σ w hroom h hi hv
  rw [he] at hv
  cases hv
  have hsz := v.size_le
  obtain ⟨t, ht, hh, hsame⟩ := h.push hc (by cases v <;> rfl) v.wf_data (by omega)
  exact ⟨t, .single ht, hh, hsame⟩

/-- a variable -/
theorem Evals.var {x : Str} {slot : VarSlot} (hx : F x = some slot)
    (hc : Sits code b (OpCode.push.code :: (Data.addr slot.addr : TData).bytes slot.reg))
    (hop : code[b + 6]? = some OpCode.rdmem.code) : Evals F (.var x) code b (b + 7) := by
  intro base s ds σ v hroom h hi hv
  unfold AST.need at hroom
  unfold eval at hv
  have hreg : slot.reg = .addrBp ∨ slot.reg = .addrGbp := by
    unfold VarSlot.reg
    cases slot.isGlobal
    · exact Or.inl rfl
    · exact Or.inr rfl
  have hsz := v.size_le
  obtain ⟨s1, ht1, h1, e1⟩ := h.push (d := .addr slot.addr) hc rfl
    (by rcases hreg with e | e <;> rw [e] <;> rfl)
    (by show (code.length : Int) + (5 : Nat) + sizes ds ≤ base; push_cast at hroom ⊢; omega)
  have hi1 := e1.inSlots hi
  have hty : slot.ty = v.ty := by
    obtain ⟨slot', hx', ht⟩ := hi.slot hv
    rw [hx] at hx'
    cases hx'
    exact ht
  have hr := hi1.room x slot hx
  rw [hty, ← Val.size_data] at hr
  obtain ⟨t, ht, hh, e2⟩ := h1.rdmem hop hreg (s1.base_reg slot) v.wf_data hr
    (hi1.value x slot v hx hv) (hi1.above x slot hx) (by push_cast at hroom ⊢; omega)
  exact ⟨t, .tail (.single ht1) ht, hh, e1.trans e2⟩

/-- what stands between the two operands -/
def Glides (code : List UInt8) (m q : Nat) : Prop :=
  ∀ (base : Int) (s : VM) (ds : List Item), s.Here code base m ds →
    ∃ t, Relation.ReflTransGen VM.Turn s t ∧ t.Here code base q ds ∧ SameAbove base s t

theorem Glides.refl (code : List UInt8) (m : Nat) : Glides code m m := fun base s _ h =>
  ⟨s, .refl, h, SameAbove.refl base s⟩

theorem Glides.nop (hop : code[m]? = some OpCode.nop.code) : Glides code m (m + 1) := by
  intro base s ds h
  obtain ⟨t, ht, hh, hsame⟩ := h.nop hop
  exact ⟨t, .single ht, hh, hsame⟩

/-- **An operation on two operands.** -/
theorem evals_op (h1 : Evals F term1 code b m1) (hg : Glides code m1 q)
    (h2 : Evals F term2 code q m2) (hneed : term1.need + term2.need + 9 ≤ ast.need)
    (hop : ∀ σ v, eval σ ast = some v → ∃ v1 v2, eval σ term1 = some v1 ∧ eval σ term2 = some v2 ∧
      ∀ (base : Int) (s : VM) (ds : List Item), s.Here code base m2 (v2.item :: v1.item :: ds) →
        ∃ t, VM.Turn s t ∧ t.Here code base (m2 + 1) (v.item :: ds) ∧ SameAbove base s t) :
    Evals F ast code b (m2 + 1) := by
  intro base s ds σ v hroom h hi hv
  obtain ⟨v1, v2, e1, e2, hturn⟩ := hop σ v hv
  have hs1 := v1.size_le
  obtain ⟨s1, t1, hh1, a1⟩ := h1 base s ds σ v1 (by omega) h hi e1
  obtain ⟨s2, t2, hh2, a2⟩ := hg base s1 _ hh1
  have hroom2 : (code.length : Int) + term2.need + sizes (v1.item :: ds) ≤ base := by
    rw [sizes_item]
    omega
  obtain ⟨s3, t3, hh3, a3⟩ := h2 base s2 _ σ v2 hroom2 hh2 ((a1.trans a2).inSlots hi) e2
  obtain ⟨s4, t4, hh4, a4⟩ := hturn base s3 ds hh3
  exact ⟨s4, ((t1.trans_left t2).trans t3).tail t4, hh4, ((a1.trans a2).trans a3).trans a4⟩

end

/-! ## the visits of expressions -/

section
variable [MathLib TReal] {s s' : Codegen} {F : VarSlots} {r : Option Symbol}

/-- what the visit of an expression does -/
structure Visits (F : VarSlots) (ast : AST) (s : Codegen) (r : Option Symbol) (s' : Codegen) : Prop where
  same : OnlyWrites s s'
  code : Makes s s' fun code => Evals F ast code s.ostr.pos s'.ostr.pos

/-- the symbol of an integer has its type -/
def IntSym (t : ValTy) (r : Option Symbol) : Prop := t = .int → (Known.type .int).Of r

theorem visitConst_visits (hs : Between s) {ast : AST} {v : Val} {sym : Symbol}
    (he : ∀ σ, eval σ ast = some v) (hn : 9 ≤ ast.need)
    (h : (visitConst (pushConst v.data) sym).run s = .ok r s') :
    Visits F ast s r s' ∧ r = some sym := by
  obtain ⟨_, s1, h1, h⟩ := bind_eq_ok.1 h
  cases h
  obtain ⟨hsame, hp, hm⟩ := pushConst_makes hs h1
  refine ⟨⟨hsame, hm.mono fun code hc => ?_⟩, rfl⟩
  rw [hp]
  exact Evals.const hc he hn

theorem pushVar_visits (hs : Between s) (hF : s.HasSlots F) {x : Str} {slot : VarSlot}
    (hx : F x = some slot) (h : (pushVar x).run s = .ok r s') :
    Visits F (.var x) s r s' ∧ IntSym slot.ty r := by
  obtain ⟨sym, addr, hr, ha, hty, hg, hadr⟩ := slotOf_some (hF.slot x slot hx)
  obtain ⟨sym', s1, h1, h⟩ := bind_eq_ok.1 h
  have e := getSym_resolve h1
  rw [hr] at e
  cases e
  obtain rfl := getSym_eq _ _ _ _ _ _ h1
  split at h
  · cases h
  · obtain ⟨_, s2, h2, h⟩ := bind_eq_ok.1 h
    obtain ⟨_, s3, h3, h⟩ := bind_eq_ok.1 h
    cases h
    obtain ⟨hsame2, hp2, hm2⟩ := putVarAddr_makes hs ha hg hadr h2
    have hne : (sym.ty != .func) = true := by
      rw [hty]
      cases slot.ty <;> rfl
    rw [hne, run_onlyIf_true] at h3
    obtain ⟨hsame3, hp3, hm3⟩ := putOp_makes (hm2.between hs) h3
    refine ⟨⟨hsame2.trans hsame3, (hm2.bind hm3).mono fun code hc => ?_⟩, fun ht => ⟨sym, rfl, ?_⟩⟩
    · rw [hp3, hp2]
      exact Evals.var hx hc.1 (hp2 ▸ hc.2)
    · rw [hty, ht]
      rfl

/-- what an operation does with the values of its operands on the stack -/
def TurnsTo (ast term1 term2 : AST) (op : OpCode) : Prop :=
  ∀ σ v, eval σ ast = some v → ∃ v1 v2, eval σ term1 = some v1 ∧ eval σ term2 = some v2 ∧
    ∀ (code : List UInt8) (m2 : Nat), code[m2]? = some op.code → ∀ (base : Int) (s : VM)
      (ds : List Item), s.Here code base m2 (v2.item :: v1.item :: ds) →
      ∃ t, VM.Turn s t ∧ t.Here code base (m2 + 1) (v.item :: ds) ∧ SameAbove base s t

theorem TurnsTo.arith {ast term1 term2 : AST} (op : ArithOp)
    (he : ∀ σ, eval σ ast = arithValue op (eval σ term1) (eval σ term2)) :
    TurnsTo ast term1 term2 op.code := by
  intro σ v hv
  rw [he] at hv
  obtain ⟨i, j, k, e1, e2, hk, rfl⟩ := arithValue_some hv
  exact ⟨_, _, e1, e2, fun code m2 hop base s ds h => h.arith op op.code hop (execOp_arith op) hk⟩

theorem TurnsTo.comp (term1 term2 : AST) (op : CompNodeOp) :
    TurnsTo (.comp term1 term2 op) term1 term2 op.opCode := by
  intro σ v hv
  unfold eval at hv
  obtain ⟨i, j, e1, e2, h⟩ := onInts_some hv
  cases h
  exact ⟨_, _, e1, e2, fun code m2 hop base s ds h => h.comp op op.opCode hop (by cases op <;> rfl)⟩

theorem onBools_turns {ast term1 term2 : AST} {f : Bool → Bool → Bool} (c : LogicOp) (op : OpCode)
    (he : ∀ σ, eval σ ast = onBools f (eval σ term1) (eval σ term2)) (hf : logical c = f)
    (hx : execOp (some op) = andGoOn (opLogical c)) : TurnsTo ast term1 term2 op := by
  intro σ v hv
  rw [he] at hv
  obtain ⟨a, b, e1, e2, rfl⟩ := onBools_some hv
  subst hf
  exact ⟨_, _, e1, e2, fun code m2 hop base s ds h => h.logic op c hop hx⟩

/-- and, or, exclusive or -/
theorem TurnsTo.bool (term1 term2 : AST) {op : BoolNodeOp} (hop : op ≠ .not) :
    TurnsTo (.bool term1 (some term2) op) term1 term2 op.opCode := by
  cases op with
  | not => exact absurd rfl hop
  | and => exact onBools_turns .and _ (fun _ => rfl) rfl rfl
  | or => exact onBools_turns .or _ (fun _ => rfl) rfl rfl
  | xor => exact onBools_turns .xor _ (fun _ => rfl) rfl rfl

/-- **The visit of an operation on integers.** -/
theorem opRun_visits (hs : Between s) {ast term1 term2 : AST} {op : OpCode}
    (h : OpRun op (visit term1) (visit term2) s r s')
    (h1 : ∀ r1 s1, (visit term1).run s = .ok r1 s1 →
      Visits F term1 s r1 s1 ∧ (Known.type .int).Of r1)
    (h2 : ∀ s1 r2 s2, Between s1 → OnlyWrites s s1 → (visit term2).run s1 = .ok r2 s2 →
      Visits F term2 s1 r2 s2 ∧ (Known.type .int).Of r2)
    (hneed : term1.need + term2.need + 9 ≤ ast.need)
    (hop : TurnsTo ast term1 term2 op) : Visits F ast s r s' ∧ (Known.type .int).Of r := by
  obtain ⟨r1, s1, r2, s2, s3, s4, e1, e2, e3, e4, rfl, rfl⟩ := h
  obtain ⟨v1, k1⟩ := h1 r1 s1 e1
  have hnop : Makes s1 (s1.put .nop) fun code => Sits code s1.ostr.pos [OpCode.nop.code] :=
    Makes.write s1 _
  have hs1 := v1.code.between hs
  have hsame1 : OnlyWrites s (s1.put .nop) := v1.same.trans rfl
  obtain ⟨v2, k2⟩ := h2 _ r2 s2 (hnop.between hs1) hsame1 e2
  obtain ⟨c1, c2, c3⟩ := casts_known k1 k2
  have n1 := castSym_none c1
  have n2 := castSym_none c2
  rw [n1] at e3
  cases e3
  rw [n2] at e4
  cases e4
  refine ⟨⟨hsame1.trans (v2.same.trans rfl), ?_⟩, c3⟩
  have hend : Makes s2 (s2.put op) fun code => Sits code s2.ostr.pos [op.code] := Makes.write s2 _
  have hs2 := v2.code.between (hnop.between hs1)
  refine (((v1.code.bind hnop).bind v2.code).bind hend).mono ?_
  rintro code ⟨⟨⟨m1, m2⟩, m3⟩, m4⟩
  have hp1 : (s1.put .nop).ostr.pos = s1.ostr.pos + 1 := pos_put hs1 _
  have hp2 : (s2.put op).ostr.pos = s2.ostr.pos + 1 := pos_put hs2 _
  rw [hp1] at m3
  rw [hp2]
  refine evals_op m1 (Glides.nop (sits_cons.1 m2).1) m3 hneed fun σ v hv => ?_
  obtain ⟨w1, w2, ev1, ev2, hturn⟩ := hop σ v hv
  exact ⟨w1, w2, ev1, ev2, hturn code _ (sits_cons.1 m4).1⟩

/-- the visit of a negative number -/
theorem uminus_visits {term : AST}
    (h1 : ∀ r1 s1, (visit term).run s = .ok r1 s1 → Between s1 ∧ Visits F term s r1 s1)
    (h : (visitUMinus (visit term)).run s = .ok r s') :
    Visits F (.uminus term) s r s' ∧ ∃ s1, (visit term).run s = .ok r s1 := by
  obtain ⟨r1, s1, e1, h⟩ := bind_eq_ok.1 h
  obtain ⟨_, s2, e2, h⟩ := bind_eq_ok.1 h
  cases h
  obtain ⟨hs1, v1⟩ := h1 _ s1 e1
  obtain ⟨hsame, hp, hm⟩ := putOp_makes hs1 e2
  refine ⟨⟨v1.same.trans hsame, (v1.code.bind hm).mono fun code hc => ?_⟩, s1, e1⟩
  intro base s ds σ v hroom h hi hv
  unfold eval at hv
  obtain ⟨i, hi', rfl⟩ := Option.map_eq_some_iff.1 hv
  unfold AST.need at hroom
  obtain ⟨t1, ht1, hh1, a1⟩ := hc.1 base s ds σ _ hroom h hi (asInt_some hi')
  obtain ⟨t, ht, hh, a2⟩ := hh1.usub hc.2
  rw [hp]
  exact ⟨t, ht1.tail ht, hh, a1.trans a2⟩

/-- the visit of a negation -/
theorem not_visits {term : AST}
    (h1 : ∀ r1 s1, (visit term).run s = .ok r1 s1 → Between s1 ∧ Visits F term s r1 s1)
    (h : (visitBool (visit term) none .not).run s = .ok r s') :
    Visits F (.bool term none .not) s r s' := by
  obtain ⟨_, s1, e1, h⟩ := bind_eq_ok.1 h
  obtain ⟨r1, s1', e1, e1'⟩ := bind_eq_ok.1 e1
  cases e1'
  obtain ⟨_, s2, e2, h⟩ := bind_eq_ok.1 h
  cases h
  obtain ⟨hs1, v1⟩ := h1 r1 s1 e1
  obtain ⟨hsame, hp, hm⟩ := putOp_makes hs1 e2
  refine ⟨v1.same.trans hsame, (v1.code.bind hm).mono fun code hc => ?_⟩
  intro base s ds σ v hroom h hi hv
  obtain ⟨a, ha, rfl⟩ := Option.map_eq_some_iff.1 hv
  have hneed : (AST.bool term none .not).need = term.need + 9 := rfl
  obtain ⟨t1, ht1, hh1, a1⟩ := hc.1 base s ds σ _ (by omega) h hi (asBool_some ha)
  obtain ⟨t, ht, hh, a2⟩ := VM.Here.not (b := a) hh1 hc.2
  rw [hp]
  exact ⟨t, ht1.tail ht, hh, a1.trans a2⟩

/-- the visit of a logical operation on two operands -/
theorem bool_visits {term1 term2 : AST} {op : BoolNodeOp} (hne : op ≠ .not)
    (h1 : ∀ r1 s1, (visit term1).run s = .ok r1 s1 → Between s1 ∧ Visits F term1 s r1 s1)
    (h2 : ∀ s1 r2 s2, Between s1 → OnlyWrites s s1 → (visit term2).run s1 = .ok r2 s2 →
      Between s2 ∧ Visits F term2 s1 r2 s2)
    (h : (visitBool (visit term1) (some (visit term2)) op).run s = .ok r s') :
    Visits F (.bool term1 (some term2) op) s r s' := by
  obtain ⟨_, s1, e1, h⟩ := bind_eq_ok.1 h
  obtain ⟨r1, s1', e1, e1'⟩ := bind_eq_ok.1 e1
  cases e1'
  obtain ⟨_, s2, e2, h⟩ := bind_eq_ok.1 h
  obtain ⟨r2, s2', e2, e2'⟩ := bind_eq_ok.1 e2
  cases e2'
  obtain ⟨_, s3, e3, h⟩ := bind_eq_ok.1 h
  cases h
  obtain ⟨hs1, v1⟩ := h1 r1 s1 e1
  obtain ⟨hs2, v2⟩ := h2 s1 r2 s2 hs1 v1.same e2
  obtain ⟨hsame, hp, hm⟩ := putOp_makes hs2 e3
  refine ⟨(v1.same.trans v2.same).trans hsame, ((v1.code.bind v2.code).bind hm).mono ?_⟩
  rintro code ⟨⟨c1, c2⟩, c3⟩
  rw [hp]
  refine evals_op c1 (Glides.refl _ _) c2 (Nat.le_refl _) fun σ v hv => ?_
  obtain ⟨w1, w2, ev1, ev2, hturn⟩ := TurnsTo.bool term1 term2 hne σ v hv
  exact ⟨w1, w2, ev1, ev2, hturn code _ c3⟩

/-- **The code of an expression** computes its value. -/
theorem visit_evals (ast : AST) : ∀ {s s' : Codegen} {r : Option Symbol} {t : ValTy},
    Between s → s.HasSlots F → exprTy F.types ast = some t →
    (visit ast).run s = .ok r s' → Visits F ast s r s' ∧ IntSym t r := by
  intro s s' r t hs hF ht h
  -- operands of the operations
  have hops {term1 term2 : AST} {u : ValTy} (ht : opTy .int u (exprTy F.types term1)
      (exprTy F.types term2) = some t)
      (ih1 : ∀ {s s' : Codegen} {r : Option Symbol} {t : ValTy}, Between s →
        s.HasSlots F → exprTy F.types term1 = some t → (visit term1).run s = .ok r s' →
        Visits F term1 s r s' ∧ IntSym t r)
      (ih2 : ∀ {s s' : Codegen} {r : Option Symbol} {t : ValTy}, Between s →
        s.HasSlots F → exprTy F.types term2 = some t → (visit term2).run s = .ok r s' →
        Visits F term2 s r s' ∧ IntSym t r) :
      (∀ r1 s1, (visit term1).run s = .ok r1 s1 →
        Visits F term1 s r1 s1 ∧ (Known.type .int).Of r1) ∧
      ∀ s1 r2 s2, Between s1 → OnlyWrites s s1 → (visit term2).run s1 = .ok r2 s2 →
        Visits F term2 s1 r2 s2 ∧ (Known.type .int).Of r2 := by
    obtain ⟨t1, t2, -⟩ := opTy_some ht
    refine ⟨fun r1 s1 e1 => ?_, fun s1 r2 s2 hs1 hsame e2 => ?_⟩
    · obtain ⟨v1, k1⟩ := ih1 hs hF t1 e1
      exact ⟨v1, k1 rfl⟩
    · obtain ⟨v2, k2⟩ := ih2 hs1 (hsame.hasSlots hF) t2 e2
      exact ⟨v2, k2 rfl⟩
  cases ast with
  | intConst val =>
    unfold exprTy at ht
    cases ht
    have he (σ : Store) : eval σ (.intConst val) = some (.int val) := rfl
    obtain ⟨hv, rfl⟩ := visitConst_visits hs he (Nat.le_refl 9) h
    exact ⟨hv, fun _ => ⟨intConst, rfl, rfl⟩⟩
  | boolConst val =>
    unfold exprTy at ht
    cases ht
    have he (σ : Store) : eval σ (.boolConst val) = some (.bool val) := rfl
    obtain ⟨hv, rfl⟩ := visitConst_visits hs he (Nat.le_refl 9) h
    exact ⟨hv, fun e => by cases e⟩
  | var ident =>
    unfold exprTy at ht
    obtain ⟨slot, hx, rfl⟩ := Option.map_eq_some_iff.1 ht
    exact pushVar_visits hs hF hx h
  | uminus term =>
    unfold exprTy at ht
    obtain ⟨t1, -, rfl⟩ := opTy_some ht
    obtain ⟨hv, s1, e1⟩ := uminus_visits (fun r1 s1 e1 =>
      have v1 := (visit_evals term hs hF t1 e1).1
      ⟨v1.code.between hs, v1⟩) h
    exact ⟨hv, (visit_evals term hs hF t1 e1).2⟩
  | plus term1 term2 inverted =>
    unfold exprTy at ht
    obtain ⟨h1, h2⟩ := hops ht (visit_evals term1) (visit_evals term2)
    have hop : TurnsTo (.plus term1 term2 inverted) term1 term2 (plusOp inverted) := by
      cases inverted with
      | true => exact TurnsTo.arith .sub fun _ => rfl
      | false => exact TurnsTo.arith .add fun _ => rfl
    obtain ⟨hv, hk⟩ := opRun_visits hs (plus_run h) h1 h2 (Nat.le_refl _) hop
    exact ⟨hv, fun _ => hk⟩
  | mult term1 term2 inverted =>
    unfold exprTy at ht
    obtain ⟨h1, h2⟩ := hops ht (visit_evals term1) (visit_evals term2)
    have hop : TurnsTo (.mult term1 term2 inverted) term1 term2 (multOp inverted) := by
      cases inverted with
      | true => exact TurnsTo.arith .div fun _ => rfl
      | false => exact TurnsTo.arith .mul fun _ => rfl
    have hrun : OpRun (multOp inverted) (visit term1) (visit term2) s r s' := by
      refine visitMult_ok (fun r1 s1 r2 s2 e1 e2 => ?_) h
      obtain ⟨v1, k1⟩ := h1 r1 s1 e1
      have hnop : Makes s1 (s1.put .nop) fun code => Sits code s1.ostr.pos [OpCode.nop.code] :=
        Makes.write s1 _
      obtain ⟨-, k2⟩ := h2 _ r2 s2 (hnop.between (v1.code.between hs)) (v1.same.trans rfl) e2
      exact ⟨_, _, (casts_known k1 k2).2.2⟩
    obtain ⟨hv, hk⟩ := opRun_visits hs hrun h1 h2 (Nat.le_refl _) hop
    exact ⟨hv, fun _ => hk⟩
  | mod term1 term2 =>
    unfold exprTy at ht
    obtain ⟨h1, h2⟩ := hops ht (visit_evals term1) (visit_evals term2)
    have hop : TurnsTo (.mod term1 term2) term1 term2 OpCode.mod := TurnsTo.arith .mod fun _ => rfl
    obtain ⟨hv, hk⟩ := opRun_visits hs (visitBinary_ok h) h1 h2 (Nat.le_refl _) hop
    exact ⟨hv, fun _ => hk⟩
  | pow term1 term2 =>
    unfold exprTy at ht
    obtain ⟨h1, h2⟩ := hops ht (visit_evals term1) (visit_evals term2)
    have hop : TurnsTo (.pow term1 term2) term1 term2 OpCode.pow := TurnsTo.arith .pow fun _ => rfl
    obtain ⟨hv, hk⟩ := opRun_visits hs (visitBinary_ok h) h1 h2 (Nat.le_refl _) hop
    exact ⟨hv, fun _ => hk⟩
  | comp term1 term2 op =>
    unfold exprTy at ht
    obtain ⟨h1, h2⟩ := hops ht (visit_evals term1) (visit_evals term2)
    obtain ⟨hv, -⟩ := opRun_visits hs (visitBinary_ok h) h1 h2 (Nat.le_refl _)
      (TurnsTo.comp term1 term2 op)
    exact ⟨hv, fun e => by rw [(opTy_some ht).2.2] at e; cases e⟩
  | bool term1 term2 op =>
    unfold exprTy at ht
    obtain ⟨t1, rfl, hop⟩ := boolTy_some ht
    refine ⟨?_, fun e => by cases e⟩
    have h1 (r1 : Option Symbol) (s1 : Codegen) (e1 : (visit term1).run s = .ok r1 s1) :
        Between s1 ∧ Visits F term1 s r1 s1 := by
      have v1 := (visit_evals term1 hs hF t1 e1).1
      exact ⟨v1.code.between hs, v1⟩
    rcases hop with ⟨rfl, he⟩ | ⟨hne, he⟩
    · cases term2 with
      | none => exact not_visits h1 h
      | some term2 => unfold exprTyOpt at he; cases he
    · cases term2 with
      | none => unfold exprTyOpt at he; cases he
      | some term2 =>
        unfold exprTyOpt at he
        refine bool_visits hne h1 (fun s1 r2 s2 hs1 hsame e2 => ?_) h
        have v2 := (visit_evals term2 hs1 (hsame.hasSlots hF) (Option.some.inj he) e2).1
        exact ⟨v2.code.between hs1, v2⟩
  | _ => unfold exprTy at ht; cases ht

end

end MuF
