import MuF.Lang.Loops

/-!
# The code of statements

* `Compiles`: a visit makes a fragment that does what a program does;
* `Amid`: code generation is between two visits, inside of loops;
* one lemma for each kind of statement;
* **`visit_compiles`**: the code of a statement does what the statement means.
-/

set_option linter.unusedVariables false

namespace MuF

open Bytes Exec

/-! ## variables -/

section
variable {s s' : Codegen} {sym : Symbol} {slot : VarSlot} {addr : Int64} {F : VarSlots} {t : ValTy}

/-- a cast to the own type -/
theorem castTo_makes (hs : Between s) (hty : sym.ty = t.sym) {u : Unit}
    (h : (castTo (some sym) none true).run s = .ok u s') :
    OnlyWrites s s' ∧ Makes s s' fun code => OwnCast code t s.ostr.pos s'.ostr.pos := by
  have hop : (putOp (castOp t.sym true).1).run s = .ok u s' := by
    unfold castTo at h
    dsimp only at h
    rw [hty] at h
    cases t <;> exact h
  obtain ⟨hw, hp, hm⟩ := putOp_makes hs hop
  exact ⟨hw, hm.mono fun code hc => Or.inr ⟨hp, hc⟩⟩

/-- the code of an assignment behind the value -/
def Stores (slot : VarSlot) (code : List UInt8) (q : Nat) : Prop :=
  Sits code q (OpCode.push.code :: (Data.addr slot.addr : TData).bytes slot.reg) ∧
    code[q + 6]? = some OpCode.wrmem.code

theorem assignVar_makes (hs : Between s) (ha : sym.addr = some addr) (hg : sym.isGlobal = slot.isGlobal)
    (hadr : addr.toInt32 = slot.addr) {u : Unit} (h : (assignVar sym).run s = .ok u s') :
    OnlyWrites s s' ∧ s'.ostr.pos = s.ostr.pos + 7 ∧ Makes s s' fun code =>
      Stores slot code s.ostr.pos := by
  obtain ⟨_, s1, h1, h⟩ := bind_eq_ok.1 h
  obtain ⟨hw1, hp1, hm1⟩ := putVarAddr_makes hs ha hg hadr h1
  obtain ⟨hw2, hp2, hm2⟩ := putOp_makes (hm1.between hs) h
  refine ⟨hw1.trans hw2, by omega, (hm1.bind hm2).mono fun code hc => ⟨hc.1, ?_⟩⟩
  rw [← hp1]
  exact hc.2

/-- the symbol that a name stands for is found again -/
theorem reload_resolved (hF : s.HasSlots F) {x : Str} {ty : Option SymbolType}
    (hr : s.resolve x ty = some sym) : (reload sym).run s = .ok sym s := by
  obtain ⟨key, hk⟩ : ∃ key, s.syms.findSymbol key = some sym := by
    unfold Codegen.resolve SymTab.resolve at hr
    rcases (Option.orElse_eq_some _ _ _).1 hr with h | ⟨-, h⟩
    · split at h
      · exact ⟨_, (findTyped_some h).1⟩
      · cases h
    · exact ⟨_, (findTyped_some h).1⟩
  have hkey := hF.keyed key sym hk
  show EStateM.Result.ok ((s.syms.findSymbol sym.scopedName).getD sym) s = _
  rw [hkey, hk]
  rfl

end

/-! ## fragments of statements -/

/-- the loops around are inside of the code -/
def Inside (code : List UInt8) (ctx : List (Nat × Nat)) : Prop :=
  ∀ c ∈ ctx, c.1 ≤ code.length ∧ c.2 ≤ code.length

/-- code generation is between two visits, inside of `d` loops -/
structure Amid (F : VarSlots) (d : Nat) (s : Codegen) : Prop where
  between : Between s
  looped : Looped s
  slots : s.HasSlots F
  depth : s.curLoop.length = d

section
variable {s s' s'' : Codegen} {F : VarSlots} {d : Nat} {K : List Nat}
  {P : List UInt8 → List (Nat × Nat) → Prop}

theorem Amid.opens (hs : Amid F d s) (h : Opens s s' K P) : Amid F d s' :=
  ⟨h.between hs.between, h.looped hs.looped, h.hasSlots hs.slots, by rw [h.curLoop, hs.depth]⟩

theorem Amid.enter (hs : Amid F d s) : Amid F (d + 1) s.enter := by
  have hq : Makes s s.enter fun _ => True := Makes.quiet rfl
  refine ⟨hq.between hs.between, hs.looped.enter, hs.slots.congr rfl rfl, ?_⟩
  show (s.curLoop ++ [s.loopIdent + 1]).length = d + 1
  rw [List.length_append, hs.depth]
  rfl

theorem OnlyWrites.opens {P : List UInt8 → Prop} (hw : OnlyWrites s s') (h : Makes s s' P) :
    Opens s s' [] fun code _ => P code := Opens.of_makes h hw

end

section
variable [MathLib TReal] {s s' s'' : Codegen} {F : VarSlots} {d need need' : Nat}
  {p p' : Flow.Prog Exit Store} {K : List Nat} {code : List UInt8} {ctx : List (Nat × Nat)}
  {cond expr : AST} {b m q : Nat} {r : Option Symbol}

/-- a visit makes a fragment that does what the program does -/
def Compiles (F : VarSlots) (p : Flow.Prog Exit Store) (need : Nat) (s s' : Codegen) : Prop :=
  Opens s s' [] fun code ctx => Inside code ctx → s'.ostr.pos ≤ code.length →
    Fragment F p need code ctx s.ostr.pos s'.ostr.pos

theorem Compiles.refl (s : Codegen) : Compiles F Flow.skip need s s := by
  have h : Opens s s [] fun code _ => True := OnlyWrites.opens rfl (Makes.refl s)
  exact h.mono fun code ctx _ _ _ => Fragment.skip _

theorem Compiles.mono (h : Compiles F p need s s') (hn : need ≤ need') : Compiles F p need' s s' :=
  Opens.mono h fun code ctx hf hi hl => (hf hi hl).mono hn

theorem Compiles.seq (h : Compiles F p need s s') (h' : Compiles F p' need' s' s'') (hs : Between s) :
    Compiles F (Flow.seq p p') (need + need') s s'' := by
  have hle := Opens.le h' (Opens.between h hs)
  have hb := Opens.bind h h'
  exact hb.mono fun code ctx hc hi hl => (hc.1 hi (hle.trans hl)).seq (hc.2 hi hl)

/-- **The code of an assignment**, with a cast or without one. -/
theorem assign_compiles {x : Str} {slot : VarSlot} {sym : Symbol} {addr : Int64} {s1 s2 : Codegen}
    (hs : Between s) (hF : s.HasSlots F) (hx : F x = some slot)
    (hty : exprTy F.types expr = some slot.ty)
    (ha : sym.addr = some addr) (hg : sym.isGlobal = slot.isGlobal) (hadr : addr.toInt32 = slot.addr)
    (h1 : Visits F expr s r s1)
    (h2 : OnlyWrites s1 s2 ∧ Makes s1 s2 fun code => OwnCast code slot.ty s1.ostr.pos s2.ostr.pos)
    {u : Unit} (h3 : (assignVar sym).run s2 = .ok u s') :
    Compiles F (assignTo x expr) (expr.need + 14) s s' := by
  have hs1 := h1.code.between hs
  obtain ⟨hw3, hp3, hm3⟩ := assignVar_makes (h2.2.between hs1) ha hg hadr h3
  have hall := (h1.code.bind h2.2).bind hm3
  have hopen := OnlyWrites.opens ((h1.same.trans h2.1).trans hw3) hall
  refine hopen.mono fun code ctx hc _ _ => ?_
  rw [hp3]
  exact Fragment.assign hx hty hc.1.1 hc.1.2 hc.2.1 hc.2.2

/-- the code of a condition with its jump, whose address is filled in later -/
structure Tested (F : VarSlots) (cond : AST) (code : List UInt8) (b m : Nat) : Prop where
  evals : Evals F cond code b m
  not : code[m]? = some OpCode.not.code
  push : Sits code (m + 1) [OpCode.push.code, VMType.addrIp.code]
  jmpcnd : Sits code (m + 7) [OpCode.jmpcnd.code]

theorem Tested.skip (h : Tested F cond code b m) {off : Int32} (ha : Sits code (m + 3) (Raw.enc off)) :
    Sits code (m + 1) (skipCode off .jmpcnd) := sits_skipCode h.push ha h.jmpcnd

/-- **The code of a condition.** -/
theorem test_opens {s1 s2 s3 : Codegen} {u : Unit} {pos : Nat} (hs : Between s)
    (hw : OnlyWrites s s1) (hm : Makes s s1 fun code => Evals F cond code s.ostr.pos s1.ostr.pos)
    (h2 : (putOp .not).run s1 = .ok u s2) (h3 : (putJump .jmpcnd).run s2 = .ok pos s3) :
    pos = s1.ostr.pos + 3 ∧ s3.ostr.pos = s1.ostr.pos + 8 ∧
      Opens s s3 [pos] fun code _ => Tested F cond code s.ostr.pos s1.ostr.pos := by
  have hs1 := hm.between hs
  obtain ⟨hw2, hp2, hm2⟩ := putOp_makes hs1 h2
  obtain ⟨e3, hp3, ho3⟩ := Opens.jump (hm2.between hs1) h3
  rw [hp2] at e3 hp3 ho3
  refine ⟨e3, hp3, ((OnlyWrites.opens (hw.trans hw2) (hm.bind hm2)).bind ho3).mono ?_⟩
  rintro code ctx ⟨⟨hc, hnot⟩, hpush, hjmp⟩
  exact ⟨hc, hnot, hpush, hjmp⟩

omit [MathLib TReal] in
/-- the distance of a jump over a block -/
theorem streamDiff_skip (q m : Nat) : streamDiff q (m + 8) = toSkip q (m + 3) :=
  (toSkip_eq q (m + 3)).symm

omit [MathLib TReal] in
theorem visit_run {x : Visit} {u : Unit} (h : x.run_.run s = .ok u s') : ∃ r, x.run s = .ok r s' := by
  obtain ⟨r, s1, h1, h⟩ := bind_eq_ok.1 h
  cases h
  exact ⟨r, h1⟩

omit [MathLib TReal] in
/-- an address is filled in at the end of a visit -/
theorem patch_end {pos : Nat} {addr : Int32}
    (h : (do patch pos addr; seekEnd; return none : Visit).run s = .ok r s') :
    s' = { s with ostr := (s.ostr.patches [(pos, addr)]).toEnd } := by
  cases h
  rfl

/-- the visit of a statement inside of `d` loops makes its fragment -/
structure Generates (F : VarSlots) (d : Nat) (x : Visit) (p : Flow.Prog Exit Store) (need : Nat) :
    Prop where
  compiles : ∀ {s s' : Codegen} {r : Option Symbol}, Amid F d s → x.run s = .ok r s' →
    Compiles F p need s s'

theorem Generates.mono {x : Visit} (h : Generates F d x p need) (hn : need ≤ need') :
    Generates F d x p need' := ⟨fun hs hr => (h.compiles hs hr).mono hn⟩

theorem Compiles.amid (h : Compiles F p need s s') (hs : Amid F d s) : Amid F d s' := hs.opens h

/-- the visit of an expression -/
theorem expr_visits {t : ValTy} {u : Unit} (hs : Amid F d s) (ht : exprTy F.types expr = some t)
    (h : (visit expr).run_.run s = .ok u s') : ∃ r, Visits F expr s r s' ∧ Amid F d s' := by
  obtain ⟨r, h⟩ := visit_run h
  have hv := (visit_evals expr hs.between hs.slots ht h).1
  exact ⟨r, hv, hs.opens (OnlyWrites.opens hv.same hv.code)⟩

/-- **The code of a conditional.** -/
theorem generates_cond {ifStmt : Visit} (ht : exprTy F.types cond = some .bool)
    (h1 : Generates F d ifStmt p need) :
    Generates F d (visitCond (visit cond) ifStmt none)
      (Flow.cond (testOf cond) p Flow.skip) (cond.need + need + 7) := by
  constructor
  intro s s' r hs h
  obtain ⟨_, s1, e1, h⟩ := bind_eq_ok.1 h
  obtain ⟨_, s2, e2, h⟩ := bind_eq_ok.1 h
  obtain ⟨skip, s3, e3, h⟩ := bind_eq_ok.1 h
  obtain ⟨before, s3', hp, h⟩ := bind_eq_ok.1 h
  cases hp
  obtain ⟨_, s4, e4, h⟩ := bind_eq_ok.1 h
  obtain ⟨after, s4', hp, h⟩ := bind_eq_ok.1 h
  cases hp
  have hend := patch_end h
  obtain ⟨_, hv, -⟩ := expr_visits hs ht e1
  obtain ⟨rfl, p3, htest⟩ := test_opens hs.between hv.same hv.code e2 e3
  obtain ⟨_, e4⟩ := visit_run e4
  have hif := h1.compiles (hs.opens htest) e4
  obtain ⟨hp, hall⟩ := (htest.bind hif).fill [_] [] hs.between (List.Perm.refl _) hend
  refine hall.mono ?_
  rintro code ctx ⟨⟨hc, hf⟩, haddr⟩ hi hl
  have haddr := haddr _ (List.mem_singleton_self _)
  rw [hp] at hl ⊢
  rw [p3, streamDiff_skip] at haddr
  have hf := hf hi hl
  rw [p3] at hf
  exact Fragment.cond_only hc.evals hc.not (hc.skip haddr) hl hf

/-- **The code of a conditional** with two branches. -/
theorem generates_cond_else {ifStmt elseStmt : Visit} (ht : exprTy F.types cond = some .bool)
    (h1 : Generates F d ifStmt p need) (h2 : Generates F d elseStmt p' need') :
    Generates F d (visitCond (visit cond) ifStmt (some elseStmt))
      (Flow.cond (testOf cond) p p') (cond.need + need + need' + 7) := by
  constructor
  intro s s' r hs h
  obtain ⟨_, s1, e1, h⟩ := bind_eq_ok.1 h
  obtain ⟨_, s2, e2, h⟩ := bind_eq_ok.1 h
  obtain ⟨skip, s3, e3, h⟩ := bind_eq_ok.1 h
  obtain ⟨before, s3', hp, h⟩ := bind_eq_ok.1 h
  cases hp
  obtain ⟨_, s4, e4, h⟩ := bind_eq_ok.1 h
  obtain ⟨skip', s5, e5, h⟩ := bind_eq_ok.1 h
  obtain ⟨s6, hs6, h⟩ : ∃ s6 : Codegen, s6 = { s5 with
    ostr := (s5.ostr.patches [(skip, streamDiff s5.ostr.pos s3.ostr.pos)]).toEnd } ∧
    (do
      let beforeElse ← tellp
      elseStmt.run_
      let afterElse ← tellp
      patch skip' (streamDiff afterElse beforeElse)
      seekEnd
      return none : Visit).run s6 = .ok r s' := ⟨_, rfl, h⟩
  obtain ⟨before', s6', hp, h⟩ := bind_eq_ok.1 h
  cases hp
  obtain ⟨_, s7, e7, h⟩ := bind_eq_ok.1 h
  obtain ⟨after', s7', hp, h⟩ := bind_eq_ok.1 h
  cases hp
  have hend := patch_end h
  -- the condition and the first branch
  obtain ⟨_, hv, -⟩ := expr_visits hs ht e1
  obtain ⟨rfl, p3, htest⟩ := test_opens hs.between hv.same hv.code e2 e3
  obtain ⟨_, e4⟩ := visit_run e4
  have hif := h1.compiles (hs.opens htest) e4
  have hsf := hs.opens (htest.bind hif)
  obtain ⟨rfl, p5, hjmp⟩ := Opens.jump hsf.between e5
  obtain ⟨p6, hfirst⟩ := ((htest.bind hif).bind hjmp).fill [(_, _)] [s4.ostr.pos + 2] hs.between
    (List.Perm.swap _ _ _) hs6
  -- the second branch
  obtain ⟨_, e7⟩ := visit_run e7
  have helse := h2.compiles (hs.opens hfirst) e7
  obtain ⟨p7, hall⟩ := (hfirst.bind helse).fill [(_, _)] [] hs.between (List.Perm.refl _) hend
  have hle := Opens.le helse (hs.opens hfirst).between
  refine hall.mono ?_
  rintro code ctx ⟨⟨⟨⟨⟨hc, hf⟩, hpush, hjmp⟩, haddr⟩, hf'⟩, haddr'⟩ hi hl
  have haddr := haddr _ (List.mem_singleton_self _)
  have haddr' := haddr' _ (List.mem_singleton_self _)
  rw [p7] at hl ⊢
  rw [p3, streamDiff_skip, p5] at haddr
  have hto : streamDiff s7.ostr.pos s6.ostr.pos = toSkip s7.ostr.pos (s4.ostr.pos + 2) := by
    rw [p6, p5, toSkip_eq]
  rw [hto] at haddr'
  have hf := hf hi (by omega)
  have hf' := hf' hi hl
  rw [p3] at hf
  rw [p6, p5] at hf'
  exact Fragment.cond_else hc.evals hc.not (hc.skip haddr) hf (sits_skipCode hpush haddr' hjmp) hl hf'

/-! ## loops -/

omit [MathLib TReal] in
theorem ref_bytes (off : Int32) (op : OpCode) : (Piece.ref off op).bytes = skipCode off op := by
  simp only [Piece.bytes, Piece.instrs, List.flatMap_cons, List.flatMap_nil, List.append_nil]
  rfl

omit [MathLib TReal] in
/-- the parts of a loop -/
theorem emitLoop_parts {x y : CGM Unit} (hr : (emitLoop x y).run s = .ok r s')
    (hend : ∀ s4 : Codegen, (∃ s1 s2 s3 pos, x.run s.enter = .ok () s1 ∧
      (putOp .not).run s1 = .ok () s2 ∧ (putJump .jmpcnd).run s2 = .ok pos s3 ∧ y.run s3 = .ok () s4) →
      s4.ostr.pos = s4.ostr.buf.length ∧ s4.curLoop = s.enter.curLoop) :
    ∃ s1 s2 s3 s4 s5 pos, x.run s.enter = .ok () s1 ∧ (putOp .not).run s1 = .ok () s2 ∧
      (putJump .jmpcnd).run s2 = .ok pos s3 ∧ y.run s3 = .ok () s4 ∧
      s5 = { s4 with ostr := s4.ostr.write (skipCode (toSkip s.ostr.pos (s4.ostr.pos + 2)) .jmp) } ∧
      s' = { s5 with
        ostr := (s5.ostr.patches ([(pos, streamDiff s5.ostr.pos s3.ostr.pos)] ++
          (skipsTo s.ostr.pos (jumpsOf s5.loopBeginComefroms (s.loopIdent + 1)) ++
            skipsTo s5.ostr.pos (jumpsOf s5.loopEndComefroms (s.loopIdent + 1))))).toEnd
        loopBeginComefroms := jumpsNotOf s5.loopBeginComefroms (s.loopIdent + 1)
        loopEndComefroms := jumpsNotOf s5.loopEndComefroms (s.loopIdent + 1)
        curLoop := s.curLoop } := by
  obtain ⟨i, s0, e0, hr⟩ := bind_eq_ok.1 hr
  cases e0
  obtain ⟨b, s0', e0, hr⟩ := bind_eq_ok.1 hr
  cases e0
  obtain ⟨_, s1, e1, hr⟩ := bind_eq_ok.1 hr
  obtain ⟨_, s2, e2, hr⟩ := bind_eq_ok.1 hr
  obtain ⟨pos, s3, e3, hr⟩ := bind_eq_ok.1 hr
  obtain ⟨before, s3', e0, hr⟩ := bind_eq_ok.1 hr
  cases e0
  obtain ⟨_, s4, e4, hr⟩ := bind_eq_ok.1 hr
  obtain ⟨hat, hcur⟩ := hend s4 ⟨s1, s2, s3, pos, e1, e2, e3, e4⟩
  rw [run_putSkip s.ostr.pos .jmp _ hat, ref_bytes] at hr
  obtain ⟨s5, hs5⟩ : ∃ s5 : Codegen, s5 = { s4 with
    ostr := s4.ostr.write (skipCode (toSkip s.ostr.pos (s4.ostr.pos + 2)) .jmp) } := ⟨_, rfl⟩
  refine ⟨s1, s2, s3, s4, s5, pos, e1, e2, e3, e4, hs5, ?_⟩
  have hcur5 : s5.curLoop = s.curLoop ++ [s.loopIdent + 1] := by rw [hs5]; exact hcur
  rw [← hs5] at hr
  obtain ⟨after, s5', e0, hr⟩ := bind_eq_ok.1 hr
  cases e0
  obtain ⟨_, s6, e6, hr⟩ := bind_eq_ok.1 hr
  cases e6
  rw [bind_ok (run_patchLoop _ _ _ _)] at hr
  obtain ⟨_, s7, e7, hr⟩ := bind_eq_ok.1 hr
  cases e7
  obtain ⟨_, s8, e8, hr⟩ := bind_eq_ok.1 hr
  cases hr
  unfold leaveLoop at e8
  rw [run_get_bind] at e8
  obtain ⟨_, s9, e9, e8⟩ := bind_eq_ok.1 e8
  obtain ⟨-, rfl⟩ := deref_ok e9
  cases e8
  have hlast : s5.curLoop.dropLast = s.curLoop := by rw [hcur5, List.dropLast_concat]
  rw [← hlast]
  rfl

/-- **The code of a loop.** -/
theorem emitLoop_compiles {x y : CGM Unit} (hs : Amid F d s)
    (hx : ∀ {s1 u s2}, Amid F (d + 1) s1 → SameNames s s1 → x.run s1 = .ok u s2 → OnlyWrites s1 s2 ∧
      Makes s1 s2 fun code => Evals F cond code s1.ostr.pos s2.ostr.pos)
    (hy : ∀ {s1 u s2}, Amid F (d + 1) s1 → SameNames s s1 → y.run s1 = .ok u s2 →
      Compiles F p need s1 s2)
    (h : (emitLoop x y).run s = .ok r s') :
    Compiles F (Flow.loop (testOf cond) Exit.turn p) (cond.need + need + 7) s s' := by
  have hse := hs.enter
  -- the condition and the block
  have hparts {s1 s2 s3 s4 : Codegen} {pos : Nat} (e1 : x.run s.enter = .ok () s1)
      (e2 : (putOp .not).run s1 = .ok () s2) (e3 : (putJump .jmpcnd).run s2 = .ok pos s3)
      (e4 : y.run s3 = .ok () s4) :
      pos = s1.ostr.pos + 3 ∧ s3.ostr.pos = s1.ostr.pos + 8 ∧ Compiles F p need s3 s4 ∧
        Opens s.enter s3 [pos] fun code _ => Tested F cond code s.ostr.pos s1.ostr.pos := by
    obtain ⟨hw, hm⟩ := hx hse ⟨rfl, rfl⟩ e1
    obtain ⟨e, p3, htest⟩ := test_opens hse.between hw hm e2 e3
    exact ⟨e, p3, hy (hse.opens htest) htest.sameNames e4, htest⟩
  obtain ⟨s1, s2, s3, s4, s5, pos, e1, e2, e3, e4, hs5, hs'⟩ := emitLoop_parts h (by
    rintro s4 ⟨s1, s2, s3, pos, e1, e2, e3, e4⟩
    obtain ⟨-, -, hbody, htest⟩ := hparts e1 e2 e3 e4
    exact ⟨stage_atEnd (hse.opens (htest.bind hbody)).between, (htest.bind hbody).curLoop⟩)
  obtain ⟨rfl, p3, hbody, htest⟩ := hparts e1 e2 e3 e4
  have hs4 := hse.opens (htest.bind hbody)
  -- the jump back
  have p5 : s5.ostr.pos = s4.ostr.pos + 7 := by
    rw [hs5]
    exact pos_put hs4.between _
  have hback : Opens s4 s5 [] fun code _ =>
      Sits code s4.ostr.pos (skipCode (toSkip s.ostr.pos (s4.ostr.pos + 2)) .jmp) := by
    rw [hs5]
    exact OnlyWrites.opens rfl (Makes.write s4 _)
  have hle := hback.le hs4.between
  have hle' := (htest.bind hbody).le hse.between
  obtain ⟨hp, hall⟩ := ((htest.bind hbody).bind hback).enclose hs.between hs.looped
    (List.Perm.refl _) hs'
  refine hall.mono ?_
  rintro code ctx ⟨⟨⟨hc, hf⟩, hjmp⟩, haddr⟩ hi hl
  have haddr := haddr _ (List.mem_singleton_self _)
  rw [p3, streamDiff_skip, p5] at haddr
  rw [hp, p5] at hl ⊢
  have hb : s.ostr.pos ≤ code.length := by
    have : s.enter.ostr.pos = s.ostr.pos := rfl
    omega
  have hin : Inside code ((s.ostr.pos, s4.ostr.pos + 7) :: ctx) := by
    intro c hmem
    rcases List.mem_cons.1 hmem with rfl | hmem
    · exact ⟨hb, hl⟩
    · exact hi c hmem
  rw [p5] at hf
  have hf := hf hin (by omega)
  rw [p3] at hf
  exact Fragment.loop hc.evals hc.not (hc.skip haddr) hb hf hjmp

/-- **A while loop.** -/
theorem generates_loop {stmt : Visit} (ht : exprTy F.types cond = some .bool)
    (h1 : Generates F (d + 1) stmt p need) :
    Generates F d (visitLoop (visit cond) stmt)
      (Flow.loop (testOf cond) Exit.turn p) (cond.need + need + 7) := by
  constructor
  intro s s' r hs h
  refine emitLoop_compiles hs (fun hs1 _ e => ?_) (fun hs1 _ e => ?_) h
  · obtain ⟨_, hv, -⟩ := expr_visits hs1 ht e
    exact ⟨hv.same, hv.code⟩
  · obtain ⟨_, e⟩ := visit_run e
    exact h1.compiles hs1 e

/-- the value of a counter -/
theorem putCounter_makes {sym : Symbol} {slot : VarSlot} {x : Str} {addr : Int64} (hs : Between s)
    (hx : F x = some slot) (ha : sym.addr = some addr) (hg : sym.isGlobal = slot.isGlobal)
    (hadr : addr.toInt32 = slot.addr) {u : Unit} (h : (putCounter sym addr).run s = .ok u s') :
    OnlyWrites s s' ∧ Makes s s' fun code => Evals F (.var x) code s.ostr.pos s'.ostr.pos := by
  obtain ⟨_, s1, h1, h⟩ := bind_eq_ok.1 h
  have h1' : (putVarAddr sym).run s = .ok () s1 := by
    unfold putVarAddr
    rw [ha]
    exact h1
  obtain ⟨hw1, hp1, hm1⟩ := putVarAddr_makes hs ha hg hadr h1'
  obtain ⟨hw2, hp2, hm2⟩ := putOp_makes (hm1.between hs) h
  refine ⟨hw1.trans hw2, (hm1.bind hm2).mono fun code hc => ?_⟩
  rw [hp2, hp1]
  exact Evals.var hx hc.1 (hp1 ▸ hc.2)

omit [MathLib TReal] in
/-- what a name stands for, with its slot -/
theorem resolved_slot {x : Str} {slot : VarSlot} {sym : Symbol} (hF : s.HasSlots F)
    (hx : F x = some slot) (hr : s.resolve x none = some sym) :
    ∃ addr, sym.addr = some addr ∧ sym.ty = slot.ty.sym ∧ sym.isGlobal = slot.isGlobal ∧
      addr.toInt32 = slot.addr := by
  obtain ⟨sym', addr, hr', h⟩ := slotOf_some (hF.slot x slot hx)
  rw [hr] at hr'
  cases hr'
  exact ⟨addr, h⟩

omit [MathLib TReal] in
theorem SameNames.resolve (h : SameNames s s') {x : Str} {sym : Symbol}
    (hr : s.resolve x none = some sym) : s'.resolve x none = some sym := by
  unfold Codegen.resolve at hr ⊢
  rw [h.1, h.2]
  exact hr

/-- **The code of an assignment statement.** -/
theorem generates_assign {x : Str} {slot : VarSlot} (hx : F x = some slot)
    (ht : exprTy F.types expr = some slot.ty) :
    Generates F d (visitAssign [x] (some (visit expr))) (assignTo x expr) (expr.need + 14) := by
  constructor
  intro s s' r hs h
  obtain ⟨_, s1, e1, h⟩ := bind_eq_ok.1 h
  obtain ⟨_, hv, hs1⟩ := expr_visits hs ht e1
  obtain ⟨_, s2, e2, h⟩ := bind_eq_ok.1 h
  cases h
  rw [List.mapM_cons] at e2
  obtain ⟨_, s3, e3, e2⟩ := bind_eq_ok.1 e2
  cases e2
  obtain ⟨sym, s4, e4, e3⟩ := bind_eq_ok.1 e3
  obtain ⟨addr, ha, hty, hg, hadr⟩ := resolved_slot hs1.slots hx (getSym_resolve e4)
  obtain rfl := getSym_eq _ _ _ _ _ _ e4
  rw [ha] at e3
  obtain ⟨_, s5, e5, e3⟩ := bind_eq_ok.1 e3
  obtain ⟨_, s6, e6, e3⟩ := bind_eq_ok.1 e3
  cases e3
  exact assign_compiles hs.between hs.slots hx ht ha hg hadr hv (castTo_makes hs1.between hty e5) e6

/-- **The condition of a counted loop.** -/
theorem countCond_visits {x : Str} {slot : VarSlot} {sym : Symbol} {addr : Int64} {stop : AST}
    (hs : Amid F d s) (hx : F x = some slot) (hr : s.resolve x none = some sym)
    (ha : sym.addr = some addr) (ht : exprTy F.types stop = some .int)
    {u : Unit} (h : (do
      putCounter (← reload sym) addr
      (visit stop).run_
      putOp .lequ : CGM Unit).run s = .ok u s') : OnlyWrites s s' ∧
      Makes s s' fun code => Evals F (countCond x stop) code s.ostr.pos s'.ostr.pos := by
  obtain ⟨addr', ha', hty, hg, hadr⟩ := resolved_slot hs.slots hx hr
  rw [ha] at ha'
  cases ha'
  rw [bind_ok (reload_resolved hs.slots hr)] at h
  obtain ⟨_, s1, e1, h⟩ := bind_eq_ok.1 h
  obtain ⟨hw1, hm1⟩ := putCounter_makes hs.between hx ha hg hadr e1
  obtain ⟨_, s2, e2, h⟩ := bind_eq_ok.1 h
  have hs1 := hs.opens (OnlyWrites.opens hw1 hm1)
  obtain ⟨_, hv, hs2⟩ := expr_visits hs1 ht e2
  obtain ⟨hw3, hp3, hm3⟩ := putOp_makes hs2.between h
  refine ⟨(hw1.trans hv.same).trans hw3, ((hm1.bind hv.code).bind hm3).mono ?_⟩
  rintro code ⟨⟨c1, c2⟩, c3⟩
  rw [hp3]
  refine evals_op c1 (Glides.refl _ _) c2 (Nat.le_refl _) fun σ v hv => ?_
  obtain ⟨w1, w2, ev1, ev2, hturn⟩ := TurnsTo.comp (.var x) stop .leq σ v hv
  exact ⟨w1, w2, ev1, ev2, hturn code _ c3⟩

/-- the increment of a counted loop, which is one if there is none -/
def visitInc (inc : Option AST) : CGM Unit :=
  match visitOpt inc with
  | some inc => inc.run_
  | none => pushIntConst 1

theorem visitInc_visits {inc : Option AST} {u : Unit} (hs : Amid F d s)
    (ht : exprTy F.types (inc.getD (.intConst 1)) = some .int)
    (h : (visitInc inc).run s = .ok u s') :
    ∃ r, Visits F (inc.getD (.intConst 1)) s r s' ∧ Amid F d s' := by
  cases inc with
  | some inc => exact expr_visits hs ht h
  | none =>
    have h' : (visit (.intConst 1)).run_.run s = .ok u s' := by
      show (Visit.run_ (visitConst (pushIntConst 1) intConst)).run s = .ok u s'
      refine bind_eq_ok.2 ⟨some intConst, s', bind_eq_ok.2 ⟨u, s', h, rfl⟩, rfl⟩
    exact expr_visits hs ht h'

/-- **The next turn of a counted loop.** -/
theorem countNext_compiles {x : Str} {slot : VarSlot} {sym : Symbol} {addr : Int64}
    {inc : Option AST} (hs : Amid F d s) (hx : F x = some slot)
    (hr : s.resolve x none = some sym) (ha : sym.addr = some addr) (hslot : slot.ty = .int)
    (ht : exprTy F.types (inc.getD (.intConst 1)) = some .int) {u : Unit}
    (h : (do
      visitInc inc
      putCounter (← reload sym) addr
      putOp .add
      assignVar (← reload sym) : CGM Unit).run s = .ok u s') :
    Compiles F (assignTo x (countNext x inc)) ((countNext x inc).need + 14) s s' := by
  obtain ⟨addr', ha', hty, hg, hadr⟩ := resolved_slot hs.slots hx hr
  rw [ha] at ha'
  cases ha'
  obtain ⟨_, s1, e1, h⟩ := bind_eq_ok.1 h
  obtain ⟨_, hv, hs1⟩ := visitInc_visits hs ht e1
  have hr1 := (OnlyWrites.opens hv.same hv.code).sameNames.resolve hr
  rw [bind_ok (reload_resolved hs1.slots hr1)] at h
  obtain ⟨_, s2, e2, h⟩ := bind_eq_ok.1 h
  obtain ⟨hw2, hm2⟩ := putCounter_makes hs1.between hx ha hg hadr e2
  obtain ⟨_, s3, e3, h⟩ := bind_eq_ok.1 h
  obtain ⟨hw3, hp3, hm3⟩ := putOp_makes (hm2.between hs1.between) e3
  have hall := (hv.code.bind hm2).bind hm3
  have hw := (hv.same.trans hw2).trans hw3
  have hopen := OnlyWrites.opens hw hall
  have hs3 := hs.opens hopen
  rw [bind_ok (reload_resolved hs3.slots (hopen.sameNames.resolve hr))] at h
  have htnext : exprTy F.types (countNext x inc) = some slot.ty := by
    have hxt : exprTy F.types (.var x) = some .int := by
      show (F x).map VarSlot.ty = some .int
      rw [hx, ← hslot]
      rfl
    show opTy .int .int (exprTy F.types (inc.getD (.intConst 1))) (exprTy F.types (.var x)) = _
    rw [ht, hxt, hslot]
    rfl
  have hvis : Visits F (countNext x inc) s none s3 := by
    refine ⟨hw, hall.mono ?_⟩
    rintro code ⟨⟨c1, c2⟩, c3⟩
    rw [hp3]
    refine evals_op c1 (Glides.refl _ _) c2 (Nat.le_refl _) fun σ v hv => ?_
    have hturn : TurnsTo (countNext x inc) (inc.getD (.intConst 1)) (.var x) OpCode.add :=
      TurnsTo.arith .add fun _ => rfl
    obtain ⟨w1, w2, ev1, ev2, hturn⟩ := hturn σ v hv
    exact ⟨w1, w2, ev1, ev2, hturn code _ c3⟩
  refine assign_compiles hs.between hs.slots hx htnext ha hg hadr hvis ?_ h
  exact ⟨rfl, (Makes.refl s3).mono fun code _ => Or.inl rfl⟩

/-- **A counted loop.** -/
theorem generates_rangedLoop {x : Str} {slot : VarSlot} {begin stop : AST} {inc : Option AST}
    {stmt : Visit} (hx : F x = some slot) (hslot : slot.ty = .int)
    (hb : exprTy F.types begin = some .int) (hstop : exprTy F.types stop = some .int)
    (hinc : exprTy F.types (inc.getD (.intConst 1)) = some .int)
    (h1 : Generates F (d + 1) stmt p need) :
    Generates F d (visitRangedLoop x (visit begin) (visit stop) (visitOpt inc) stmt)
      (Flow.seq (assignTo x begin) (Flow.loop (testOf (countCond x stop)) Exit.turn
        (Flow.seq p (assignTo x (countNext x inc)))))
      (begin.need + 14 + ((countCond x stop).need + (need + ((countNext x inc).need + 14)) + 7)) := by
  constructor
  intro s s' r hs h
  obtain ⟨_, s1, e1, h⟩ := bind_eq_ok.1 h
  obtain ⟨_, hv, hs1⟩ := expr_visits hs hb e1
  obtain ⟨sym, s2, e2, h⟩ := bind_eq_ok.1 h
  have hr := getSym_resolve e2
  obtain ⟨addr, ha, hty, hg, hadr⟩ := resolved_slot hs1.slots hx hr
  obtain rfl := getSym_eq _ _ _ _ _ _ e2
  rw [ha] at h
  obtain ⟨_, s3, e3, h⟩ := bind_eq_ok.1 h
  obtain ⟨_, s4, e4, h⟩ := bind_eq_ok.1 h
  have hfirst := assign_compiles hs.between hs.slots hx (hslot ▸ hb) ha hg hadr hv
    (castTo_makes hs1.between hty e3) e4
  have hs4 := hs.opens hfirst
  have hr4 : s4.resolve x none = some sym := by
    obtain ⟨hw3, hm3⟩ := castTo_makes hs1.between hty e3
    obtain ⟨hw4, -, hm4⟩ := assignVar_makes (hm3.between hs1.between) ha hg hadr e4
    exact (OnlyWrites.opens (hw3.trans hw4) (hm3.bind hm4)).sameNames.resolve hr
  refine hfirst.seq ?_ hs.between
  refine emitLoop_compiles hs4 (fun hs5 hn e => ?_) (@fun s5 u s7 hs5 hn e => ?_) h
  · exact countCond_visits hs5 hx (hn.resolve hr4) ha hstop e
  · obtain ⟨_, s6, e6, e⟩ := bind_eq_ok.1 e
    obtain ⟨_, e6⟩ := visit_run e6
    have hbody := h1.compiles hs5 e6
    have hr6 := (hn.trans (Opens.sameNames hbody)).resolve hr4
    refine hbody.seq ?_ hs5.between
    have e' : (do
        visitInc inc
        putCounter (← reload sym) addr
        putOp .add
        assignVar (← reload sym) : CGM Unit).run s6 = .ok u s7 := by
      cases inc with
      | none => exact e
      | some inc => exact e
    exact countNext_compiles (hbody.amid hs5) hx hr6 ha hslot hinc e'

/-! ## jumps out of loops -/

omit [MathLib TReal] in
/-- the loop that `break` or `next` is about, as a place among the loops around -/
theorem targetLoop_depth {curLoop : List Nat} {numLoops : Int64} {i : Nat}
    (h : targetLoop curLoop numLoops = some i) (begins ends : Nat → Nat) :
    (loopCtx curLoop begins ends)[exitDepth numLoops curLoop.length]? = some (begins i, ends i) := by
  have hpos : 0 < curLoop.length := by
    have hi : i ∈ curLoop := targetLoop_mem h
    exact List.length_pos_of_mem hi
  unfold targetLoop at h
  dsimp only at h
  -- both count from the innermost loop, and stop at the outermost one
  have hdepth : (if (decide (numLoops.toUInt64.toNat ≥ curLoop.length) || decide (numLoops < 0)) = true
      then curLoop.length - 1 else numLoops.toInt.toNat) = exitDepth numLoops curLoop.length := by
    unfold exitDepth
    by_cases hn : numLoops < 0
    · simp [hn]
    · have hnn : 0 ≤ numLoops.toInt := by
        rwa [Int64.lt_iff_toInt_lt, not_lt] at hn
      have e : numLoops.toUInt64.toNat = numLoops.toInt.toNat := by
        rw [Int64.toInt, BitVec.toInt_eq_toNat_of_msb]
        · rfl
        · rw [BitVec.msb_eq_false_iff_two_mul_lt]
          have := numLoops.toBitVec.toInt_eq_toNat_cond
          have h2 : numLoops.toInt = numLoops.toBitVec.toInt := rfl
          split at this
          · assumption
          · have := numLoops.toBitVec.isLt
            omega
      rw [e, if_neg hn]
      split
      · next hc =>
        simp only [hn, decide_false, Bool.or_false, decide_eq_true_eq] at hc
        omega
      · next hc =>
        simp only [hn, decide_false, Bool.or_false, decide_eq_true_eq] at hc
        omega
  rw [hdepth] at h
  have hlt : exitDepth numLoops curLoop.length < curLoop.length := by
    unfold exitDepth
    split <;> omega
  unfold loopCtx
  rw [List.getElem?_map, List.getElem?_reverse hlt,
    show curLoop.length - 1 - exitDepth numLoops curLoop.length =
      curLoop.length - exitDepth numLoops curLoop.length - 1 by omega, h]
  rfl

/-- **`break`.** -/
theorem generates_break (numLoops : Int64) :
    Generates F d (visitLoopBreak numLoops) (Flow.leave (.brk (exitDepth numLoops d))) 5 := by
  constructor
  intro s s' r hs hrun
  unfold visitLoopBreak at hrun
  rw [run_get_bind] at hrun
  split at hrun
  · cases hrun
  · obtain ⟨i, s1, e1, h2⟩ := bind_eq_ok.1 hrun
    obtain ⟨hi, e⟩ := deref_ok e1
    rw [e] at h2
    obtain ⟨pos, s2, e2, h3⟩ := bind_eq_ok.1 h2
    obtain ⟨_, s3, e3, h4⟩ := bind_eq_ok.1 h3
    cases h4
    have hpos := (jump_makes hs.between e2).1
    have hs' : s' = { s2 with
        loopBeginComefroms := s2.loopBeginComefroms ++ []
        loopEndComefroms := s2.loopEndComefroms ++ [(i, pos)] } := by
      cases e3
      rw [List.append_nil]
    refine (Opens.save hs.between e2 rfl (fun x hx => ?_) hs').mono ?_
    · rw [List.mem_singleton.1 hx]
      exact targetLoop_mem hi
    · rintro code ctx ⟨begins, ends, rfl, -, hb, hpush, hjmp⟩ hin _
      have haddr := hb _ (List.mem_singleton_self _)
      rw [hpos] at haddr
      have hc := targetLoop_depth hi begins ends
      rw [hs.depth] at hc
      refine Fragment.leave (sits_skipCode hpush haddr hjmp) (hin _ (List.mem_of_getElem? hc)).2 ?_
      exact fun base e σ s hp => ⟨_, hc, hp⟩

/-- **`next`.** -/
theorem generates_next (numLoops : Int64) :
    Generates F d (visitLoopNext numLoops) (Flow.leave (.nxt (exitDepth numLoops d))) 5 := by
  constructor
  intro s s' r hs hrun
  unfold visitLoopNext at hrun
  rw [run_get_bind] at hrun
  split at hrun
  · cases hrun
  · obtain ⟨i, s1, e1, h2⟩ := bind_eq_ok.1 hrun
    obtain ⟨hi, e⟩ := deref_ok e1
    rw [e] at h2
    obtain ⟨pos, s2, e2, h3⟩ := bind_eq_ok.1 h2
    obtain ⟨_, s3, e3, h4⟩ := bind_eq_ok.1 h3
    cases h4
    have hpos := (jump_makes hs.between e2).1
    have hs' : s' = { s2 with
        loopBeginComefroms := s2.loopBeginComefroms ++ [(i, pos)]
        loopEndComefroms := s2.loopEndComefroms ++ [] } := by
      cases e3
      rw [List.append_nil]
    refine (Opens.save hs.between e2 rfl (fun x hx => ?_) hs').mono ?_
    · rw [List.mem_singleton.1 hx]
      exact targetLoop_mem hi
    · rintro code ctx ⟨begins, ends, rfl, hn, -, hpush, hjmp⟩ hin _
      have haddr := hn _ (List.mem_singleton_self _)
      rw [hpos] at haddr
      have hc := targetLoop_depth hi begins ends
      rw [hs.depth] at hc
      refine Fragment.leave (sits_skipCode hpush haddr hjmp) (hin _ (List.mem_of_getElem? hc)).1 ?_
      exact fun base e σ s hp => ⟨_, hc, hp⟩

/-! ## select statements -/

/-- the visit of a case without the address behind all cases -/
theorem visitCase_opens {val : AST} {stmts : Visit} {x : Nat × Nat} (hs : Amid F d s)
    (ht1 : exprTy F.types expr = some .int) (ht2 : exprTy F.types val = some .int)
    (h1 : Generates F d stmts p need)
    (h : (visitCase (visit expr) (visit val) stmts).run s = .ok x s') :
    x.2 = s'.ostr.pos ∧ Opens s s' [x.1] fun code ctx => ∀ (q n : Nat) (p' : Flow.Prog Exit Store),
      Inside code ctx → q ≤ code.length → s'.ostr.pos ≤ code.length →
      Sits code x.1 (Raw.enc (streamDiff q x.2)) → Fragment F p' n code ctx s'.ostr.pos q →
      Fragment F (Flow.cond (testOf (.comp expr val .equ)) p p')
        (expr.need + val.need + 9 + need + n + 7) code ctx s.ostr.pos q := by
  obtain ⟨_, s1, e1, h⟩ := bind_eq_ok.1 h
  obtain ⟨_, s2, e2, h⟩ := bind_eq_ok.1 h
  obtain ⟨_, s3, e3, h⟩ := bind_eq_ok.1 h
  obtain ⟨_, s4, e4, h⟩ := bind_eq_ok.1 h
  obtain ⟨skip, s5, e5, h⟩ := bind_eq_ok.1 h
  obtain ⟨before, s5', hp, h⟩ := bind_eq_ok.1 h
  cases hp
  obtain ⟨_, s6, e6, h⟩ := bind_eq_ok.1 h
  obtain ⟨jmp, s7, e7, h⟩ := bind_eq_ok.1 h
  obtain ⟨after, s7', hp, h⟩ := bind_eq_ok.1 h
  cases hp
  have hend : s' = { s7 with
      ostr := (s7.ostr.patches [(skip, streamDiff s7.ostr.pos s5.ostr.pos)]).toEnd } ∧
      x = (jmp, s7.ostr.pos) := by
    cases h
    exact ⟨rfl, rfl⟩
  obtain ⟨hend, rfl⟩ := hend
  -- the comparison
  obtain ⟨_, hv1, hs1⟩ := expr_visits hs ht1 e1
  obtain ⟨_, hv2, hs2⟩ := expr_visits hs1 ht2 e2
  obtain ⟨hw3, hp3, hm3⟩ := putOp_makes hs2.between e3
  have hcomp : Makes s s3 fun code => Evals F (.comp expr val .equ) code s.ostr.pos s3.ostr.pos := by
    refine ((hv1.code.bind hv2.code).bind hm3).mono ?_
    rintro code ⟨⟨c1, c2⟩, c3⟩
    rw [hp3]
    refine evals_op c1 (Glides.refl _ _) c2 (Nat.le_refl _) fun σ v hv => ?_
    obtain ⟨w1, w2, ev1, ev2, hturn⟩ := TurnsTo.comp expr val .equ σ v hv
    exact ⟨w1, w2, ev1, ev2, hturn code _ c3⟩
  obtain ⟨rfl, p5, htest⟩ := test_opens hs.between ((hv1.same.trans hv2.same).trans hw3) hcomp e4 e5
  -- the block and its jumps
  obtain ⟨_, e6⟩ := visit_run e6
  have hblock := h1.compiles (hs.opens htest) e6
  obtain ⟨rfl, p7, hjmp⟩ := Opens.jump (hs.opens (htest.bind hblock)).between e7
  obtain ⟨p8, hall⟩ := ((htest.bind hblock).bind hjmp).fill [(_, _)] [s6.ostr.pos + 2] hs.between
    (List.Perm.swap _ _ _) hend
  refine ⟨p8.symm, hall.mono ?_⟩
  rintro code ctx ⟨⟨⟨hc, hf⟩, hpush, hjmp⟩, haddr⟩ q n p' hi hq hl haddr' hf'
  have haddr := haddr _ (List.mem_singleton_self _)
  rw [p5, streamDiff_skip, p7] at haddr
  rw [p8, p7] at hl hf'
  have hto : streamDiff q s7.ostr.pos = toSkip q (s6.ostr.pos + 2) := by
    rw [p7, toSkip_eq]
  rw [hto] at haddr'
  have hf := hf hi (by omega)
  rw [p5] at hf
  exact Fragment.cond_else hc.evals hc.not (hc.skip haddr) hf (sits_skipCode hpush haddr' hjmp) hq hf'

/-- what is behind all cases -/
def patchJumps (q : Nat) (rs : List (Nat × Nat)) : List (Nat × Int32) :=
  rs.map fun x => (x.1, streamDiff q x.2)

omit [MathLib TReal] in
theorem run_patchJumps (q : Nat) (rs : List (Nat × Nat)) (s : Codegen) :
    (rs.forM fun x => patch x.1 (streamDiff q x.2) : CGM Unit).run s =
      .ok ⟨⟩ { s with ostr := s.ostr.patches (patchJumps q rs) } := by
  induction rs generalizing s with
  | nil => rfl
  | cons x rs ih => exact ih _

/-- the visits of the cases, without the addresses behind all of them -/
def CasesOpen (F : VarSlots) (d : Nat) (expr : AST) (cases : List (AST × AST)) (s : Codegen)
    (rs : List (Nat × Nat)) (s' : Codegen) : Prop :=
  Opens s s' (rs.map Prod.fst).reverse fun code ctx => ∀ (q n : Nat) (p' : Flow.Prog Exit Store),
    Inside code ctx → q ≤ code.length → s'.ostr.pos ≤ code.length →
    (∀ x ∈ patchJumps q rs, Sits code x.1 (Raw.enc x.2)) → Fragment F p' n code ctx s'.ostr.pos q →
    Fragment F (execCases cases expr p' d) (needCases cases + cases.length * (expr.need + 16) + n)
      code ctx s.ostr.pos q

theorem CasesOpen.nil (expr : AST) (s : Codegen) : CasesOpen F d expr [] s [] s := by
  have h : Opens s s [] fun code _ => True := OnlyWrites.opens rfl (Makes.refl s)
  refine h.mono ?_
  intro code ctx _ q n p' _ _ _ _ hf
  exact hf.mono (by omega)

omit [MathLib TReal] in
theorem execCases_cons (val stmt : AST) (cases_ : List (AST × AST)) (expr : AST)
    (rest : Flow.Prog Exit Store) (d : Nat) : execCases ((val, stmt) :: cases_) expr rest d =
      Flow.cond (testOf (.comp expr val .equ)) (stmt.exec d) (execCases cases_ expr rest d) := rfl

omit [MathLib TReal] in
theorem needCases_cons (val stmt : AST) (cases_ : List (AST × AST)) :
    needCases ((val, stmt) :: cases_) = val.need + stmt.need + needCases cases_ := rfl

theorem CasesOpen.cons {val stmt : AST} {cases_ : List (AST × AST)} {x : Nat × Nat}
    {rs : List (Nat × Nat)} {s1 : Codegen} (hs : Amid F d s)
    (h1 : Opens s s1 [x.1] fun code ctx => ∀ (q n : Nat) (p' : Flow.Prog Exit Store),
      Inside code ctx → q ≤ code.length → s1.ostr.pos ≤ code.length →
      Sits code x.1 (Raw.enc (streamDiff q x.2)) → Fragment F p' n code ctx s1.ostr.pos q →
      Fragment F (Flow.cond (testOf (.comp expr val .equ)) (stmt.exec d) p')
        (expr.need + val.need + 9 + stmt.need + n + 7) code ctx s.ostr.pos q)
    (h2 : CasesOpen F d expr cases_ s1 rs s') :
    CasesOpen F d expr ((val, stmt) :: cases_) s (x :: rs) s' := by
  have hle := Opens.le h2 (hs.opens h1).between
  have hb := Opens.bind h1 h2
  unfold CasesOpen
  rw [List.map_cons, List.reverse_cons]
  refine hb.mono ?_
  rintro code ctx ⟨hc, hc'⟩ q n p' hi hq hl hsits hf
  have e : patchJumps q (x :: rs) = (x.1, streamDiff q x.2) :: patchJumps q rs := rfl
  rw [e, List.forall_mem_cons] at hsits
  have hrest := hc' q n p' hi hq hl hsits.2 hf
  have hfirst := hc q _ _ hi hq (hle.trans hl) hsits.1 hrest
  rw [execCases_cons]
  refine hfirst.mono ?_
  rw [needCases_cons, List.length_cons, Nat.succ_mul]
  omega

/-- **The code of a select statement.** -/
theorem CasesOpen.compiles {cases_ : List (AST × AST)} {rs : List (Nat × Nat)} {s1 s2 : Codegen}
    {rest : Flow.Prog Exit Store} (hs : Amid F d s)
    (h1 : CasesOpen F d expr cases_ s rs s1) (h2 : Compiles F rest need s1 s2)
    (h : s' = { s2 with ostr := (s2.ostr.patches (patchJumps s2.ostr.pos rs)).toEnd }) :
    Compiles F (execCases cases_ expr rest d)
      (needCases cases_ + cases_.length * (expr.need + 16) + need) s s' := by
  have hs1 := hs.opens h1
  have hle := Opens.le h2 hs1.between
  have hk : ([] ++ (rs.map Prod.fst).reverse).Perm
      ((patchJumps s2.ostr.pos rs).map Prod.fst ++ []) := by
    have e : (patchJumps s2.ostr.pos rs).map Prod.fst = rs.map Prod.fst := by
      unfold patchJumps
      rw [List.map_map]
      rfl
    rw [e, List.append_nil, List.nil_append]
    exact List.reverse_perm _
  obtain ⟨hp, hall⟩ := (Opens.bind h1 h2).fill _ [] hs.between hk h
  refine hall.mono ?_
  rintro code ctx ⟨⟨hc, hf⟩, hsits⟩ hi hl
  rw [hp] at hl ⊢
  exact hc _ _ _ hi hl (hle.trans hl) hsits (hf hi hl)

/-! ## all statements -/

omit [MathLib TReal] in
theorem typed_and {a b : Bool} (h : (a && b) = true) : a = true ∧ b = true := by simpa using h

theorem assign_case (idents : List Str) (expr : Option AST) (loops : List Bool)
    (ht : (AST.assign idents expr).typed F.types loops = true) :
    Generates F d (visit (.assign idents expr)) ((AST.assign idents expr).exec d)
      (AST.assign idents expr).need := by
  obtain _ | ⟨x, _ | ⟨y, idents⟩⟩ := idents
  · cases ht
  · cases expr with
    | none => cases ht
    | some expr =>
      obtain ⟨h1, h2⟩ := typed_and ht
      obtain ⟨t, hx⟩ := Option.isSome_iff_exists.1 h1
      obtain ⟨slot, hslot, rfl⟩ := Option.map_eq_some_iff.1 hx
      have hty : exprTy F.types expr = some slot.ty := by
        rw [← hx]
        simpa using h2
      exact generates_assign hslot hty
  · cases ht

theorem ranged_case {x : Str} {begin stop stmt : AST} {inc : Option AST}
    (ht : (exprTy F.types begin == F.types x && exprTy F.types (countCond x stop) == some .bool &&
      exprTy F.types (countNext x inc) == F.types x) = true)
    (h1 : Generates F (d + 1) (visit stmt) (stmt.exec (d + 1)) stmt.need) :
    Generates F d (visit (.rangedLoop x begin stop inc stmt))
      ((AST.rangedLoop x begin stop inc stmt).exec d) (AST.rangedLoop x begin stop inc stmt).need := by
  obtain ⟨ht, hnext⟩ := typed_and ht
  obtain ⟨hbegin, hcond⟩ := typed_and ht
  have hcond : exprTy F.types (countCond x stop) = some .bool := by simpa using hcond
  obtain ⟨hx, hstop, -⟩ := opTy_some
    (show opTy .int .bool (exprTy F.types (.var x)) (exprTy F.types stop) = some .bool from hcond)
  obtain ⟨slot, hslot, hty⟩ := Option.map_eq_some_iff.1 (show F.types x = some .int from hx)
  have hb : exprTy F.types begin = some .int := by
    rw [← show F.types x = some .int from hx]
    simpa using hbegin
  have hnext : exprTy F.types (countNext x inc) = some .int := by
    rw [← show F.types x = some .int from hx]
    simpa using hnext
  obtain ⟨hinc, -⟩ := opTy_some (show opTy .int .int (exprTy F.types (inc.getD (.intConst 1)))
    (exprTy F.types (.var x)) = some .int from hnext)
  constructor
  intro s s' r hs h
  refine ((generates_rangedLoop hslot hty hb hstop hinc h1).compiles hs h).mono ?_
  have h1 : (countCond x stop).need = 9 + stop.need + 9 := rfl
  have h2 : (countNext x inc).need = (inc.getD (.intConst 1)).need + 9 + 9 := rfl
  have h3 : (AST.rangedLoop x begin stop inc stmt).need =
      begin.need + stop.need + needOpt inc + stmt.need + 80 := rfl
  have h4 : (inc.getD (.intConst 1)).need ≤ needOpt inc + 9 := by
    cases inc with
    | none => exact Nat.le_refl 9
    | some inc => exact Nat.le_add_right inc.need 9
  omega

mutual

/-- **The code of a statement** does what the statement means. -/
theorem visit_compiles (ast : AST) (loops : List Bool) (ht : ast.typed F.types loops = true) :
    Generates F loops.length (visit ast) (ast.exec loops.length) ast.need := by
  cases ast with
  | assign idents expr => exact assign_case idents expr loops ht
  | stmts stmts =>
    constructor
    intro s s' r hs h
    obtain ⟨_, s1, e1, h⟩ := bind_eq_ok.1 h
    cases h
    exact list_compiles stmts loops ht hs e1
  | cond cond ifStmt elseStmt =>
    obtain ⟨ht, he⟩ := typed_and ht
    obtain ⟨hc, hi⟩ := typed_and ht
    have hif := visit_compiles ifStmt loops hi
    have hc : exprTy F.types cond = some .bool := by simpa using hc
    cases elseStmt with
    | none => exact generates_cond hc hif
    | some elseStmt => exact generates_cond_else hc hif (visit_compiles elseStmt loops he)
  | cases expr cases_ defaultStmts =>
    obtain ⟨ht, hd⟩ := typed_and ht
    obtain ⟨he, hc⟩ := typed_and ht
    have he : exprTy F.types expr = some .int := by simpa using he
    constructor
    intro s s' r hs h
    obtain ⟨rs, s1, e1, h⟩ := bind_eq_ok.1 h
    have h1 := cases_compile cases_ loops expr he hc hs e1
    have hs1 := hs.opens h1
    cases defaultStmts with
    | none =>
      obtain ⟨q, s1', hp, h⟩ := bind_eq_ok.1 h
      cases hp
      rw [bind_ok (run_patchJumps _ _ _)] at h
      cases h
      exact h1.compiles hs (Compiles.refl s1) rfl
    | some stmts =>
      obtain ⟨_, s2, e2, h⟩ := bind_eq_ok.1 h
      obtain ⟨q, s2', hp, h⟩ := bind_eq_ok.1 h
      cases hp
      rw [bind_ok (run_patchJumps _ _ _)] at h
      cases h
      obtain ⟨_, e2⟩ := visit_run e2
      exact h1.compiles hs ((visit_compiles stmts loops hd).compiles hs1 e2) rfl
  | loop cond stmt =>
    obtain ⟨hc, hb⟩ := typed_and ht
    have hc : exprTy F.types cond = some .bool := by simpa using hc
    have hbody : Generates F (loops.length + 1) (visit stmt) (stmt.exec (loops.length + 1)) stmt.need :=
      visit_compiles stmt (false :: loops) hb
    exact generates_loop hc hbody
  | rangedLoop ident begin stop inc stmt =>
    obtain ⟨ht, hb⟩ := typed_and ht
    have hbody : Generates F (loops.length + 1) (visit stmt) (stmt.exec (loops.length + 1)) stmt.need :=
      visit_compiles stmt (true :: loops) hb
    exact ranged_case ht hbody
  | loopBreak numLoops => exact (generates_break numLoops).mono (show 5 ≤ 9 by omega)
  | loopNext numLoops => exact (generates_next numLoops).mono (show 5 ≤ 9 by omega)
  | _ => cases ht

/-- statements one after the other -/
theorem list_compiles (asts : List AST) (loops : List Bool) (ht : typedList F.types asts loops = true)
    {s s' : Codegen} {u : Unit} (hs : Amid F loops.length s)
    (h : ((visitList asts).forM Visit.run_).run s = .ok u s') :
    Compiles F (execList asts loops.length) (needList asts) s s' := by
  cases asts with
  | nil =>
    cases h
    exact Compiles.refl s
  | cons ast asts =>
    obtain ⟨h1, h2⟩ := typed_and ht
    obtain ⟨_, s1, e1, h⟩ := bind_eq_ok.1 h
    obtain ⟨_, e1⟩ := visit_run e1
    have hfirst := (visit_compiles ast loops h1).compiles hs e1
    exact hfirst.seq (list_compiles asts loops h2 (hfirst.amid hs) h) hs.between

/-- cases one after the other -/
theorem cases_compile (cases_ : List (AST × AST)) (loops : List Bool) (expr : AST)
    (he : exprTy F.types expr = some .int) (ht : typedCases F.types cases_ loops = true)
    {s s' : Codegen} {rs : List (Nat × Nat)} (hs : Amid F loops.length s)
    (h : ((visitPairs cases_).mapM fun (cond, stmts) => visitCase (visit expr) cond stmts).run s =
      .ok rs s') : CasesOpen F loops.length expr cases_ s rs s' := by
  cases cases_ with
  | nil =>
    cases h
    exact CasesOpen.nil expr s
  | cons x cases_ =>
    obtain ⟨val, stmt⟩ := x
    obtain ⟨ht, h3⟩ := typed_and ht
    obtain ⟨h1, h2⟩ := typed_and ht
    have h1 : exprTy F.types val = some .int := by simpa using h1
    unfold visitPairs at h
    rw [List.mapM_cons] at h
    obtain ⟨x, s1, e1, h⟩ := bind_eq_ok.1 h
    obtain ⟨rs, s2, e2, h⟩ := bind_eq_ok.1 h
    cases h
    obtain ⟨-, hopen⟩ := visitCase_opens hs he h1 (visit_compiles stmt loops h2) e1
    exact CasesOpen.cons hs hopen (cases_compile cases_ loops expr he h3 (hs.opens hopen) e2)

end

end

end MuF
