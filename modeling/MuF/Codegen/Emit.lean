import MuF.Codegen.Invariant
import MuF.Codegen.Rules

/-!
# Visitors without jumps

`goes_emits`: they only append plain instructions, references to constants and casts, and
`castOperands` puts a cast over a placeholder.  `visitVarDecl_goes`, `declareArgs_goes`: declarations
set addresses of symbols.
-/

set_option linter.unusedVariables false

namespace MuF

open Exec Layout

section
variable {T : SymTab} {outer : Bool} {P : List Nat} {s : Codegen} {is : List Piece}

theorem run_goes {α : Type} {x : CGM α} {a : α} {s' : Codegen} (hx : Keeps (Goes T outer) x)
    (h : x.run s = .ok a s') (ho : outer = true → s.around = ([], [])) (hi : Idle T P s is) :
    ∃ is', Idle T P s' is' ∧ Ext is is' ∧ s'.around = s.around :=
  hx s a s' h ho P is hi

theorem outer_of {s' : Codegen} (hc : s'.around = s.around)
    (ho : outer = true → s.around = ([], [])) : outer = true → s'.around = ([], []) := by
  rwa [hc]

/-! ## constants -/

theorem putOp_goes {op : OpCode} (h : (Instr.op op).Plain) : Keeps (Goes T outer) (putOp op) :=
  goes_instr h fun s hs => run_putOp op s

theorem putAddr_goes {ty : VMType} (h1 : ty.fixedSize = some 4) (h2 : ty ≠ .addrIp)
    (addr : Int32) : Keeps (Goes T outer) (putAddr ty addr) := by
  apply goes_instr (i := .push ty (Raw.enc addr))
  · exact ⟨h1.trans (congrArg some (Raw.length_enc addr).symm), h2⟩
  · exact fun s hs => run_putAddr ty addr hs

theorem pushConst_goes {d : TData} (h : (d.ty .unknown).fixedSize = some d.payload.length) :
    Keeps (Goes T outer) (pushConst d) := by
  apply goes_instr (i := .push (d.ty .unknown) d.payload)
  · refine ⟨h, ?_⟩
    cases d <;> simp [Data.ty]
  · exact fun s hs => run_pushConst d hs

/-- a reference to a constant, with the constant and the address to be added to -/
theorem Idle.constRef (h : Idle T P s is) (val : Str) :
    let pos := s.ostr.pos + 2
    let addr : Int := ((s.consttab.addConst val).1 : Int) - pos - 5
    Idle T P
      { s with
        consttab := (s.consttab.addConst val).2
        constAddrs := s.constAddrs ++ [(pos, addr)]
        ostr := s.ostr.write (Piece.ref (Int32.ofInt addr) .rdmem).bytes }
      (is ++ [.ref (Int32.ofInt addr) .rdmem]) := by
  intro pos addr
  have hn := h.inv.names
  obtain ⟨strs, ht⟩ := hn.consts.table
  obtain ⟨ht', hval, hsub⟩ := ht.addConst val
  have hext := Ext.append is [.ref (Int32.ofInt addr) .rdmem]
  have hnew : IsRef IsConst (is ++ [.ref (Int32.ofInt addr) .rdmem]) pos :=
    ⟨_, _, _, congrArg (· + 2) h.pos, rfl, has_total⟩
  have hc : ConstRefs (s.consttab.addConst val).2 (s.constAddrs ++ [(pos, addr)])
      (is ++ [.ref (Int32.ofInt addr) .rdmem]) := by
    refine ⟨ht', ?_, ?_⟩
    · rintro q ⟨p, off, op, rfl, hk, hr⟩
      rcases has_append.1 hr with hr | ⟨h1, hr⟩
      · obtain ⟨a, ha⟩ := hn.consts.refs (p + 2) ⟨p, off, op, rfl, hk, hr⟩
        exact ⟨a, List.mem_append_left _ ha⟩
      · rcases hr with ⟨h2, -⟩ | ⟨-, hr⟩
        · obtain rfl : p = s.ostr.pos := by rw [h.pos]; omega
          exact ⟨addr, by simp [pos]⟩
        · exact hr.elim
    · intro x hx
      rcases List.mem_append.1 hx with hx | hx
      · obtain ⟨h1, y, hy, e⟩ := hn.consts.addrs x hx
        exact ⟨hext.isRef h1, y, hsub hy, e⟩
      · rw [List.mem_singleton.1 hx]
        exact ⟨hnew, _, hval, rfl⟩
  refine ⟨⟨?_, h.inv.framed.constRef _, ?_⟩, ?_⟩
  · rw [h.write_buf, code_append, code_singleton, List.append_nil]
  · refine ⟨hc, fun x hx => hext.boundary (hn.labels x hx), hn.loops, hn.rets, hn.syms, ?_,
      hn.calls⟩
    intro name sym hs hf a ha
    obtain ⟨t, hb, e⟩ := hn.addrs name sym hs hf a ha
    exact ⟨t, hext.boundary hb, e⟩
  · rw [h.write_buf, total_append, total_cons]
    rfl

theorem run_putConstRef (val : Str) (h : s.ostr.pos = s.ostr.buf.length) :
    let pos := s.ostr.pos + 2
    let addr : Int := ((s.consttab.addConst val).1 : Int) - pos - 5
    (putConstRef val).run s = .ok ()
      { s with
        consttab := (s.consttab.addConst val).2
        constAddrs := s.constAddrs ++ [(pos, addr)]
        ostr := s.ostr.write (Piece.ref (Int32.ofInt addr) .rdmem).bytes } := by
  intro pos addr
  have e : addr = ((s.consttab.addConst val).1 : Int) - pos - (vmTypeSize .addrIp true).toInt := rfl
  have hw : (((s.ostr.write [OpCode.push.code]).write [VMType.addrIp.code]).write
      (Raw.enc (Int32.ofInt addr))).write [OpCode.rdmem.code] =
      s.ostr.write (Piece.ref (Int32.ofInt addr) .rdmem).bytes := by
    rw [write_write _ h, write_write _ h, write_write _ h]
    simp [Piece.bytes, Piece.instrs, Instr.bytes]
  rw [← hw, e]
  rfl

theorem putConstRef_goes (val : Str) : Keeps (Goes T outer) (putConstRef val) := by
  intro s a s' h ho P is hi
  rw [run_putConstRef val hi.atEnd] at h
  cases h
  exact ⟨_, hi.constRef val, Ext.append _ _, rfl⟩

/-! ## casts -/

theorem castTo_goes (ty : Option Symbol) : Keeps (Goes T outer) (castTo ty) := by
  cases ty with
  | none => exact Keeps.pure _
  | some ty =>
    refine Keeps.bind (Keeps.onlyIf (putAddr_goes rfl (by decide) _)) fun _ => ?_
    exact putOp_goes (castOp_plain _ _)

theorem run_castTo_at (ty : Symbol) (pos : Nat) (s : Codegen) :
    (castTo (some ty) (some pos)).run s =
      let o := (⟨s.ostr.buf, pos⟩ : OStr).write [(castOp ty.ty false).1.code]
      .ok () { s with ostr := ⟨o.buf, o.buf.length⟩ } := by
  unfold castTo
  dsimp only
  rw [castOp_false, run_onlyIf_false_bind]
  rfl

/-- a cast over a position at the end -/
theorem castTo_end (ty : Option Symbol) (h : s.ostr.pos = s.ostr.buf.length) :
    (castTo ty (some s.ostr.buf.length)).run s = (castTo ty).run s := by
  cases ty with
  | none => rfl
  | some ty =>
    have e : (castTo (some ty)).run s =
        .ok () { s with ostr := s.ostr.write [(castOp ty.ty false).1.code] } := by
      unfold castTo
      dsimp only
      rw [castOp_false, run_onlyIf_false_bind]
      rfl
    rw [run_castTo_at, e, write_end _ h]
    simp [OStr.write]

/-- a cast over a placeholder -/
theorem castTo_at {l r : List Piece} {op : OpCode} (ty : Option Symbol) {a : Unit}
    {s' : Codegen} (hi : Idle T P s (l ++ .instr (.op op) :: r))
    (h : (castTo ty (some (total Piece.size l))).run s = .ok a s') :
    ∃ op', Idle T P s' (l ++ .instr (.op op') :: r) ∧ s'.around = s.around := by
  cases ty with
  | none =>
    cases h
    exact ⟨op, hi, rfl⟩
  | some ty =>
    rw [run_castTo_at] at h
    cases h
    have hs (op' : OpCode) : (Piece.instr (.op op')).size = (Piece.instr (.op op)).size := rfl
    have hbuf := write_op l r op (castOp ty.ty false).1 []
    rw [← hi.inv.buf, List.append_nil] at hbuf
    refine ⟨(castOp ty.ty false).1, ⟨⟨?_, ?_, ?_⟩, ?_⟩, rfl⟩
    · rw [List.append_nil]
      exact hbuf
    · exact hi.inv.framed.replace (castOp_plain _ _)
    · apply Names.ostr
      apply hi.inv.names.moved
      · exact fun t => (boundary_replace (hs _)).2
      · exact fun pos => ⟨IsRef.replace, IsRef.replace⟩
    · show (OStr.write _ _).buf.length = _
      rw [hbuf, length_code]

/-- code behind `is` stays behind it when the piece behind `is` is replaced -/
theorem Ext.split {i : Instr} {is' : List Piece} (h : Ext (is ++ [.instr i]) is') :
    ∃ l r, is' = l ++ .instr i :: r ∧ Same is l := by
  obtain ⟨js, e⟩ := h
  rw [List.map_append, List.append_assoc] at e
  obtain ⟨l, r, rfl, h1, h2⟩ := List.append_eq_map_iff.1 e
  obtain ⟨j, r, rfl, h3, -⟩ := List.map_eq_cons_iff.1 h2
  obtain rfl := shape_eq_instr h3
  exact ⟨l, r, rfl, ⟨[], by rw [List.append_nil, h1]⟩, ⟨[], by rw [List.append_nil, h1]⟩⟩

theorem castOperands_goes {term1 term2 : Visit} (h1 : Keeps (Goes T outer) term1)
    (h2 : Keeps (Goes T outer) term2) : Keeps (Goes T outer) (castOperands term1 term2) := by
  intro s a s' h ho P is hi
  unfold castOperands at h
  obtain ⟨sym1, s1, hr1, h⟩ := bind_eq_ok.1 h
  obtain ⟨is1, hi1, e1, hc1⟩ := run_goes h1 hr1 ho hi
  obtain ⟨pos1, s1', hp1, h⟩ := bind_eq_ok.1 h
  cases hp1
  obtain ⟨_, s2, hr2, h⟩ := bind_eq_ok.1 h
  have hi2 := hi1.instr (i := .op .nop) (by decide)
  cases hr2
  obtain ⟨sym2, s3, hr3, h⟩ := bind_eq_ok.1 h
  obtain ⟨is3, hi3, e3, hc3⟩ := run_goes h2 hr3 (outer_of hc1 ho) hi2
  obtain ⟨l, r, rfl, hs⟩ := e3.split
  obtain ⟨pos2, s3', hp2, h⟩ := bind_eq_ok.1 h
  cases hp2
  dsimp only at h
  obtain ⟨_, s4, hr4, h⟩ := bind_eq_ok.1 h
  rw [show s1.ostr.pos = total Piece.size l by rw [hi1.pos, hs.total]] at hr4
  obtain ⟨op', hi4, hc4⟩ := castTo_at _ hi3 hr4
  have hpos : s3.ostr.pos = s4.ostr.buf.length := by
    rw [hi3.pos, ← hi4.atEnd, hi4.pos, total_append, total_append]
    rfl
  obtain ⟨_, s5, hr5, h⟩ := bind_eq_ok.1 h
  cases h
  rw [hpos, castTo_end _ hi4.atEnd] at hr5
  have hc : s4.around = s.around := hc4.trans (hc3.trans hc1)
  obtain ⟨is5, hi5, e5, hc5⟩ := run_goes (castTo_goes _) hr5 (outer_of hc ho) hi4
  refine ⟨is5, hi5, ?_, hc5.trans hc⟩
  exact e1.trans (hs.to_ext.trans ((Ext.append _ _).trans e5))

/-- **The rules for constants, instructions and casts.** -/
theorem goes_emits : EmitRules (Goes T outer) where
  op h := putOp_goes h
  addr h1 h2 addr := putAddr_goes h1 h2 addr
  const h := pushConst_goes h
  constRef val := putConstRef_goes val
  operands h1 h2 := castOperands_goes h1 h2

/-! ## symbols -/

/-- what code generation sets in a symbol keeps the table in order if functions only get addresses
of pieces -/
theorem Idle.modifySym (h : Idle T P s is) (name : Str) {f : Symbol → Symbol}
    (hd : ∀ sym, (f sym).declared = sym.declared)
    (ha : ∀ sym, s.syms.findSymbol name = some sym → sym.ty = .func → ∀ addr,
      (f sym).addr = some addr → ∃ t, Boundary Piece.size is t ∧ addr = Int64.ofNat t) :
    Idle T P { s with syms := s.syms.modify name f } is := by
  have hn := h.inv.names
  refine ⟨⟨h.inv.buf, h.inv.framed, hn.consts, hn.labels, hn.loops, hn.rets, ?_, ?_, hn.calls⟩,
    h.pos⟩
  · exact (SymTab.declared_modify hd).trans hn.syms
  · intro key sym hs hf addr haddr
    dsimp only at hs
    rw [SymTab.findSymbol_modify] at hs
    split at hs
    · rename_i e
      obtain ⟨sym', hs', rfl⟩ := Option.map_eq_some_iff.1 hs
      have ht : sym'.ty = .func := (congrArg Symbol.ty (hd sym')).symm.trans hf
      rw [e] at hs'
      exact ha sym' hs' ht addr haddr
    · exact hn.addrs key sym hs hf addr haddr

/-- the symbol of a name has the type it was declared with -/
theorem Names.ty (h : Names T s is) {name : Str} {sym : Symbol}
    (hs : s.syms.findSymbol name = some sym) :
    ∃ sym', T.findSymbol name = some sym' ∧ sym'.declared = sym.declared :=
  SymTab.find_of_declared h.syms hs

/-- giving an address to a symbol that is no function -/
theorem modifySym_goes {sym : Symbol} {f : Symbol → Symbol}
    (hd : ∀ sym, (f sym).declared = sym.declared)
    (ht : ∀ sym', T.findSymbol sym.scopedName = some sym' → sym'.ty ≠ .func) :
    Keeps (Goes T outer) (modifySym sym f) := by
  intro s a s' h ho P is hi
  cases h
  refine ⟨is, ?_, Ext.refl is, rfl⟩
  apply hi.modifySym _ hd
  intro sym1 hs hf
  obtain ⟨sym', hs', e⟩ := hi.inv.names.ty hs
  exact absurd ((congrArg Symbol.ty e).trans hf) (ht sym' hs')

/-- changes of the state that nothing here is about -/
theorem modify_goes {f : Codegen → Codegen}
    (h : ∀ s, ∃ t g l, f s = { s with localStack := t, globalStack := g, loopIdent := l }) :
    Keeps (Goes T outer) (modify f : CGM Unit) := by
  intro s a s' hr ho P is hi
  obtain ⟨t, g, l, e⟩ := h s
  rw [run_modify, e] at hr
  cases hr
  have hn := hi.inv.names
  exact ⟨is, ⟨⟨hi.inv.buf, hi.inv.framed, hn.consts, hn.labels, hn.loops, hn.rets, hn.syms,
    hn.addrs, hn.calls⟩, hi.pos⟩, Ext.refl is, rfl⟩

/-- functions have no slot -/
theorem getSymSize_ne_func {sym : Symbol} {size : Int32} (h : getSymSize sym = .ok size) :
    sym.ty ≠ .func := by
  intro e
  rw [getSymSize, e] at h
  cases h

/-- computations that need a slot size -/
theorem symSize_goes {α : Type} {sym : Symbol} {f : Int32 → CGM α}
    (hf : ∀ size, sym.ty ≠ .func → Keeps (Goes T outer) (f size)) :
    Keeps (Goes T outer) (CGM.lift (getSymSize sym) >>= f) := by
  intro s a s' h
  obtain ⟨size, s1, h1, h2⟩ := bind_eq_ok.1 h
  obtain ⟨hs, rfl⟩ := lift_ok h1
  exact hf size (getSymSize_ne_func hs) s1 a s' h2

/-- a symbol of the table has the type it was declared with -/
def SymTab.Knows (T : SymTab) (sym : Symbol) : Prop :=
  ∀ sym', T.findSymbol sym.scopedName = some sym' → sym'.ty = sym.ty

theorem allocVar_goes (isGlobal : Bool) {sym : Symbol} (hk : T.Knows sym) :
    Keeps (Goes T outer) (allocVar isGlobal sym) := by
  have hset : ∀ s : Codegen, ∀ a s', (allocVar isGlobal sym).run s = .ok a s' →
      sym.ty ≠ .func := by
    intro s a s' h
    obtain ⟨_, s1, -, h⟩ := bind_eq_ok.1 h
    obtain ⟨size, s2, h2, -⟩ := bind_eq_ok.1 h
    exact getSymSize_ne_func (lift_ok h2).1
  intro s a s' h
  have hne := hset s a s' h
  have ht : ∀ sym', T.findSymbol sym.scopedName = some sym' → sym'.ty ≠ .func :=
    fun sym' hs' => (hk sym' hs').symm ▸ hne
  refine (?_ : Keeps (Goes T outer) (allocVar isGlobal sym)) s a s' h
  refine Keeps.bind (modifySym_goes (fun _ => rfl) ht) fun _ => ?_
  refine symSize_goes fun size _ => ?_
  refine Keeps.bind Keeps.get fun s => ?_
  apply Keeps.ite
  · refine Keeps.bind (modify_goes fun s => ⟨_, _, _, rfl⟩) fun _ => ?_
    exact modifySym_goes (fun _ => rfl) ht
  · refine Keeps.bind (Keeps.of_eq (deref_eq _)) fun curFunc => ?_
    refine Keeps.bind (modify_goes fun s => ⟨_, _, _, rfl⟩) fun _ => ?_
    exact modifySym_goes (fun _ => rfl) ht

/-- computations that look a symbol up -/
theorem getSym_goes (hT : T.Parsed) {α : Type} {name : Str} {b : Bool} {ty : Option SymbolType}
    {f : Symbol → CGM α} (hf : ∀ sym, T.Knows sym → Keeps (Goes T outer) (f sym)) :
    Keeps (Goes T outer) (getSym name b ty >>= f) := by
  intro s a s' h ho P is hi
  obtain ⟨sym, s1, h1, h2⟩ := bind_eq_ok.1 h
  obtain ⟨rfl, -, key, hs, -⟩ := getSym_ok h1
  have hk : T.Knows sym := by
    obtain ⟨sym', hs', e⟩ := hi.inv.names.ty hs
    have e1 : sym.scopedName = key :=
      (congrArg Symbol.scopedName e).symm.trans (hT.keyed key sym' hs')
    intro sym'' hs''
    rw [e1, hs'] at hs''
    cases hs''
    show sym'.declared.ty = sym.declared.ty
    rw [e]
  exact hf sym hk s1 a s' h2 ho P is hi

theorem declareVar_goes (hT : T.Parsed) (isGlobal : Bool) {optAssign : Option Visit}
    (ha : OptKeeps (Goes T outer) optAssign) (intentIn intentOut : Bool) (varname : Str) :
    Keeps (Goes T outer) (declareVar isGlobal optAssign intentIn intentOut varname) := by
  refine getSym_goes hT fun sym hk => ?_
  refine Keeps.ite (Keeps.pure _) ?_
  refine Keeps.ite (fail_keeps _) ?_
  refine Keeps.ite (fail_keeps _) ?_
  refine Keeps.ite (fail_keeps _) ?_
  refine Keeps.bind (allocVar_goes isGlobal hk) fun _ => ?_
  refine Keeps.bind (Keeps.of_eq (reload_eq sym)) fun sym => ?_
  cases optAssign with
  | some assign => exact Keeps.bind (visitRun_keeps (ha assign rfl)) fun _ => Keeps.pure _
  | none =>
    refine Keeps.bind (Keeps.onlyIf ?_) fun _ => Keeps.pure _
    exact Keeps.bind (goes_emits.pushDefault_keeps sym) fun _ => goes_emits.assignVar_keeps sym

theorem visitVarDecl_goes (hT : T.Parsed) (vars : List Str) {optAssign : Option Visit}
    (ha : OptKeeps (Goes T outer) optAssign) (intentIn intentOut : Bool) :
    Keeps (Goes T outer) (visitVarDecl vars optAssign intentIn intentOut) := by
  refine Keeps.bind Keeps.get fun s => ?_
  refine Keeps.bind (Keeps.mapM vars fun varname _ => ?_) fun syms => Keeps.pure _
  exact declareVar_goes hT _ ha intentIn intentOut varname

theorem declareArgs_goes (hT : T.Parsed) (funcname : Str) (argidx : Nat) (frameAddr : Int32)
    (args : List ArgName) :
    Keeps (Goes T outer) (declareArgs funcname argidx frameAddr args) := by
  induction args generalizing argidx frameAddr with
  | nil => exact Keeps.pure _
  | cons arg args ih =>
    obtain ⟨argname, argtype, dims⟩ := arg
    refine getSym_goes hT fun sym hk => ?_
    refine Keeps.ite (fail_keeps _) ?_
    refine Keeps.ite (fail_keeps _) ?_
    refine Keeps.ite (fail_keeps _) ?_
    refine Keeps.ite (fail_keeps _) ?_
    by_cases hne : sym.ty = .func
    · -- the slot size is computed after the address is set, and fails
      intro s a s' h
      obtain ⟨_, s1, -, h⟩ := bind_eq_ok.1 h
      obtain ⟨size, s2, h2, -⟩ := bind_eq_ok.1 h
      exact absurd hne (getSymSize_ne_func (lift_ok h2).1)
    · refine Keeps.bind (modifySym_goes (fun _ => rfl) ?_) fun _ => ?_
      · exact fun sym' hs' => (hk sym' hs').symm ▸ hne
      · exact symSize_goes fun size _ => ih (argidx + 1) (frameAddr + size)

end

end MuF
