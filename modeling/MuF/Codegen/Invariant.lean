import MuF.Codegen.Induct

/-!
# What holds between two visits

* `SymTab.Parsed`: the symbol table that code generation starts with;
* `ConstRefs`, `Names`, `Inv`: constants, symbols and pending jumps of the code so far;
* `Idle`: the put position is at the end;
* `Goes`: a visit that starts in an idle state ends in one, and only appended code and filled in
  addresses.
-/

set_option linter.unusedVariables false

namespace MuF

open Exec Layout

/-- the symbol table as it is before code generation; functions are defined at the outermost
level -/
structure SymTab.Parsed (T : SymTab) : Prop where
  keyed : ∀ name sym, T.findSymbol name = some sym → sym.scopedName = name
  fresh : ∀ name sym, T.findSymbol name = some sym → sym.addr = none
  outermost : ∀ name sym, T.findSymbol name = some sym → sym.ty = .func → ¬ scopeSep <:+: name

/-! ## constants -/

/-- a string in the constants table -/
def strEntry (s : Str) : List UInt8 :=
  VMType.str.code :: (Raw.enc (Int32.ofNat s.length) ++ s.take (Int32.ofNat s.length).toInt.toNat)

def strEntrySize (s : Str) : Nat := (strEntry s).length

theorem total_strEntry (strs : List Str) :
    total strEntrySize strs = (strs.flatMap strEntry).length := total_length strEntry strs

/-- a table that consists of the entries of `strs` -/
structure ConstTab.Ok (tab : ConstTab) (strs : List Str) : Prop where
  ostr : tab.ostr = strs.flatMap strEntry
  consts : ∀ x ∈ tab.consts, Has strEntrySize strs x.2 x.1

theorem lookup_mem {α β : Type} [BEq α] [LawfulBEq α] {l : List (α × β)} {a : α} {b : β}
    (h : l.lookup a = some b) : (a, b) ∈ l := by
  induction l with
  | nil => cases h
  | cons p l ih =>
    rw [List.lookup_cons] at h
    split at h
    · rename_i e
      cases h
      rw [eq_of_beq e]
      exact List.mem_cons_self
    · exact List.mem_cons_of_mem _ (ih h)

theorem ConstTab.Ok.addConst {tab : ConstTab} {strs : List Str} (h : tab.Ok strs) (val : Str) :
    (∃ strs', (tab.addConst val).2.Ok strs') ∧
      (val, (tab.addConst val).1) ∈ (tab.addConst val).2.consts ∧
      tab.consts ⊆ (tab.addConst val).2.consts := by
  unfold ConstTab.addConst
  cases hl : tab.consts.lookup val with
  | some pos => exact ⟨⟨strs, h⟩, lookup_mem hl, List.Subset.refl _⟩
  | none =>
    refine ⟨⟨strs ++ [val], ?_, ?_⟩, by simp, List.subset_append_left _ _⟩
    · simp [h.ostr, strEntry]
    · intro x hx
      rcases List.mem_append.1 hx with hx | hx
      · exact (h.consts x hx).append
      · rw [List.mem_singleton.1 hx]
        show Has strEntrySize (strs ++ [val]) tab.ostr.length val
        rw [h.ostr, ← total_strEntry]
        exact has_total

/-- dereferencing of constants among the instructions that take an address -/
abbrev IsConst (op : OpCode) : Prop := op = .rdmem

/-- the addresses of constants and what has to be added to them, the position of the table -/
structure ConstRefs (tab : ConstTab) (constAddrs : List (Nat × Int)) (is : List Piece) : Prop where
  table : ∃ strs, tab.Ok strs
  refs : ∀ pos, IsRef IsConst is pos → ∃ addr, (pos, addr) ∈ constAddrs
  addrs : ∀ x ∈ constAddrs, IsRef IsConst is x.1 ∧ ∃ y ∈ tab.consts, x.2 = (y.2 : Int) - x.1 - 5

/-! ## the state -/

/-- positions of addresses that are filled in later -/
def Codegen.pending (s : Codegen) : List Nat :=
  s.funcComefroms.map FuncComefrom.pos ++ s.pushretComefroms ++ s.endfuncComefroms ++
    s.loopBeginComefroms.map Prod.snd ++ s.loopEndComefroms.map Prod.snd ++
    s.gotoComefroms.map Prod.snd

/-- symbols, constants and pending jumps -/
structure Names (T : SymTab) (s : Codegen) (is : List Piece) : Prop where
  consts : ConstRefs s.consttab s.constAddrs is
  labels : ∀ x ∈ s.labels, Boundary Piece.size is x.2
  loops : ∀ x ∈ s.loopBeginComefroms ++ s.loopEndComefroms, x.1 ∈ s.curLoop
  rets : s.curscope = [] → s.pushretComefroms = [] ∧ s.endfuncComefroms = []
  syms : s.syms.declared = T.declared
  addrs : ∀ name sym, s.syms.findSymbol name = some sym → sym.ty = .func →
    ∀ addr, sym.addr = some addr → ∃ t, Boundary Piece.size is t ∧ addr = Int64.ofNat t
  calls : ∀ call ∈ s.funcComefroms, ∃ sym, T.findSymbol call.name = some sym ∧ sym.ty = .func

/-- the state belongs to the code `is`, with `tail` behind it; the addresses at the positions `P`
are still to be filled in by the visitors around the current one -/
structure Inv (T : SymTab) (P : List Nat) (tail : List UInt8) (s : Codegen) (is : List Piece) :
    Prop where
  buf : s.ostr.buf = code is ++ tail
  framed : Framed (fun pos => pos ∈ P ++ s.pending) is
  names : Names T s is

/-- between two visits, at the end of the code -/
structure Idle (T : SymTab) (P : List Nat) (s : Codegen) (is : List Piece) : Prop where
  inv : Inv T P [] s is
  pos : s.ostr.pos = total Piece.size is

/-- the loops and functions around the current node -/
def Codegen.around (s : Codegen) : List Nat × List Str := (s.curLoop, s.curscope)

/-- a visit; function definitions are only visited at the outermost level -/
def Goes (T : SymTab) (outer : Bool) (s s' : Codegen) : Prop :=
  (outer = true → s.around = ([], [])) → ∀ P is, Idle T P s is →
    ∃ is', Idle T P s' is' ∧ Ext is is' ∧ s'.around = s.around

instance (T : SymTab) (outer : Bool) : Std.Refl (Goes T outer) where
  refl s ho P is hi := ⟨is, hi, Ext.refl is, rfl⟩

instance (T : SymTab) (outer : Bool) : IsTrans Codegen (Goes T outer) where
  trans s s' s'' h1 h2 ho P is hi := by
    obtain ⟨is', hi', e, hc⟩ := h1 ho P is hi
    obtain ⟨is'', hi'', e', hc'⟩ := h2 (by rwa [hc]) P is' hi'
    exact ⟨is'', hi'', e.trans e', hc'.trans hc⟩

section
variable {T : SymTab} {P : List Nat} {tail : List UInt8} {s : Codegen} {is is' : List Piece}

theorem Idle.atEnd (h : Idle T P s is) : s.ostr.pos = s.ostr.buf.length := by
  rw [h.pos, h.inv.buf, List.append_nil, length_code]

/-- other code with the same starts of pieces and the same references to constants -/
theorem Names.moved (h : Names T s is)
    (hb : ∀ t, Boundary Piece.size is t → Boundary Piece.size is' t)
    (hc : ∀ pos, IsRef IsConst is pos ↔ IsRef IsConst is' pos) : Names T s is' where
  consts := ⟨h.consts.table, fun pos hr => h.consts.refs pos ((hc pos).2 hr), fun x hx =>
    ⟨(hc _).1 (h.consts.addrs x hx).1, (h.consts.addrs x hx).2⟩⟩
  labels x hx := hb _ (h.labels x hx)
  loops := h.loops
  rets := h.rets
  syms := h.syms
  addrs name sym hs hf addr ha := by
    obtain ⟨t, ht, e⟩ := h.addrs name sym hs hf addr ha
    exact ⟨t, hb t ht, e⟩
  calls := h.calls

/-- another output stream -/
theorem Names.ostr (h : Names T s is) (o : OStr) : Names T { s with ostr := o } is :=
  ⟨h.consts, h.labels, h.loops, h.rets, h.syms, h.addrs, h.calls⟩

theorem isRef_append_of_ne {K : OpCode → Prop} {pos : Nat} {i : Piece}
    (h : ∀ off op, i = .ref off op → ¬ K op) :
    IsRef K is pos ↔ IsRef K (is ++ [i]) pos := by
  constructor
  · exact (Ext.append is [i]).isRef
  · rintro ⟨p, off, op, rfl, hk, hr⟩
    rcases has_append.1 hr with hr | ⟨-, hr⟩
    · exact ⟨p, off, op, rfl, hk, hr⟩
    · exact absurd hk (h off op (List.mem_singleton.1 hr.mem).symm)

/-! ## emitting an instruction -/

theorem Idle.write_buf (h : Idle T P s is) (bs : List UInt8) :
    s.ostr.write bs = ⟨code is ++ bs, total Piece.size is + bs.length⟩ := by
  rw [write_end _ h.atEnd, h.inv.buf, List.append_nil, length_code]

/-- one more instruction -/
theorem Idle.instr (h : Idle T P s is) {i : Instr} (hi : i.Plain) :
    Idle T P { s with ostr := s.ostr.write i.bytes } (is ++ [.instr i]) := by
  have e : (Piece.instr i).bytes = i.bytes := List.append_nil _
  refine ⟨⟨?_, h.inv.framed.instr hi, ?_⟩, ?_⟩
  · rw [h.write_buf, code_append, code_singleton, e, List.append_nil]
  · apply Names.ostr
    apply h.inv.names.moved
    · exact fun t ht => ht.append
    · exact fun pos => isRef_append_of_ne (by simp)
  · rw [h.write_buf, total_append, total_cons, Piece.size, e]
    rfl

theorem write_write (o : OStr) (h : o.pos = o.buf.length) (as bs : List UInt8) :
    (o.write as).write bs = o.write (as ++ bs) := by
  rw [write_end o h, write_end o h, write_end _ (by simp)]
  simp [Nat.add_assoc]

/-- operations that emit an instruction -/
theorem goes_instr {outer : Bool} {x : CGM Unit} {i : Instr} (hi : i.Plain)
    (hx : ∀ s : Codegen, s.ostr.pos = s.ostr.buf.length →
      x.run s = .ok ⟨⟩ { s with ostr := s.ostr.write i.bytes }) : Keeps (Goes T outer) x := by
  intro s a s' h ho P is hi'
  rw [hx s hi'.atEnd] at h
  cases h
  exact ⟨_, hi'.instr hi, Ext.append _ _, rfl⟩

theorem run_putOp (op : OpCode) (s : Codegen) :
    (putOp op).run s = .ok ⟨⟩ { s with ostr := s.ostr.write [op.code] } := rfl

theorem run_putOperand (ty : VMType) (bs : List UInt8) (h : s.ostr.pos = s.ostr.buf.length) :
    (do putOp .push; putTy ty; writeOut bs : CGM Unit).run s =
      .ok ⟨⟩ { s with ostr := s.ostr.write (Instr.push ty bs).bytes } := by
  show EStateM.Result.ok () { s with
    ostr := ((s.ostr.write [OpCode.push.code]).write [ty.code]).write bs } = _
  rw [write_write _ h, write_write _ h]
  rfl

theorem run_putAddr (ty : VMType) (addr : Int32) (h : s.ostr.pos = s.ostr.buf.length) :
    (putAddr ty addr).run s =
      .ok ⟨⟩ { s with ostr := s.ostr.write (Instr.push ty (Raw.enc addr)).bytes } :=
  run_putOperand ty _ h

theorem run_pushConst (d : TData) (h : s.ostr.pos = s.ostr.buf.length) :
    (pushConst d).run s =
      .ok ⟨⟩ { s with ostr := s.ostr.write (Instr.push (d.ty .unknown) d.payload).bytes } :=
  run_putOperand _ _ h

/-! ## emitting an address -/

theorem run_putRef (off : Int32) (op : OpCode) (h : s.ostr.pos = s.ostr.buf.length) :
    (do putOp .push; putTy .addrIp; writeOut (Raw.enc off); putOp op : CGM Unit).run s =
      .ok ⟨⟩ { s with ostr := s.ostr.write (Piece.ref off op).bytes } := by
  show EStateM.Result.ok () { s with ostr := (((s.ostr.write [OpCode.push.code]).write
    [VMType.addrIp.code]).write (Raw.enc off)).write [op.code] } = _
  rw [write_write _ h, write_write _ h, write_write _ h]
  simp [Piece.bytes, Piece.instrs, Instr.bytes]

theorem run_putJump (op : OpCode) (h : s.ostr.pos = s.ostr.buf.length) :
    (putJump op).run s =
      .ok (s.ostr.pos + 2) { s with ostr := s.ostr.write (Piece.ref 0 op).bytes } := by
  have e := run_putRef 0 op h
  show EStateM.Result.ok (s.ostr.pos + 1 + 1) _ = _
  congr 1
  exact EStateM.Result.ok.inj e |>.2

/-- an address that is filled in later -/
theorem Idle.ref (h : Idle T P s is) (off : Int32) {op : OpCode} (hop : op.isJump = true) :
    Idle T ((s.ostr.pos + 2) :: P) { s with ostr := s.ostr.write (Piece.ref off op).bytes }
      (is ++ [.ref off op]) := by
  refine ⟨⟨?_, ?_, ?_⟩, ?_⟩
  · rw [h.write_buf, code_append, code_singleton, List.append_nil]
  · apply (h.inv.framed.ref off hop).iff
    intro pos
    rw [h.pos, List.cons_append, List.mem_cons]
    rfl
  · apply Names.ostr
    apply h.inv.names.moved
    · exact fun t ht => ht.append
    · refine fun pos => isRef_append_of_ne ?_
      rintro off' op' e rfl
      cases e
      cases hop
  · rw [h.write_buf, total_append, total_cons]
    rfl

/-! ## filling in addresses -/

theorem run_patch (pos : Nat) (off : Int32) (s : Codegen) :
    (patch pos off).run s =
      .ok ⟨⟩ { s with ostr := (⟨s.ostr.buf, pos⟩ : OStr).write (Raw.enc off) } := rfl

theorem run_seekEnd (s : Codegen) :
    seekEnd.run s = .ok ⟨⟩ { s with ostr := ⟨s.ostr.buf, s.ostr.buf.length⟩ } := rfl

/-- code that differs only in addresses -/
structure Same (is is' : List Piece) : Prop where
  to_ext : Ext is is'
  from_ext : Ext is' is

theorem Same.refl (is : List Piece) : Same is is := ⟨Ext.refl is, Ext.refl is⟩

theorem Same.trans {is'' : List Piece} (h1 : Same is is') (h2 : Same is' is'') : Same is is'' :=
  ⟨h1.to_ext.trans h2.to_ext, h2.from_ext.trans h1.from_ext⟩

theorem Same.total (h : Same is is') : total Piece.size is' = total Piece.size is := by
  have e (l : List Piece) : Layout.total Piece.size (l.map Piece.shape) =
      Layout.total Piece.size l := total_map Piece.size_shape l
  have hs : is.map Piece.shape = is'.map Piece.shape :=
    h.to_ext.eq_of_length (Nat.le_antisymm h.to_ext.length_le h.from_ext.length_le)
  rw [← e is', ← e is, hs]

theorem Names.same (h : Names T s is) (hs : Same is is') : Names T s is' :=
  h.moved (fun t => hs.to_ext.boundary) fun pos => ⟨hs.to_ext.isRef, hs.from_ext.isRef⟩

/-- filling in the address of a jump -/
theorem patch_framed {Q : Nat → Prop} {pos target : Nat} (hb : s.ostr.buf = code is ++ tail)
    (hf : Framed Q is) (hr : IsRef IsJump is pos) (ht : Boundary Piece.size is target) :
    ∃ is', Same is is' ∧ Framed (fun q => Q q ∧ q ≠ pos) is' ∧
      (∀ p off, Has Piece.size is' p (.ref off .rdmem) → Has Piece.size is p (.ref off .rdmem)) ∧
      ((⟨s.ostr.buf, pos⟩ : OStr).write (Raw.enc (toSkip target pos))).buf = code is' ++ tail := by
  obtain ⟨p, off, op, rfl, hk, hr⟩ := hr
  obtain ⟨l, r, rfl, rfl⟩ := has_iff.1 hr
  refine ⟨l ++ .ref (toSkip target (Layout.total Piece.size l + 2)) op :: r,
    ⟨Ext.fill _ _ _ _ _, Ext.fill _ _ _ _ _⟩, ?_, ?_, ?_⟩
  · apply hf.fill
    · exact fun _ => Or.inr ⟨target, ht, rfl⟩
    · intro q hq
      by_cases e : q = Layout.total Piece.size l + 2
      · exact Or.inl e
      · exact Or.inr ⟨hq, e⟩
    · exact fun q hq => hq.1
  · intro p off' hc
    have hs (off'' : Int32) : (Piece.ref off'' op).size = (Piece.ref off op).size := by simp
    rcases (has_replace Piece.size_pos (hs _)).1 hc with ⟨-, e⟩ | ⟨-, hc⟩
    · cases e
      exact absurd rfl hk
    · exact hc
  · rw [hb]
    exact write_ref l r off _ op tail

/-- filling in several jumps to one target -/
theorem patchAll_framed {target : Nat} {poss : List Nat} {Q : Nat → Prop} {a : Unit}
    {s' : Codegen} (h : (patchAll target poss).run s = .ok a s')
    (hb : s.ostr.buf = code is ++ tail) (hf : Framed Q is)
    (hr : ∀ pos ∈ poss, IsRef IsJump is pos) (ht : Boundary Piece.size is target) :
    ∃ is', Same is is' ∧ Framed (fun q => Q q ∧ q ∉ poss) is' ∧
      s'.ostr.buf = code is' ++ tail ∧ s' = { s with ostr := s'.ostr } := by
  induction poss generalizing s is Q with
  | nil =>
    cases h
    exact ⟨is, Same.refl is, hf.iff (by simp), hb, rfl⟩
  | cons pos poss ih =>
    have hp := run_patch pos (toSkip target pos) s
    obtain ⟨is1, hs1, hf1, -, hb1⟩ := patch_framed hb hf (hr pos List.mem_cons_self) ht
    have h' := (bind_ok (f := fun _ => patchAll target poss) hp).symm.trans h
    obtain ⟨is2, hs2, hf2, hb2, e2⟩ := ih h' hb1 hf1
      (fun q hq => hs1.to_ext.isRef (hr q (List.mem_cons_of_mem _ hq))) (hs1.to_ext.boundary ht)
    refine ⟨is2, hs1.trans hs2, hf2.iff ?_, hb2, e2⟩
    intro q
    rw [List.mem_cons, not_or, and_assoc]

end

end MuF
