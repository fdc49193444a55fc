import MuF.Codegen.Emit

/-!
# Visitors with jumps

Conditionals, loops, labels, calls and functions: the addresses that these visitors leave open are
filled in with the start of a piece.
-/

set_option linter.unusedVariables false

namespace MuF

open Exec Layout

section
variable {T : SymTab} {outer : Bool} {P : List Nat} {tail : List UInt8} {s s' : Codegen}
  {is : List Piece}

/-! ## offsets -/

theorem toSkip_eq (target pos : Nat) : toSkip target pos = streamDiff target (pos + 5) := by
  unfold toSkip streamDiff
  have e : vmTypeSize .addrIp true = Int32.ofInt 5 := by decide
  rw [e, ← Int32.ofInt_sub]
  congr 1
  push_cast
  ring

/-! ## emitting and filling in an address -/

theorem putJump_ok {op : OpCode} {pos : Nat} (hi : Idle T P s is) (hop : op.isJump = true)
    (h : (putJump op).run s = .ok pos s') :
    s' = { s with ostr := s'.ostr } ∧ s'.ostr.pos = pos + 5 ∧
      Idle T (pos :: P) s' (is ++ [.ref 0 op]) := by
  rw [run_putJump op hi.atEnd] at h
  cases h
  refine ⟨rfl, ?_, hi.ref 0 hop⟩
  rw [hi.write_buf, ← hi.pos]
  show s.ostr.pos + (Piece.ref 0 op).size = _
  rw [Piece.size_ref]

/-- an address relative to a known place and the instruction that uses it -/
theorem run_putSkip {β : Type} (target : Nat) (op : OpCode) (f : Nat → CGM β)
    (h : s.ostr.pos = s.ostr.buf.length) :
    (do putOp .push
        putTy .addrIp
        let pos ← tellp
        writeOut (Raw.enc (toSkip target pos))
        putOp op
        f pos : CGM β).run s =
      (f (s.ostr.pos + 2)).run
        { s with ostr := s.ostr.write (Piece.ref (toSkip target (s.ostr.pos + 2)) op).bytes } := by
  have hw : (((s.ostr.write [OpCode.push.code]).write [VMType.addrIp.code]).write
      (Raw.enc (toSkip target (s.ostr.pos + 2)))).write [op.code] =
      s.ostr.write (Piece.ref (toSkip target (s.ostr.pos + 2)) op).bytes := by
    rw [write_write _ h, write_write _ h, write_write _ h]
    simp [Piece.bytes, Piece.instrs, Instr.bytes]
  rw [← hw]
  rfl

/-- a jump to a known place -/
theorem Idle.refTo (h : Idle T P s is) {op : OpCode} (hop : op.isJump = true) {target : Nat}
    (ht : Boundary Piece.size is target) :
    Idle T P
      { s with ostr := s.ostr.write (Piece.ref (toSkip target (s.ostr.pos + 2)) op).bytes }
      (is ++ [.ref (toSkip target (s.ostr.pos + 2)) op]) := by
  refine ⟨⟨?_, h.inv.framed.refTo hop ⟨target, ht, ?_⟩, ?_⟩, ?_⟩
  · rw [h.write_buf, code_append, code_singleton, List.append_nil]
  · rw [h.pos]
  · apply Names.ostr
    apply h.inv.names.moved
    · exact fun t ht => ht.append
    · refine fun pos => isRef_append_of_ne ?_
      rintro off' op' e rfl
      cases e
      cases hop
  · rw [h.write_buf, total_append, total_cons]
    rfl

theorem putSkip_ok {β : Type} {target : Nat} {op : OpCode} {f : Nat → CGM β} {b : β}
    (hi : Idle T P s is) (hop : op.isJump = true) (ht : Boundary Piece.size is target)
    (h : (do putOp .push
             putTy .addrIp
             let pos ← tellp
             writeOut (Raw.enc (toSkip target pos))
             putOp op
             f pos : CGM β).run s = .ok b s') :
    ∃ pos s1 is1, (f pos).run s1 = .ok b s' ∧ s1.around = s.around ∧ Ext is is1 ∧
      Idle T P s1 is1 := by
  rw [run_putSkip _ _ _ hi.atEnd] at h
  exact ⟨_, _, _, h, rfl, Ext.append _ _, hi.refTo hop ht⟩

/-- the state after addresses were filled in, with fewer pending jumps -/
theorem Inv.filled {is' : List Piece} {Q : Nat → Prop} {P' : List Nat} (hi : Inv T P tail s is)
    (hs : Same is is') (hf : Framed Q is') (hb : s'.ostr.buf = code is' ++ tail)
    (h1 : ∀ pos, Q pos → pos ∈ P' ++ s'.pending)
    (h2 : ∀ pos, pos ∈ P' ++ s'.pending → pos ∈ P ++ s.pending) (hn : Names T s' is) :
    Inv T P' tail s' is' :=
  ⟨hb, hf.weaken h1 fun pos hp => hs.to_ext.isRef (hi.framed.open_ pos (h2 pos hp)), hn.same hs⟩

theorem patch_ok {pos target : Nat} {a : Unit} (hi : Inv T (pos :: P) tail s is)
    (ht : Boundary Piece.size is target)
    (h : (patch pos (toSkip target pos)).run s = .ok a s') :
    s' = { s with ostr := s'.ostr } ∧ ∃ is', Same is is' ∧ Inv T P tail s' is' := by
  cases h
  have hr := hi.framed.open_ pos (by simp)
  obtain ⟨is', hs, hf, -, hb⟩ := patch_framed hi.buf hi.framed hr ht
  refine ⟨rfl, is', hs, hi.filled hs hf hb ?_ ?_ (hi.names.ostr _)⟩
  · rintro q ⟨hq, hne⟩
    exact List.mem_of_ne_of_mem hne hq
  · exact fun q hq => List.mem_cons_of_mem _ hq

theorem seekEnd_ok {a : Unit} (hi : Inv T P [] s is) (h : seekEnd.run s = .ok a s') :
    s' = { s with ostr := s'.ostr } ∧ Idle T P s' is := by
  cases h
  have hb := hi.buf
  rw [List.append_nil] at hb
  refine ⟨rfl, ⟨hi.buf, hi.framed, hi.names.ostr _⟩, ?_⟩
  show s.ostr.buf.length = _
  rw [hb, length_code]

theorem around_ostr {o : OStr} (h : s' = { s with ostr := o }) : s'.around = s.around := by
  rw [h]
  rfl

/-- filling in the address at `pos` with a place and going back to the end -/
theorem patchEnd_ok {β : Type} {f : Unit → CGM β} {b : β} {pos target : Nat} {off : Int32}
    (hi : Idle T (pos :: P) s is) (ht : Boundary Piece.size is target)
    (hoff : off = toSkip target pos)
    (h : (do patch pos off; let u ← seekEnd; f u : CGM β).run s = .ok b s') :
    ∃ s1 is1, (f ()).run s1 = .ok b s' ∧ s1.around = s.around ∧ Same is is1 ∧ Idle T P s1 is1 := by
  subst hoff
  obtain ⟨_, s1, h1, h⟩ := bind_eq_ok.1 h
  obtain ⟨_, s2, h2, h⟩ := bind_eq_ok.1 h
  obtain ⟨e1, is1, hs, hi1⟩ := patch_ok hi.inv ht h1
  obtain ⟨e2, hi2⟩ := seekEnd_ok hi1 h2
  exact ⟨s2, is1, h, (around_ostr e2).trans (around_ostr e1), hs, hi2⟩

theorem Idle.boundary (h : Idle T P s is) : Boundary Piece.size is s.ostr.pos :=
  h.pos ▸ boundary_total

theorem Idle.perm {P' : List Nat} (h : Idle T P s is) (hp : ∀ pos, pos ∈ P ↔ pos ∈ P') :
    Idle T P' s is :=
  ⟨⟨h.inv.buf, h.inv.framed.iff fun pos => by rw [List.mem_append, List.mem_append, hp],
    h.inv.names⟩, h.pos⟩

/-! ## conditionals -/

theorem visitCond_goes {cond ifStmt : Visit} {elseStmt : Option Visit}
    (hc : Keeps (Goes T outer) cond) (hif : Keeps (Goes T outer) ifStmt)
    (helse : OptKeeps (Goes T outer) elseStmt) :
    Keeps (Goes T outer) (visitCond cond ifStmt elseStmt) := by
  intro s a s' h ho P is hi
  obtain ⟨_, s1, h1, h⟩ := bind_eq_ok.1 h
  obtain ⟨is1, hi1, x1, c1⟩ := run_goes (visitRun_keeps hc) h1 ho hi
  obtain ⟨_, s2, h2, h⟩ := bind_eq_ok.1 h
  obtain ⟨is2, hi2, x2, c2⟩ := run_goes (putOp_goes (by decide)) h2 (outer_of c1 ho) hi1
  obtain ⟨skipAddr, s3, h3, h⟩ := bind_eq_ok.1 h
  obtain ⟨e3, p3, hi3⟩ := putJump_ok hi2 rfl h3
  have c3 : s3.around = s.around := (around_ostr e3).trans (c2.trans c1)
  have x3 := x1.trans (x2.trans (Ext.append is2 [.ref 0 .jmpcnd]))
  obtain ⟨beforeIf, s3', hp, h⟩ := bind_eq_ok.1 h
  cases hp
  obtain ⟨_, s4, h4, h⟩ := bind_eq_ok.1 h
  obtain ⟨is4, hi4, x4, c4⟩ := run_goes (visitRun_keeps hif) h4 (outer_of c3 ho) hi3
  have c4 := c4.trans c3
  have x4 := x3.trans x4
  cases elseStmt with
  | none =>
    obtain ⟨afterIf, s4', hp, h⟩ := bind_eq_ok.1 h
    cases hp
    obtain ⟨s5, is5, h5, c5, hs5, hi5⟩ := patchEnd_ok hi4 hi4.boundary (by rw [p3, toSkip_eq]) h
    cases h5
    exact ⟨is5, hi5, x4.trans hs5.to_ext, c5.trans c4⟩
  | some elseStmt =>
    obtain ⟨skipElseAddr, s5, h5, h⟩ := bind_eq_ok.1 h
    obtain ⟨e5, p5, hi5⟩ := putJump_ok hi4 rfl h5
    have c5 := (around_ostr e5).trans c4
    have x5 := x4.trans (Ext.append is4 [.ref 0 .jmp])
    obtain ⟨afterIf, s5', hp, h⟩ := bind_eq_ok.1 h
    cases hp
    obtain ⟨s6, is6, h6, c6, hs6, hi6⟩ :=
      patchEnd_ok (hi5.perm fun pos => List.Perm.mem_iff (List.Perm.swap skipAddr skipElseAddr P))
        hi5.boundary (by rw [p3, toSkip_eq]) h
    obtain ⟨beforeElse, s6', hp, h⟩ := bind_eq_ok.1 h6
    cases hp
    have c6 := c6.trans c5
    obtain ⟨_, s7, h7, h⟩ := bind_eq_ok.1 h
    obtain ⟨is7, hi7, x7, c7⟩ := run_goes (visitRun_keeps (helse elseStmt rfl)) h7
      (outer_of c6 ho) hi6
    obtain ⟨afterElse, s7', hp, h⟩ := bind_eq_ok.1 h
    cases hp
    have hp6 : s6.ostr.pos = skipElseAddr + 5 := by
      rw [← p5, hi6.pos, hi5.pos, hs6.total]
    obtain ⟨s8, is8, h8, c8, hs8, hi8⟩ := patchEnd_ok hi7 hi7.boundary (by rw [hp6, toSkip_eq]) h
    cases h8
    exact ⟨is8, hi8, x5.trans (hs6.to_ext.trans (x7.trans hs8.to_ext)),
      c8.trans (c7.trans c6)⟩

/-! ## select -/

/-- jumps behind all cases that are not filled in yet -/
def afterAddrs (jumpAddrs : List (Nat × Nat)) : List Nat := jumpAddrs.map Prod.fst

/-- one case leaves its jump behind all cases open -/
theorem visitCase_ok {expr cond stmts : Visit} (he : Keeps (Goes T outer) expr)
    (hc : Keeps (Goes T outer) cond) (hs : Keeps (Goes T outer) stmts) {r : Nat × Nat}
    (h : (visitCase expr cond stmts).run s = .ok r s') (ho : outer = true → s.around = ([], []))
    (hi : Idle T P s is) :
    r.2 = r.1 + 5 ∧ ∃ is', Idle T (r.1 :: P) s' is' ∧ Ext is is' ∧ s'.around = s.around := by
  obtain ⟨_, s1, h1, h⟩ := bind_eq_ok.1 h
  obtain ⟨is1, hi1, x1, c1⟩ := run_goes (visitRun_keeps he) h1 ho hi
  obtain ⟨_, s2, h2, h⟩ := bind_eq_ok.1 h
  obtain ⟨is2, hi2, x2, c2⟩ := run_goes (visitRun_keeps hc) h2 (outer_of c1 ho) hi1
  have c2 := c2.trans c1
  obtain ⟨_, s3, h3, h⟩ := bind_eq_ok.1 h
  obtain ⟨is3, hi3, x3, c3⟩ := run_goes (putOp_goes (by decide)) h3 (outer_of c2 ho) hi2
  have c3 := c3.trans c2
  obtain ⟨_, s4, h4, h⟩ := bind_eq_ok.1 h
  obtain ⟨is4, hi4, x4, c4⟩ := run_goes (putOp_goes (by decide)) h4 (outer_of c3 ho) hi3
  obtain ⟨skipCaseAddr, s5, h5, h⟩ := bind_eq_ok.1 h
  obtain ⟨e5, p5, hi5⟩ := putJump_ok hi4 rfl h5
  have c5 := (around_ostr e5).trans (c4.trans c3)
  have x5 := x1.trans (x2.trans (x3.trans (x4.trans (Ext.append is4 [.ref 0 .jmpcnd]))))
  obtain ⟨beforeCase, s5', hp, h⟩ := bind_eq_ok.1 h
  cases hp
  obtain ⟨_, s6, h6, h⟩ := bind_eq_ok.1 h
  obtain ⟨is6, hi6, x6, c6⟩ := run_goes (visitRun_keeps hs) h6 (outer_of c5 ho) hi5
  obtain ⟨skipAfterCaseAddr, s7, h7, h⟩ := bind_eq_ok.1 h
  obtain ⟨e7, p7, hi7⟩ := putJump_ok hi6 rfl h7
  obtain ⟨afterCase, s7', hp, h⟩ := bind_eq_ok.1 h
  cases hp
  obtain ⟨s8, is8, h8, c8, hs8, hi8⟩ :=
    patchEnd_ok (hi7.perm fun pos => List.Perm.mem_iff (List.Perm.swap skipCaseAddr _ P))
      hi7.boundary (by rw [p5, toSkip_eq]) h
  cases h8
  exact ⟨p7, is8, hi8, x5.trans (x6.trans ((Ext.append _ _).trans hs8.to_ext)),
    c8.trans ((around_ostr e7).trans (c6.trans c5))⟩

/-- the cases one after the other -/
theorem visitCaseList_ok {expr : Visit} (he : Keeps (Goes T outer) expr)
    {cases_ : List (Visit × Visit)}
    (hc : ∀ x ∈ cases_, Keeps (Goes T outer) x.1 ∧ Keeps (Goes T outer) x.2)
    {rs : List (Nat × Nat)}
    (h : (cases_.mapM fun (cond, stmts) => visitCase expr cond stmts).run s = .ok rs s')
    (ho : outer = true → s.around = ([], [])) (hi : Idle T P s is) :
    (∀ r ∈ rs, r.2 = r.1 + 5) ∧
      ∃ is', Idle T (afterAddrs rs ++ P) s' is' ∧ Ext is is' ∧ s'.around = s.around := by
  induction cases_ generalizing s s' is P rs with
  | nil =>
    cases h
    exact ⟨by simp, is, hi, Ext.refl is, rfl⟩
  | cons x cases_ ih =>
    obtain ⟨cond, stmts⟩ := x
    rw [List.mapM_cons] at h
    obtain ⟨hc1, hc2⟩ := hc _ List.mem_cons_self
    obtain ⟨r, s1, h1, h⟩ := bind_eq_ok.1 h
    obtain ⟨hr, is1, hi1, x1, c1⟩ := visitCase_ok he hc1 hc2 h1 ho hi
    obtain ⟨rs, s2, h2, h⟩ := bind_eq_ok.1 h
    obtain ⟨hrs, is2, hi2, x2, c2⟩ := ih (fun y hy => hc y (List.mem_cons_of_mem _ hy)) h2
      (outer_of c1 ho) hi1
    cases h
    refine ⟨List.forall_mem_cons.2 ⟨hr, hrs⟩, is2, hi2.perm ?_, x1.trans x2, c2.trans c1⟩
    exact fun pos => List.Perm.mem_iff List.perm_middle

/-- the jumps behind all cases are filled in -/
theorem patchCases_ok {target : Nat} {rs : List (Nat × Nat)} {a : Unit}
    (hr : ∀ r ∈ rs, r.2 = r.1 + 5) (ht : Boundary Piece.size is target)
    (h : (rs.forM fun (labelAddr, jumpAddr) => patch labelAddr (streamDiff target jumpAddr)).run s
      = .ok a s') (hi : Inv T (afterAddrs rs ++ P) tail s is) :
    s' = { s with ostr := s'.ostr } ∧ ∃ is', Same is is' ∧ Inv T P tail s' is' := by
  induction rs generalizing s is with
  | nil =>
    cases h
    exact ⟨rfl, is, Same.refl is, hi⟩
  | cons r rs ih =>
    obtain ⟨_, s1, h1, h⟩ := bind_eq_ok.1 h
    obtain ⟨hr1, hr⟩ := List.forall_mem_cons.1 hr
    dsimp only at h1
    rw [hr1, ← toSkip_eq] at h1
    obtain ⟨e1, is1, hs1, hi1⟩ := patch_ok hi ht h1
    obtain ⟨e2, is2, hs2, hi2⟩ := ih hr (hs1.to_ext.boundary ht) h hi1
    exact ⟨by rw [e2, e1], is2, hs1.trans hs2, hi2⟩

theorem visitCases_goes {expr : Visit} (he : Keeps (Goes T outer) expr)
    {cases_ : List (Visit × Visit)}
    (hc : ∀ x ∈ cases_, Keeps (Goes T outer) x.1 ∧ Keeps (Goes T outer) x.2)
    {defaultStmts : Option Visit} (hd : OptKeeps (Goes T outer) defaultStmts) :
    Keeps (Goes T outer) (visitCases expr cases_ defaultStmts) := by
  intro s a s' h ho P is hi
  obtain ⟨rs, s1, h1, h⟩ := bind_eq_ok.1 h
  obtain ⟨hrs, is1, hi1, x1, c1⟩ := visitCaseList_ok he hc h1 ho hi
  obtain ⟨s2, is2, hi2, x2, c2, h⟩ : ∃ s2 is2, Idle T (afterAddrs rs ++ P) s2 is2 ∧ Ext is is2 ∧
      s2.around = s.around ∧ (do
        let afterAll ← tellp
        rs.forM fun (labelAddr, jumpAddr) => patch labelAddr (streamDiff afterAll jumpAddr)
        seekEnd
        return none : Visit).run s2 = .ok a s' := by
    cases defaultStmts with
    | none => exact ⟨s1, is1, hi1, x1, c1, h⟩
    | some stmts =>
      obtain ⟨_, s2, h2, h⟩ := bind_eq_ok.1 h
      obtain ⟨is2, hi2, x2, c2⟩ := run_goes (visitRun_keeps (hd stmts rfl)) h2 (outer_of c1 ho) hi1
      exact ⟨s2, is2, hi2, x1.trans x2, c2.trans c1, h⟩
  obtain ⟨afterAll, s2', hp, h⟩ := bind_eq_ok.1 h
  cases hp
  obtain ⟨_, s3, h3, h⟩ := bind_eq_ok.1 h
  obtain ⟨e3, is3, hs3, hi3⟩ := patchCases_ok hrs hi2.boundary h3 hi2.inv
  obtain ⟨_, s4, h4, h⟩ := bind_eq_ok.1 h
  obtain ⟨e4, hi4⟩ := seekEnd_ok hi3 h4
  cases h
  exact ⟨is3, hi4, x2.trans hs3.to_ext, (around_ostr e4).trans ((around_ostr e3).trans c2)⟩

/-! ## loops -/

theorem mem_pending {pos : Nat} : pos ∈ s.pending ↔
    pos ∈ s.funcComefroms.map FuncComefrom.pos ∨ pos ∈ s.pushretComefroms ∨
      pos ∈ s.endfuncComefroms ∨ pos ∈ s.loopBeginComefroms.map Prod.snd ∨
      pos ∈ s.loopEndComefroms.map Prod.snd ∨ pos ∈ s.gotoComefroms.map Prod.snd := by
  simp only [Codegen.pending, List.mem_append, or_assoc]

/-- the saved jumps of a loop and of the other loops -/
theorem mem_comefroms (loopIdent : Nat) (l : List (Nat × Nat)) {pos : Nat} : pos ∈ l.map Prod.snd ↔
    pos ∈ (l.filter fun p => p.1 == loopIdent).map Prod.snd ∨
      pos ∈ (l.filter fun p => p.1 != loopIdent).map Prod.snd := by
  simp only [List.mem_map, List.mem_filter, bne_iff_ne, beq_iff_eq]
  constructor
  · rintro ⟨p, hp, rfl⟩
    by_cases h : p.1 = loopIdent
    · exact Or.inl ⟨p, ⟨hp, h⟩, rfl⟩
    · exact Or.inr ⟨p, ⟨hp, h⟩, rfl⟩
  · rintro (⟨p, ⟨hp, -⟩, rfl⟩ | ⟨p, ⟨hp, -⟩, rfl⟩) <;> exact ⟨p, hp, rfl⟩

/-- the jumps of a loop are filled in, those of the loops around it stay -/
theorem patchLoop_ok {loopIdent loopBegin loopEnd : Nat} {a : Unit}
    (hi : Inv T P [] s is) (hb : Boundary Piece.size is loopBegin)
    (he : Boundary Piece.size is loopEnd)
    (h : (patchLoop loopIdent loopBegin loopEnd).run s = .ok a s') :
    s' = { s with
      ostr := s'.ostr
      loopBeginComefroms := s.loopBeginComefroms.filter fun p => p.1 != loopIdent
      loopEndComefroms := s.loopEndComefroms.filter fun p => p.1 != loopIdent } ∧
    ∃ is', Same is is' ∧ Inv T P [] s' is' := by
  unfold patchLoop at h
  rw [run_get_bind] at h
  obtain ⟨_, s1, h1, h⟩ := bind_eq_ok.1 h
  rw [run_modify_bind, run_get_bind] at h
  obtain ⟨_, s2, h2, h⟩ := bind_eq_ok.1 h
  cases h
  have hmem : ∀ pos, pos ∈ (s.loopBeginComefroms.filter fun p => p.1 == loopIdent).map Prod.snd ∨
      pos ∈ (s.loopEndComefroms.filter fun p => p.1 == loopIdent).map Prod.snd →
      pos ∈ P ++ s.pending := by
    intro pos hp
    rw [List.mem_append, mem_pending, mem_comefroms loopIdent s.loopBeginComefroms,
      mem_comefroms loopIdent s.loopEndComefroms]
    tauto
  have hr := fun pos hp => hi.framed.open_ pos (hmem pos hp)
  obtain ⟨is1, hs1, hf1, hb1, e1⟩ := patchAll_framed h1 hi.buf hi.framed
    (fun pos hp => hr pos (Or.inl hp)) hb
  rw [e1] at h2
  obtain ⟨is2, hs2, hf2, hb2, e2⟩ := patchAll_framed h2 hb1 hf1
    (fun pos hp => hs1.to_ext.isRef (hr pos (Or.inr hp))) (hs1.to_ext.boundary he)
  have hs := hs1.trans hs2
  have hn := hi.names
  rw [e2]
  refine ⟨rfl, is2, hs, hi.filled hs hf2 hb2 ?_ ?_ ?_⟩
  · rintro pos ⟨⟨h1, h2⟩, h3⟩
    rw [List.mem_append, mem_pending, mem_comefroms loopIdent s.loopBeginComefroms,
      mem_comefroms loopIdent s.loopEndComefroms] at h1
    rw [List.mem_append, mem_pending]
    dsimp only at h2 h3 ⊢
    tauto
  · intro pos hp
    rw [List.mem_append, mem_pending] at hp
    rw [List.mem_append, mem_pending, mem_comefroms loopIdent s.loopBeginComefroms,
      mem_comefroms loopIdent s.loopEndComefroms]
    dsimp only at hp ⊢
    tauto
  · refine ⟨hn.consts, hn.labels, ?_, hn.rets, hn.syms, hn.addrs, hn.calls⟩
    intro x hx
    apply hn.loops x
    rcases List.mem_append.1 hx with hx | hx
    · exact List.mem_append_left _ (List.mem_filter.1 hx).1
    · exact List.mem_append_right _ (List.mem_filter.1 hx).1

/-- inside a new loop -/
theorem Idle.enterLoop (h : Idle T P s is) (loopIdent : Nat) :
    Idle T P { s with loopIdent := loopIdent, curLoop := s.curLoop ++ [loopIdent] } is := by
  have hn := h.inv.names
  exact ⟨⟨h.inv.buf, h.inv.framed, hn.consts, hn.labels,
    fun x hx => List.mem_append_left _ (hn.loops x hx), hn.rets, hn.syms, hn.addrs, hn.calls⟩,
    h.pos⟩

/-- behind a loop whose jumps are filled in -/
theorem Idle.leaveLoop (h : Idle T P s is) {loopIdent : Nat} {curLoop : List Nat}
    (hc : s.curLoop = curLoop ++ [loopIdent])
    (hb : ∀ x ∈ s.loopBeginComefroms ++ s.loopEndComefroms, x.1 ≠ loopIdent) :
    Idle T P { s with curLoop := curLoop } is := by
  have hn := h.inv.names
  refine ⟨⟨h.inv.buf, h.inv.framed, hn.consts, hn.labels, ?_, hn.rets, hn.syms, hn.addrs,
    hn.calls⟩, h.pos⟩
  intro x hx
  have hx' := hn.loops x hx
  rw [hc, List.mem_append, List.mem_singleton] at hx'
  exact hx'.resolve_right (hb x hx)

theorem emitLoop_goes {cond body : CGM Unit} (hc : Keeps (Goes T false) cond)
    (hb : Keeps (Goes T false) body) : Keeps (Goes T outer) (emitLoop cond body) := by
  intro s a s' h ho P is hi
  have hf {s : Codegen} : false = true → s.around = ([], []) := by simp
  unfold emitLoop at h
  obtain ⟨loopIdent, s1, h1, h⟩ := bind_eq_ok.1 h
  cases h1
  have hi1 := hi.enterLoop (s.loopIdent + 1)
  obtain ⟨loopBegin, s1', hp, h⟩ := bind_eq_ok.1 h
  cases hp
  obtain ⟨_, s2, h2, h⟩ := bind_eq_ok.1 h
  obtain ⟨is2, hi2, x2, c2⟩ := run_goes hc h2 hf hi1
  obtain ⟨_, s3, h3, h⟩ := bind_eq_ok.1 h
  obtain ⟨is3, hi3, x3, c3⟩ := run_goes (putOp_goes (by decide)) h3 hf hi2
  obtain ⟨skipAddr, s4, h4, h⟩ := bind_eq_ok.1 h
  obtain ⟨e4, p4, hi4⟩ := putJump_ok hi3 rfl h4
  have c4 := (around_ostr e4).trans (c3.trans c2)
  obtain ⟨beforeBlock, s4', hp, h⟩ := bind_eq_ok.1 h
  cases hp
  obtain ⟨_, s5, h5, h⟩ := bind_eq_ok.1 h
  obtain ⟨is5, hi5, x5, c5⟩ := run_goes hb h5 hf hi4
  have c5 := c5.trans c4
  have x5 := x2.trans (x3.trans ((Ext.append is3 [.ref 0 .jmpcnd]).trans x5))
  have hbegin : Boundary Piece.size is5 s.ostr.pos := x5.boundary hi.boundary
  -- the jump back
  obtain ⟨_, s6, is6, h, c6, x6, hi6⟩ := putSkip_ok hi5 (rfl : OpCode.jmp.isJump = true) hbegin h
  obtain ⟨afterBlock, s6', hp, h⟩ := bind_eq_ok.1 h
  cases hp
  obtain ⟨_, s7, h7, h⟩ := bind_eq_ok.1 h
  rw [p4, ← toSkip_eq] at h7
  obtain ⟨e7, is7, hs7, hi7⟩ := patch_ok hi6.inv hi6.boundary h7
  have x7 := x6.trans hs7.to_ext
  have hbegin7 : Boundary Piece.size is7 s.ostr.pos := x7.boundary hbegin
  obtain ⟨_, s8, h8, h⟩ := bind_eq_ok.1 h
  obtain ⟨e8, is8, hs8, hi8⟩ := patchLoop_ok hi7
    hbegin7 (hs7.to_ext.boundary hi6.boundary) h8
  obtain ⟨_, s9, h9, h⟩ := bind_eq_ok.1 h
  obtain ⟨e9, hi9⟩ := seekEnd_ok hi8 h9
  have c9 : s9.around = (s.curLoop ++ [s.loopIdent + 1], s.curscope) := by
    have c8 : s8.around = s7.around := by
      rw [e8]
      rfl
    exact (around_ostr e9).trans (c8.trans ((around_ostr e7).trans (c6.trans c5)))
  obtain ⟨hl9, hc9⟩ := Prod.mk.inj c9
  obtain ⟨_, s10, h10, h⟩ := bind_eq_ok.1 h
  cases h
  unfold leaveLoop at h10
  rw [run_get_bind, hl9, List.getLast?_concat] at h10
  cases h10
  dsimp only
  rw [hl9, List.dropLast_concat]
  refine ⟨is8, hi9.leaveLoop hl9 ?_, x5.trans (x7.trans hs8.to_ext), Prod.ext rfl hc9⟩
  rw [e9, e8]
  intro x hx
  rcases List.mem_append.1 hx with hx | hx <;> simpa using (List.mem_filter.1 hx).2

theorem targetLoop_mem {curLoop : List Nat} {loopDepth : Int64} {loop : Nat}
    (h : targetLoop curLoop loopDepth = some loop) : loop ∈ curLoop := by
  unfold targetLoop at h
  exact List.mem_of_getElem? h

/-- a jump that is left open and saved in the state -/
theorem Idle.save {pos : Nat} (h : Idle T (pos :: P) s is) (ho : s'.ostr = s.ostr)
    (hp : ∀ q, q ∈ s'.pending ↔ q = pos ∨ q ∈ s.pending) (hn : Names T s' is) :
    Idle T P s' is := by
  refine ⟨⟨ho ▸ h.inv.buf, h.inv.framed.iff fun q => ?_, hn⟩, ho ▸ h.pos⟩
  rw [List.mem_append, List.mem_append, hp, List.mem_cons]
  tauto

/-- the pending jumps with one more of them -/
theorem mem_concat_snd {α : Type} {l : List (α × Nat)} {x : α} {pos q : Nat} :
    q ∈ (l ++ [(x, pos)]).map Prod.snd ↔ q = pos ∨ q ∈ l.map Prod.snd := by
  rw [List.map_append, List.mem_append, List.map_cons, List.map_nil, List.mem_singleton, or_comm]

theorem targetLoop_ok {s1 : Codegen} {numLoops : Int64} {loop : Nat}
    (h : (deref (targetLoop s.curLoop numLoops)).run s = .ok loop s1) :
    loop ∈ s.curLoop ∧ s1 = s :=
  ⟨targetLoop_mem (deref_ok h).1, (deref_ok h).2⟩

theorem visitLoopBreak_goes (numLoops : Int64) :
    Keeps (Goes T outer) (visitLoopBreak numLoops) := by
  intro s a s' h ho P is hi
  unfold visitLoopBreak at h
  rw [run_get_bind] at h
  split at h
  · cases h
  · obtain ⟨loop, s1, h1, h⟩ := bind_eq_ok.1 h
    obtain ⟨hl, e1⟩ := targetLoop_ok h1
    rw [e1] at h
    obtain ⟨pos, s2, h2, h⟩ := bind_eq_ok.1 h
    obtain ⟨e2, -, hi2⟩ := putJump_ok hi rfl h2
    cases h
    have hn := hi2.inv.names
    have c := around_ostr e2
    refine ⟨_, hi2.save rfl ?_ ?_, Ext.append _ _, c⟩
    · intro q
      rw [mem_pending, mem_pending, mem_concat_snd]
      dsimp only
      simp only [or_assoc, or_left_comm]
    · refine ⟨hn.consts, hn.labels, ?_, hn.rets, hn.syms, hn.addrs, hn.calls⟩
      intro x hx
      rw [← List.append_assoc, List.mem_append, List.mem_singleton] at hx
      rcases hx with hx | rfl
      · exact hn.loops x hx
      · rw [e2]
        exact hl

theorem visitLoopNext_goes (numLoops : Int64) :
    Keeps (Goes T outer) (visitLoopNext numLoops) := by
  intro s a s' h ho P is hi
  unfold visitLoopNext at h
  rw [run_get_bind] at h
  split at h
  · cases h
  · obtain ⟨loop, s1, h1, h⟩ := bind_eq_ok.1 h
    obtain ⟨hl, e1⟩ := targetLoop_ok h1
    rw [e1] at h
    obtain ⟨pos, s2, h2, h⟩ := bind_eq_ok.1 h
    obtain ⟨e2, -, hi2⟩ := putJump_ok hi rfl h2
    cases h
    have hn := hi2.inv.names
    have c := around_ostr e2
    refine ⟨_, hi2.save rfl ?_ ?_, Ext.append _ _, c⟩
    · intro q
      rw [mem_pending, mem_pending, mem_concat_snd]
      dsimp only
      simp only [or_assoc, or_left_comm]
    · refine ⟨hn.consts, hn.labels, ?_, hn.rets, hn.syms, hn.addrs, hn.calls⟩
      intro x hx
      rw [List.append_assoc, List.mem_append, List.mem_append, List.mem_singleton] at hx
      rcases hx with hx | rfl | hx
      · exact hn.loops x (List.mem_append_left _ hx)
      · rw [e2]
        exact hl
      · exact hn.loops x (List.mem_append_right _ hx)

/-! ## labels -/

theorem visitLabel_goes (ident : Str) : Keeps (Goes T outer) (visitLabel ident) := by
  intro s a s' h ho P is hi
  cases h
  have hn := hi.inv.names
  refine ⟨is, ⟨⟨hi.inv.buf, hi.inv.framed, hn.consts, ?_, hn.loops, hn.rets, hn.syms, hn.addrs,
    hn.calls⟩, hi.pos⟩, Ext.refl is, rfl⟩
  intro x hx
  dsimp only at hx
  split at hx
  · exact hn.labels x hx
  · rcases List.mem_append.1 hx with hx | hx
    · exact hn.labels x hx
    · rw [List.mem_singleton.1 hx]
      exact hi.boundary

theorem visitJump_goes (label : Str) (isComefrom : Bool) :
    Keeps (Goes T outer) (visitJump label isComefrom) := by
  refine Keeps.ite (fail_keeps _) ?_
  intro s a s' h ho P is hi
  obtain ⟨pos, s1, h1, h⟩ := bind_eq_ok.1 h
  obtain ⟨e1, -, hi1⟩ := putJump_ok hi rfl h1
  cases h
  have hn := hi1.inv.names
  have c := around_ostr e1
  refine ⟨_, hi1.save rfl ?_ ?_, Ext.append _ _, c⟩
  · intro q
    rw [mem_pending, mem_pending, mem_concat_snd]
    dsimp only
    simp only [or_left_comm]
  · exact ⟨hn.consts, hn.labels, hn.loops, hn.rets, hn.syms, hn.addrs, hn.calls⟩

/-! ## functions -/

theorem visitReturn_goes {rets : Option (List Visit)}
    (hr : ∀ xs ∈ rets, ∀ x ∈ xs, Keeps (Goes T outer) x) (onlyJumpToFuncEnd : Bool) :
    Keeps (Goes T outer) (visitReturn rets onlyJumpToFuncEnd) := by
  intro s a s' h ho P is hi
  unfold visitReturn at h
  rw [run_get_bind] at h
  split at h
  · cases h
  rename_i hne
  have hne : s.curscope ≠ [] := by simpa using hne
  split at h
  · split at h
    · cases h
    · obtain ⟨pos, s1, h1, h⟩ := bind_eq_ok.1 h
      obtain ⟨e1, -, hi1⟩ := putJump_ok hi rfl h1
      cases h
      have hn := hi1.inv.names
      have c := around_ostr e1
      refine ⟨_, hi1.save rfl ?_ ?_, Ext.append _ _, c⟩
      · intro q
        simp only [mem_pending, List.mem_append, List.mem_singleton]
        simp only [or_assoc, or_left_comm, or_comm]
      · refine ⟨hn.consts, hn.labels, hn.loops, ?_, hn.syms, hn.addrs, hn.calls⟩
        intro hc
        rw [e1] at hc
        exact absurd hc hne
  · obtain ⟨xs, s1, h1, h⟩ := bind_eq_ok.1 h
    obtain ⟨hx, e1⟩ := deref_ok h1
    rw [e1] at h
    obtain ⟨syms, s2, h2, h⟩ := bind_eq_ok.1 h
    obtain ⟨is2, hi2, x2, c2⟩ := run_goes (Keeps.mapM xs (hr xs hx)) h2 ho hi
    obtain ⟨pos, s3, h3, h⟩ := bind_eq_ok.1 h
    obtain ⟨e3, -, hi3⟩ := putJump_ok hi2 rfl h3
    cases h
    have hn := hi3.inv.names
    have c3 := (around_ostr e3).trans c2
    refine ⟨_, hi3.save rfl ?_ ?_, x2.trans (Ext.append _ _), c3⟩
    · intro q
      simp only [mem_pending, List.mem_append, List.mem_singleton]
      simp only [or_assoc, or_left_comm, or_comm]
    · refine ⟨hn.consts, hn.labels, hn.loops, ?_, hn.syms, hn.addrs, hn.calls⟩
      intro hc
      rw [(Prod.mk.inj c3).2] at hc
      exact absurd hc hne

/-- functions are found under their own name: there are none inside of others -/
theorem getSym_func (hT : T.Parsed) (hn : Names T s is) {name : Str} {sym : Symbol}
    (h : (getSym name false (some .func)).run s = .ok sym s') :
    s' = s ∧ ∃ sym', T.findSymbol name = some sym' ∧ sym'.ty = .func := by
  obtain ⟨e, ht, key, hs, hk⟩ := getSym_ok h
  refine ⟨e, ?_⟩
  obtain ⟨sym', hs', ed⟩ := hn.ty hs
  have hf : sym'.ty = .func := by
    rw [← ht .func rfl]
    show sym'.declared.ty = sym.declared.ty
    rw [ed]
  rcases hk with rfl | ⟨-, rfl⟩
  · exact ⟨sym', hs', hf⟩
  · -- the scoped name is the name itself outside of functions
    cases hc : s.curscope with
    | nil =>
      have e : s.scoped name = name := by
        rw [Codegen.scoped, hc]
        rfl
      rw [e] at hs'
      exact ⟨sym', hs', hf⟩
    | cons scope scopes =>
      refine absurd ?_ (hT.outermost _ sym' hs' hf)
      rw [Codegen.scoped, hc, List.flatMap_cons, List.append_assoc, List.append_assoc]
      exact List.infix_append' _ _ _

theorem visitCall_goes (hT : T.Parsed) (funcname : Str) {args : List Visit}
    (ha : ∀ x ∈ args, Keeps (Goes T outer) x) :
    Keeps (Goes T outer) (visitCall funcname args) := by
  intro s a s' h ho P is hi
  obtain ⟨func, s1, h1, h⟩ := bind_eq_ok.1 h
  obtain ⟨e1, hfunc⟩ := getSym_func hT hi.inv.names h1
  rw [e1] at h
  split at h
  · cases h
  obtain ⟨_, s2, h2, h⟩ := bind_eq_ok.1 h
  have hargs : Keeps (Goes T outer) (args.reverse.forM Visit.run_) :=
    Keeps.forM _ fun x hx => visitRun_keeps (ha x (List.mem_reverse.1 hx))
  obtain ⟨is2, hi2, x2, c2⟩ := run_goes hargs h2 ho hi
  split at h
  · obtain ⟨_, s3, h3, h⟩ := bind_eq_ok.1 h
    obtain ⟨is3, hi3, x3, c3⟩ := run_goes (goes_emits.callExternalFunc_keeps _) h3 (outer_of c2 ho) hi2
    cases h
    exact ⟨is3, hi3, x2.trans x3, c3.trans c2⟩
  · obtain ⟨framesize, s3, h3, h⟩ := bind_eq_ok.1 h
    rw [← getStackFrameSize_eq _ _ _ _ h3] at h
    obtain ⟨_, s4, h4, h⟩ := bind_eq_ok.1 h
    obtain ⟨is4, hi4, x4, c4⟩ := run_goes (goes_emits.pushIntConst_keeps _) h4 (outer_of c2 ho) hi2
    rw [run_putSkip _ _ _ hi4.atEnd] at h
    have hi5 := hi4.ref (toSkip 0 (s4.ostr.pos + 2)) (rfl : OpCode.call.isJump = true)
    cases h
    have hn := hi5.inv.names
    refine ⟨_, hi5.save rfl ?_ ?_, x2.trans (x4.trans (Ext.append _ _)), c4.trans c2⟩
    · intro q
      simp only [mem_pending, List.map_append, List.mem_append, List.map_cons, List.map_nil,
        List.mem_singleton]
      simp only [or_assoc, or_left_comm, or_comm]
    · refine ⟨hn.consts, hn.labels, hn.loops, hn.rets, hn.syms, hn.addrs, ?_⟩
      intro call hc
      rcases List.mem_append.1 hc with hc | hc
      · exact hn.calls call hc
      · rw [List.mem_singleton.1 hc]
        exact hfunc

theorem run_modifySym_bind {β : Type} (sym : Symbol) (f : Symbol → Symbol) (k : Unit → CGM β)
    (s : Codegen) :
    (modifySym sym f >>= k).run s =
      (k ()).run { s with syms := s.syms.modify sym.scopedName f } := rfl

/-- inside a function -/
theorem Idle.enterFunc (h : Idle T P s is) (funcname : Str) :
    Idle T P { s with curscope := s.curscope ++ [funcname] } is := by
  have hn := h.inv.names
  exact ⟨⟨h.inv.buf, h.inv.framed, hn.consts, hn.labels, hn.loops,
    fun hc => absurd hc (by simp), hn.syms, hn.addrs, hn.calls⟩, h.pos⟩

/-- the jumps to the end of the function are filled in -/
theorem patchRets_ok {β : Type} {f : CGM β} {b : β} {pushret ret : Nat} (hi : Inv T P [] s is)
    (hp : Boundary Piece.size is pushret) (hr : Boundary Piece.size is ret)
    (h : (do
      let s ← get
      patchAll pushret s.pushretComefroms
      modify fun s => { s with pushretComefroms := [] }
      let s ← get
      patchAll ret s.endfuncComefroms
      modify fun s => { s with endfuncComefroms := [] }
      f : CGM β).run s = .ok b s') :
    ∃ s1 is1, f.run s1 = .ok b s' ∧ Same is is1 ∧ Inv T P [] s1 is1 ∧
      s1 = { s with ostr := s1.ostr, pushretComefroms := [], endfuncComefroms := [] } := by
  rw [run_get_bind] at h
  obtain ⟨_, s1, h1, h⟩ := bind_eq_ok.1 h
  rw [run_modify_bind, run_get_bind] at h
  obtain ⟨_, s2, h2, h⟩ := bind_eq_ok.1 h
  rw [run_modify_bind] at h
  have hmem : ∀ pos, pos ∈ s.pushretComefroms ∨ pos ∈ s.endfuncComefroms →
      pos ∈ P ++ s.pending := by
    intro pos hp
    rw [List.mem_append, mem_pending]
    exact Or.inr (Or.inr (hp.imp_right Or.inl))
  have hopen := fun pos hp => hi.framed.open_ pos (hmem pos hp)
  obtain ⟨is1, hs1, hf1, hb1, e1⟩ := patchAll_framed h1 hi.buf hi.framed
    (fun pos hp => hopen pos (Or.inl hp)) hp
  rw [e1] at h2
  obtain ⟨is2, hs2, hf2, hb2, e2⟩ := patchAll_framed h2 hb1 hf1
    (fun pos hp => hs1.to_ext.isRef (hopen pos (Or.inr hp))) (hs1.to_ext.boundary hr)
  have hs := hs1.trans hs2
  have hn := hi.names
  rw [e2] at h
  refine ⟨_, is2, h, hs, hi.filled hs hf2 hb2 ?_ ?_ ?_, rfl⟩
  · rintro pos ⟨⟨h1, h2⟩, h3⟩
    rw [List.mem_append, mem_pending] at h1 ⊢
    dsimp only at h2 h3 ⊢
    rcases h1 with h1 | h1 | h1 | h1 | h1
    · exact Or.inl h1
    · exact Or.inr (Or.inl h1)
    · exact absurd h1 h2
    · exact absurd h1 h3
    · exact Or.inr (Or.inr (Or.inr (Or.inr h1)))
  · intro pos hp
    rw [List.mem_append, mem_pending] at hp ⊢
    dsimp only at hp
    exact hp.imp_right (Or.imp_right (Or.imp (by simp) (Or.imp (by simp) id)))
  · exact ⟨hn.consts, hn.labels, hn.loops, fun _ => ⟨rfl, rfl⟩, hn.syms, hn.addrs, hn.calls⟩

theorem visitFunc_goes (hT : T.Parsed) (funcname : Str) (args rets : List ArgName) {stmts : Visit}
    (hs : Keeps (Goes T false) stmts) :
    Keeps (Goes T true) (visitFunc funcname args rets stmts) := by
  intro s a s' h ho P is hi
  have hf {s : Codegen} : false = true → s.around = ([], []) := by simp
  obtain ⟨hl, hcs⟩ := Prod.mk.inj (ho rfl)
  unfold visitFunc at h
  rw [run_modify_bind] at h
  have hi1 := hi.enterFunc funcname
  obtain ⟨safetyJmp, s2, h2, h⟩ := bind_eq_ok.1 h
  obtain ⟨e2, p2, hi2⟩ := putJump_ok hi1 rfl h2
  have c2 : s2.around = ([], [funcname]) := by
    rw [around_ostr e2]
    exact Prod.ext hl (congrArg (· ++ [funcname]) hcs)
  obtain ⟨_, s3, h3, h⟩ := bind_eq_ok.1 h
  obtain ⟨is3, hi3, x3, c3⟩ := run_goes (declareArgs_goes hT funcname 0 _ args) h3 hf hi2
  obtain ⟨func, s3', h4, h⟩ := bind_eq_ok.1 h
  rw [(getSym_ok h4).1] at h
  obtain ⟨begin, s3'', hp, h⟩ := bind_eq_ok.1 h
  cases hp
  -- the address of the function
  rw [run_modifySym_bind] at h
  have hi4 := hi3.modifySym func.scopedName
    (f := fun sym => { sym with addr := some (Int64.ofNat s3.ostr.pos) }) (fun _ => rfl)
    (fun sym _ _ addr ha => ⟨_, hi3.boundary, (Option.some.inj ha).symm⟩)
  obtain ⟨_, s5, h5, h⟩ := bind_eq_ok.1 h
  obtain ⟨is5, hi5, x5, c5⟩ := run_goes (visitRun_keeps hs) h5 hf hi4
  obtain ⟨pushret, s5', hp, h⟩ := bind_eq_ok.1 h
  cases hp
  obtain ⟨_, s6, h6, h⟩ := bind_eq_ok.1 h
  obtain ⟨is6, hi6, x6, c6⟩ :=
    run_goes (Keeps.forM rets fun x _ => visitRun_keeps (goes_emits.pushVar_keeps x.1)) h6 hf hi5
  obtain ⟨ret, s6', hp, h⟩ := bind_eq_ok.1 h
  cases hp
  obtain ⟨framesize, s6'', h7, h⟩ := bind_eq_ok.1 h
  rw [← getStackFrameSize_eq _ _ _ _ h7] at h
  obtain ⟨_, s7, h7, h⟩ := bind_eq_ok.1 h
  obtain ⟨is7, hi7, x7, c7⟩ := run_goes (goes_emits.pushIntConst_keeps framesize) h7 hf hi6
  obtain ⟨_, s8, h8, h⟩ := bind_eq_ok.1 h
  obtain ⟨is8, hi8, x8, c8⟩ := run_goes (goes_emits.pushIntConst_keeps _) h8 hf hi7
  obtain ⟨_, s9, h9, h⟩ := bind_eq_ok.1 h
  obtain ⟨is9, hi9, x9, c9⟩ := run_goes (putOp_goes (by decide)) h9 hf hi8
  obtain ⟨endFunc, s9', hp, h⟩ := bind_eq_ok.1 h
  cases hp
  rw [run_modifySym_bind] at h
  have hi10 := hi9.modifySym func.scopedName
    (f := fun sym => { sym with endAddr := some (Int64.ofNat s9.ostr.pos) }) (fun _ => rfl)
    (fun sym hs hf addr ha => hi9.inv.names.addrs _ sym hs hf addr ha)
  -- all jumps of the function are filled in
  have x69 := x6.trans (x7.trans (x8.trans x9))
  obtain ⟨s11, is11, h, hs11, hi11, e11⟩ := patchRets_ok hi10.inv (x69.boundary hi5.boundary)
    ((x7.trans (x8.trans x9)).boundary hi6.boundary) h
  obtain ⟨_, s12, h12, h⟩ := bind_eq_ok.1 h
  obtain ⟨e12, is12, hs12, hi12⟩ := patch_ok hi11 (hs11.to_ext.boundary hi9.boundary) h12
  cases h
  have hs := hs11.trans hs12
  have hn := hi12.names
  have c9 : s9.around = ([], [funcname]) :=
    c9.trans (c8.trans (c7.trans (c6.trans (c5.trans (c3.trans c2)))))
  have c12 : s12.around = ([], [funcname]) := by
    rw [around_ostr e12, e11]
    exact c9
  obtain ⟨hl12, hc12⟩ := Prod.mk.inj c12
  refine ⟨is12, ⟨⟨hi12.buf, hi12.framed, hn.consts, hn.labels, ?_, ?_, hn.syms, hn.addrs,
    hn.calls⟩, ?_⟩, ?_, ?_⟩
  · intro x hx
    have hx' := hn.loops x hx
    rw [hl12] at hx'
    exact hx'
  · intro _
    rw [e12, e11]
    exact ⟨rfl, rfl⟩
  · show s9.ostr.pos = _
    rw [hi9.pos, hs.total]
  · exact (Ext.append is _).trans (x3.trans (x5.trans (x69.trans hs.to_ext)))
  · show ([], s12.curscope.dropLast) = s.around
    rw [hc12]
    exact (ho rfl).symm

end

end MuF
