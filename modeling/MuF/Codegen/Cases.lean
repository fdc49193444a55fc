import MuF.Codegen.Parts
import MuF.Codegen.Gotos
import MuF.VM.Branches

/-!
# The code of select statements

* `caseSpans`: where the parts of the cases are in the code;
* `Draft.jump`, `Draft.patch`: jumps whose addresses are filled in during a visit;
* `visitCases_code`: the code between the parts compares and jumps.
-/

set_option linter.unusedVariables false

namespace MuF

open Bytes Exec Layout

/-! ## the code of a select statement -/

/-- where the parts of a case are: the selector, the value of the case, the comparison, and the
jump behind the block -/
structure CaseSpan where
  sel : Nat
  test : Nat
  comp : Nat
  jump : Nat
  deriving DecidableEq, Repr

/-- the beginning of the block -/
def CaseSpan.block (c : CaseSpan) : Nat := c.comp + 9

/-- the beginning of what is behind the case -/
def CaseSpan.next (c : CaseSpan) : Nat := c.jump + 7

/-- the visit of a case, which says where its parts are -/
def spanCase (expr cond stmts : Visit) : CGM CaseSpan := do
  let sel ← tellp
  expr.run_
  let test ← tellp
  cond.run_
  let comp ← tellp
  putOp .equ
  putOp .not
  let skipCaseAddr ← putJump .jmpcnd
  let beforeCase ← tellp
  stmts.run_
  let jump ← tellp
  let _ ← putJump .jmp
  let afterCase ← tellp
  patch skipCaseAddr (streamDiff afterCase beforeCase)
  seekEnd
  return ⟨sel, test, comp, jump⟩

/-- where the parts of the cases are -/
def caseSpans (expr : Visit) (cases : List (Visit × Visit)) : CGM (List CaseSpan) :=
  cases.mapM fun (cond, stmts) => spanCase expr cond stmts

/-- the code of a case without the address behind all cases -/
structure OpenCase (code : List UInt8) (c : CaseSpan) : Prop where
  equ : Sits code c.comp [OpCode.equ.code]
  not : Sits code (c.comp + 1) [OpCode.not.code]
  skip : Sits code (c.comp + 2) (skipCode (toSkip c.next (c.comp + 4)) .jmpcnd)
  push : Sits code c.jump [OpCode.push.code, VMType.addrIp.code]
  jmp : Sits code (c.jump + 6) [OpCode.jmp.code]

/-- the code of a case; all cases end at `q` -/
structure CaseCode (code : List UInt8) (q : Nat) (c : CaseSpan) : Prop where
  equ : code[c.comp]? = some OpCode.equ.code
  not : code[c.comp + 1]? = some OpCode.not.code
  skip : Sits code (c.comp + 2) (skipCode (toSkip c.next (c.comp + 4)) .jmpcnd)
  jump : Sits code c.jump (skipCode (toSkip q (c.jump + 2)) .jmp)

/-- the cases one after the other, from `p` to `d` -/
def Chained : List CaseSpan → Nat → Nat → Prop
  | [], p, d => d = p
  | c :: cs, p, d => c.sel = p ∧ Chained cs c.next d

section
variable {s s' : Codegen} {H K : Holes} {l : List Event} {P : List UInt8 → Prop}

theorem sits_skipCode {code : List UInt8} {p : Nat} {off : Int32} {op : OpCode}
    (h1 : Sits code p [OpCode.push.code, VMType.addrIp.code])
    (h2 : Sits code (p + 2) (Raw.enc off)) (h3 : Sits code (p + 6) [op.code]) :
    Sits code p (skipCode off op) := by
  have e : skipCode off op = [OpCode.push.code, VMType.addrIp.code] ++ Raw.enc off ++ [op.code] := rfl
  rw [e]
  refine sits_append.2 ⟨sits_append.2 ⟨h1, h2⟩, ?_⟩
  rw [List.length_append, Raw.length_enc]
  exact h3

/-- an instruction -/
theorem Draft.op (h : Draft s H l K) {op : OpCode} {u : Unit}
    (hr : (putOp op).run s = .ok u s') :
    s'.ostr.pos = s.ostr.pos + 1 ∧ Adds s H l K s' K fun code => Sits code s.ostr.pos [op.code] := by
  rw [run_putOp] at hr
  cases hr
  exact ⟨pos_write h.toStage _, h.write _⟩

/-- a jump whose address is filled in during the visit -/
theorem Draft.jump (h : Draft s H l K) {op : OpCode} {pos : Nat}
    (hr : (putJump op).run s = .ok pos s') :
    pos = s.ostr.pos + 2 ∧ s'.ostr.pos = s.ostr.pos + 7 ∧
      Adds s H l K s' ((pos, 4) :: K) fun code =>
        Sits code s.ostr.pos [OpCode.push.code, VMType.addrIp.code] ∧
          Sits code (s.ostr.pos + 6) [op.code] := by
  have he := h.atEnd
  rw [run_putJump op he] at hr
  cases hr
  have hb : (Piece.ref 0 op).bytes =
      [OpCode.push.code, VMType.addrIp.code] ++ Raw.enc (0 : Int32) ++ [op.code] := by
    simp [Piece.bytes, Piece.instrs, Instr.bytes]
  refine ⟨rfl, ?_, ?_⟩
  · rw [pos_write h.toStage, hb]
    rfl
  · have h1 := h.write [OpCode.push.code, VMType.addrIp.code]
    have h2 := h1.bind fun H' l' d => d.hole (Raw.enc (0 : Int32))
    have h3 := h2.bind fun H' l' d => d.write [op.code]
    rw [Raw.length_enc] at h3
    have hw : ((s.ostr.write [OpCode.push.code, VMType.addrIp.code]).write
        (Raw.enc (0 : Int32))).write [op.code] = s.ostr.write (Piece.ref 0 op).bytes := by
      rw [write_write _ he, write_write _ he, hb]
    have hp : (s.ostr.write [OpCode.push.code, VMType.addrIp.code]).pos = s.ostr.pos + 2 :=
      pos_write h.toStage _
    have hp' : ((s.ostr.write [OpCode.push.code, VMType.addrIp.code]).write
        (Raw.enc (0 : Int32))).pos = s.ostr.pos + 6 := by
      rw [write_write _ he, pos_write h.toStage]
      rfl
    rw [hp, hp'] at h3
    have e : ({ s with ostr := s.ostr.write (Piece.ref 0 op).bytes } : Codegen) =
        { s with ostr := ((s.ostr.write [OpCode.push.code, VMType.addrIp.code]).write
          (Raw.enc (0 : Int32))).write [op.code] } := by rw [hw]
    rw [e]
    exact h3.mono fun code hc => ⟨hc.1.1, hc.2⟩

/-- the address of a jump is filled in -/
theorem Draft.patch (h : Draft s H l K) {K' : Holes} {pos : Nat} {addr : Int32} {u : Unit}
    (hk : K.Perm ((pos, 4) :: K'))
    (hr : (do patch pos addr; seekEnd : CGM Unit).run s = .ok u s') :
    s'.ostr.pos = s.ostr.pos ∧
      Adds s H l K s' K' fun code => Sits code pos (Raw.enc addr) := by
  have he : s.ostr.pos = s.ostr.buf.length := h.atEnd
  have hlen : ((⟨s.ostr.buf, pos⟩ : OStr).write (Raw.enc addr)).buf.length = s.ostr.buf.length := by
    have hmem : (pos, 4) ∈ K := hk.mem_iff.2 List.mem_cons_self
    obtain ⟨cs, hl, hf⟩ := h.own _ hmem
    have hin := hf.inside
    rw [hl] at hin
    exact length_fill s.ostr.buf (by rw [Raw.length_enc]; exact hin)
  cases hr
  refine ⟨hlen.trans he.symm, h.fill (by rw [Raw.length_enc]; exact hk) ?_ rfl⟩
  exact congrArg (OStr.mk _) hlen

/-- **The code of a case.**  Its jump behind all cases is still open. -/
theorem visitCase_code {expr cond stmts : Visit} (he : Keeps Lays expr) (hc : Keeps Lays cond)
    (hs : Keeps Lays stmts) (h : Draft s H l K) {r : Nat × Nat}
    (hr : (visitCase expr cond stmts).run s = .ok r s') :
    ∃ c, (spanCase expr cond stmts).run s = .ok c s' ∧ c.sel = s.ostr.pos ∧
      s'.ostr.pos = c.next ∧ r = (c.jump + 2, c.next) ∧
      Adds s H l K s' ((c.jump + 2, 4) :: K) fun code => OpenCase code c := by
  obtain ⟨_, s1, h1, hr⟩ := bind_eq_ok.1 hr
  obtain ⟨_, s2, h2, hr⟩ := bind_eq_ok.1 hr
  obtain ⟨_, s3, h3, hr⟩ := bind_eq_ok.1 hr
  obtain ⟨_, s4, h4, hr⟩ := bind_eq_ok.1 hr
  obtain ⟨skip, s5, h5, hr⟩ := bind_eq_ok.1 hr
  obtain ⟨before, s5', hp, hr⟩ := bind_eq_ok.1 hr
  cases hp
  obtain ⟨_, s6, h6, hr⟩ := bind_eq_ok.1 hr
  obtain ⟨jmp, s7, h7, hr⟩ := bind_eq_ok.1 hr
  obtain ⟨after, s7', hp, hr⟩ := bind_eq_ok.1 hr
  cases hp
  obtain ⟨_, s8, h8, hr⟩ := bind_eq_ok.1 hr
  obtain ⟨_, s9, h9, hr⟩ := bind_eq_ok.1 hr
  cases hr
  have hspan : (spanCase expr cond stmts).run s =
      .ok ⟨s.ostr.pos, s1.ostr.pos, s2.ostr.pos, s6.ostr.pos⟩ s' := by
    refine bind_eq_ok.2 ⟨_, _, rfl, bind_eq_ok.2 ⟨_, _, h1, bind_eq_ok.2 ⟨_, _, rfl, ?_⟩⟩⟩
    refine bind_eq_ok.2 ⟨_, _, h2, bind_eq_ok.2 ⟨_, _, rfl, bind_eq_ok.2 ⟨_, _, h3, ?_⟩⟩⟩
    refine bind_eq_ok.2 ⟨_, _, h4, bind_eq_ok.2 ⟨_, _, h5, bind_eq_ok.2 ⟨_, _, rfl, ?_⟩⟩⟩
    refine bind_eq_ok.2 ⟨_, _, h6, bind_eq_ok.2 ⟨_, _, rfl, bind_eq_ok.2 ⟨_, _, h7, ?_⟩⟩⟩
    exact bind_eq_ok.2 ⟨_, _, rfl, bind_eq_ok.2 ⟨_, _, h8, bind_eq_ok.2 ⟨_, _, h9, rfl⟩⟩⟩
  -- the parts one after the other
  have a2 := (h.visit (visitRun_keeps he) h1).bind fun H l d => d.visit (visitRun_keeps hc) h2
  obtain ⟨H2, l2, d2, -⟩ := id a2
  obtain ⟨p3, -⟩ := d2.op h3
  have a3 := a2.bind fun H l d => (d.op h3).2
  obtain ⟨H3, l3, d3, -⟩ := id a3
  obtain ⟨p4, -⟩ := d3.op h4
  have a4 := a3.bind fun H l d => (d.op h4).2
  obtain ⟨H4, l4, d4, -⟩ := id a4
  obtain ⟨e5, p5, -⟩ := d4.jump h5
  have a5 := a4.bind fun H l d => (d.jump h5).2.2
  have a6 := a5.bind fun H l d => d.visit (visitRun_keeps hs) h6
  obtain ⟨H6, l6, d6, -⟩ := id a6
  obtain ⟨e7, p7, -⟩ := d6.jump h7
  have a7 := a6.bind fun H l d => (d.jump h7).2.2
  -- the jump behind the block is filled in
  have hfill : (do patch skip (streamDiff s7.ostr.pos s5.ostr.pos); seekEnd : CGM Unit).run s7 =
      .ok () s' := by
    rw [bind_ok h8]
    exact h9
  obtain ⟨H7, l7, d7, -⟩ := id a7
  obtain ⟨p9, -⟩ := d7.patch (List.Perm.swap (skip, 4) (jmp, 4) K) hfill
  have a9 := a7.bind fun H l d => (d.patch (List.Perm.swap (skip, 4) (jmp, 4) K) hfill).2
  have hoff : streamDiff s7.ostr.pos s5.ostr.pos = toSkip (s6.ostr.pos + 7) (s2.ostr.pos + 4) := by
    rw [toSkip_eq, p7, p5, p4, p3]
  refine ⟨_, hspan, rfl, p9.trans p7, by rw [e7, p7]; rfl, ?_⟩
  rw [e7] at a9
  refine a9.mono ?_
  rintro code ⟨⟨⟨⟨⟨⟨-, hequ⟩, hnot⟩, hpush, hcnd⟩, -⟩, hpush', hjmp⟩, haddr⟩
  rw [p3] at hnot
  rw [p4, p3] at hpush hcnd
  rw [hoff, e5, p4, p3] at haddr
  exact ⟨hequ, hnot, sits_skipCode hpush haddr hcnd, hpush', hjmp⟩

/-- the address of the jump behind all cases -/
def CaseSpan.hole (c : CaseSpan) : Nat × Nat := (c.jump + 2, 4)

/-- **The code of the cases**, one after the other. -/
theorem visitCaseList_code {expr : Visit} {cases_ : List (Visit × Visit)} (he : Keeps Lays expr)
    (hc : ∀ x ∈ cases_, Keeps Lays x.1 ∧ Keeps Lays x.2) (h : Draft s H l K)
    {rs : List (Nat × Nat)}
    (hr : (cases_.mapM fun (cond, stmts) => visitCase expr cond stmts).run s = .ok rs s') :
    ∃ cs, (caseSpans expr cases_).run s = .ok cs s' ∧ Chained cs s.ostr.pos s'.ostr.pos ∧
      rs = cs.map (fun c => (c.jump + 2, c.next)) ∧ cs.length = cases_.length ∧
      Adds s H l K s' ((cs.map CaseSpan.hole).reverse ++ K) fun code =>
        ∀ c ∈ cs, OpenCase code c := by
  induction cases_ generalizing s s' H l K rs with
  | nil =>
    cases hr
    exact ⟨[], rfl, rfl, rfl, rfl, (Adds.refl h).mono fun _ _ => by simp⟩
  | cons x cases_ ih =>
    obtain ⟨cond, stmts⟩ := x
    obtain ⟨⟨hc1, hc2⟩, hc⟩ := List.forall_mem_cons.1 hc
    rw [List.mapM_cons] at hr
    obtain ⟨r, s1, h1, hr⟩ := bind_eq_ok.1 hr
    obtain ⟨rs, s2, h2, hr⟩ := bind_eq_ok.1 hr
    cases hr
    obtain ⟨c, hspan, hsel, hnext, rfl, a1⟩ := visitCase_code he hc1 hc2 h h1
    obtain ⟨H1, l1, d1, -⟩ := id a1
    obtain ⟨cs, hspans, hchain, rfl, hlen, -⟩ := ih hc d1 h2
    have hcons : (caseSpans expr ((cond, stmts) :: cases_)).run s = .ok (c :: cs) s' := by
      unfold caseSpans
      rw [List.mapM_cons]
      exact bind_eq_ok.2 ⟨_, _, hspan, bind_eq_ok.2 ⟨_, _, hspans, rfl⟩⟩
    have hrest : ∀ H' l', Draft s1 H' l' ((c.jump + 2, 4) :: K) →
        Adds s1 H' l' ((c.jump + 2, 4) :: K) s' ((cs.map CaseSpan.hole).reverse ++ c.hole :: K)
          fun code => ∀ c ∈ cs, OpenCase code c := by
      intro H' l' d
      obtain ⟨cs', hspans', -, -, -, a2⟩ := ih hc d h2
      rw [hspans] at hspans'
      cases hspans'
      exact a2
    refine ⟨c :: cs, hcons, ⟨hsel, hnext ▸ hchain⟩, rfl, congrArg (· + 1) hlen, ?_⟩
    rw [List.map_cons, List.reverse_cons, List.append_assoc]
    exact (a1.bind hrest).mono fun code hcode => List.forall_mem_cons.2 hcode

theorem Fixed.perm {p : Nat} {bs : List UInt8} {K' : Holes} (h : Fixed s (H ++ K) l p bs)
    (hk : K.Perm K') : Fixed s (H ++ K') l p bs :=
  h.mono (List.append_subset.2 ⟨List.subset_append_left H K,
    fun k hk' => List.mem_append_right H (hk.mem_iff.2 hk')⟩)

theorem Draft.perm {K' : Holes} (h : Draft s H l K) (hk : K.Perm K') :
    Adds s H l K s K' fun _ => True :=
  ⟨H, l, ⟨h.toStage, fun k hk' => h.own k (hk.mem_iff.2 hk'), (hk.pairwise_iff Apart.symm).1 h.apart⟩,
    fun p bs hf => hf.perm hk, fun _ _ => trivial⟩

/-- the jumps behind all cases are filled in -/
def patchCases (jumpAddrs : List (Nat × Nat)) (afterAll : Nat) : CGM Unit := do
  jumpAddrs.forM fun (labelAddr, jumpAddr) => patch labelAddr (streamDiff afterAll jumpAddr)
  seekEnd

/-- **The jumps behind all cases.** -/
theorem patchCases_code {cs : List CaseSpan} {K' : Holes} {q : Nat} {u : Unit} (h : Draft s H l K)
    (hk : K.Perm (cs.map CaseSpan.hole ++ K'))
    (hr : (patchCases (cs.map fun c => (c.jump + 2, c.next)) q).run s = .ok u s') :
    s'.ostr.pos = s.ostr.pos ∧ Adds s H l K s' K' fun code =>
      ∀ c ∈ cs, Sits code (c.jump + 2) (Raw.enc (toSkip q (c.jump + 2))) := by
  induction cs generalizing s H l K with
  | nil =>
    have e : s' = s := by
      have he : s.ostr.pos = s.ostr.buf.length := h.atEnd
      cases hr
      exact congrArg (fun n => ({ s with ostr := ⟨s.ostr.buf, n⟩ } : Codegen)) he.symm
    rw [e]
    exact ⟨rfl, (h.perm hk).mono fun _ _ => by simp⟩
  | cons c cs ih =>
    rw [List.map_cons, List.cons_append] at hk
    -- going to the end between the jumps changes nothing
    obtain ⟨s1, h1⟩ : ∃ s1, (do patch (c.jump + 2) (streamDiff q c.next); seekEnd : CGM Unit).run s =
      .ok () s1 := ⟨_, rfl⟩
    have h2 : (patchCases (cs.map fun c => (c.jump + 2, c.next)) q).run s1 = .ok u s' := by
      cases h1
      cases cs with
      | nil => exact hr
      | cons c' cs => exact hr
    obtain ⟨p1, -⟩ := h.patch hk h1
    have a1 := (h.patch hk h1).2
    obtain ⟨H1, l1, d1, -⟩ := id a1
    obtain ⟨p2, -⟩ := ih d1 (List.Perm.refl _) h2
    have hoff : streamDiff q c.next = toSkip q (c.jump + 2) := (toSkip_eq q (c.jump + 2)).symm
    rw [hoff] at a1
    refine ⟨p2.trans p1, (a1.bind fun H' l' d => (ih d (List.Perm.refl _) h2).2).mono ?_⟩
    exact fun code hcode => List.forall_mem_cons.2 hcode

theorem patchCases_run {jumpAddrs : List (Nat × Nat)} {ret : Option Symbol}
    (hr : (do
        let afterAll ← tellp
        jumpAddrs.forM fun x => patch x.1 (streamDiff afterAll x.2)
        seekEnd
        return none : Visit).run s = .ok ret s') :
    (patchCases jumpAddrs s.ostr.pos).run s = .ok () s' := by
  obtain ⟨q, s1, hp, hr⟩ := bind_eq_ok.1 hr
  cases hp
  obtain ⟨_, s2, h2, hr⟩ := bind_eq_ok.1 hr
  obtain ⟨_, s3, h3, hr⟩ := bind_eq_ok.1 hr
  cases hr
  exact bind_eq_ok.2 ⟨_, _, h2, h3⟩

/-- **The code of a select statement.** -/
theorem visitCases_code {expr : Visit} {cases_ : List (Visit × Visit)} {defaultStmts : Option Visit}
    (he : Keeps Lays expr) (hc : ∀ x ∈ cases_, Keeps Lays x.1 ∧ Keeps Lays x.2)
    (hd : OptKeeps Lays defaultStmts) (h : Draft s H l K) {ret : Option Symbol}
    (hr : (visitCases expr cases_ defaultStmts).run s = .ok ret s') :
    ∃ cs s1, (caseSpans expr cases_).run s = .ok cs s1 ∧ cs.length = cases_.length ∧
      Chained cs s.ostr.pos s1.ostr.pos ∧ (defaultStmts = none → s'.ostr.pos = s1.ostr.pos) ∧
      Adds s H l K s' K fun code => ∀ c ∈ cs, CaseCode code s'.ostr.pos c := by
  obtain ⟨rs, s1, h1, hr⟩ := bind_eq_ok.1 hr
  obtain ⟨cs, hspans, hchain, rfl, hlen, a1⟩ := visitCaseList_code he hc h h1
  -- the default block
  obtain ⟨s2, hvisit, hnone, hall⟩ : ∃ s2,
      (∀ H l K, Draft s1 H l K → Adds s1 H l K s2 K fun _ => True) ∧
      (defaultStmts = none → s2 = s1) ∧
      (patchCases (cs.map fun c => (c.jump + 2, c.next)) s2.ostr.pos).run s2 = .ok () s' := by
    cases defaultStmts with
    | none => exact ⟨s1, fun H l K d => Adds.refl d, fun _ => rfl, patchCases_run hr⟩
    | some stmts =>
      obtain ⟨_, s2, h2, hr⟩ := bind_eq_ok.1 hr
      refine ⟨s2, fun H l K d => d.visit (visitRun_keeps (hd stmts rfl)) h2, ?_, patchCases_run hr⟩
      intro e
      cases e
  have a2 := a1.bind fun H l d => hvisit H l _ d
  have hperm : ((cs.map CaseSpan.hole).reverse ++ K).Perm (cs.map CaseSpan.hole ++ K) :=
    (List.reverse_perm _).append_right K
  obtain ⟨H2, l2, d2, -⟩ := id a2
  obtain ⟨p4, -⟩ := patchCases_code d2 hperm hall
  have a4 := a2.bind fun H l d => (patchCases_code d hperm hall).2
  refine ⟨cs, s1, hspans, hlen, hchain, fun hd => by rw [p4, hnone hd], a4.mono ?_⟩
  rintro code ⟨⟨hopen, -⟩, haddr⟩ c hc
  obtain ⟨h1, h2, h3, h4, h5⟩ := hopen c hc
  rw [p4]
  exact ⟨(sits_cons.1 h1).1, (sits_cons.1 h2).1, h3, sits_skipCode h4 (haddr c hc) h5⟩

end

end MuF
