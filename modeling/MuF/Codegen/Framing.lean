import MuF.Base.Word
import MuF.Codegen.Jumps
import MuF.Codegen.Program

/-!
# Emitted code is well framed

* `goes_rules`: what every visit keeps;
* **`compile_wellFramed`**: the code of a program is a sequence of complete instructions up to the
  final `HALT`, jumps and calls lead to the start of one of them, and references to constants to
  an entry of the constants table.
-/

set_option linter.unusedVariables false
set_option linter.unusedSectionVars false

namespace MuF

open Exec Layout

theorem in_loop {α : Type} {T : SymTab} {a : Around} {x : CGM α}
    (h : Keeps (Goes T a.loop.outer) x) :
    Keeps (Goes T false) x := by
  have e : a.loop.outer = false := by simp [Around.loop, Around.outer]
  rwa [e] at h

theorem in_func {T : SymTab} (hT : T.Parsed) {a : Around} {ident : Str} {args rets : List ArgName}
    {x : Visit} (ha : a.outer = true) (h : Keeps (Goes T (a.func ident).outer) x) :
    Keeps (Goes T a.outer) (visitFunc ident args rets x) := by
  have e : (a.func ident).outer = false := by simp [Around.func, Around.outer]
  rw [e] at h
  rw [ha]
  exact visitFunc_goes hT _ _ _ h

/-- what every visit keeps -/
theorem goes_rules {T : SymTab} (hT : T.Parsed) :
    VisitorRules (fun a => Goes T a.outer) funcsOutside := by
  refine visitorRules_of (fun a => goes_emits) ?_
  exact {
    varDecl := fun _ h => visitVarDecl_goes hT _ h _ _
    func := fun ha h => in_func hT ha h
    call := fun h => visitCall_goes hT _ h
    ret := fun h => visitReturn_goes h _
    cond := fun h h1 h2 => visitCond_goes h h1 h2
    cases := fun h h1 h2 => visitCases_goes h h1 h2
    loop := fun h1 h2 => emitLoop_goes (in_loop h1) (in_loop h2)
    loopBreak := fun n => visitLoopBreak_goes n
    loopNext := fun n => visitLoopNext_goes n
    label := fun ident => visitLabel_goes ident
    jump := fun label isComefrom => visitJump_goes label isComefrom }

/-! ## start and end of a program -/

section
variable {T : SymTab} {tail : List UInt8} {s s' : Codegen} {is : List Piece}

theorem idle_init (hT : T.Parsed) : Idle T [] (Codegen.init T) [] := by
  refine ⟨⟨rfl, ⟨by simp, fun p off op h => h.elim, fun pos h => absurd h (by simp [Codegen.pending,
    Codegen.init])⟩, ⟨⟨⟨[], rfl, by simp [Codegen.init]⟩, ?_, by simp [Codegen.init]⟩, ?_, ?_, ?_,
    rfl, ?_, ?_⟩⟩, rfl⟩
  · rintro pos ⟨p, off, op, -, -, h⟩
    exact h.elim
  · exact fun x hx => absurd hx (by simp [Codegen.init])
  · exact fun x hx => absurd hx (by simp [Codegen.init])
  · exact fun _ => ⟨rfl, rfl⟩
  · intro name sym hs _ addr ha
    exact absurd (ha.symm.trans (hT.fresh name sym hs)) (by simp)
  · exact fun x hx => absurd hx (by simp [Codegen.init])

theorem start_goes {outer : Bool} : Keeps (Goes T outer) start := by
  refine Keeps.bind (Keeps.of_eq (getStackFrameSize_eq _)) fun framesize => ?_
  exact Keeps.onlyIf (Keeps.bind (goes_emits.pushIntConst_keeps _) fun _ => putOp_goes (by decide))

/-- outside of functions and loops only calls and jumps to labels are still open -/
theorem Names.pending_outside (h : Names T s is) (ha : s.around = ([], [])) (pos : Nat) :
    pos ∈ s.pending ↔
      pos ∈ s.funcComefroms.map FuncComefrom.pos ∨ pos ∈ s.gotoComefroms.map Prod.snd := by
  obtain ⟨hl, hc⟩ := Prod.mk.inj ha
  obtain ⟨h1, h2⟩ := h.rets hc
  have h3 : s.loopBeginComefroms ++ s.loopEndComefroms = [] := by
    apply List.eq_nil_iff_forall_not_mem.2
    intro x hx
    have := h.loops x hx
    rw [hl] at this
    cases this
  obtain ⟨h3, h4⟩ := List.append_eq_nil_iff.1 h3
  rw [mem_pending, h1, h2, h3, h4]
  simp

/-- the address of a constant once the position `base` of the table is known -/
def ConstDone (constAddrs : List (Nat × Int)) (base p : Nat) (off : Int32) : Prop :=
  ∃ addr, (p + 2, addr) ∈ constAddrs ∧ off = Int32.ofInt (addr + base)

/-- filling in the addresses of constants -/
theorem fillConsts_ok {base : Nat} {all l : List (Nat × Int)} {Q : Nat → Prop} {a : Unit}
    (h : (l.forM fun (addrPos, addr) => patch addrPos (Int32.ofInt (addr + base))).run s = .ok a s')
    (hl : l ⊆ all) (hb : s.ostr.buf = code is ++ tail) (hf : Framed Q is)
    (hr : ∀ x ∈ l, IsRef IsConst is x.1)
    (hd : ∀ p off, Has Piece.size is p (.ref off .rdmem) →
      p + 2 ∈ l.map Prod.fst ∨ ConstDone all base p off) :
    ∃ is', Same is is' ∧ Framed Q is' ∧
      (∀ p off, Has Piece.size is' p (.ref off .rdmem) → ConstDone all base p off) ∧
      s'.ostr.buf = code is' ++ tail ∧ s' = { s with ostr := s'.ostr } := by
  induction l generalizing s is with
  | nil =>
    cases h
    exact ⟨is, Same.refl is, hf, fun p off hp => (hd p off hp).resolve_left (by simp), hb, rfl⟩
  | cons x l ih =>
    obtain ⟨addrPos, addr⟩ := x
    obtain ⟨_, s1, h1, h⟩ := bind_eq_ok.1 h
    cases h1
    obtain ⟨p, off, op, e, rfl, hx⟩ := hr _ List.mem_cons_self
    obtain ⟨l', r, rfl, rfl⟩ := has_iff.1 hx
    obtain rfl : addrPos = total Piece.size l' + 2 := e
    have hsame : Same (l' ++ .ref off .rdmem :: r)
        (l' ++ .ref (Int32.ofInt (addr + base)) .rdmem :: r) :=
      ⟨Ext.fill _ _ _ _ _, Ext.fill _ _ _ _ _⟩
    have hf' : Framed Q (l' ++ .ref (Int32.ofInt (addr + base)) .rdmem :: r) :=
      hf.fill _ (fun hk => absurd rfl hk) (fun q => Or.inr) fun q => id
    have hb' := write_ref l' r off (Int32.ofInt (addr + base)) .rdmem tail
    rw [← hb] at hb'
    have hd' : ∀ p off', Has Piece.size (l' ++ .ref (Int32.ofInt (addr + base)) .rdmem :: r) p
        (.ref off' .rdmem) → p + 2 ∈ l.map Prod.fst ∨ ConstDone all base p off' := by
      intro p off' hp
      have hs (off' : Int32) : (Piece.ref off' .rdmem).size = (Piece.ref off .rdmem).size := by simp
      rcases (has_replace Piece.size_pos (hs _)).1 hp with ⟨rfl, e⟩ | ⟨hne, hp⟩
      · cases e
        exact Or.inr ⟨addr, hl List.mem_cons_self, rfl⟩
      · refine (hd p off' hp).imp_left fun hm => ?_
        rw [List.map_cons] at hm
        exact (List.mem_cons.1 hm).resolve_left (by omega)
    obtain ⟨is2, hs2, hf2, hd2, hb2, e2⟩ := ih h (fun y hy => hl (List.mem_cons_of_mem _ hy)) hb'
      hf' (fun y hy => hsame.to_ext.isRef (hr y (List.mem_cons_of_mem _ hy))) hd'
    exact ⟨is2, hsame.trans hs2, hf2, hd2, hb2, e2⟩

/-- while the last addresses are filled in: the pending ones are at the positions of `Q` -/
structure Finishing (T : SymTab) (C : Nat → Int32 → Prop) (Q : Nat → Prop) (tail : List UInt8)
    (s : Codegen) (is : List Piece) : Prop where
  buf : s.ostr.buf = code is ++ tail
  framed : Framed Q is
  names : Names T s is
  consts : ∀ p off, Has Piece.size is p (.ref off .rdmem) → C p off
  scope : s.curscope = []

/-- filling in one jump -/
theorem Finishing.patch {C : Nat → Int32 → Prop} {Q : Nat → Prop} {pos target : Nat} {a : Unit}
    (hi : Finishing T C Q tail s is) (hr : IsRef IsJump is pos)
    (ht : Boundary Piece.size is target)
    (h : (MuF.patch pos (toSkip target pos)).run s = .ok a s') :
    s' = { s with ostr := s'.ostr } ∧
      ∃ is', Same is is' ∧ Finishing T C (fun q => Q q ∧ q ≠ pos) tail s' is' := by
  cases h
  obtain ⟨is', hs, hf, hc, hb⟩ := patch_framed hi.buf hi.framed hr ht
  exact ⟨rfl, is', hs, hb, hf, (hi.names.ostr _).same hs, fun p off hp => hi.consts p off (hc p off hp),
    hi.scope⟩

theorem toSkip_ofNat (target pos : Nat) :
    Int32.ofInt ((Int64.ofNat target).toInt - pos) - vmTypeSize .addrIp true =
      toSkip target pos := by
  unfold toSkip streamDiff
  rw [Int32.ofInt_sub, Int32.ofInt_int64ToInt, Int64.toInt32_ofNat', Int32.ofInt_sub,
    Int32.ofInt_eq_ofNat, Int32.ofInt_eq_ofNat]

/-- the address of a function is the start of its code -/
theorem finishCall_ok {C : Nat → Int32 → Prop} {Q : Nat → Prop} {call : FuncComefrom} {a : Unit}
    (hi : Finishing T C Q tail s is) (hc : call ∈ s.funcComefroms)
    (hr : IsRef IsJump is call.pos) (h : (finishCall call).run s = .ok a s') :
    s' = { s with ostr := s'.ostr } ∧
      ∃ is', Same is is' ∧ Finishing T C (fun q => Q q ∧ q ≠ call.pos) tail s' is' := by
  unfold finishCall at h
  obtain ⟨sym, s1, h1, h⟩ := bind_eq_ok.1 h
  obtain ⟨e1, -, key, hs, hk⟩ := getSym_ok h1
  rw [e1] at h
  obtain rfl : key = call.name := by
    rcases hk with hk | ⟨-, hk⟩
    · exact hk
    · rw [hk, Codegen.scoped, hi.scope]
      rfl
  have hf : sym.ty = .func := by
    obtain ⟨sym', hs', hf⟩ := hi.names.calls call hc
    obtain ⟨sym'', hs'', e⟩ := hi.names.ty hs
    rw [hs'] at hs''
    cases hs''
    rw [← hf]
    show sym.declared.ty = sym'.declared.ty
    rw [e]
  split at h
  · cases h
  · rename_i addr ha
    dsimp only at h
    split at h
    · cases h
    · obtain ⟨t, ht, rfl⟩ := hi.names.addrs _ sym hs hf addr ha
      rw [toSkip_ofNat] at h
      exact hi.patch hr ht h

/-- filling in several addresses, none of which changes the lists that they are taken from -/
theorem finishAll_ok {α : Type} {C : Nat → Int32 → Prop} {Q : Nat → Prop} {l : List α}
    {f : α → CGM Unit} {a : Unit} (pos : α → Nat)
    (hf : ∀ x ∈ l, ∀ {s1 s2 : Codegen} {Q is1 u}, Finishing T C Q tail s1 is1 →
      s1 = { s with ostr := s1.ostr } → IsRef IsJump is1 (pos x) → (f x).run s1 = .ok u s2 →
      s2 = { s1 with ostr := s2.ostr } ∧
        ∃ is2, Same is1 is2 ∧ Finishing T C (fun q => Q q ∧ q ≠ pos x) tail s2 is2)
    (hi : Finishing T C Q tail s is) (hr : ∀ x ∈ l, IsRef IsJump is (pos x))
    (h : (l.forM f).run s = .ok a s') :
    s' = { s with ostr := s'.ostr } ∧
      ∃ is', Same is is' ∧ Finishing T C (fun q => Q q ∧ q ∉ l.map pos) tail s' is' := by
  suffices ∀ s1 is1 Q, Finishing T C Q tail s1 is1 → s1 = { s with ostr := s1.ostr } →
      (∀ x ∈ l, IsRef IsJump is1 (pos x)) → (l.forM f).run s1 = .ok a s' →
      s' = { s with ostr := s'.ostr } ∧
        ∃ is', Same is1 is' ∧ Finishing T C (fun q => Q q ∧ q ∉ l.map pos) tail s' is' from
    this s is Q hi rfl hr h
  clear hi hr h
  induction l with
  | nil =>
    intro s1 is1 Q hi e hr h
    cases h
    exact ⟨e, is1, Same.refl is1, hi.buf, hi.framed.iff (by simp), hi.names, hi.consts, hi.scope⟩
  | cons x l ih =>
    intro s1 is1 Q hi e hr h
    obtain ⟨_, s2, h2, h⟩ := bind_eq_ok.1 h
    obtain ⟨e2, is2, hs2, hi2⟩ := hf x List.mem_cons_self hi e (hr x List.mem_cons_self) h2
    obtain ⟨e3, is3, hs3, hi3⟩ := ih (fun y hy => hf y (List.mem_cons_of_mem _ hy)) s2 is2 _ hi2
      (by rw [e2, e]) (fun y hy => hs2.to_ext.isRef (hr y (List.mem_cons_of_mem _ hy))) h
    refine ⟨e3, is3, hs2.trans hs3, hi3.buf, hi3.framed.iff fun q => ?_, hi3.names, hi3.consts,
      hi3.scope⟩
    rw [List.map_cons, List.mem_cons, not_or, and_assoc]

/-- a jump to a label -/
theorem finishGoto_ok {C : Nat → Int32 → Prop} {Q : Nat → Prop} {label : Str} {pos : Nat}
    {a : Unit} (hi : Finishing T C Q tail s is) (hr : IsRef IsJump is pos)
    (h : (finishGoto label pos).run s = .ok a s') :
    s' = { s with ostr := s'.ostr } ∧
      ∃ is', Same is is' ∧ Finishing T C (fun q => Q q ∧ q ≠ pos) tail s' is' := by
  unfold finishGoto at h
  rw [run_get_bind] at h
  split at h
  · cases h
  · rename_i labelPos hl
    exact hi.patch hr (hi.names.labels _ (lookup_mem hl)) h

/-- the constants block and the addresses of the constants -/
theorem finishConsts_ok {a : Unit} (hi : Idle T [] s is) (hc : s.curscope = [])
    (h : finishConsts.run { s with ostr := s.ostr.write [OpCode.halt.code] } = .ok a s') :
    ∃ is', s' = { s with ostr := s'.ostr } ∧
      Finishing T (ConstDone s.constAddrs (total Piece.size is' + 1)) (fun pos => pos ∈ s.pending)
        (OpCode.halt.code :: s.consttab.ostr) s' is' := by
  obtain ⟨consttabPos, s1, h1, h⟩ := bind_eq_ok.1 h
  cases h1
  rw [run_get_bind] at h
  obtain ⟨_, s2, h2, h⟩ := bind_eq_ok.1 h
  cases h2
  have hpos : (s.ostr.write [OpCode.halt.code]).pos = total Piece.size is + 1 := by
    rw [hi.write_buf]
    rfl
  have hb : ((s.ostr.write [OpCode.halt.code]).write s.consttab.ostr).buf =
      code is ++ OpCode.halt.code :: s.consttab.ostr := by
    rw [write_write _ hi.atEnd, hi.write_buf]
    rfl
  have hn := hi.inv.names
  dsimp only at h
  rw [hpos] at h
  obtain ⟨is', hs, hf, hd, hb', e⟩ := fillConsts_ok h (List.Subset.refl _) hb hi.inv.framed
    (fun x hx => (hn.consts.addrs x hx).1)
    (fun p off hp => by
      obtain ⟨addr, ha⟩ := hn.consts.refs (p + 2) ⟨p, off, _, rfl, rfl, hp⟩
      exact Or.inl (List.mem_map.2 ⟨_, ha, rfl⟩))
  refine ⟨is', by rw [e], hb', hf, ?_, by rwa [hs.total], by rw [e]; exact hc⟩
  rw [e]
  exact (hn.ostr _).same hs

/-- the end of a program: all addresses are filled in -/
theorem finish_ok {n : Nat} (hi : Idle T [] s is) (ha : s.around = ([], []))
    (h : finish.run s = .ok n s') :
    ∃ is', Finishing T (ConstDone s'.constAddrs (total Piece.size is' + 1)) (fun _ => False)
      (OpCode.halt.code :: s'.consttab.ostr) s' is' ∧ n = s'.ostr.buf.length := by
  unfold finish at h
  obtain ⟨framesize, s1, h1, h⟩ := bind_eq_ok.1 h
  rw [← getStackFrameSize_eq _ _ _ _ h1] at h
  obtain ⟨_, s1, h1, h⟩ := bind_eq_ok.1 h
  have hrem : Keeps (Goes T true) (onlyIf (framesize > 0) do
      pushIntConst framesize
      putOp .remframe) :=
    Keeps.onlyIf (Keeps.bind (goes_emits.pushIntConst_keeps _) fun _ => putOp_goes (by decide))
  obtain ⟨is1, hi1, -, c1⟩ := run_goes hrem h1 (fun _ => ha) hi
  rw [ha] at c1
  obtain ⟨_, s2, h2, h⟩ := bind_eq_ok.1 h
  cases h2
  obtain ⟨_, s3, h3, h⟩ := bind_eq_ok.1 h
  obtain ⟨is3, e3, hi3⟩ := finishConsts_ok hi1 (Prod.mk.inj c1).2 h3
  have hopen : ∀ pos, pos ∈ s1.pending → IsRef IsJump is3 pos := hi3.framed.open_
  have hout := hi1.inv.names.pending_outside c1
  -- the calls
  rw [run_get_bind] at h
  obtain ⟨_, s4, h4, h⟩ := bind_eq_ok.1 h
  obtain ⟨e4, is4, hs4, hi4⟩ := finishAll_ok FuncComefrom.pos
    (fun call hc _ _ _ _ _ hi e hr h => finishCall_ok hi (by rw [e]; exact hc) hr h) hi3
    (fun call hc => hopen _ ((hout _).2 (Or.inl (by
      rw [e3] at hc
      exact List.mem_map.2 ⟨call, hc, rfl⟩)))) h4
  -- the jumps to labels
  rw [run_get_bind] at h
  obtain ⟨_, s5, h5, h⟩ := bind_eq_ok.1 h
  obtain ⟨e5, is5, hs5, hi5⟩ := finishAll_ok Prod.snd
    (fun x _ _ _ _ _ _ hi _ hr h => finishGoto_ok hi hr h) hi4
    (fun x hx => hs4.to_ext.isRef (hopen _ ((hout _).2 (Or.inr (by
      rw [e4, e3] at hx
      exact List.mem_map.2 ⟨x, hx, rfl⟩))))) h5
  cases h
  have e : s5 = { s1 with ostr := s5.ostr } := by rw [e5, e4, e3]
  have htot : total Piece.size is5 = total Piece.size is3 := (hs4.trans hs5).total
  have hn := hi5.names
  refine ⟨is5, ⟨hi5.buf.trans ?_, hi5.framed.iff ?_, ?_, ?_, hi5.scope⟩, rfl⟩
  · dsimp only
    rw [e]
  · intro pos
    rw [e4, e3, hout]
    tauto
  · exact ⟨hn.consts, by simp, hn.loops, hn.rets, hn.syms, hn.addrs, hn.calls⟩
  · dsimp only
    rw [htot, e]
    exact hi5.consts

end

/-! ## decoded programs -/

/-- a program `bytes` of the instructions `is` with the strings `strs` behind it: linear decoding
ends with the final `HALT`, where the strings begin; every address for a jump or a call leads,
from behind that instruction, to the first byte of an instruction, and every other address
relative to the instruction pointer is one for `RDMEM` and leads to the first byte of a string -/
structure WellFramed (bytes : List UInt8) (is : List Instr) (strs : List Str) : Prop where
  decoded : decode bytes = some (is, strs.flatMap strEntry)
  halt : is.getLast? = some (.op .halt)
  table : bytes = is.flatMap Instr.bytes ++ strs.flatMap strEntry
  jumps : ∀ p op, Has Instr.size is p (.op op) → op.isJump = true →
    ∃ q off t i, p = q + 6 ∧ Has Instr.size is q (.push .addrIp (Raw.enc (off : Int32))) ∧
      ((p + 1 : Nat) : Int) + off.toInt = (t : Nat) ∧ Has Instr.size is t i
  refs : ∀ p operand, Has Instr.size is p (.push .addrIp operand) →
    ∃ off op, operand = Raw.enc (off : Int32) ∧ Has Instr.size is (p + 6) (.op op) ∧
      (op.isJump = true ∨ op = .rdmem ∧ ∃ t str,
        ((p + 7 : Nat) : Int) + off.toInt = (total Instr.size is + t : Nat) ∧
          Has strEntrySize strs t str)

section
variable {is : List Piece} {p q : Nat}

theorem has_instrs {i : Instr} : Has Instr.size (is.flatMap Piece.instrs) q i ↔
    Has Piece.size is q (.instr i) ∨
      ∃ p off op, Has Piece.size is p (.ref off op) ∧
        (q = p ∧ i = .push .addrIp (Raw.enc off) ∨ q = p + 6 ∧ i = .op op) := by
  have hpush (off : Int32) : (Instr.push .addrIp (Raw.enc off)).size = 6 := by
    simp [Instr.size, Instr.bytes]
  rw [has_flatMap Piece.total_instrs]
  constructor
  · rintro ⟨p, j, hj, hle, hi⟩
    cases j with
    | instr j =>
      rcases hi with ⟨h1, rfl⟩ | ⟨-, hi⟩
      · obtain rfl : q = p := by omega
        exact Or.inl hj
      · exact hi.elim
    | ref off op =>
      refine Or.inr ⟨p, off, op, hj, ?_⟩
      rcases hi with ⟨h1, rfl⟩ | ⟨h1, ⟨h2, rfl⟩ | ⟨-, hi⟩⟩
      · exact Or.inl ⟨by omega, rfl⟩
      · rw [hpush] at h1 h2
        exact Or.inr ⟨by omega, rfl⟩
      · exact hi.elim
  · rintro (h | ⟨p, off, op, h, ⟨rfl, rfl⟩ | ⟨rfl, rfl⟩⟩)
    · exact ⟨q, _, h, Nat.le_refl q, Or.inl ⟨Nat.sub_self q, rfl⟩⟩
    · exact ⟨q, _, h, Nat.le_refl q, Or.inl ⟨Nat.sub_self q, rfl⟩⟩
    · refine ⟨p, _, h, Nat.le_add_right p 6, Or.inr ⟨?_, Or.inl ⟨?_, rfl⟩⟩⟩
      · rw [hpush]
        omega
      · rw [hpush]
        omega

/-- the integer that an address stands for in a program that is not too long -/
theorem toSkip_toInt {target pos : Nat} (h1 : target < 2^31) (h2 : pos + 5 < 2^31) :
    ((pos + 5 : Nat) : Int) + (toSkip target pos).toInt = target := by
  rw [toSkip_eq, streamDiff, Word.toInt_ofInt (by omega) (by omega)]
  omega

variable {T : SymTab} {s : Codegen}

/-- **All addresses filled in make a well-framed program.** -/
theorem Finishing.wellFramed
    (hi : Finishing T (ConstDone s.constAddrs (total Piece.size is + 1)) (fun _ => False)
      (OpCode.halt.code :: s.consttab.ostr) s is) (hn : s.ostr.buf.length < 2^31) :
    ∃ strs, WellFramed s.ostr.buf (is.flatMap Piece.instrs ++ [.op .halt]) strs := by
  obtain ⟨strs, ht⟩ := hi.names.consts.table
  have hok := hi.framed.ok
  have hbuf : s.ostr.buf = (is.flatMap Piece.instrs).flatMap Instr.bytes ++
      OpCode.halt.code :: strs.flatMap strEntry := by
    rw [hi.buf, code_eq_bytes, ht.ostr]
  have hlen : total Piece.size is + 1 + total strEntrySize strs < 2^31 := by
    rw [hi.buf, List.length_append, length_code, List.length_cons, ht.ostr] at hn
    rw [total_strEntry]
    omega
  have htot : total Instr.size (is.flatMap Piece.instrs ++ [.op .halt]) =
      total Piece.size is + 1 := by
    rw [total_append, total_flatMap Piece.total_instrs]
    rfl
  have hlast {p : Nat} {i : Instr} (h : Has Instr.size (is.flatMap Piece.instrs ++ [.op .halt]) p i)
      (hne : i ≠ .op .halt) : Has Instr.size (is.flatMap Piece.instrs) p i := by
    rcases has_append.1 h with h | ⟨-, h⟩
    · exact h
    · exact absurd (List.mem_singleton.1 h.mem) hne
  refine ⟨strs, ?_, List.getLast?_concat, ?_, ?_, ?_⟩
  · rw [hbuf]
    apply decode_bytes
    intro i hi
    obtain ⟨j, hj, hi⟩ := List.mem_flatMap.1 hi
    exact (hok j hj).instrs i hi
  · rw [hbuf, List.flatMap_append, List.append_assoc]
    rfl
  · intro p op hp hop
    have hne : Instr.op op ≠ .op .halt := by
      rintro ⟨⟩
      cases hop
    rcases has_instrs.1 (hlast hp hne) with hp | ⟨p, off, op', hp, ⟨-, e⟩ | ⟨rfl, e⟩⟩
    · -- no plain instruction is a jump
      have hplain : (Instr.op op).Plain := hok _ hp.mem
      rw [hplain.2] at hop
      cases hop
    · cases e
    · cases e
      obtain ⟨t, hb, rfl⟩ := (hi.framed.jumps p off op hp (isJump_of hop)).resolve_left id
      obtain ⟨i, hb'⟩ := (Boundary.flatMap Piece.total_instrs hb).has_concat (.op .halt)
      have hle := hb.le
      have hle' := hp.le
      rw [Piece.size_ref] at hle'
      refine ⟨p, _, t, i, rfl, Has.append (has_instrs.2 (Or.inr ⟨p, _, op, hp, Or.inl ⟨rfl, rfl⟩⟩)),
        ?_, hb'⟩
      exact toSkip_toInt (by omega) (by omega)
  · intro p operand hp
    rcases has_instrs.1 (hlast hp (by simp)) with hr | ⟨p, off, op, hr, ⟨rfl, e⟩ | ⟨-, e⟩⟩
    · have hplain : (Instr.push .addrIp operand).Plain := hok _ hr.mem
      exact absurd rfl hplain.2
    · cases e
      have hnext : Has Instr.size (is.flatMap Piece.instrs ++ [.op .halt]) (p + 6) (.op op) :=
        Has.append (has_instrs.2 (Or.inr ⟨p, off, op, hr, Or.inr ⟨rfl, rfl⟩⟩))
      refine ⟨off, op, rfl, hnext, ?_⟩
      have hop : op.isJump = true ∨ op = .rdmem := hok _ hr.mem
      refine hop.imp_right ?_
      rintro rfl
      refine ⟨rfl, ?_⟩
      obtain ⟨addr, ha, rfl⟩ := hi.consts p off hr
      obtain ⟨-, ⟨str, t⟩, hy, e⟩ := hi.names.consts.addrs _ ha
      have hstr := ht.consts _ hy
      have hle := hstr.le
      have hle' := hr.le
      rw [Piece.size_ref] at hle'
      dsimp only at e hle
      refine ⟨t, str, ?_, hstr⟩
      rw [htot, e, Word.toInt_ofInt (by push_cast; omega) (by push_cast; omega)]
      push_cast
      ring
    · cases e

end

/-- **Emitted code is well framed and every address in it is resolved.** -/
theorem compile_wellFramed (T : SymTab) (hT : T.Parsed) (stmts : List AST)
    (hs : allList funcsOutside ⟨[], false⟩ stmts = true) (n : Nat) (s : Codegen)
    (h : (compile stmts).run (Codegen.init T) = .ok n s) (hn : n < 2^31) :
    n = s.ostr.buf.length ∧ ∃ is strs, WellFramed s.ostr.buf is strs := by
  obtain ⟨_, s1, h1, h⟩ := bind_eq_ok.1 h
  have hstart : Keeps (Goes T true) start := start_goes
  obtain ⟨is1, hi1, -, c1⟩ := run_goes hstart h1 (fun _ => rfl) (idle_init hT)
  obtain ⟨_, s2, h2, h⟩ := bind_eq_ok.1 h
  have hvisits : Keeps (Goes T true) ((visitList stmts).forM Visit.run_) :=
    Keeps.forM _ fun x hx => visitRun_keeps (visitList_keeps (goes_rules hT) _ stmts hs x hx)
  obtain ⟨is2, hi2, -, c2⟩ := run_goes hvisits h2 (fun _ => c1) hi1
  obtain ⟨is, hi, rfl⟩ := finish_ok hi2 (c2.trans c1) h
  exact ⟨rfl, _, hi.wellFramed hn⟩

/-- a table is in order if its entries are -/
theorem SymTab.parsed_of {T : SymTab}
    (h : ∀ x ∈ T, x.2.scopedName = x.1 ∧ x.2.addr = none ∧
      (x.2.ty = .func → ¬ scopeSep <:+: x.1)) : T.Parsed where
  keyed name sym hs := (h _ (lookup_mem hs)).1
  fresh name sym hs := (h _ (lookup_mem hs)).2.1
  outermost name sym hs := (h _ (lookup_mem hs)).2.2

theorem compile_wellFramed_loop :
    let x : Symbol := { name := ascii "x", scopedName := ascii "x", ty := .int }
    let f : Symbol := { name := ascii "f", scopedName := ascii "f", ty := .func }
    let stmts : List AST :=
      [.varDecl [ascii "x"] none false false, .func (ascii "f") [] [] (.ret none true),
        .loop (.var (ascii "x")) (.stmts [.call (ascii "f") [], .strConst (ascii "a"),
          .loopBreak 0])]
    ∃ n s, (compile stmts).run (Codegen.init [(ascii "x", x), (ascii "f", f)]) = .ok n s ∧
      n = s.ostr.buf.length ∧ ∃ is strs, WellFramed s.ostr.buf is strs := by
  intro x f stmts
  have hT : SymTab.Parsed [(ascii "x", x), (ascii "f", f)] :=
    SymTab.parsed_of (by decide +kernel)
  have hrun : (match (compile stmts).run (Codegen.init [(ascii "x", x), (ascii "f", f)]) with
      | .ok n _ => decide (n < 2^31)
      | .error _ _ => false) = true := by
    decide +kernel
  split at hrun
  · rename_i n s h
    exact ⟨n, s, h, compile_wellFramed _ hT stmts (by decide) n s h (of_decide_eq_true hrun)⟩
  · cases hrun

end MuF
