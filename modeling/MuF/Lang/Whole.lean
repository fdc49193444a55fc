import MuF.Lang.Frame
import MuF.Codegen.Framing
import MuF.Codegen.Select

/-!
# Whole programs

* `VM.Here.addframe`, `VM.Here.remframe`, `VM.Here.halt`: the code around a program;
* `compile_parts`: what `compile` does with declarations and a statement;
* **`program_runs`**: the machine does what a program means.
-/

set_option linter.unusedVariables false

namespace MuF

open Bytes Exec

/-! ## the code around a program -/

section
variable [MathLib TReal] {s t : VM} {code : List UInt8} {base : Int} {p G : Nat}

omit [MathLib TReal] in
/-- an empty stack is moved down -/
theorem VM.Here.lowered (h : s.Here code base p []) (hG : (code.length : Int) + G ≤ base) :
    VM.Here { s with sp := Int32.ofInt (s.sp.toInt - G) } code (base - G) p [] := by
  have hsp := h.sp
  have htop := h.top
  have hlen := h.ready.length_lt
  have h1 := s.sp.toInt_lt
  rw [sizes_nil, Nat.cast_zero, Int.add_zero] at hsp
  have e : (Int32.ofInt (s.sp.toInt - G)).toInt = base - G := by
    rw [Word.toInt_ofInt (by omega) (by omega), hsp]
  have hr := h.ready
  refine ⟨⟨hr.mem, hr.range, hr.quiet, ?_, ?_, hr.bp, hr.gbp⟩, h.ip, ⟨h.holds.items, ?_, ?_⟩, ?_, ?_⟩
  · show (code.length : Int) + (0 : Nat) ≤ (Int32.ofInt (s.sp.toInt - G)).toInt
    rw [e]
    push_cast
    omega
  · show (Int32.ofInt (s.sp.toInt - G)).toInt + 8 ≤ s.memsize.toInt
    rw [e]
    omega
  · show 0 ≤ (Int32.ofInt (s.sp.toInt - G)).toInt ∧
      (Int32.ofInt (s.sp.toInt - G)).toInt + (sizes [] : Nat) ≤ s.memsize.toInt
    rw [e, sizes_nil]
    push_cast
    omega
  · rfl
  · show (Int32.ofInt (s.sp.toInt - G)).toInt + (sizes [] : Nat) = base - G
    rw [e, sizes_nil]
    push_cast
    omega
  · show base - G + 8 ≤ s.memsize.toInt
    omega

/-- a turn that moves the stack -/
theorem VM.Here.turn_moved {op : OpCode} {q : Nat} {base' : Int} {ds es : List Item}
    (h : s.Here code base p ds) (hop : code[p]? = some op.code)
    (hx : (execOp (some op)).run { s with ip := Int32.ofNat (p + 1) } = .ok .running t)
    (ht : t.Here code base' q es) (hq : q ≤ code.length) : VM.Turn s t := by
  obtain ⟨hp, -⟩ := List.getElem?_eq_some_iff.1 hop
  have hr := h.ready
  have hlen := hr.length_lt
  have h1 := ht.ready.sp_ge
  have h2 := ht.ready.sp_le
  have ep : s.ip.toInt = p := by rw [h.ip, Word.toInt_ofNat (by omega)]
  refine step_op hr ep hop ?_ ?_
  · rw [h.ip]
    exact (ofNat_add_ofNat p 1) ▸ hx
  · rw [ht.ip, Word.toInt_ofNat (by omega)]
    omega

/-- **`ADDFRAME`.** -/
theorem VM.Here.addframe (h : s.Here code base p [(Val.int (Int64.ofNat G)).item])
    (hop : code[p]? = some OpCode.addframe.code) (hG : (code.length : Int) + G ≤ base) :
    ∃ t, VM.Turn s t ∧ t.Here code (base - G) (p + 1) [] ∧ OnlyRuns s t := by
  have hlt := s.sp.toInt_lt
  have hm := s.memsize.toInt_lt
  have htop := h.top
  have h' : s.Here code base p ([(Val.int (Int64.ofNat G)).item] ++ []) := h
  obtain ⟨hh, hsame⟩ := (h'.withIp (p + 1)).popped
  generalize hu : VM.popped { s with ip := Int32.ofNat (p + 1) } _ = u at hh hsame
  have hd := hh.lowered hG
  refine ⟨_, h.turn_moved hop ?_ hd (lt_length hop), hd, ?_⟩
  · refine run_andGoOn ?_
    have hpop : popInt.run { s with ip := Int32.ofNat (p + 1) } = .ok (Int64.ofNat G) u := by
      rw [← hu]
      exact popInt_run (h'.withIp (p + 1)).holds
    rw [opAddframe, bind_ok hpop, run_modify, Int64.toInt_ofNat_of_lt (by omega)]
  · have hrest := hsame.rest
    unfold OnlyRuns
    rw [hrest]

/-- **`REMFRAME`.** -/
theorem VM.Here.remframe (h : s.Here code base p [(Val.int (Int64.ofNat G)).item])
    (hop : code[p]? = some OpCode.remframe.code) (hG : base + G + 8 ≤ s.memsize.toInt) :
    ∃ t, VM.Turn s t ∧ t.Here code (base + G) (p + 1) [] := by
  have hm := s.memsize.toInt_lt
  have h' : s.Here code base p ([(Val.int (Int64.ofNat G)).item] ++ []) := h
  have hcode := h.room
  obtain ⟨hh, hsame⟩ := (h'.withIp (p + 1)).popped
  generalize hu : VM.popped { s with ip := Int32.ofNat (p + 1) } _ = u at hh hsame
  have hum : u.memsize = s.memsize := by rw [hsame.rest]
  have hsp := hh.sp
  rw [sizes_nil, Nat.cast_zero, Int.add_zero] at hsp
  have hroom : u.Room u.sp.toInt G := ⟨by omega, by rw [hum]; omega⟩
  have hready := hh.ready.popped (k := G) (by rw [hum]; omega)
  have hsp' : (u.popped G).sp.toInt = base + G := by
    rw [VM.popped_sp ⟨by omega, by rw [hum]; omega⟩, hsp]
  have hgoal : (u.popped G).Here code (base + G) (p + 1) [] := by
    refine ⟨hready.mono (Nat.zero_le _), hh.ip, ⟨hh.holds.items, ?_, ?_⟩, ?_, ?_⟩
    · rw [VM.Room, hsp', sizes_nil]
      show 0 ≤ base + (G : Int) ∧ base + (G : Int) + (0 : Nat) ≤ u.memsize.toInt
      rw [hum]
      push_cast
      omega
    · rfl
    · rw [hsp', sizes_nil]
      push_cast
      omega
    · show base + (G : Int) + 8 ≤ u.memsize.toInt
      rw [hum]
      exact hG
  refine ⟨_, h.turn_moved hop ?_ hgoal (lt_length hop), hgoal⟩
  refine run_andGoOn ?_
  have hpop : popInt.run { s with ip := Int32.ofNat (p + 1) } = .ok (Int64.ofNat G) u := by
    rw [← hu]
    exact popInt_run (h'.withIp (p + 1)).holds
  have hG64 : (Int64.ofNat G).toInt = G := Int64.toInt_ofNat_of_lt (by omega)
  rw [opRemframe, bind_ok hpop, run_get_bind, hG64, bind_ok (clearIf_run (memset_run hroom)),
    run_modify]
  unfold VM.popped
  rw [Word.add_ofNat_eq]

/-- **`HALT`.** -/
theorem VM.Here.halt (h : s.Here code base p []) (hop : code[p]? = some OpCode.halt.code) :
    ∃ t, step.run s = .ok .halted t := by
  obtain ⟨hp, -⟩ := List.getElem?_eq_some_iff.1 hop
  have hr := h.ready
  have hlen := hr.length_lt
  have h1 := hr.sp_ge
  have h2 := hr.sp_le
  have ep : s.ip.toInt = p := by rw [h.ip, Word.toInt_ofNat (by omega)]
  have e1 : s.ip + 1 = Int32.ofNat (p + 1) := by
    rw [h.ip]
    exact ofNat_add_ofNat p 1
  have hwrap : wrapIp.run { s with ip := s.ip + 1 } = .ok () { s with ip := s.ip + 1 } := by
    refine wrapIp_run ?_
    show (s.ip + 1).toInt < s.memsize.toInt
    rw [e1, Word.toInt_ofNat (by omega)]
    omega
  refine ⟨{ s with ip := s.ip + 1 }, ?_⟩
  rw [step, bind_ok (hr.checkPointerBounds ep hp), bind_ok (hr.fetch ep hop)]
  have hx : (execOp (some .halt)).run { s with ip := s.ip + 1 } =
    .ok .halted { s with ip := s.ip + 1 } := rfl
  rw [bind_ok hx, run_if_neg (by simp), bind_ok hwrap, run_pure]

end

/-! ## the parts of a program -/

/-- the code in front of a program with a frame of `G` bytes, from `b` on -/
def Prologue (G : Nat) (code : List UInt8) (b : Nat) : Prop :=
  0 < G → Sits code b (intCode (Int64.ofNat G)) ∧ code[b + 10]? = some OpCode.addframe.code

/-- the code behind a program -/
def epilogue (G : Nat) : List UInt8 :=
  if 0 < G then intCode (Int64.ofNat G) ++ [OpCode.remframe.code, OpCode.halt.code]
  else [OpCode.halt.code]

section
variable {T : SymTab} {names : List Str} {s s' : Codegen} {G n : Nat} {P : List UInt8 → Prop}

theorem ofNat_gt_zero (h : G < 2^31) : Int64.ofNat G > 0 ↔ 0 < G := by
  show (0 : Int64) < Int64.ofNat G ↔ _
  rw [Int64.lt_iff_toInt_lt, Int64.toInt_ofNat_of_lt (by omega)]
  show (0 : Int) < (G : Int) ↔ 0 < G
  omega

/-- before everything -/
theorem atTop_init (hT : T.Parsed) : AtTop T [] (Codegen.init T) := by
  refine ⟨⟨[], [], sited_init T, rfl, open_init T⟩, rfl, rfl, ⟨rfl, rfl, rfl⟩, ⟨rfl, rfl, rfl⟩, rfl,
    fun x => ?_, by simp, List.nodup_nil⟩
  -- no symbol has an address yet
  unfold Codegen.slotOf
  rw [resolve_global rfl, slotsOf_nil]
  cases h : (Codegen.init T).syms.findSymbol x with
  | none => rfl
  | some sym =>
    rw [Option.bind_some, hT.fresh x sym h]
    rfl

/-- **The code in front of a program.** -/
theorem start_makes (hi : T.Integral) (hG : (T.frame []) < 2^31) (hs : AtTop T names s) {u : Unit}
    (h : start.run s = .ok u s') : AtTop T names s' ∧
      s'.ostr.pos = s.ostr.pos + (if 0 < (T.frame []) then 11 else 0) ∧
      Makes s s' fun code => Prologue (T.frame []) code s.ostr.pos := by
  obtain ⟨framesize, s1, h1, h⟩ := bind_eq_ok.1 h
  obtain ⟨hsize, hs1⟩ := frameSize_run hs.declared hi h1
  rw [hsize, hs1] at h
  by_cases hpos : 0 < (T.frame [])
  · rw [show decide (Int64.ofNat (T.frame []) > 0) = true from decide_eq_true ((ofNat_gt_zero hG).2 hpos),
      run_onlyIf_true] at h
    obtain ⟨_, s2, h2, h⟩ := bind_eq_ok.1 h
    obtain ⟨hw2, hp2, hm2⟩ := pushConst_makes hs.between h2
    have hb2 := hm2.between hs.between
    obtain ⟨hw3, hp3, hm3⟩ := putOp_makes hb2 h
    have hsz : (Data.int (Int64.ofNat (T.frame [])) : TData).size = 9 := rfl
    rw [hsz] at hp2
    refine ⟨hs.writes (hw2.trans hw3) (hm3.between hb2), by rw [if_pos hpos]; omega,
      (hm2.bind hm3).mono ?_⟩
    rintro code ⟨c1, c2⟩ -
    rw [hp2] at c2
    exact ⟨c1, c2⟩
  · rw [show decide (Int64.ofNat (T.frame []) > 0) = false from
      decide_eq_false (mt (ofNat_gt_zero hG).1 hpos), run_onlyIf_false] at h
    cases h
    exact ⟨hs, by rw [if_neg hpos]; rfl, (Makes.refl s).mono fun code _ hc => absurd hc hpos⟩

/-- without addresses of constants only the constants block is written -/
theorem finishConsts_run (h : s.constAddrs = []) : finishConsts.run s =
    .ok () { s with ostr := s.ostr.write s.consttab.ostr } := by
  have hw : (writeOut s.consttab.ostr).run s =
    .ok () { s with ostr := s.ostr.write s.consttab.ostr } := rfl
  unfold finishConsts
  rw [bind_ok (show tellp.run s = .ok s.ostr.pos s from rfl), run_get_bind, bind_ok hw, h]
  rfl

/-- **The code behind a program.** -/
theorem finish_end (hi : T.Integral) (hG : (T.frame []) < 2^31) (hs : AtTop T names s)
    (h : finish.run s = .ok n s') : s'.slotOf = s.slotOf ∧
      ∃ tail, s'.ostr.buf = s.ostr.buf ++ (epilogue (T.frame []) ++ tail) := by
  have he := stage_atEnd hs.between
  obtain ⟨hr1, hr2, hr3⟩ := hs.refs
  obtain ⟨framesize, s1, h1, h⟩ := bind_eq_ok.1 h
  obtain ⟨hsize, hs1⟩ := frameSize_run hs.declared hi h1
  rw [hsize, hs1] at h
  obtain ⟨_, s2, h2, h⟩ := bind_eq_ok.1 h
  obtain ⟨_, s3, h3, h⟩ := bind_eq_ok.1 h
  have hepi : s3 = { s with ostr := s.ostr.write (epilogue (T.frame [])) } := by
    unfold epilogue
    by_cases hpos : 0 < (T.frame [])
    · rw [show decide (Int64.ofNat (T.frame []) > 0) = true from
        decide_eq_true ((ofNat_gt_zero hG).2 hpos), run_onlyIf_true] at h2
      obtain ⟨_, s4, h4, h2⟩ := bind_eq_ok.1 h2
      rw [pushIntConst, run_pushConst _ he] at h4
      cases h4
      cases h2
      cases h3
      rw [if_pos hpos]
      refine congrArg (fun o => ({ s with ostr := o } : Codegen)) ?_
      show ((s.ostr.write (intCode (Int64.ofNat (T.frame [])))).write _).write _ = _
      rw [write_write _ he, write_write _ he, List.append_assoc]
      rfl
    · rw [show decide (Int64.ofNat (T.frame []) > 0) = false from
        decide_eq_false (mt (ofNat_gt_zero hG).1 hpos), run_onlyIf_false] at h2
      cases h2
      cases h3
      rw [if_neg hpos]
  -- there are no addresses to fill in
  have hc : s3.constAddrs = [] := by rw [hepi]; exact hr1
  have hf : s3.funcComefroms = [] := by rw [hepi]; exact hr2
  have hg : s3.gotoComefroms = [] := by rw [hepi]; exact hr3
  obtain ⟨_, s4, h4, h⟩ := bind_eq_ok.1 h
  rw [finishConsts_run hc] at h4
  cases h4
  rw [run_get_bind, hf, bind_ok (show (([] : List FuncComefrom).forM finishCall).run _ = .ok () _
    from rfl), run_get_bind, hg] at h
  cases h
  have he3 : s3.ostr.pos = s3.ostr.buf.length := by
    rw [hepi]
    exact atEnd_write he _
  refine ⟨?_, s.consttab.ostr, ?_⟩
  · show s3.slotOf = s.slotOf
    rw [hepi]
    rfl
  · show (s3.ostr.write s3.consttab.ostr).buf = _
    rw [write_end _ he3, hepi]
    show (s.ostr.write (epilogue (T.frame []))).buf ++ s.consttab.ostr = _
    rw [write_end _ he, List.append_assoc]

/-- what was emitted is in every longer code -/
theorem MakesOpen.closed (h : Makes s s' P) {H : Holes} {l : List Event} (hs : Stage s.bare H l)
    (tail : List UInt8) : P (s'.ostr.buf ++ tail) := by
  obtain ⟨H', l', d, -, hp⟩ := h H l [] hs.draft
  exact hp _ fun p bs hf => sits_append_left hf.sits tail

end

/-! ## programs -/

/-- at first the declared variables are zero -/
def zeroStore (Γ : Str → Option ValTy) (names : List Str) : Store := fun x =>
  if x ∈ names then (Γ x).map ValTy.zeroVal else none

/-- the types of the declared variables -/
def declaredTy (Γ : Str → Option ValTy) (names : List Str) (x : Str) : Option ValTy :=
  if x ∈ names then Γ x else none

section
variable {Γ : Str → Option ValTy} {names : List Str} {F : VarSlots} {s s' : Codegen} {need : Nat}
  {p : Flow.Prog Exit Store}

/-- the declarations set the variables to zero -/
theorem clear_done (hx : ∀ x ∈ names, (Γ x).isSome = true) (n : Nat) (σ : Store) :
    clear Γ names n σ = .done fun x => if x ∈ names then (Γ x).map ValTy.zeroVal else σ x := by
  induction names generalizing σ with
  | nil => rfl
  | cons y names ih =>
    obtain ⟨hy, hx⟩ := List.forall_mem_cons.1 hx
    obtain ⟨t, ht⟩ := Option.isSome_iff_exists.1 hy
    have hfirst : assignTo y (((Γ y).map ValTy.zero).getD (.intConst 0)) n σ =
        .done (σ.set y t.zeroVal) := by
      rw [ht]
      cases t <;> rfl
    unfold clear Flow.seq
    rw [hfirst]
    show clear Γ names n (σ.set y t.zeroVal) = _
    rw [ih hx]
    refine congrArg Flow.Outcome.done (funext fun x => ?_)
    by_cases hm : x ∈ names
    · rw [if_pos hm, if_pos (List.mem_cons_of_mem _ hm)]
    · rw [if_neg hm]
      unfold Store.set
      by_cases e : x = y
      · rw [if_pos e, if_pos (e ▸ List.mem_cons_self), e, ht]
        rfl
      · rw [if_neg e, if_neg (by simp [e, hm])]

theorem types_slotsOf (Γ : Str → Option ValTy) (names : List Str) :
    (slotsOf Γ names).types = declaredTy Γ names := by
  funext x
  unfold VarSlots.types declaredTy
  induction names with
  | nil =>
    rw [slotsOf_nil]
    rfl
  | cons z names ih =>
    rw [slotsOf_cons]
    by_cases e : x = z
    · rw [if_pos e, if_pos (e ▸ List.mem_cons_self), e]
      cases Γ z <;> rfl
    · rw [if_neg e, ih]
      simp [e]

theorem AtTop.amid {T : SymTab} (hT : T.Parsed) (hs : AtTop T names s) :
    Amid (slotsOf T.globalTy names) 0 s := by
  obtain ⟨h1, h2, h3⟩ := hs.loops
  refine ⟨hs.between, ⟨?_, ?_, ?_⟩, ⟨fun x slot h => (hs.slots x).trans h, fun key sym => hs.keyed hT⟩, ?_⟩
  · rw [h1]; simp
  · rw [h2]; simp
  · rw [h3]; simp
  · rw [h1]; rfl

variable [MathLib TReal]

/-- outside of loops there are no open jumps -/
theorem Compiles.closed (h : Compiles F p need s s') (hl : s.curLoop = []) :
    Adjoins s s' [] [] ∧ Makes s s' fun code => s'.ostr.pos ≤ code.length →
      Fragment F p need code [] s.ostr.pos s'.ostr.pos := by
  obtain ⟨N, B, ha, hm⟩ := h
  have hnil : N ++ B = [] := by
    refine List.eq_nil_iff_forall_not_mem.2 fun x hx => ?_
    have := ha.known x hx
    rw [hl] at this
    cases this
  obtain ⟨rfl, rfl⟩ := List.append_eq_nil_iff.1 hnil
  refine ⟨ha, hm.mono fun code hc hle => ?_⟩
  have hctx : loopCtx s.curLoop id id = [] := by rw [hl]; rfl
  rw [← hctx]
  refine hc id id (by simp [Aimed]) (by simp [Aimed]) ?_ hle
  rw [hctx]
  simp [Inside]

omit [MathLib TReal] in
theorem visits_append (asts asts' : List AST) : (visitList (asts ++ asts')).forM Visit.run_ =
    (do (visitList asts).forM Visit.run_; (visitList asts').forM Visit.run_ : CGM Unit) := by
  have h : visitList (asts ++ asts') = visitList asts ++ visitList asts' := by
    induction asts with
    | nil => rfl
    | cons ast asts ih => exact congrArg (visit ast :: ·) ih
  rw [h]
  exact List.forM_append

/-- the code of a program: a prologue, a fragment and an epilogue -/
structure Parts (G need : Nat) (F : VarSlots) (p : Flow.Prog Exit Store) (code : List UInt8) (m q : Nat) :
    Prop where
  prologue : Prologue G code 0
  first : m = if 0 < G then 11 else 0
  body : Fragment F p need code [] m q
  epilogue : Sits code q (epilogue G)

/-- **The code of a program** of declarations and statements. -/
theorem compile_parts {T : SymTab} {decls : List (List Str)} {stmts : List AST} {n : Nat} {f : Codegen}
    (hT : T.Parsed) (hi : T.Integral) (hG : (T.frame []) < 2^31)
    (hx : ∀ x ∈ decls.flatten, (T.globalTy x).isSome = true)
    (ht : typedList (declaredTy T.globalTy decls.flatten) stmts [] = true)
    (h : (compile (declarations decls ++ stmts)).run (Codegen.init T) = .ok n f) :
    decls.flatten.Nodup ∧ (∀ x, f.slotOf x = slotsOf T.globalTy decls.flatten.reverse x) ∧
      ∃ m q, Parts (T.frame []) (23 + needList stmts) (slotsOf T.globalTy decls.flatten.reverse)
        (Flow.seq (clear T.globalTy decls.flatten) (execList stmts 0)) f.ostr.buf m q := by
  obtain ⟨_, s1, h1, h⟩ := bind_eq_ok.1 h
  obtain ⟨_, s3, h3, h⟩ := bind_eq_ok.1 h
  rw [visits_append] at h3
  obtain ⟨_, s2, h2, h3⟩ := bind_eq_ok.1 h3
  -- the visits
  have hs0 := atTop_init hT
  obtain ⟨hs1, p1, m1⟩ := start_makes hi hG hs0 h1
  obtain ⟨hs2, m2⟩ := declarations_clear hT hx hs1 h2
  rw [List.append_nil] at hs2 m2
  have ht' : typedList (slotsOf T.globalTy decls.flatten.reverse).types stmts [] = true := by
    rw [types_slotsOf, show declaredTy T.globalTy decls.flatten.reverse =
      declaredTy T.globalTy decls.flatten by funext x; simp [declaredTy]]
    exact ht
  have hcomp := list_compiles stmts [] ht' (hs2.amid hT) h3
  obtain ⟨ha, m3⟩ := hcomp.closed hs2.loops.1
  have hs3 := hs2.adjoins ha (m3.between hs2.between)
  obtain ⟨hslots, tail, hbuf⟩ := finish_end hi hG hs3 h
  have he3 : s3.ostr.pos = s3.ostr.buf.length := stage_atEnd hs3.between
  refine ⟨List.nodup_reverse.1 hs3.nodup, fun x => by rw [hslots, hs3.slots], s1.ostr.pos, s3.ostr.pos, ?_⟩
  -- the code
  obtain ⟨H, l, hst⟩ := id hs0.between
  obtain ⟨⟨c1, c2⟩, c3⟩ := MakesOpen.closed ((m1.bind m2).bind m3) hst (epilogue (T.frame []) ++ tail)
  rw [← hbuf] at c1 c2 c3
  have hbody := (c2 _ fun x _ => rfl).seq (c3 (by rw [hbuf, he3]; simp))
  refine ⟨c1, p1.trans (Nat.zero_add _), hbody, ?_⟩
  rw [hbuf, he3]
  exact (sits_append.1 (sits_end _ _)).1

/-- the frame is made -/
theorem Parts.begins {G m q : Nat} {code : List UInt8} {base : Int} {v : VM}
    (hc : Parts G need F p code m q) (h : v.Here code base 0 [])
    (hG : (code.length : Int) + G + 9 ≤ base) :
    ∃ w, Relation.ReflTransGen VM.Turn v w ∧ w.Here code (base - G) m [] ∧ OnlyRuns v w := by
  have hm := hc.first
  by_cases hpos : 0 < G
  · rw [if_pos hpos] at hm
    obtain ⟨h1, h2⟩ := hc.prologue hpos
    rw [Nat.zero_add] at h2
    have hsz : (Data.int (Int64.ofNat G) : TData).size = 9 := rfl
    obtain ⟨w, hw, hh, hsame⟩ := h.push h1 rfl rfl (by rw [hsz, sizes_nil]; omega)
    obtain ⟨w', hw', hh', hrest⟩ := VM.Here.addframe hh h2 (by omega)
    rw [hm]
    exact ⟨w', .tail (.single hw) hw', hh', OnlyRuns.trans hsame.rest hrest⟩
  · rw [if_neg hpos] at hm
    obtain rfl : G = 0 := by omega
    rw [hm]
    exact ⟨v, .refl, by simpa using h, rfl⟩

/-- the frame is removed, and the machine halts -/
theorem Parts.ends {G m q : Nat} {code : List UInt8} {base : Int} {v : VM}
    (hc : Parts G need F p code m q) (h : v.Here code base q [])
    (hroom : (code.length : Int) + 9 ≤ base) (hG : base + G + 8 ≤ v.memsize.toInt) :
    ∃ w, Relation.ReflTransGen VM.Turn v w ∧ w.sp.toInt = base + G ∧
      ∃ w', step.run w = .ok .halted w' := by
  have hepi := hc.epilogue
  unfold MuF.epilogue at hepi
  by_cases hpos : 0 < G
  · rw [if_pos hpos] at hepi
    obtain ⟨h1, h2⟩ := sits_append.1 hepi
    obtain ⟨h2, h3⟩ := sits_cons.1 h2
    have hsz : (Data.int (Int64.ofNat G) : TData).size = 9 := rfl
    obtain ⟨w, hw, hh, hsame⟩ := h.push h1 rfl rfl (by rw [hsz, sizes_nil]; omega)
    have hmem : w.memsize = v.memsize := by rw [hsame.rest]
    obtain ⟨w', hw', hh'⟩ := VM.Here.remframe hh h2 (by rw [hmem]; exact hG)
    have hsp := hh'.sp
    rw [sizes_nil, Nat.cast_zero, Int.add_zero] at hsp
    exact ⟨w', .tail (.single hw) hw', hsp, hh'.halt (sits_cons.1 h3).1⟩
  · rw [if_neg hpos] at hepi
    obtain rfl : G = 0 := by omega
    have hsp := h.sp
    rw [sizes_nil, Nat.cast_zero, Int.add_zero] at hsp
    exact ⟨v, .refl, by simpa using hsp, h.halt (sits_cons.1 hepi).1⟩

/-- the machine does what any program does that the statements may stand in place of -/
theorem compiled_runs {T : SymTab} {decls : List (List Str)} {stmts : List AST} {n : Nat} {f : Codegen}
    {v : VM} (hT : T.Parsed) (hi : T.Integral)
    (hx : ∀ x ∈ decls.flatten, (T.globalTy x).isSome = true)
    (ht : typedList (declaredTy T.globalTy decls.flatten) stmts [] = true)
    (hc : (compile (declarations decls ++ stmts)).run (Codegen.init T) = .ok n f)
    (hv : v.Here f.ostr.buf v.sp.toInt 0 []) (hg : v.sp.toInt ≤ v.gbp.toInt)
    (hroom : (f.ostr.buf.length : Int) + (T.frame []) + needList stmts + 23 ≤ v.sp.toInt)
    {prog : Flow.Prog Exit Store} (hr : Flow.Refines prog (execList stmts 0)) :
    (∀ σ, Flow.Ends prog (zeroStore T.globalTy decls.flatten) σ →
      ∃ w u u', Relation.ReflTransGen VM.Turn v w ∧ w.InSlots f.slotOf (v.sp.toInt - (T.frame [])) σ ∧
        Relation.ReflTransGen VM.Turn w u ∧ u.sp = v.sp ∧ step.run u = .ok .halted u') ∧
    (Flow.Diverges prog (zeroStore T.globalTy decls.flatten) → ∀ k, Flow.Far VM.Turn k v) := by
  have hlt := v.sp.toInt_lt
  obtain ⟨hnd, hslots, m, q, hp⟩ := compile_parts hT hi (by omega) hx ht hc
  obtain ⟨w, hw, hh, hrest⟩ := hp.begins hv (by omega)
  have hgbp : w.gbp = v.gbp := by rw [hrest]
  have hmem : w.memsize = v.memsize := by rw [hrest]
  -- the variables are in the frame
  have hle : total T.globalTy decls.flatten.reverse ≤ (T.frame []) :=
    total_le_frame (List.nodup_reverse.2 hnd) fun x hm => hx x (List.mem_reverse.1 hm)
  have hlaid : w.Laid (slotsOf T.globalTy decls.flatten.reverse) (v.sp.toInt - (T.frame [])) :=
    laid_slots (by omega) (by omega) (by rw [hgbp]; omega) hh.ready.gbp.2
  have hplace : Place (slotsOf T.globalTy decls.flatten.reverse) f.ostr.buf (v.sp.toInt - (T.frame [])) w m
      (fun _ => none) w := by
    refine ⟨hh, ⟨hlaid, ?_, ?_⟩, rfl⟩
    · intro x val h
      cases h
    · intro x slot val _ h
      cases h
  have hsim := hp.body (v.sp.toInt - (T.frame [])) w (by push_cast; omega)
  -- the declarations set them to zero
  have hclear (k : Nat) : Flow.seq (clear T.globalTy decls.flatten) (execList stmts 0) k (fun _ => none) =
      execList stmts 0 k (zeroStore T.globalTy decls.flatten) := by
    unfold Flow.seq
    rw [clear_done hx]
    rfl
  refine ⟨fun σ he => ?_, fun hd k => ?_⟩
  · obtain ⟨k, he⟩ := hr.ends he
    obtain ⟨t, ht, hend⟩ := hsim.finishes hplace ⟨k, (hclear k).trans he⟩
    have htm : t.memsize = v.memsize := by rw [hend.rest, hmem]
    have hv8 := hv.top
    obtain ⟨u, hu, hsp, u', hu'⟩ := hp.ends hend.here (by omega) (by rw [htm]; omega)
    have hfs : f.slotOf = slotsOf T.globalTy decls.flatten.reverse := funext hslots
    rw [hfs]
    exact ⟨t, u, u', hw.trans ht, hend.values, hu, Int32.toInt_inj.1 (by omega), hu'⟩
  · exact (hsim.runs_on hplace (fun k => (hclear k).trans (hr.diverges hd k)) k).before hw

/-- **The machine does what a program means.**  If the program ends, the machine comes to a state
where the slots have the values of the variables, and halts with the stack where it was; if the
program does not end, the machine does not stop. -/
theorem program_runs {T : SymTab} {decls : List (List Str)} {stmts : List AST} {n : Nat} {f : Codegen}
    {v : VM} (hT : T.Parsed) (hi : T.Integral)
    (hx : ∀ x ∈ decls.flatten, (T.globalTy x).isSome = true)
    (ht : typedList (declaredTy T.globalTy decls.flatten) stmts [] = true)
    (hc : (compile (declarations decls ++ stmts)).run (Codegen.init T) = .ok n f)
    (hv : v.Here f.ostr.buf v.sp.toInt 0 []) (hg : v.sp.toInt ≤ v.gbp.toInt)
    (hroom : (f.ostr.buf.length : Int) + (T.frame []) + needList stmts + 23 ≤ v.sp.toInt) :
    (∀ σ, Flow.Ends (execList stmts 0) (zeroStore T.globalTy decls.flatten) σ →
      ∃ w u u', Relation.ReflTransGen VM.Turn v w ∧ w.InSlots f.slotOf (v.sp.toInt - (T.frame [])) σ ∧
        Relation.ReflTransGen VM.Turn w u ∧ u.sp = v.sp ∧ step.run u = .ok .halted u') ∧
    (Flow.Diverges (execList stmts 0) (zeroStore T.globalTy decls.flatten) →
      ∀ k, Flow.Far VM.Turn k v) := by
  exact compiled_runs hT hi hx ht hc hv hg hroom (Flow.Refines.refl _)

end

/-! ### a sum -/

/-- adding up 1, 2 and 3, and one more in a loop that is left -/
def sumStmts : List AST :=
  let s : AST := .var (ascii "s")
  [.rangedLoop (ascii "i") (.intConst 1) (.intConst 3) none
      (.assign [ascii "s"] (some (.plus s (.var (ascii "i")) false))),
    .loop (.boolConst true)
      (.stmts [.assign [ascii "s"] (some (.plus s (.intConst 1) false)), .loopBreak 0])]

def sumSyms : SymTab :=
  [(ascii "i", { name := ascii "i", scopedName := ascii "i", ty := .int }),
    (ascii "s", { name := ascii "s", scopedName := ascii "s", ty := .int })]

/-- the program is done in a state that passes the test -/
def doneIn (o : Flow.Outcome Exit Store) (test : Store → Bool) : Bool :=
  match o with
  | .done σ => test σ
  | _ => false

theorem doneIn_ok {o : Flow.Outcome Exit Store} {test : Store → Bool} (h : doneIn o test = true) :
    ∃ σ, o = .done σ ∧ test σ = true := by
  cases o with
  | done σ => exact ⟨σ, rfl, h⟩
  | left e σ => cases h
  | stuck => cases h
  | timeout => cases h

/-- the machine has the sum 7 in the slot of `s` when it is done -/
theorem program_runs_sum : ∃ (f : Codegen) (slot : VarSlot) (w u u' : VM),
    Relation.ReflTransGen (@VM.Turn (MathLib.absent ⟨0⟩)) (vmOn f.ostr.buf) w ∧
      f.slotOf (ascii "s") = some slot ∧
      At w.mem (w.slotAddr slot).toInt ((Data.int 7 : TData).bytes .unknown) ∧
      Relation.ReflTransGen (@VM.Turn (MathLib.absent ⟨0⟩)) w u ∧
      (@step (MathLib.absent ⟨0⟩)).run u = .ok .halted u' := by
  have hT : sumSyms.Parsed := SymTab.parsed_of (by decide +kernel)
  have hi : sumSyms.Integral := by
    unfold SymTab.Integral
    decide +kernel
  obtain ⟨n, f, hc, hf⟩ := endsIn_ok (show endsIn
    (compile (declarations [[ascii "i", ascii "s"]] ++ sumStmts)) (Codegen.init sumSyms)
    (fun f => decide (f.ostr.buf.length < 3000)) = true by decide +kernel)
  have hlen : f.ostr.buf.length < 3000 := of_decide_eq_true hf
  obtain ⟨σ, hσ, hs⟩ := doneIn_ok (show doneIn (execList sumStmts 0 5
    (zeroStore sumSyms.globalTy [ascii "i", ascii "s"]))
    (fun σ => decide (σ (ascii "s") = some (.int 7))) = true by decide +kernel)
  have hsp : (vmOn f.ostr.buf).sp.toInt = 4055 := rfl
  have hgbp : (vmOn f.ostr.buf).gbp.toInt = 4096 := rfl
  have hframe : sumSyms.frame [] = 18 := by decide +kernel
  have hneed : needList sumStmts ≤ 500 := by decide +kernel
  obtain ⟨w, u, u', h1, h2, h3, -, h4⟩ := (@program_runs (MathLib.absent ⟨0⟩) sumSyms
    [[ascii "i", ascii "s"]] sumStmts n f (vmOn f.ostr.buf) hT hi (by decide +kernel)
    (by decide +kernel) hc (here_vmOn (by omega)) (by omega) (by rw [hsp, hframe]; omega)).1 σ
    ⟨5, hσ⟩
  have hs := of_decide_eq_true hs
  obtain ⟨slot, hslot, -⟩ := h2.slot hs
  exact ⟨f, slot, w, u, u', h1, hslot, h2.value _ slot _ hslot hs, h3, h4⟩

end MuF
