import MuF.Lang.Compiled
import MuF.Codegen.Slots

/-!
# The global frame

* `SymTab.globalTy`: the global variables of a program of integers and truth values;
* `slotsOf`: the slots of the variables that are declared so far;
* `AtTop`: code generation between two declarations;
* **`declarations_clear`**: declarations give the variables their slots and set them to zero.
-/

set_option linter.unusedVariables false

namespace MuF

open Bytes Exec

/-! ## the sizes of variables -/

/-- the types of the global variables -/
def SymTab.globalTy (T : SymTab) (x : Str) : Option ValTy :=
  (T.findSymbol x).bind fun sym =>
    if sym.scopeName = [] ∧ sym.isArg = false then sym.ty.val else none

/-- all global variables are integers and truth values -/
def SymTab.Integral (T : SymTab) : Prop :=
  ∀ sym ∈ T.findSymbolsWithSameScope [], sym.ty = .func ∨ sym.ty.val.isSome = true

section
variable {T : SymTab} {x : Str} {t : ValTy} {sym : Symbol}

theorem getSymSize_val (h : sym.ty.val = some t) : getSymSize sym = .ok (Int32.ofNat t.size) := by
  have hty := SymbolType.val_some h
  unfold getSymSize
  rw [hty]
  cases t <;> rfl

theorem slotSize_val (h : sym.ty.val = some t) : sym.slotSize = t.size := by
  unfold Symbol.slotSize
  rw [getSymSize_val h]
  cases t <;> rfl

theorem SymTab.Integral.sized (h : T.Integral) : T.Sized [] := by
  intro sym hm
  refine (h sym hm).imp_right fun hv => ?_
  obtain ⟨t, ht⟩ := Option.isSome_iff_exists.1 hv
  unfold Symbol.Sized
  rw [slotSize_val ht, getSymSize_val ht]

theorem SymTab.globalTy_declared (T : SymTab) (x : Str) : T.declared.globalTy x = T.globalTy x := by
  unfold SymTab.globalTy
  rw [SymTab.findSymbol_declared]
  cases T.findSymbol x <;> rfl

theorem globalTy_some (h : T.globalTy x = some t) : ∃ sym, T.findSymbol x = some sym ∧
    sym.scopeName = [] ∧ sym.isArg = false ∧ sym.ty.val = some t := by
  obtain ⟨sym, h1, h2⟩ := Option.bind_eq_some_iff.1 h
  split at h2
  · next hc => exact ⟨sym, h1, hc.1, hc.2, h2⟩
  · cases h2

/-- the size of the frame, as the code generator computes it -/
theorem frameSize_run {s s' : Codegen} {framesize : Int64} (hd : s.syms.declared = T.declared)
    (hT : T.Integral) (h : (getStackFrameSize none).run s = .ok framesize s') :
    framesize = Int64.ofNat (T.frame []) ∧ s' = s := by
  unfold getStackFrameSize at h
  rw [run_get_bind] at h
  dsimp only at h
  rw [sum_frame hd hT.sized] at h
  cases h
  exact ⟨rfl, rfl⟩

end

/-! ## the slots of declared variables -/

section
variable (Γ : Str → Option ValTy)

/-- the size of a variable of a program -/
def sizeOfVar (x : Str) : Nat := ((Γ x).map ValTy.size).getD 0

/-- the size of variables together -/
def total (names : List Str) : Nat := Stacked.total (sizeOfVar Γ) names

/-- the slots of the declared variables, the last one first; each is below those before it -/
def slotsOf (names : List Str) : VarSlots := fun x =>
  (Γ x).bind fun t => (Stacked.depth (sizeOfVar Γ) names x).map fun d => ⟨t, true, -Int32.ofNat d⟩

end

section
variable {Γ : Str → Option ValTy} {names : List Str} {x y : Str} {slot slot' : VarSlot} {t : ValTy}

theorem total_cons (x : Str) (names : List Str) :
    total Γ (x :: names) = sizeOfVar Γ x + total Γ names := Stacked.total_cons x names

theorem slotsOf_nil (x : Str) : slotsOf Γ [] x = none := by
  unfold slotsOf
  cases Γ x <;> rfl

theorem slotsOf_cons (x : Str) (names : List Str) (y : Str) : slotsOf Γ (x :: names) y =
    if y = x then (Γ x).map fun t => ⟨t, true, -Int32.ofNat (total Γ (x :: names))⟩
    else slotsOf Γ names y := by
  unfold slotsOf
  rw [Stacked.depth_cons]
  split
  · next e =>
    rw [e]
    cases Γ x <;> rfl
  · rfl

theorem sizeOfVar_some (h : Γ x = some t) : sizeOfVar Γ x = t.size := by
  unfold sizeOfVar
  rw [h]
  rfl

theorem neg_ofNat_toInt {n : Nat} (h : n < 2^31) : (-Int32.ofNat n).toInt = -n := by
  rw [Int32.toInt_neg, Word.toInt_ofNat h, Word.bmod_of_range (by omega) (by omega)]

/-- how deep a slot is in the frame -/
theorem slotsOf_depth (hn : total Γ names < 2^31) (h : slotsOf Γ names x = some slot) :
    ∃ d, Stacked.depth (sizeOfVar Γ) names x = some d ∧ Γ x = some slot.ty ∧
      slot.isGlobal = true ∧ slot.addr.toInt = -d ∧ sizeOfVar Γ x = slot.ty.size ∧
      slot.ty.size ≤ d ∧ d ≤ total Γ names := by
  obtain ⟨t, ht, h⟩ := Option.bind_eq_some_iff.1 h
  obtain ⟨d, hd, rfl⟩ := Option.map_eq_some_iff.1 h
  obtain ⟨-, h1, h2⟩ := Stacked.depth_some hd
  rw [sizeOfVar_some ht] at h1
  have hle : d ≤ total Γ names := h2
  exact ⟨d, hd, ht, rfl, neg_ofNat_toInt (by omega), sizeOfVar_some ht, h1, hle⟩

theorem slotsOf_isSome (hx : Γ x = some t) (hm : x ∈ names) : (slotsOf Γ names x).isSome = true := by
  unfold slotsOf
  rw [hx, Option.bind_some, Option.isSome_map]
  by_contra hc
  exact Stacked.depth_eq_none.1 (Option.not_isSome_iff_eq_none.1 hc) hm

/-- **The frame on the machine.** -/
theorem laid_slots {s : VM} {base : Int} (hn : total Γ names < 2^31) (h0 : 0 ≤ base)
    (hb : base + total Γ names ≤ s.gbp.toInt) (hm : s.gbp.toInt ≤ s.memsize.toInt) :
    s.Laid (slotsOf Γ names) base := by
  have hadr (x : Str) (slot : VarSlot) (h : slotsOf Γ names x = some slot) :
      (s.slotAddr slot).toInt = slot.addr.toInt + s.gbp.toInt := by
    obtain ⟨d, -, -, h1, h4, -, h5, h6⟩ := slotsOf_depth hn h
    have hlt := s.gbp.toInt_lt
    unfold VM.slotAddr VM.frame
    rw [if_pos h1, Word.toInt_add (by omega) (by omega)]
  refine ⟨fun x slot h => ?_, fun x slot h => ?_, fun x y slot slot' hne h h' => ?_⟩
  · obtain ⟨d, -, -, -, h4, -, -, h6⟩ := slotsOf_depth hn h
    rw [hadr x slot h]
    omega
  · obtain ⟨d, -, -, -, h4, -, h5, h6⟩ := slotsOf_depth hn h
    rw [hadr x slot h, VM.Room]
    omega
  · rw [hadr x slot h, hadr y slot' h']
    obtain ⟨d, h1, -, -, h4, h5, -⟩ := slotsOf_depth hn h
    obtain ⟨d', h1', -, -, h4', h5', -⟩ := slotsOf_depth hn h'
    have := Stacked.depth_apart hne h1 h1'
    omega

/-- the declared variables fit into the frame -/
theorem total_le_frame {T : SymTab} (hd : names.Nodup)
    (hx : ∀ x ∈ names, (T.globalTy x).isSome = true) : total T.globalTy names ≤ T.frame [] := by
  unfold SymTab.frame SymTab.findSymbolsWithSameScope
  rw [List.filter_map, List.map_map]
  -- the entries of the table for the declared names
  refine Stacked.total_le_sum (fun x => (x, (T.findSymbol x).getD {})) hd
    (fun x _ y _ h => (Prod.mk.inj h).1) fun x hm => ?_
  obtain ⟨t, ht⟩ := Option.isSome_iff_exists.1 (hx x hm)
  obtain ⟨sym, h1, h2, h3, h4⟩ := globalTy_some ht
  rw [h1, sizeOfVar_some ht]
  exact ⟨List.mem_filter.2 ⟨lookup_mem h1, by simp [h2, h3]⟩, (slotSize_val h4).symm⟩

end

/-! ## declarations -/

/-- the value that a variable of a type has at first -/
def ValTy.zero : ValTy → AST
  | .int => .intConst 0
  | .bool => .boolConst false

/-- variables get their first values one after the other -/
def clear (Γ : Str → Option ValTy) : List Str → Flow.Prog Exit Store
  | [] => Flow.skip
  | x :: xs => Flow.seq (assignTo x (((Γ x).map ValTy.zero).getD (.intConst 0))) (clear Γ xs)

/-- code generation between two declarations; `names` are declared, the last one first -/
structure AtTop (T : SymTab) (names : List Str) (s : Codegen) : Prop where
  between : Between s
  declared : s.syms.declared = T.declared
  scope : s.curscope = []
  loops : s.curLoop = [] ∧ s.loopBeginComefroms = [] ∧ s.loopEndComefroms = []
  refs : s.constAddrs = [] ∧ s.funcComefroms = [] ∧ s.gotoComefroms = []
  stack : s.globalStack = Int32.ofNat (total T.globalTy names)
  slots : ∀ x, s.slotOf x = slotsOf T.globalTy names x
  known : ∀ x ∈ names, (T.globalTy x).isSome = true
  nodup : names.Nodup

section
variable {T : SymTab} {names : List Str} {s s' : Codegen} {x : Str} {t : ValTy}

/-- names in the global scope -/
theorem resolve_global (hs : s.curscope = []) (x : Str) : s.resolve x none = s.syms.findSymbol x := by
  have hf : s.syms.findTyped x none = s.syms.findSymbol x := by
    unfold SymTab.findTyped
    cases s.syms.findSymbol x <;> rfl
  have hk : scopedKey [] x = x := rfl
  unfold Codegen.resolve SymTab.resolve
  rw [hs, hk, hf]
  split
  · cases s.syms.findSymbol x <;> rfl
  · rfl

/-- the symbol of a name that is to be declared -/
theorem AtTop.symbol (hs : AtTop T names s) (hx : T.globalTy x = some t) :
    ∃ sym, s.syms.findSymbol x = some sym ∧ sym.isArg = false ∧ sym.ty.val = some t := by
  have h : s.syms.globalTy x = some t := by
    rw [← SymTab.globalTy_declared, hs.declared, SymTab.globalTy_declared, hx]
  obtain ⟨sym, h1, -, h3, h4⟩ := globalTy_some h
  exact ⟨sym, h1, h3, h4⟩

theorem AtTop.keyed (hs : AtTop T names s) (hT : T.Parsed) {key : Str} {sym : Symbol}
    (h : s.syms.findSymbol key = some sym) : sym.scopedName = key := by
  obtain ⟨sym', h', e⟩ := SymTab.find_of_declared hs.declared h
  rw [← hT.keyed key sym' h']
  exact (congrArg Symbol.scopedName e).symm

/-- where a new variable is -/
theorem neg_toInt64 (n : Int32) : (-n).toInt64.toInt32 = -n := Int32.toInt32_toInt64 _

/-- a slot in a new state -/
theorem slotOf_modified {name : Str} {top : Int32} (hs : s.curscope = [])
    (hsyms : s'.syms = (s.syms.modify x fun sym => { sym with isGlobal := true }).modify x
      fun sym => { sym with addr := some (-top).toInt64 }) (hc : s'.curscope = [])
    {sym : Symbol} (hsym : s.syms.findSymbol x = some sym) (ht : sym.ty.val = some t) :
    s'.slotOf name = if name = x then some ⟨t, true, -top⟩ else s.slotOf name := by
  unfold Codegen.slotOf
  rw [resolve_global hs, resolve_global hc, hsyms, SymTab.findSymbol_modify,
    SymTab.findSymbol_modify]
  by_cases e : name = x
  · subst e
    rw [if_pos rfl, if_pos rfl, if_pos rfl, hsym]
    show (sym.ty.val.map fun t => _) = _
    rw [ht, Option.map_some, neg_toInt64]
  · rw [if_neg e, if_neg e, if_neg e]

/-- the slot of a new variable -/
theorem allocVar_makes (hT : T.Parsed) (hs : AtTop T names s) {sym : Symbol}
    (hsym : s.syms.findSymbol x = some sym) (ha : sym.isArg = false) (ht : sym.ty.val = some t)
    (hx : T.globalTy x = some t) (hn : x ∉ names) {u : Unit}
    (h : (allocVar true sym).run s = .ok u s') :
    AtTop T (x :: names) s' ∧ s'.ostr = s.ostr ∧ Makes s s' fun _ => True := by
  have hkey := hs.keyed hT hsym
  have hrun (v : Codegen) : (allocVar true sym).run v = .ok ⟨⟩ { v with
      syms := (v.syms.modify x fun sym => { sym with isGlobal := true }).modify x
        fun sym => { sym with addr := some (-(v.globalStack + Int32.ofNat t.size)).toInt64 }
      globalStack := v.globalStack + Int32.ofNat t.size } := by
    unfold allocVar modifySym
    rw [run_modify_bind, getSymSize_val ht, hkey]
    rfl
  have hm : Makes s s' fun _ => True := by
    intro H l K d
    have hb : (allocVar true sym).run s.bare = .ok ⟨⟩ s'.bare := by
      rw [hrun] at h ⊢
      cases h
      rfl
    exact d.lays (allocVar_lays (s := s.bare) hsym hb)
  have hs' : s' = { s with
      syms := (s.syms.modify x fun sym => { sym with isGlobal := true }).modify x
        fun sym => { sym with addr := some (-(s.globalStack + Int32.ofNat t.size)).toInt64 }
      globalStack := s.globalStack + Int32.ofNat t.size } := by
    rw [hrun] at h
    cases h
    rfl
  have hsyms : s'.syms = (s.syms.modify x fun sym => { sym with isGlobal := true }).modify x
      fun sym => { sym with addr := some (-(s.globalStack + Int32.ofNat t.size)).toInt64 } := by
    rw [hs']
  have hscope : s'.curscope = [] := by
    rw [hs']
    exact hs.scope
  have htotal : s.globalStack + Int32.ofNat t.size = Int32.ofNat (total T.globalTy (x :: names)) := by
    rw [hs.stack, total_cons, sizeOfVar_some hx, ← Int32.ofNat_add, Nat.add_comm]
  refine ⟨⟨hm.between hs.between, ?_, hscope, ?_, ?_, ?_, fun name => ?_,
    List.forall_mem_cons.2 ⟨by rw [hx]; rfl, hs.known⟩, List.nodup_cons.2 ⟨hn, hs.nodup⟩⟩, ?_, hm⟩
  · rw [hsyms]
    exact (SymTab.declared_modify (by intro sym; rfl)).trans
      ((SymTab.declared_modify (by intro sym; rfl)).trans hs.declared)
  · rw [hs']
    exact hs.loops
  · rw [hs']
    exact hs.refs
  · rw [hs']
    exact htotal
  · rw [slotOf_modified hs.scope hsyms hscope hsym ht, htotal, hs.slots, slotsOf_cons]
    split
    · rw [hx]
      rfl
    · rfl
  · rw [hs']

/-- visits without open jumps leave the declarations alone -/
theorem AtTop.adjoins (hs : AtTop T names s) (h : Adjoins s s' [] []) (hb : Between s') :
    AtTop T names s' := by
  have e := h.same
  rw [List.append_nil, List.append_nil] at e
  refine ⟨hb, ?_, ?_, ?_, ?_, ?_, ?_, hs.known, hs.nodup⟩
  · rw [e]; exact hs.declared
  · rw [e]; exact hs.scope
  · rw [e]; exact hs.loops
  · rw [e]; exact hs.refs
  · rw [e]; exact hs.stack
  · rw [e]; exact hs.slots

theorem AtTop.writes (hs : AtTop T names s) (h : OnlyWrites s s') (hb : Between s') :
    AtTop T names s' := hs.adjoins (Adjoins.refl h) hb

/-- the value that a declaration pushes -/
def ValTy.zeroVal : ValTy → Val
  | .int => .int 0
  | .bool => .bool false

theorem pushDefault_eq {sym : Symbol} (h : sym.ty = t.sym) :
    pushDefault sym = pushConst t.zeroVal.data := by
  unfold pushDefault
  rw [h]
  cases t <;> rfl

/-- a declared variable has its slot -/
theorem AtTop.slot (hs : AtTop T names s) (hx : T.globalTy x = some t) (hm : x ∈ names) :
    ∃ slot sym addr, slotsOf T.globalTy names x = some slot ∧ s.syms.findSymbol x = some sym ∧
      sym.addr = some addr ∧ sym.ty = slot.ty.sym ∧ sym.isGlobal = slot.isGlobal ∧
      addr.toInt32 = slot.addr := by
  obtain ⟨slot, hslot⟩ := Option.isSome_iff_exists.1 (slotsOf_isSome hx hm)
  obtain ⟨sym, addr, hr, h⟩ := slotOf_some ((hs.slots x).trans hslot)
  rw [resolve_global hs.scope] at hr
  exact ⟨slot, sym, addr, hslot, hr, h⟩

variable [MathLib TReal]

/-- **The declaration of a variable.** -/
theorem declareVar_makes (hT : T.Parsed) (hs : AtTop T names s) (hx : T.globalTy x = some t)
    {r : Option Symbol} (h : (declareVar true none false false x).run s = .ok r s') :
    AtTop T (x :: names) s' ∧ Makes s s' fun code => ∀ F : VarSlots,
      F x = slotsOf T.globalTy (x :: names) x →
      Fragment F (assignTo x t.zero) 23 code [] s.ostr.pos s'.ostr.pos := by
  obtain ⟨sym, hsym, harg, hty⟩ := hs.symbol hx
  obtain ⟨sym', s1, h1, h⟩ := bind_eq_ok.1 h
  obtain ⟨rfl, -, key, hkey, hk⟩ := getSym_ok h1
  obtain rfl : key = x := hk.resolve_right fun hc => by cases hc.1
  rw [hsym] at hkey
  cases hkey
  rw [harg, if_neg (by simp), if_neg (by simp), if_neg (by simp)] at h
  split at h
  · cases h
  · next haddr =>
    have hn : key ∉ names := by
      intro hmem
      obtain ⟨_, sym1, addr, -, hf, ha, -⟩ := hs.slot hx hmem
      rw [hsym] at hf
      cases hf
      exact haddr (by rw [ha]; rfl)
    obtain ⟨_, s2, h2, h⟩ := bind_eq_ok.1 h
    obtain ⟨hs2, hostr, hm2⟩ := allocVar_makes hT hs hsym harg hty hx hn h2
    obtain ⟨slot, sym2, addr, hslot, hf, ha, hty2, hg, hadr⟩ := hs2.slot hx List.mem_cons_self
    obtain ⟨sym3, s3, h3, h⟩ := bind_eq_ok.1 h
    cases h3
    rw [hs.keyed hT hsym, hf, Option.getD_some] at h
    have ht : slot.ty = t := by
      rw [slotsOf_cons, if_pos rfl, hx] at hslot
      cases hslot
      rfl
    have hdef : sym2.ty.hasDefault = true := by
      rw [hty2]
      cases slot.ty <;> rfl
    rw [hdef, pushDefault_eq (hty2.trans (congrArg ValTy.sym ht))] at h
    obtain ⟨_, s4, h4, h⟩ := bind_eq_ok.1 h
    cases h
    rw [run_onlyIf_true] at h4
    obtain ⟨_, s5, h5, h4⟩ := bind_eq_ok.1 h4
    -- the value and the assignment
    obtain ⟨hw5, hp5, hm5⟩ := pushConst_makes hs2.between h5
    have hb5 := hm5.between hs2.between
    obtain ⟨hw4, hp4, hm4⟩ := assignVar_makes hb5 ha hg hadr h4
    refine ⟨hs2.writes (hw5.trans hw4) (hm4.between hb5), ((hm2.bind hm5).bind hm4).mono ?_⟩
    rintro code ⟨⟨-, hpush⟩, hstore⟩ F hF
    rw [hostr] at hpush hp5
    rw [hslot] at hF
    have hexpr : exprTy F.types t.zero = some slot.ty := by
      rw [ht]
      cases t <;> rfl
    have hneed : t.zero.need = 9 := by cases t <;> rfl
    have heval (σ : Store) : eval σ t.zero = some t.zeroVal := by cases t <;> rfl
    have hev : Evals F t.zero code s1.ostr.pos s5.ostr.pos := by
      rw [hp5]
      exact Evals.const hpush heval hneed.ge
    rw [hp4]
    have hfrag : Fragment F (assignTo key t.zero) (t.zero.need + 14) code [] s1.ostr.pos
        (s5.ostr.pos + 7) := Fragment.assign hF hexpr hev (Or.inl rfl) hstore.1 hstore.2
    rw [hneed] at hfrag
    exact hfrag

/-- the slots of these variables -/
def Agrees (T : SymTab) (F : VarSlots) (names : List Str) : Prop :=
  ∀ x ∈ names, F x = slotsOf T.globalTy names x

omit [MathLib TReal] in
theorem Agrees.tail {F : VarSlots} (h : Agrees T F (x :: names)) (hn : (x :: names).Nodup) :
    Agrees T F names := by
  intro y hy
  have hne : y ≠ x := by
    rintro rfl
    exact (List.nodup_cons.1 hn).1 hy
  rw [h y (List.mem_cons_of_mem _ hy), slotsOf_cons, if_neg hne]

omit [MathLib TReal] in
theorem Agrees.drop {F : VarSlots} {later : List Str} (h : Agrees T F (later ++ names))
    (hn : (later ++ names).Nodup) : Agrees T F names := by
  induction later with
  | nil => exact h
  | cons z later ih => exact ih (h.tail hn) (List.nodup_cons.1 hn).2

omit [MathLib TReal] in
theorem clear_append (Γ : Str → Option ValTy) (xs ys : List Str) :
    clear Γ (xs ++ ys) = Flow.seq (clear Γ xs) (clear Γ ys) := by
  induction xs with
  | nil => rfl
  | cons x xs ih =>
    show Flow.seq _ (clear Γ (xs ++ ys)) = _
    rw [ih, ← Flow.seq_assoc]
    rfl

/-- declarations make code that sets the variables to zero -/
def Clears (T : SymTab) (vars names : List Str) (s s' : Codegen) : Prop :=
  AtTop T (vars.reverse ++ names) s' ∧ Makes s s' fun code => ∀ F : VarSlots,
    Agrees T F (vars.reverse ++ names) →
    Fragment F (clear T.globalTy vars) 23 code [] s.ostr.pos s'.ostr.pos

theorem Clears.nil (hs : AtTop T names s) : Clears T [] names s s :=
  ⟨hs, (Makes.refl s).mono fun code _ F _ => Fragment.skip _⟩

theorem Clears.append {vars more : List Str} {s1 : Codegen} (h : Clears T vars names s s1)
    (h' : Clears T more (vars.reverse ++ names) s1 s') : Clears T (vars ++ more) names s s' := by
  obtain ⟨h1, h2⟩ := h
  obtain ⟨h3, h4⟩ := h'
  unfold Clears
  rw [List.reverse_append, List.append_assoc, clear_append]
  refine ⟨h3, (h2.bind h4).mono ?_⟩
  rintro code ⟨c1, c2⟩ F hF
  exact fun base e hb => (c1 F (hF.drop h3.nodup) base e hb).seq (c2 F hF base e hb)

/-- **A declaration** of several variables. -/
theorem declareVars_clear (hT : T.Parsed) {vars : List Str}
    (hx : ∀ x ∈ vars, (T.globalTy x).isSome = true) (hs : AtTop T names s)
    {rs : List (Option Symbol)}
    (h : (vars.mapM (declareVar true none false false)).run s = .ok rs s') :
    Clears T vars names s s' := by
  induction vars generalizing names s rs with
  | nil =>
    cases h
    exact Clears.nil hs
  | cons x vars ih =>
    obtain ⟨hx1, hx2⟩ := List.forall_mem_cons.1 hx
    obtain ⟨t, ht⟩ := Option.isSome_iff_exists.1 hx1
    rw [List.mapM_cons] at h
    obtain ⟨_, s1, e1, h⟩ := bind_eq_ok.1 h
    obtain ⟨_, s2, e2, h⟩ := bind_eq_ok.1 h
    cases h
    obtain ⟨hs1, hm⟩ := declareVar_makes hT hs ht e1
    have hfirst : Clears T [x] names s s1 := by
      refine ⟨hs1, hm.mono fun code hc F hF => ?_⟩
      have hone : clear T.globalTy [x] = Flow.seq (assignTo x t.zero) Flow.skip := by
        show Flow.seq (assignTo x (((T.globalTy x).map ValTy.zero).getD _)) _ = _
        rw [ht]
        rfl
      rw [hone]
      exact fun base e hb =>
        (hc F (hF x List.mem_cons_self) base e hb).seq (Fragment.skip _ base e hb)
    exact hfirst.append (ih hx2 hs1 e2)

/-- declarations of global variables -/
def declarations (decls : List (List Str)) : List AST :=
  decls.map fun vars => .varDecl vars none false false

/-- **The code of the declarations.** -/
theorem declarations_clear (hT : T.Parsed) {decls : List (List Str)}
    (hx : ∀ x ∈ decls.flatten, (T.globalTy x).isSome = true) (hs : AtTop T names s) {u : Unit}
    (h : ((visitList (declarations decls)).forM Visit.run_).run s = .ok u s') :
    Clears T decls.flatten names s s' := by
  induction decls generalizing names s with
  | nil =>
    cases h
    exact Clears.nil hs
  | cons vars decls ih =>
    rw [List.flatten_cons] at hx ⊢
    obtain ⟨_, s1, e1, h⟩ := bind_eq_ok.1 h
    obtain ⟨_, e1⟩ := visit_run e1
    have e1 : (visitVarDecl vars none false false).run s = .ok _ s1 := e1
    unfold visitVarDecl at e1
    rw [run_get_bind, show s.curscope.isEmpty = true by rw [hs.scope]; rfl] at e1
    obtain ⟨rs, s2, e2, e1⟩ := bind_eq_ok.1 e1
    cases e1
    have hfirst := declareVars_clear hT (fun x hm => hx x (List.mem_append_left _ hm)) hs e2
    exact hfirst.append (ih (fun x hm => hx x (List.mem_append_right _ hm)) hfirst.1 h)

end

end MuF
