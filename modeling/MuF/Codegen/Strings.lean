import MuF.Codegen.Sites
import MuF.VM.Steps

/-!
# String constants

* `ConstTab.Ok.sits`, `ConstTab.Ok.apart`: the strings in the table of constants;
* `compile_emits`: compiled code comes from a sequence of events;
* **`strings_survive`**: running the code at a site pushes the string that was emitted there.
-/

set_option linter.unusedVariables false

namespace MuF

open Bytes Exec Layout

/-! ## the table -/

theorem sits_trans {l as bs : List UInt8} {p q : Nat} (h : Sits l p as) (h' : Sits as q bs) :
    Sits l (p + q) bs := by
  intro i hi
  have hle := h'.le (List.ne_nil_of_length_pos (by omega))
  rw [Nat.add_assoc, h (q + i) (by omega), h' i hi]

/-- additions one after the other -/
def ConstTab.addAll (tab : ConstTab) (vals : List Str) : ConstTab :=
  vals.foldl (fun tab val => (tab.addConst val).2) tab

theorem ConstTab.Ok.addAll {tab : ConstTab} {strs : List Str} (h : tab.Ok strs)
    (vals : List Str) : (∃ strs', (tab.addAll vals).Ok strs') ∧
      tab.consts ⊆ (tab.addAll vals).consts := by
  induction vals generalizing tab strs with
  | nil => exact ⟨⟨strs, h⟩, List.Subset.refl _⟩
  | cons val vals ih =>
    obtain ⟨⟨strs', h'⟩, -, hs⟩ := h.addConst val
    obtain ⟨hok, hs'⟩ := ih h'
    exact ⟨hok, fun x hx => hs' (hs hx)⟩

/-- a known string keeps its position -/
theorem ConstTab.lookup_addConst {tab : ConstTab} {val : Str} {pos : Nat}
    (h : tab.consts.lookup val = some pos) (x : Str) :
    (tab.addConst x).2.consts.lookup val = some pos := by
  unfold ConstTab.addConst
  cases tab.consts.lookup x with
  | some _ => exact h
  | none =>
    dsimp only
    rw [List.lookup_append, h]
    rfl

theorem ConstTab.lookup_addAll {tab : ConstTab} {val : Str} {pos : Nat}
    (h : tab.consts.lookup val = some pos) (vals : List Str) :
    (tab.addAll vals).consts.lookup val = some pos := by
  induction vals generalizing tab with
  | nil => exact h
  | cons x vals ih => exact ih (lookup_addConst h x)

theorem ConstTab.lookup_addConst_self (tab : ConstTab) (val : Str) :
    (tab.addConst val).2.consts.lookup val = some (tab.addConst val).1 := by
  unfold ConstTab.addConst
  cases h : tab.consts.lookup val with
  | some _ => exact h
  | none =>
    dsimp only
    rw [List.lookup_append, h]
    simp

theorem ConstTab.addConst_known {tab : ConstTab} {val : Str} {pos : Nat}
    (h : tab.consts.lookup val = some pos) : tab.addConst val = (pos, tab) := by
  unfold ConstTab.addConst
  rw [h]

/-- the bytes of a string in the table -/
theorem ConstTab.Ok.sits {tab : ConstTab} {strs : List Str} (h : tab.Ok strs) {val : Str}
    {pos : Nat} (hm : (val, pos) ∈ tab.consts) : Sits tab.ostr pos (strEntry val) := by
  have hh : Has strEntrySize strs pos val := h.consts _ hm
  obtain ⟨l, r, rfl, rfl⟩ := has_iff.1 hh
  rw [h.ostr, List.flatMap_append, List.flatMap_cons, total_strEntry, ← List.append_assoc]
  exact sits_middle _ _ _

/-- entries of different strings do not overlap -/
theorem ConstTab.Ok.apart {tab : ConstTab} {strs : List Str} (h : tab.Ok strs) {v w : Str}
    {p q : Nat} (hv : (v, p) ∈ tab.consts) (hw : (w, q) ∈ tab.consts) (hne : v ≠ w) :
    p + (strEntry v).length ≤ q ∨ q + (strEntry w).length ≤ p := by
  have h1 : Has strEntrySize strs p v := h.consts _ hv
  have h2 : Has strEntrySize strs q w := h.consts _ hw
  exact h1.apart h2 hne

theorem encElems_str (val : Str) : encElems val = val := by
  induction val with
  | nil => rfl
  | cons c val ih =>
    show c :: encElems val = c :: val
    rw [ih]

/-- a string of less than 2^31 characters, as the VM reads it -/
theorem strEntry_eq {val : Str} (h : val.length < 2^31) :
    strEntry val = (Data.str val : TData).bytes .unknown := by
  have e : (Int32.ofNat val.length).toInt = val.length := Word.toInt_ofNat h
  rw [strEntry, e, Int.toNat_natCast, List.take_length]
  show _ = VMType.str.code :: (Raw.enc (Int32.ofNat val.length) ++ encElems val)
  rw [encElems_str]

/-! ## the main result -/

/-- running the code at a site pushes the string -/
def Pushes [MathLib TReal] (code : List UInt8) (site : Nat × Str) : Prop :=
  ∀ (vm : VM) (k : Nat), vm.Ready code k → site.2.length + 5 ≤ k → vm.ip = Int32.ofNat site.1 →
    (step >>= fun _ => step).run vm = .ok .running
      (VM.pushed { vm with ip := Int32.ofNat (site.1 + 7) } ((Data.str site.2 : TData).bytes .unknown))

theorem Filled.pushes [MathLib TReal] {tab : ConstTab} {strs : List Str} {base : Nat}
    {code : List UInt8} {site : Nat × Str} (h : Filled tab base code site) (ht : tab.Ok strs)
    (hs : Sits code base tab.ostr) : Pushes code site := by
  intro vm k hr hk hip
  obtain ⟨pos, hm, hc⟩ := h
  have hd := sits_trans hs (ht.sits hm)
  have hlen : site.2.length < 2^31 := by
    have := hr.sp_ge
    have := vm.sp.toInt_lt
    omega
  rw [strEntry_eq hlen] at hd
  have hq : refOff site.1 pos base + Int32.ofNat (site.1 + 7) = Int32.ofNat (base + pos) := by
    rw [refOff, ← Int32.ofInt_eq_ofNat, ← Int32.ofInt_eq_ofNat, ← Int32.ofInt_add]
    congr 1
    push_cast
    ring
  have h5 : 5 ≤ (Data.str site.2 : TData).size := by
    show 5 ≤ site.2.length + 5
    omega
  exact step_constRef hr hk h5 hip hc hq rfl hd

/-- compiled code comes from a sequence of events -/
theorem compile_emits {syms : SymTab} {stmts : List AST} {n : Nat} {s : Codegen}
    (h : (compile stmts).run (Codegen.init syms) = .ok n s) :
    ∃ l t H, Compiled syms l t H ∧ finish.run t = .ok n s := by
  obtain ⟨t, h1, h2⟩ := compile_ok h
  obtain ⟨l, H, hl⟩ := generate_emits h1
  exact ⟨l, t, H, hl, h2⟩

/-- **String constants survive compilation.**  After any sequence of constants and other code, and
so after the visits of any program, the code at the site of a constant pushes that constant; the
table gives every string one position, where its bytes stay, apart from the other strings. -/
theorem strings_survive [MathLib TReal] :
    (∀ (syms : SymTab) (l : List Event) (t : Codegen) (H : Holes) (n : Nat) (s : Codegen),
      Compiled syms l t H → finish.run t = .ok n s →
        ∀ site ∈ l.filterMap Event.site, Pushes s.ostr.buf site) ∧
    (∀ (syms : SymTab) (stmts : List AST) (n : Nat) (s : Codegen),
      (compile stmts).run (Codegen.init syms) = .ok n s →
        ∃ l t H, Compiled syms l t H ∧ finish.run t = .ok n s) ∧
    (∀ (before after : List Str) (val : Str),
      let tab : ConstTab := ConstTab.addAll ⟨[], []⟩ before
      let pos := (tab.addConst val).1
      let tab' := (tab.addConst val).2.addAll after
      tab'.addConst val = (pos, tab') ∧ Sits tab'.ostr pos (strEntry val)) ∧
    (∀ (vals : List Str) (v w : Str), v ≠ w →
      let tab : ConstTab := ConstTab.addAll ⟨[], []⟩ vals
      let p := (tab.addConst v).1
      let q := ((tab.addConst v).2.addConst w).1
      p + (strEntry v).length ≤ q ∨ q + (strEntry w).length ≤ p) := by
  have hnil : ConstTab.Ok ⟨[], []⟩ [] := ⟨rfl, by simp⟩
  refine ⟨?_, ?_, ?_, ?_⟩
  · intro syms l t H n s hl h site hs
    have hi := emits_sited hl.emits [] (sited_init syms)
    obtain ⟨strs, htab⟩ := hi.table
    obtain ⟨base, hf, hsit, -⟩ := finish_placed hi hl.atEnd hl.isOpen h
    exact (hf site hs).pushes htab hsit
  · intro syms stmts n s h
    exact compile_emits h
  · intro before after val
    dsimp only
    obtain ⟨⟨strs, h1⟩, -⟩ := hnil.addAll before
    obtain ⟨⟨strs', h2⟩, hm, -⟩ := h1.addConst val
    obtain ⟨⟨strs'', h3⟩, hsub⟩ := h2.addAll after
    have hl := ConstTab.lookup_addAll (ConstTab.lookup_addConst_self
      (ConstTab.addAll ⟨[], []⟩ before) val) after
    exact ⟨ConstTab.addConst_known hl, h3.sits (hsub hm)⟩
  · intro vals v w hne
    dsimp only
    obtain ⟨⟨strs, h1⟩, -⟩ := hnil.addAll vals
    obtain ⟨⟨strs', h2⟩, hv, -⟩ := h1.addConst v
    obtain ⟨⟨strs'', h3⟩, hw, hsub⟩ := h2.addConst w
    exact h3.apart (hsub hv) hw hne

/-- the output of a finished run -/
def outputOf (x : CGM Nat) (s : Codegen) : Option (List UInt8) :=
  match x.run s with
  | .ok _ s' => some s'.ostr.buf
  | .error _ _ => none

theorem outputOf_eq {x : CGM Nat} {s : Codegen} {buf : List UInt8} (h : outputOf x s = some buf) :
    ∃ n s', x.run s = .ok n s' ∧ s'.ostr.buf = buf := by
  unfold outputOf at h
  split at h
  · rename_i n s' e
    exact ⟨n, s', e, Option.some.inj h⟩
  · cases h

/-- a run ends in a state with a property -/
def endsIn {α : Type} (x : CGM α) (s : Codegen) (p : Codegen → Bool) : Bool :=
  match x.run s with
  | .ok _ t => p t
  | .error _ _ => false

theorem endsIn_ok {α : Type} {x : CGM α} {s : Codegen} {p : Codegen → Bool}
    (h : endsIn x s p = true) : ∃ a t, x.run s = .ok a t ∧ p t = true := by
  unfold endsIn at h
  split at h
  · rename_i a t e
    exact ⟨a, t, e, h⟩
  · cases h

/-! ### a program with three constants, two of them the same -/

def twiceStmts : List AST :=
  [.strConst (ascii "ab"), .intConst 7, .strConst (ascii "cd"), .strConst (ascii "ab")]

def twiceEvents : List Event :=
  [.const 0 (ascii "ab"), .const 17 (ascii "cd"), .const 24 (ascii "ab")]

/-- the state after a part of a visit -/
def Codegen.after (s : Codegen) (x : CGM Unit) : Codegen :=
  match x.run s with
  | .ok _ t => t
  | .error _ t => t

/-- the code generator after the first constant and the number -/
def twiceBegin : Codegen :=
  ((Codegen.init []).after (putConstRef (ascii "ab"))).after (pushIntConst 7)

/-- the code generator before `Finish` -/
def twiceState : Codegen :=
  (twiceBegin.after (putConstRef (ascii "cd"))).after (putConstRef (ascii "ab"))

/-- two references around a number, one more, the end of the program, and the table -/
def twiceCode : List UInt8 :=
  [16, 33, 25, 0, 0, 0, 18] ++ [16, 2, 7, 0, 0, 0, 0, 0, 0, 0] ++ [16, 33, 15, 0, 0, 0, 18] ++
    [16, 33, 1, 0, 0, 0, 18] ++ [0] ++ ([6, 2, 0, 0, 0, 97, 98] ++ [6, 2, 0, 0, 0, 99, 100])

theorem twice_compiled : Compiled [] twiceEvents twiceState [] where
  traces := by
    have h1 : Emits (Codegen.init []) [] [.const 0 (ascii "ab")]
        ((Codegen.init []).after (putConstRef (ascii "ab"))) [] := .const rfl rfl
    have h2 : Emits ((Codegen.init []).after (putConstRef (ascii "ab"))) [] [] twiceBegin [] :=
      .code (s := (Codegen.init []).after (putConstRef (ascii "ab"))) rfl
        [16, 2, 7, 0, 0, 0, 0, 0, 0, 0]
    have h3 : Emits twiceBegin [] [.const 17 (ascii "cd")]
        (twiceBegin.after (putConstRef (ascii "cd"))) [] := .const rfl rfl
    have h4 : Emits (twiceBegin.after (putConstRef (ascii "cd"))) [] [.const 24 (ascii "ab")]
        twiceState [] := .const rfl rfl
    refine .plain (h1.trans (h2.trans (h3.trans h4))) (fun e he => ?_) rfl
    rcases List.mem_cons.1 he with rfl | he
    · trivial
    · rcases List.mem_cons.1 he with rfl | he
      · trivial
      · rw [List.mem_singleton.1 he]
        trivial
  atEnd := rfl
  isOpen := ⟨by simp [show twiceState.jumps = [] from rfl], by simp⟩

/-- the machine with the code, at a position -/
def twiceVm (pos : Nat) : VM :=
  { @VM.init Platform.packed 256 ⟨0⟩ [] with
    mem := write (fun _ => 0) 0 twiceCode, codeRange := (0, Int32.ofNat twiceCode.length)
    ip := Int32.ofNat pos }

/-- the code at a position pushes a string -/
def TwicePushes (pos : Nat) (val : Str) : Prop :=
  ((@step (MathLib.absent ⟨0⟩)) >>= fun _ => @step (MathLib.absent ⟨0⟩)).run (twiceVm pos) =
    .ok .running (VM.pushed (twiceVm (pos + 7)) ((Data.str val : TData).bytes .unknown))

theorem strings_survive_twice :
    outputOf (compile twiceStmts) (Codegen.init []) = some twiceCode ∧
      TwicePushes 0 (ascii "ab") ∧ TwicePushes 17 (ascii "cd") ∧ TwicePushes 24 (ascii "ab") := by
  refine ⟨by decide +kernel, ?_⟩
  obtain ⟨n, s, hf, hbuf⟩ := outputOf_eq (show outputOf finish twiceState = some twiceCode by
    decide +kernel)
  have hr : (twiceVm 0).Ready twiceCode 7 :=
    ⟨by decide +kernel, rfl, fun _ => rfl, by decide +kernel, by decide +kernel, by decide +kernel,
      by decide +kernel⟩
  have hready (pos : Nat) : (twiceVm pos).Ready twiceCode 7 := hr.withIp (Int32.ofNat pos)
  have hp := (@strings_survive (MathLib.absent ⟨0⟩)).1 [] _ twiceState [] n s twice_compiled hf
  rw [hbuf] at hp
  have hm : twiceEvents.filterMap Event.site =
      [(0, ascii "ab"), (17, ascii "cd"), (24, ascii "ab")] := rfl
  rw [hm] at hp
  refine ⟨?_, ?_, ?_⟩
  · exact hp (0, ascii "ab") List.mem_cons_self _ 7 (hready 0) (by decide) rfl
  · exact hp (17, ascii "cd") (List.mem_cons_of_mem _ List.mem_cons_self) _ 7 (hready 17)
      (by decide) rfl
  · exact hp (24, ascii "ab") (List.mem_cons_of_mem _ (List.mem_cons_of_mem _ List.mem_cons_self))
      _ 7 (hready 24) (by decide) rfl

end MuF
