import MuF.Codegen.Trace
import MuF.Codegen.Program
import Mathlib.Data.List.Forall2
import Mathlib.Data.List.Pairwise

/-!
# The sites of events in the output

* `Event.At`: the bytes of an event in the output, up to addresses that are still missing;
* `Sited s H l`: every event of `l` has its own bytes in the output, and no hole is among them;
* `emits_sited`: a sequence of events keeps this;
* `finish_placed`: at the end every constant refers to its entry in the table, and every call to
  the address of its symbol.
-/

set_option linter.unusedVariables false

namespace MuF

open Bytes Exec Layout

/-! ## bytes of the output -/

section
variable {buf : List UInt8} {q p : Nat} {bs cs : List UInt8}

theorem getElem?_write_outside (h : q + bs.length ≤ buf.length) {i : Nat}
    (hi : i < q ∨ q + bs.length ≤ i) : ((⟨buf, q⟩ : OStr).write bs).buf[i]? = buf[i]? := by
  show (buf.take q ++ bs ++ buf.drop (q + bs.length))[i]? = _
  have hl : (buf.take q).length = q := List.length_take_of_le (by omega)
  rcases hi with hi | hi
  · rw [List.append_assoc, List.getElem?_append_left (by omega), List.getElem?_take_of_lt hi]
  · rw [List.getElem?_append_right (by rw [List.length_append]; omega), List.length_append, hl,
      List.getElem?_drop, show q + bs.length + (i - (q + bs.length)) = i by omega]

theorem sits_write (h : q ≤ buf.length) : Sits ((⟨buf, q⟩ : OStr).write bs).buf q bs := by
  have hl : (buf.take q).length = q := List.length_take_of_le h
  have hs := sits_middle (buf.take q) bs (buf.drop (q + bs.length))
  rw [hl] at hs
  exact hs

theorem sits_write_outside (h : Sits buf p cs) (hq : q + bs.length ≤ buf.length)
    (ha : p + cs.length ≤ q ∨ q + bs.length ≤ p) : Sits ((⟨buf, q⟩ : OStr).write bs).buf p cs :=
  h.congr fun i h1 h2 => getElem?_write_outside hq (by omega)

theorem sits_append_left (h : Sits buf p cs) (bs : List UInt8) : Sits (buf ++ bs) p cs := by
  intro i hi
  have hle := h.le (List.ne_nil_of_length_pos (by omega))
  rw [List.getElem?_append_left (by omega), h i hi]

end

/-! ## sites -/

/-- a reference to a constant -/
def constRef (off : Int32) : List UInt8 :=
  [OpCode.push.code, VMType.addrIp.code] ++ Raw.enc off ++ [OpCode.rdmem.code]

/-- a reference to a constant without its address -/
def ConstSite (buf : List UInt8) (p : Nat) : Prop :=
  Sits buf p [OpCode.push.code, VMType.addrIp.code] ∧ Sits buf (p + 6) [OpCode.rdmem.code]

/-- a call without its address -/
def CallSite (buf : List UInt8) (p : Nat) (framesize : Int64) : Prop :=
  Sits buf p (intCode framesize ++ [OpCode.push.code, VMType.addrIp.code]) ∧
    Sits buf (p + 16) [OpCode.call.code]

/-- a jump to a label without its address -/
def GotoSite (buf : List UInt8) (p : Nat) : Prop :=
  Sits buf p [OpCode.push.code, VMType.addrIp.code] ∧ Sits buf (p + 6) [OpCode.jmp.code]

/-- the bytes of an event -/
def Event.At (buf : List UInt8) : Event → Prop
  | .const pos _ => ConstSite buf pos
  | .call pos _ _ _ framesize => CallSite buf pos framesize
  | .func _ ret _ _ _ framesize numArgs => Sits buf ret (retCode framesize numArgs)
  | .var _ _ => True
  | .label _ _ _ => True
  | .goto pos _ _ => GotoSite buf pos

/-- their position and number -/
def Event.region : Event → Option (Nat × Nat)
  | .const pos _ => some (pos, 7)
  | .call pos .. => some (pos, 17)
  | .func _ ret .. => some (ret, 21)
  | .var _ _ => none
  | .label _ _ _ => none
  | .goto pos _ _ => some (pos, 7)

/-- a string constant and its site -/
def Event.site : Event → Option (Nat × Str)
  | .const pos val => some (pos, val)
  | _ => none

/-- a call whose address is filled in -/
def Event.comefrom : Event → Option FuncComefrom
  | .call pos _ name sym _ => some ⟨name, pos + 12, Int32.ofNat sym.argty.length⟩
  | _ => none

/-- a label and its position -/
def Event.labelAt : Event → Option (Str × Nat)
  | .label pos _ name => some (name, pos)
  | _ => none

/-- a jump to a label, whose address is filled in -/
def Event.gotoAt : Event → Option (Str × Nat)
  | .goto pos _ name => some (name, pos + 2)
  | _ => none

/-- the position of the first label of a name -/
def labelPos (l : List Event) (name : Str) : Option Nat := (l.filterMap Event.labelAt).lookup name

/-- regions that do not overlap -/
def Apart (a b : Nat × Nat) : Prop := a.1 + a.2 ≤ b.1 ∨ b.1 + b.2 ≤ a.1

/-- the address of a string in the table, relative to its position in the output -/
def Refers (tab : ConstTab) (x : Nat × Int) (site : Nat × Str) : Prop :=
  x.1 = site.1 + 2 ∧ ∃ pos, (site.2, pos) ∈ tab.consts ∧ x.2 = (pos : Int) - x.1 - 5

/-- the sites of the events `l`; the holes are elsewhere -/
structure Sited (s : Codegen) (H : Holes) (l : List Event) : Prop where
  table : ∃ strs, s.consttab.Ok strs
  refs : List.Forall₂ (Refers s.consttab) s.constAddrs (l.filterMap Event.site)
  calls : s.funcComefroms = l.filterMap Event.comefrom
  labels : ∀ name, s.labels.lookup name = labelPos l name
  gotos : s.gotoComefroms = l.filterMap Event.gotoAt
  sites : ∀ e ∈ l, e.At s.ostr.buf
  inside : ∀ r ∈ l.filterMap Event.region, r.1 + r.2 ≤ s.ostr.buf.length
  apart : (l.filterMap Event.region).Pairwise Apart
  holes : ∀ h ∈ H, h.1 + h.2 ≤ s.ostr.buf.length ∧ ∀ r ∈ l.filterMap Event.region, Apart h r

section
variable {s s' t : Codegen} {H H' : Holes} {l l' m : List Event} {buf b' : List UInt8} {p : Nat}

theorem Apart.symm {a b : Nat × Nat} (h : Apart a b) : Apart b a := Or.symm h

instance : Std.Symm Apart := ⟨fun _ _ => Apart.symm⟩

theorem sits_constRef {off : Int32} (h : Sits buf p (constRef off)) : ConstSite buf p := by
  obtain ⟨h1, h2⟩ := sits_append.1 h
  refine ⟨(sits_append.1 h1).1, ?_⟩
  rw [List.length_append, Raw.length_enc] at h2
  exact h2

theorem length_intCode (val : Int64) : (intCode val).length = 10 := rfl

theorem sits_callCode {framesize : Int64} {skip : Int32} (h : Sits buf p (callCode framesize skip)) :
    CallSite buf p framesize := by
  rw [callCode, List.append_assoc, ← List.append_assoc (intCode framesize)] at h
  obtain ⟨h1, h2⟩ := sits_append.1 h
  refine ⟨h1, ?_⟩
  have h3 := (sits_append.1 h2).2
  rw [List.length_append, length_intCode, Raw.length_enc] at h3
  exact h3

theorem length_callCode (framesize : Int64) (skip : Int32) : (callCode framesize skip).length = 17 := by
  simp [callCode, length_intCode, Raw.length_enc]

theorem length_retCode (framesize numArgs : Int64) : (retCode framesize numArgs).length = 21 := by
  simp [retCode, length_intCode]

theorem length_jumpCode (skip : Int32) : (jumpCode skip).length = 7 := by
  simp [jumpCode, Raw.length_enc]

theorem sits_jumpCode {skip : Int32} (h : Sits buf p (jumpCode skip)) : GotoSite buf p := by
  obtain ⟨h1, h2⟩ := sits_append.1 h
  refine ⟨(sits_append.1 h1).1, ?_⟩
  rw [List.length_append, Raw.length_enc] at h2
  exact h2

/-- events that are not labels -/
theorem labelPos_append_none (l m : List Event) (h : m.filterMap Event.labelAt = [])
    (name : Str) : labelPos (l ++ m) name = labelPos l name := by
  unfold labelPos
  rw [List.filterMap_append, h, List.append_nil]

/-- the table keeps the first label of each name -/
theorem lookup_addLabel (h : ∀ name, s.labels.lookup name = labelPos l name) (ident : Str)
    (pos : Nat) (scope : List Str) (name : Str) :
    (s.addLabel ident pos).labels.lookup name = labelPos (l ++ [.label pos scope ident]) name := by
  have hl : labelPos (l ++ [.label pos scope ident]) name =
      (labelPos l name).or (List.lookup name [(ident, pos)]) := by
    unfold labelPos
    rw [List.filterMap_append, List.lookup_append]
    rfl
  rw [hl, ← h name]
  unfold Codegen.addLabel
  dsimp only
  by_cases hs : (s.labels.lookup ident).isSome = true
  · rw [if_pos hs]
    by_cases hn : name = ident
    · obtain ⟨q, hq⟩ := Option.isSome_iff_exists.1 hs
      rw [hn, hq]
      rfl
    · rw [List.lookup_cons, beq_eq_false_iff_ne.2 hn]
      exact (Option.or_none).symm
  · rw [if_neg hs, List.lookup_append]

/-- an event depends on its own bytes only -/
theorem Event.At.congr {e : Event} (h : e.At buf)
    (hb : ∀ r ∈ e.region, ∀ i, r.1 ≤ i → i < r.1 + r.2 → b'[i]? = buf[i]?) : e.At b' := by
  cases e with
  | const pos val =>
    have hb := hb _ rfl
    refine ⟨h.1.congr fun i h1 h2 => hb i ?_ ?_, h.2.congr fun i h1 h2 => hb i ?_ ?_⟩ <;>
      simp only [List.length_cons, List.length_nil] at h2 <;> dsimp only <;> omega
  | call pos scope name func framesize =>
    have hb := hb _ rfl
    refine ⟨h.1.congr fun i h1 h2 => hb i ?_ ?_, h.2.congr fun i h1 h2 => hb i ?_ ?_⟩ <;>
      simp only [List.length_append, length_intCode, List.length_cons, List.length_nil] at h2 <;>
      dsimp only <;> omega
  | func begin ret scope name func framesize numArgs =>
    have hb := hb _ rfl
    refine Sits.congr h fun i h1 h2 => hb i h1 ?_
    rw [length_retCode] at h2
    exact h2
  | var key addr => trivial
  | label pos scope name => trivial
  | goto pos scope name =>
    have hb := hb _ rfl
    refine ⟨h.1.congr fun i h1 h2 => hb i ?_ ?_, h.2.congr fun i h1 h2 => hb i ?_ ?_⟩ <;>
      simp only [List.length_cons, List.length_nil] at h2 <;> dsimp only <;> omega

/-- bytes are added -/
theorem Sited.write (hi : Sited s H l) (he : s.AtEnd) (bs : List UInt8) :
    Sited { s with ostr := s.ostr.write bs } H l where
  table := hi.table
  refs := hi.refs
  calls := hi.calls
  labels := hi.labels
  gotos := hi.gotos
  apart := hi.apart
  inside := by
    intro r hr
    have := hi.inside r hr
    show _ ≤ (s.ostr.write bs).buf.length
    rw [length_write he]
    omega
  holes := by
    intro h hh
    refine ⟨?_, (hi.holes h hh).2⟩
    have := (hi.holes h hh).1
    show _ ≤ (s.ostr.write bs).buf.length
    rw [length_write he]
    omega
  sites := by
    intro e hm
    refine (hi.sites e hm).congr fun r hr i h1 h2 => ?_
    have := hi.inside r (List.mem_filterMap.2 ⟨e, hm, hr⟩)
    show (s.ostr.write bs).buf[i]? = _
    rw [write_end _ he, List.getElem?_append_left (by omega)]

/-- **An event with bytes of its own** is added, anywhere in the list. -/
theorem Sited.emit {bs : List UInt8} {e : Event} (hi : Sited s H (l ++ m)) (he : s.AtEnd)
    (hb : t.ostr = s.ostr.write bs) (hr : e.region = some (s.ostr.pos, bs.length))
    (ha : e.At (s.ostr.buf ++ bs)) (htab : ∃ strs, t.consttab.Ok strs)
    (hrefs : List.Forall₂ (Refers t.consttab) t.constAddrs ((l ++ e :: m).filterMap Event.site))
    (hcalls : t.funcComefroms = (l ++ e :: m).filterMap Event.comefrom)
    (hlabels : ∀ name, t.labels.lookup name = labelPos (l ++ e :: m) name)
    (hgotos : t.gotoComefroms = (l ++ e :: m).filterMap Event.gotoAt) :
    Sited t H (l ++ e :: m) := by
  have hw := hi.write he bs
  have he' : s.ostr.pos = s.ostr.buf.length := he
  have hbuf : t.ostr.buf = s.ostr.buf ++ bs := by
    rw [hb, write_end _ he]
  have hlen : t.ostr.buf.length = s.ostr.buf.length + bs.length := by
    rw [hbuf, List.length_append]
  have hreg : (l ++ e :: m).filterMap Event.region =
      l.filterMap Event.region ++ (s.ostr.pos, bs.length) :: m.filterMap Event.region := by
    rw [List.filterMap_append, List.filterMap_cons, hr]
  have hmem (r : Nat × Nat) : r ∈ (l ++ e :: m).filterMap Event.region ↔
      r = (s.ostr.pos, bs.length) ∨ r ∈ (l ++ m).filterMap Event.region := by
    rw [hreg, List.filterMap_append, List.mem_append, List.mem_append, List.mem_cons]
    tauto
  have hold : ∀ r ∈ (l ++ m).filterMap Event.region, Apart (s.ostr.pos, bs.length) r := by
    intro r hm
    have := hi.inside r hm
    exact Or.inr (by dsimp only; omega)
  refine ⟨htab, hrefs, hcalls, hlabels, hgotos, ?_, ?_, ?_, ?_⟩
  · intro x hx
    have hx' : x = e ∨ x ∈ l ++ m := by
      simp only [List.mem_append, List.mem_cons] at hx ⊢
      tauto
    rw [hbuf]
    rcases hx' with rfl | hx
    · exact ha
    · have hs := hw.sites x hx
      rwa [show (s.ostr.write bs).buf = s.ostr.buf ++ bs by rw [write_end _ he]] at hs
  · intro r hm
    rw [hlen]
    rcases (hmem r).1 hm with rfl | hm
    · dsimp only
      omega
    · have := hi.inside r hm
      omega
  · rw [hreg, List.pairwise_middle Apart.symm, ← List.filterMap_append]
    exact List.pairwise_cons.2 ⟨hold, hi.apart⟩
  · intro h hh
    obtain ⟨h1, h2⟩ := hi.holes h hh
    refine ⟨by omega, fun r hm => ?_⟩
    rcases (hmem r).1 hm with rfl | hm
    · exact Or.inl (by dsimp only; omega)
    · exact h2 r hm

theorem Refers.mono {tab tab' : ConstTab} {x : Nat × Int} {site : Nat × Str}
    (h : Refers tab x site) (hs : tab.consts ⊆ tab'.consts) : Refers tab' x site := by
  obtain ⟨e, pos, hp, e'⟩ := h
  exact ⟨e, pos, hs hp, e'⟩

theorem sits_end (buf bs : List UInt8) : Sits (buf ++ bs) buf.length bs := by
  have hm := sits_middle buf bs []
  rwa [List.append_nil] at hm

theorem Sited.setAddr (h : Sited s H l) (key : Str) (addr : Int64) : Sited (s.setAddr key addr) H l :=
  ⟨h.table, h.refs, h.calls, h.labels, h.gotos, h.sites, h.inside, h.apart, h.holes⟩

/-- **A sequence of events keeps the sites.** -/
theorem emits_sited (h : Emits s H l' s' H') : ∀ l, Sited s H l → Sited s' H' (l ++ l') := by
  induction h with
  | @const s s' H val he h =>
    intro l hi
    rw [run_putConstRef val he] at h
    cases h
    obtain ⟨strs, ht⟩ := hi.table
    obtain ⟨ht', hm, hsub⟩ := ht.addConst val
    have hb : (Piece.ref (Int32.ofInt (((s.consttab.addConst val).1 : Int) -
        (s.ostr.pos + 2 : Nat) - 5)) .rdmem).bytes =
          constRef (Int32.ofInt (((s.consttab.addConst val).1 : Int) - (s.ostr.pos + 2 : Nat) - 5)) := by
      simp [Piece.bytes, Piece.instrs, Instr.bytes, constRef]
    rw [hb]
    have he' : s.ostr.pos = s.ostr.buf.length := he
    have hi' : Sited s H (l ++ []) := by rwa [List.append_nil]
    refine hi'.emit (e := .const s.ostr.pos val) he rfl ?_ ?_ ht' ?_ ?_ ?_ ?_
    · show some (s.ostr.pos, 7) = _
      simp [constRef, Raw.length_enc]
    · show ConstSite _ s.ostr.pos
      rw [he']
      exact sits_constRef (sits_end _ _)
    · rw [List.filterMap_append]
      refine List.rel_append (hi.refs.imp fun x site hr => hr.mono hsub) ?_
      exact List.Forall₂.cons ⟨rfl, _, hm, rfl⟩ List.Forall₂.nil
    · rw [List.filterMap_append]
      show s.funcComefroms = _ ++ []
      rw [List.append_nil]
      exact hi.calls
    · exact fun name => (hi.labels name).trans (labelPos_append_none _ _ rfl name).symm
    · rw [List.filterMap_append]
      show s.gotoComefroms = _ ++ []
      rw [List.append_nil]
      exact hi.gotos
  | @call s H name func framesize he hr hf =>
    intro l hi
    have he' : s.ostr.pos = s.ostr.buf.length := he
    have hi' : Sited s H (l ++ []) := by rwa [List.append_nil]
    refine hi'.emit (e := .call s.ostr.pos s.curscope name func framesize) he rfl ?_ ?_ hi.table
      ?_ ?_ ?_ ?_
    · show some (s.ostr.pos, 17) = _
      rw [length_callCode]
    · show CallSite _ s.ostr.pos framesize
      generalize toSkip 0 (s.ostr.pos + 12) = skip
      rw [he']
      exact sits_callCode (sits_end _ _)
    · rw [List.filterMap_append]
      show List.Forall₂ _ _ (_ ++ [])
      rw [List.append_nil]
      exact hi.refs
    · rw [List.filterMap_append, ← hi.calls]
      rfl
    · exact fun name => (hi.labels name).trans (labelPos_append_none _ _ rfl name).symm
    · rw [List.filterMap_append]
      show s.gotoComefroms = _ ++ []
      rw [List.append_nil]
      exact hi.gotos
  | @func s t H H' l' scope name func framesize numArgs he hs hr h ht hf ih =>
    intro l hi
    have hi2 := ih l (hi.setAddr _ _)
    have ht' : t.ostr.pos = t.ostr.buf.length := ht
    refine hi2.emit ht rfl ?_ ?_ hi2.table ?_ ?_ ?_ ?_
    · show some (t.ostr.pos, 21) = _
      rw [length_retCode]
    · show Sits _ t.ostr.pos _
      rw [ht']
      exact sits_end _ _
    · rw [List.filterMap_append, List.filterMap_cons]
      have h2 := hi2.refs
      rwa [List.filterMap_append] at h2
    · rw [List.filterMap_append, List.filterMap_cons]
      have h2 := hi2.calls
      rwa [List.filterMap_append] at h2
    · intro name
      have h2 := hi2.labels name
      unfold labelPos at h2 ⊢
      rw [List.filterMap_append, List.filterMap_cons]
      rwa [List.filterMap_append] at h2
    · rw [List.filterMap_append, List.filterMap_cons]
      have h2 := hi2.gotos
      rwa [List.filterMap_append] at h2
  | @var s H key addr =>
    intro l hi
    refine ⟨hi.table, ?_, ?_, ?_, ?_, ?_, ?_, ?_, ?_⟩
    · rw [List.filterMap_append]
      show List.Forall₂ _ _ (_ ++ [])
      rw [List.append_nil]
      exact hi.refs
    · rw [List.filterMap_append]
      show _ = _ ++ []
      rw [List.append_nil]
      exact hi.calls
    · exact fun name => (hi.labels name).trans (labelPos_append_none _ _ rfl name).symm
    · rw [List.filterMap_append]
      show _ = _ ++ []
      rw [List.append_nil]
      exact hi.gotos
    · intro e hm
      rcases List.mem_append.1 hm with hm | hm
      · exact hi.sites e hm
      · rw [List.mem_singleton.1 hm]
        trivial
    · rw [List.filterMap_append]
      show ∀ r ∈ _ ++ [], _
      rw [List.append_nil]
      exact hi.inside
    · rw [List.filterMap_append]
      show List.Pairwise _ (_ ++ [])
      rw [List.append_nil]
      exact hi.apart
    · rw [List.filterMap_append]
      show ∀ h ∈ H, _ ∧ ∀ r ∈ _ ++ [], _
      rw [List.append_nil]
      exact hi.holes
  | @label s H name he =>
    intro l hi
    refine ⟨hi.table, ?_, ?_, ?_, ?_, ?_, ?_, ?_, ?_⟩
    · rw [List.filterMap_append]
      show List.Forall₂ _ _ (_ ++ [])
      rw [List.append_nil]
      exact hi.refs
    · rw [List.filterMap_append]
      show _ = _ ++ []
      rw [List.append_nil]
      exact hi.calls
    · exact lookup_addLabel hi.labels name s.ostr.pos s.curscope
    · rw [List.filterMap_append]
      show _ = _ ++ []
      rw [List.append_nil]
      exact hi.gotos
    · intro e hm
      rcases List.mem_append.1 hm with hm | hm
      · exact hi.sites e hm
      · rw [List.mem_singleton.1 hm]
        trivial
    · rw [List.filterMap_append]
      show ∀ r ∈ _ ++ [], _
      rw [List.append_nil]
      exact hi.inside
    · rw [List.filterMap_append]
      show List.Pairwise _ (_ ++ [])
      rw [List.append_nil]
      exact hi.apart
    · rw [List.filterMap_append]
      show ∀ h ∈ H, _ ∧ ∀ r ∈ _ ++ [], _
      rw [List.append_nil]
      exact hi.holes
  | @goto s H name he =>
    intro l hi
    have he' : s.ostr.pos = s.ostr.buf.length := he
    have hi' : Sited s H (l ++ []) := by rwa [List.append_nil]
    refine hi'.emit (e := .goto s.ostr.pos s.curscope name) he rfl ?_ ?_ hi.table ?_ ?_ ?_ ?_
    · show some (s.ostr.pos, 7) = _
      rw [length_jumpCode]
    · show GotoSite _ s.ostr.pos
      rw [he']
      exact sits_jumpCode (sits_end _ _)
    · rw [List.filterMap_append]
      show List.Forall₂ _ _ (_ ++ [])
      rw [List.append_nil]
      exact hi.refs
    · rw [List.filterMap_append]
      show s.funcComefroms = _ ++ []
      rw [List.append_nil]
      exact hi.calls
    · exact fun name => (hi.labels name).trans (labelPos_append_none _ _ rfl name).symm
    · rw [List.filterMap_append, ← hi.gotos]
      rfl
  | @code s H he bs =>
    intro l hi
    rw [List.append_nil]
    exact hi.write he bs
  | @hole s H he as bs cs =>
    intro l hi
    have he' : s.ostr.pos = s.ostr.buf.length := he
    have hw := hi.write he (as ++ bs ++ cs)
    rw [List.append_nil]
    refine ⟨hw.table, hw.refs, hw.calls, hw.labels, hw.gotos, hw.sites, hw.inside, hw.apart, ?_⟩
    intro h hh
    rcases List.mem_cons.1 hh with rfl | hh
    · refine ⟨?_, fun r hr => ?_⟩
      · show _ ≤ (s.ostr.write _).buf.length
        rw [length_write he, List.length_append, List.length_append]
        dsimp only
        omega
      · have := hi.inside r hr
        exact Or.inr (by dsimp only; omega)
    · exact hw.holes h hh
  | @fill s H q bs hq =>
    intro l hi
    obtain ⟨h1, h2⟩ := hi.holes _ hq
    rw [List.append_nil]
    have hlen := length_fill s.ostr.buf h1
    refine ⟨hi.table, hi.refs, hi.calls, hi.labels, hi.gotos, ?_, ?_, hi.apart, ?_⟩
    · intro e hm
      refine (hi.sites e hm).congr fun r hr i hi1 hi2 => ?_
      have := h2 r (List.mem_filterMap.2 ⟨e, hm, hr⟩)
      exact getElem?_write_outside h1 (by unfold Apart at this; dsimp only at this; omega)
    · intro r hr
      show _ ≤ (OStr.write _ _).buf.length
      rw [hlen]
      exact hi.inside r hr
    · intro h hh
      show _ ≤ (OStr.write _ _).buf.length ∧ _
      rw [hlen]
      exact hi.holes h hh
  | @other s s' H h =>
    intro l hi
    rw [List.append_nil]
    exact ⟨h.consttab ▸ hi.table, by rw [h.consttab, h.constAddrs]; exact hi.refs,
      by rw [h.funcComefroms]; exact hi.calls, by rw [h.labels]; exact hi.labels,
      by rw [h.gotoComefroms]; exact hi.gotos, by rw [h.buf]; exact hi.sites,
      by rw [h.buf]; exact hi.inside, hi.apart, by rw [h.buf]; exact hi.holes⟩
  | trans _ _ ih1 ih2 =>
    intro l hi
    rw [← List.append_assoc]
    exact ih2 _ (ih1 l hi)

/-- the output only grows, and functions begin in it -/
theorem emits_grows (h : Emits s H l' s' H') : ∀ l, Sited s H l →
    s.ostr.buf.length ≤ s'.ostr.buf.length ∧
      ∀ begin ret scope name func framesize numArgs,
        Event.func begin ret scope name func framesize numArgs ∈ l' → begin ≤ s'.ostr.buf.length := by
  induction h with
  | const he h =>
    intro l hi
    rw [run_putConstRef _ he] at h
    cases h
    refine ⟨?_, by simp⟩
    show _ ≤ (OStr.write _ _).buf.length
    rw [length_write he]
    omega
  | call he hr hf =>
    intro l hi
    refine ⟨?_, by simp⟩
    show _ ≤ (OStr.write _ _).buf.length
    rw [length_write he]
    omega
  | @func s t H H' l' scope name func framesize numArgs he hs hr h ht hf ih =>
    intro l hi
    have he' : s.ostr.pos = s.ostr.buf.length := he
    obtain ⟨h1, h2⟩ := ih l (hi.setAddr _ _)
    change s.ostr.buf.length ≤ t.ostr.buf.length at h1
    have hlen := length_write ht (retCode framesize numArgs)
    refine ⟨?_, ?_⟩
    · show _ ≤ (t.ostr.write _).buf.length
      omega
    · intro begin ret scope' name' func' framesize' numArgs' hm
      show _ ≤ (t.ostr.write _).buf.length
      rcases List.mem_cons.1 hm with e | hm
      · cases e
        omega
      · have := h2 _ _ _ _ _ _ _ hm
        omega
  | var key addr =>
    intro l hi
    exact ⟨Nat.le_refl _, by simp⟩
  | label name he =>
    intro l hi
    exact ⟨Nat.le_refl _, by simp⟩
  | goto name he =>
    intro l hi
    refine ⟨?_, by simp⟩
    show _ ≤ (OStr.write _ _).buf.length
    rw [length_write he]
    omega
  | code he bs =>
    intro l hi
    refine ⟨?_, by simp⟩
    show _ ≤ (OStr.write _ _).buf.length
    rw [length_write he]
    omega
  | hole he as bs cs =>
    intro l hi
    refine ⟨?_, by simp⟩
    show _ ≤ (OStr.write _ _).buf.length
    rw [length_write he]
    omega
  | @fill s H q bs hq =>
    intro l hi
    refine ⟨?_, by simp⟩
    show _ ≤ (OStr.write _ _).buf.length
    rw [length_fill _ (hi.holes _ hq).1]
  | other h =>
    intro l hi
    exact ⟨by rw [h.buf], by simp⟩
  | trans h h' ih1 ih2 =>
    intro l hi
    obtain ⟨h1, h2⟩ := ih1 l hi
    obtain ⟨h3, h4⟩ := ih2 _ (emits_sited h l hi)
    refine ⟨h1.trans h3, ?_⟩
    intro begin ret scope name func framesize numArgs hm
    rcases List.mem_append.1 hm with hm | hm
    · exact (h2 _ _ _ _ _ _ _ hm).trans h3
    · exact h4 _ _ _ _ _ _ _ hm

theorem sited_init (syms : SymTab) : Sited (Codegen.init syms) [] [] where
  table := ⟨[], rfl, by simp [Codegen.init]⟩
  refs := List.Forall₂.nil
  calls := rfl
  labels := fun _ => rfl
  gotos := rfl
  sites := by simp
  inside := by simp
  apart := List.Pairwise.nil
  holes := by simp

/-! ## the end of the program -/

/-- an address relative to the operand at `p + 2` -/
def refOff (p pos base : Nat) : Int32 := Int32.ofInt ((pos : Int) - (p + 2 : Nat) - 5 + base)

/-- the site of a string refers to its position in the table at `base` -/
def Filled (tab : ConstTab) (base : Nat) (buf : List UInt8) (site : Nat × Str) : Prop :=
  ∃ pos, (site.2, pos) ∈ tab.consts ∧ Sits buf site.1 (constRef (refOff site.1 pos base))

theorem ConstSite.le (h : ConstSite buf p) : p + 7 ≤ buf.length := h.2.le (by simp)

theorem ConstSite.write (h : ConstSite buf p) {q : Nat} {bs : List UInt8}
    (hq : q + bs.length ≤ buf.length) (ha : q + bs.length ≤ p ∨ p + 7 ≤ q) :
    ConstSite ((⟨buf, q⟩ : OStr).write bs).buf p := by
  refine ⟨sits_write_outside h.1 hq ?_, sits_write_outside h.2 hq ?_⟩
  · simp only [List.length_cons, List.length_nil]
    omega
  · simp only [List.length_cons, List.length_nil]
    omega

theorem Filled.congr {tab : ConstTab} {base : Nat} {b b' : List UInt8} {site : Nat × Str}
    (h : Filled tab base b site)
    (e : ∀ i, site.1 ≤ i → i < site.1 + 7 → b'[i]? = b[i]?) : Filled tab base b' site := by
  obtain ⟨pos, hp, hs⟩ := h
  have hl (off : Int32) : (constRef off).length = 7 := by simp [constRef]
  exact ⟨pos, hp, hs.congr fun i h1 h2 => e i h1 (by rw [hl] at h2; exact h2)⟩

/-- filling in the addresses of the constants -/
theorem fillConsts_sites {l : List (Nat × Str)} {tab : ConstTab} {base : Nat} {xs : List (Nat × Int)} {a : Unit}
    (h : (xs.forM fun (addrPos, constAddr) => patch addrPos (Int32.ofInt (constAddr + base))).run s
      = .ok a s') (hr : List.Forall₂ (Refers tab) xs l)
    (hs : ∀ site ∈ l, ConstSite s.ostr.buf site.1)
    (ha : l.Pairwise fun a b => Apart (a.1, 7) (b.1, 7)) :
    s' = { s with ostr := s'.ostr } ∧ s'.ostr.buf.length = s.ostr.buf.length ∧
      (∀ i, (∀ site ∈ l, i < site.1 ∨ site.1 + 7 ≤ i) → s'.ostr.buf[i]? = s.ostr.buf[i]?) ∧
      ∀ site ∈ l, Filled tab base s'.ostr.buf site := by
  induction hr generalizing s with
  | nil =>
    cases h
    exact ⟨rfl, rfl, fun _ _ => rfl, by simp⟩
  | @cons x site xs l hx hr ih =>
    obtain ⟨addrPos, constAddr⟩ := x
    obtain ⟨hx, pos, hpos, hx'⟩ := hx
    obtain rfl : addrPos = site.1 + 2 := hx
    obtain rfl : constAddr = (pos : Int) - (site.1 + 2 : Nat) - 5 := hx'
    obtain ⟨_, s1, h1, h⟩ := bind_eq_ok.1 h
    obtain ⟨hs1, hs⟩ := List.forall_mem_cons.1 hs
    obtain ⟨ha1, ha⟩ := List.pairwise_cons.1 ha
    have hle := hs1.le
    have hl (off : Int32) : (Raw.enc off).length = 4 := Raw.length_enc off
    dsimp only at h1
    rw [run_patch] at h1
    cases h1
    have hq : site.1 + 2 + (Raw.enc (refOff site.1 pos base)).length ≤ s.ostr.buf.length := by
      rw [hl]
      omega
    have hsite : ∀ site' ∈ l, ConstSite ((⟨s.ostr.buf, site.1 + 2⟩ : OStr).write
        (Raw.enc (refOff site.1 pos base))).buf site'.1 := by
      intro site' hm
      have := ha1 site' hm
      unfold Apart at this
      refine (hs site' hm).write hq ?_
      rw [hl]
      omega
    obtain ⟨e2, n2, f2, d2⟩ := ih h hsite ha
    have hlen := length_fill s.ostr.buf hq
    have n2 : s'.ostr.buf.length = s.ostr.buf.length := n2.trans hlen
    refine ⟨e2, n2, ?_, List.forall_mem_cons.2 ⟨?_, d2⟩⟩
    · intro i hi
      obtain ⟨hi1, hi⟩ := List.forall_mem_cons.1 hi
      rw [f2 i hi]
      refine getElem?_write_outside hq ?_
      rw [hl]
      omega
    · -- the other sites are behind this one
      refine Filled.congr (b := ((⟨s.ostr.buf, site.1 + 2⟩ : OStr).write
        (Raw.enc (refOff site.1 pos base))).buf) ⟨pos, hpos, ?_⟩ ?_
      · refine sits_append.2 ⟨sits_append.2 ⟨?_, sits_write (by omega)⟩, ?_⟩
        · exact sits_write_outside hs1.1 hq (Or.inl (Nat.le_refl _))
        · rw [List.length_append, hl]
          have h6 : site.1 + 2 + (Raw.enc (refOff site.1 pos base)).length ≤ site.1 + 6 := by
            rw [hl]
          exact sits_write_outside hs1.2 hq (Or.inr h6)
      · intro i h1 h2
        refine f2 i fun site' hm => ?_
        have := ha1 site' hm
        unfold Apart at this
        omega

/-- addresses that are filled in, and the other bytes, which stay -/
theorem forM_patches {α : Type} {xs : List α} {f : α → CGM Unit} (pos : α → Nat)
    (Q : α → Int32 → Prop) {a : Unit}
    (hf : ∀ x ∈ xs, ∀ t u t', t = { s with ostr := t.ostr } → (f x).run t = .ok u t' →
      ∃ addr : Int32, Q x addr ∧
        t' = { t with ostr := (⟨t.ostr.buf, pos x⟩ : OStr).write (Raw.enc addr) })
    (hl : ∀ x ∈ xs, pos x + 4 ≤ s.ostr.buf.length) (h : (xs.forM f).run s = .ok a s') :
    s' = { s with ostr := s'.ostr } ∧ s'.ostr.buf.length = s.ostr.buf.length ∧
      (∀ i, (∀ x ∈ xs, i < pos x ∨ pos x + 4 ≤ i) → s'.ostr.buf[i]? = s.ostr.buf[i]?) ∧
      (xs.Pairwise (fun x y => Apart (pos x, 4) (pos y, 4)) →
        ∀ x ∈ xs, ∃ addr, Q x addr ∧ Sits s'.ostr.buf (pos x) (Raw.enc addr)) := by
  induction xs generalizing s with
  | nil =>
    cases h
    exact ⟨rfl, rfl, fun _ _ => rfl, by simp⟩
  | cons x xs ih =>
    obtain ⟨_, s1, h1, h⟩ := bind_eq_ok.1 h
    obtain ⟨hl1, hl⟩ := List.forall_mem_cons.1 hl
    obtain ⟨addr, hQ, e1⟩ := hf x List.mem_cons_self _ _ _ rfl h1
    have h4 : (Raw.enc addr).length = 4 := Raw.length_enc addr
    have hq : pos x + (Raw.enc addr).length ≤ s.ostr.buf.length := by
      rw [h4]
      exact hl1
    have hb1 : s1.ostr.buf = ((⟨s.ostr.buf, pos x⟩ : OStr).write (Raw.enc addr)).buf := by rw [e1]
    have hlen : s1.ostr.buf.length = s.ostr.buf.length := by
      rw [hb1]
      exact length_fill s.ostr.buf hq
    obtain ⟨e2, n2, f2, d2⟩ := ih
      (fun y hy t u t' ht => hf y (List.mem_cons_of_mem _ hy) t u t' (by rw [ht, e1]))
      (fun y hy => by rw [hlen]; exact hl y hy) h
    refine ⟨by rw [e2, e1], n2.trans hlen, ?_, ?_⟩
    · intro i hi
      obtain ⟨hi1, hi⟩ := List.forall_mem_cons.1 hi
      rw [f2 i hi, hb1]
      refine getElem?_write_outside hq ?_
      rw [h4]
      exact hi1
    · intro hp
      obtain ⟨hp1, hp⟩ := List.pairwise_cons.1 hp
      refine List.forall_mem_cons.2 ⟨⟨addr, hQ, ?_⟩, d2 hp⟩
      have hs : Sits s1.ostr.buf (pos x) (Raw.enc addr) := by
        rw [hb1]
        exact sits_write (by omega)
      refine hs.congr fun i h1 h2 => f2 i fun y hy => ?_
      have := hp1 y hy
      unfold Apart at this
      omega

/-- the address that `Finish` fills in for a call -/
def Codegen.target (s : Codegen) (call : FuncComefrom) : Option Int64 :=
  (s.resolve call.name none).bind Symbol.addr

/-- an address relative to the position behind the operand at `pos` and the next instruction -/
def callOff (addr : Int64) (pos : Nat) : Int32 :=
  Int32.ofInt (addr.toInt - pos) - vmTypeSize .addrIp true

theorem finishCall_patch {call : FuncComefrom} {u : Unit} (h : (finishCall call).run s = .ok u s') :
    ∃ addr, s.target call = some addr ∧ s' = { s with
      ostr := (⟨s.ostr.buf, call.pos⟩ : OStr).write (Raw.enc (callOff addr call.pos)) } := by
  unfold finishCall at h
  obtain ⟨sym, s1, h1, h⟩ := bind_eq_ok.1 h
  have hr := getSym_resolve h1
  rw [(getSym_ok h1).1] at h
  split at h
  · cases h
  · rename_i addr ha
    dsimp only at h
    split at h
    · cases h
    · rw [run_patch] at h
      cases h
      refine ⟨addr, ?_, rfl⟩
      unfold Codegen.target
      rw [hr]
      exact ha

theorem finishGoto_patch {label : Str} {pos : Nat} {u : Unit}
    (h : (finishGoto label pos).run s = .ok u s') :
    ∃ target, s.labels.lookup label = some target ∧ s' = { s with
      ostr := (⟨s.ostr.buf, pos⟩ : OStr).write (Raw.enc (toSkip target pos)) } := by
  unfold finishGoto at h
  rw [run_get_bind] at h
  split at h
  · cases h
  · rename_i target ht
    rw [run_patch] at h
    cases h
    exact ⟨target, ht, rfl⟩

/-- `Finish` begins with code -/
theorem finish_head {n : Nat} (he : s.AtEnd) (h : finish.run s = .ok n s') :
    ∃ bs, (do
      finishConsts
      let s ← get
      s.funcComefroms.forM finishCall
      let s ← get
      s.gotoComefroms.forM fun (label, pos) => finishGoto label pos
      modify fun s => { s with gotoComefroms := [], labels := [] }
      seekEnd
      tellp : CGM Nat).run { s with ostr := s.ostr.write bs } = .ok n s' := by
  obtain ⟨framesize, s0, h0, h⟩ := bind_eq_ok.1 h
  rw [← getStackFrameSize_eq _ _ _ _ h0] at h
  have hcode : ∀ t : Codegen, (∃ bs, t = { s with ostr := s.ostr.write bs }) →
      ∃ bs, ({ t with ostr := t.ostr.write [OpCode.halt.code] } : Codegen) =
        { s with ostr := s.ostr.write bs } := by
    rintro t ⟨bs, rfl⟩
    exact ⟨bs ++ [OpCode.halt.code], congrArg (fun o => ({ s with ostr := o } : Codegen))
      (write_write _ he _ _)⟩
  obtain ⟨_, s1, h1, h⟩ := bind_eq_ok.1 h
  have e1 : ∃ bs, s1 = { s with ostr := s.ostr.write bs } := by
    cases hf : decide (framesize > 0) with
    | false =>
      rw [hf] at h1
      cases h1
      refine ⟨[], ?_⟩
      have hs : s.ostr.write [] = s.ostr := by
        rw [write_end _ he, List.append_nil]
        exact congrArg (OStr.mk s.ostr.buf) he.symm
      rw [hs]
    | true =>
      rw [hf, run_onlyIf_true] at h1
      obtain ⟨_, s2, h2, h1⟩ := bind_eq_ok.1 h1
      rw [pushIntConst, run_pushConst _ he] at h2
      cases h2
      cases h1
      exact ⟨_, congrArg (fun o => ({ s with ostr := o } : Codegen)) (write_write _ he _ _)⟩
  obtain ⟨bs, e2⟩ := hcode s1 e1
  obtain ⟨_, s2, h2, h⟩ := bind_eq_ok.1 h
  have e3 : s2 = { s1 with ostr := s1.ostr.write [OpCode.halt.code] } := by
    cases h2
    rfl
  rw [e3, e2] at h
  exact ⟨bs, h⟩

/-- the call at a position goes to the address of its symbol -/
def Linked (s : Codegen) (buf : List UInt8) (pos : Nat) (name : Str) (func : Symbol)
    (framesize : Int64) : Prop :=
  ∃ addr, s.target ⟨name, pos + 12, Int32.ofNat func.argty.length⟩ = some addr ∧
    Sits buf pos (callCode framesize (callOff addr (pos + 12)))

/-- the jump at a position goes to the first label of a name -/
def Jumped (l : List Event) (buf : List UInt8) (pos : Nat) (name : Str) : Prop :=
  ∃ target, labelPos l name = some target ∧ Sits buf pos (jumpCode (toSkip target (pos + 2)))

/-- different events have their own bytes -/
theorem Sited.apart_of_ne (hi : Sited s H l) {e e' : Event} (he : e ∈ l) (he' : e' ∈ l)
    (hne : e ≠ e') {r r' : Nat × Nat} (hr : e.region = some r) (hr' : e'.region = some r') :
    Apart r r' := by
  have ha := hi.apart
  rw [List.pairwise_filterMap] at ha
  have hsymm : Std.Symm fun e e' : Event =>
      ∀ r, e.region = some r → ∀ r', e'.region = some r' → Apart r r' :=
    ⟨fun _ _ h r hr r' hr' => (h r' hr' r hr).symm⟩
  exact ha.forall he he' hne r hr r' hr'

/-- **After `Finish`** the table follows the code, every constant refers to its string there, every
call to the address of its symbol, every jump to the first label of its name, and the returns are
where they were. -/
theorem finish_placed {n : Nat} (hi : Sited s H l) (he : s.AtEnd) (ho : Open s H)
    (h : finish.run s = .ok n s') :
    ∃ base, (∀ site ∈ l.filterMap Event.site, Filled s.consttab base s'.ostr.buf site) ∧
      Sits s'.ostr.buf base s.consttab.ostr ∧
      (∀ pos scope name func framesize, Event.call pos scope name func framesize ∈ l →
        Linked s s'.ostr.buf pos name func framesize) ∧
      (∀ begin ret scope name func framesize numArgs,
        Event.func begin ret scope name func framesize numArgs ∈ l →
          Sits s'.ostr.buf ret (retCode framesize numArgs)) ∧
      (∀ pos scope name, Event.goto pos scope name ∈ l → Jumped l s'.ostr.buf pos name) ∧
      s.ostr.buf.length ≤ s'.ostr.buf.length := by
  obtain ⟨bs, h⟩ := finish_head he h
  have hi1 := hi.write he bs
  have ho1 := ho.write he bs
  have t1 := atEnd_write he bs
  generalize hs1 : ({ s with ostr := s.ostr.write bs } : Codegen) = s1 at h hi1 ho1 t1
  have htab : s.consttab = s1.consttab := by
    rw [← hs1]
  have htarget : s.target = s1.target := by
    rw [← hs1]
    rfl
  obtain ⟨_, s5, h5, h⟩ := bind_eq_ok.1 h
  obtain ⟨base, s2, hp, h5⟩ := bind_eq_ok.1 h5
  cases hp
  rw [run_get_bind] at h5
  obtain ⟨_, s3, h3, h5⟩ := bind_eq_ok.1 h5
  cases h3
  have ht : s1.ostr.pos = s1.ostr.buf.length := t1
  have hi3 := hi1.write t1 s1.consttab.ostr
  have hw : (s1.ostr.write s1.consttab.ostr).buf = s1.ostr.buf ++ s1.consttab.ostr := by
    rw [write_end _ t1]
  -- the addresses of the constants
  have hsites : ∀ site ∈ l.filterMap Event.site, ∃ e ∈ l, e.At (s1.ostr.write s1.consttab.ostr).buf ∧
      e = .const site.1 site.2 := by
    intro site hm
    obtain ⟨e, hm, hs⟩ := List.mem_filterMap.1 hm
    cases e <;> simp [Event.site] at hs
    exact ⟨_, hm, hi3.sites _ hm, by rw [← hs]⟩
  have hsite : ∀ site ∈ l.filterMap Event.site,
      ConstSite (s1.ostr.write s1.consttab.ostr).buf site.1 := by
    intro site hm
    obtain ⟨e, -, ha, rfl⟩ := hsites site hm
    exact ha
  have hconst : ∀ site ∈ l.filterMap Event.site, (site.1, 7) ∈ l.filterMap Event.region := by
    intro site hm
    obtain ⟨e, hm, -, rfl⟩ := hsites site hm
    exact List.mem_filterMap.2 ⟨_, hm, rfl⟩
  have hapart : (l.filterMap Event.site).Pairwise fun a b => Apart (a.1, 7) (b.1, 7) := by
    have ha := hi1.apart
    rw [List.pairwise_filterMap] at ha ⊢
    refine ha.imp fun {e e'} hr a ha b hb => ?_
    cases e <;> simp [Event.site] at ha
    cases e' <;> simp [Event.site] at hb
    subst ha hb
    exact hr _ rfl _ rfl
  obtain ⟨e5, n5, f5, d5⟩ := fillConsts_sites h5 hi1.refs hsite hapart
  have hlen5 : s1.ostr.buf.length ≤ s5.ostr.buf.length := by
    rw [n5]
    show _ ≤ (s1.ostr.write _).buf.length
    rw [hw, List.length_append]
    omega
  -- calls and labels
  rw [run_get_bind] at h
  obtain ⟨_, s6, h6, h⟩ := bind_eq_ok.1 h
  have hc5 : s5.funcComefroms = l.filterMap Event.comefrom := by rw [e5]; exact hi1.calls
  have ht5 : s5.target = s1.target := by
    rw [e5]
    rfl
  have hcalls : ∀ call ∈ s5.funcComefroms, ∃ p, call.pos = p + 12 ∧
      (p, 17) ∈ l.filterMap Event.region := by
    intro call hm
    rw [hc5] at hm
    obtain ⟨e, hm, hs⟩ := List.mem_filterMap.1 hm
    cases e <;> simp [Event.comefrom] at hs
    rw [← hs]
    exact ⟨_, rfl, List.mem_filterMap.2 ⟨_, hm, rfl⟩⟩
  have hcin : ∀ call ∈ s5.funcComefroms, call.pos + 4 ≤ s1.ostr.buf.length := by
    intro call hm
    obtain ⟨p, hp, hr⟩ := hcalls call hm
    have := hi1.inside _ hr
    dsimp only at this
    omega
  obtain ⟨e6, n6, f6, d6⟩ := forM_patches FuncComefrom.pos
    (fun call off => ∃ addr, s.target call = some addr ∧ off = callOff addr call.pos)
    (fun call _ t u t' ht hr => by
      obtain ⟨addr, ha, e⟩ := finishCall_patch hr
      refine ⟨_, ⟨addr, ?_, rfl⟩, e⟩
      rw [htarget, ← ht5, ← ha, ht]
      rfl)
    (fun call hm => by have := hcin call hm; omega) h6
  rw [run_get_bind] at h
  obtain ⟨_, s7, h7, h⟩ := bind_eq_ok.1 h
  have hg6 : s6.gotoComefroms = l.filterMap Event.gotoAt := by
    rw [e6, e5]
    exact hi1.gotos
  have hgotos : ∀ x ∈ s6.gotoComefroms, ∃ p scope, x.2 = p + 2 ∧ Event.goto p scope x.1 ∈ l := by
    intro x hm
    rw [hg6] at hm
    obtain ⟨e, hm, hs⟩ := List.mem_filterMap.1 hm
    cases e <;> simp [Event.gotoAt] at hs
    rw [← hs]
    exact ⟨_, _, rfl, hm⟩
  obtain ⟨-, n7, f7, d7⟩ := forM_patches (fun x : Str × Nat => x.2)
    (fun x off => ∃ target, labelPos l x.1 = some target ∧ off = toSkip target x.2)
    (fun x _ t u t' ht hr => by
      obtain ⟨target, hl, e⟩ := finishGoto_patch hr
      refine ⟨_, ⟨target, ?_, rfl⟩, e⟩
      rw [← hi1.labels, ← hl, ht, e6, e5])
    (fun x hm => by
      obtain ⟨p, sc, hp, hm⟩ := hgotos x hm
      have := hi1.inside (p, 7) (List.mem_filterMap.2 ⟨_, hm, rfl⟩)
      dsimp only at this
      omega) h7
  cases h
  have hkeep : ∀ i, (∀ x ∈ s6.gotoComefroms, i < x.2 ∨ x.2 + 4 ≤ i) →
      (∀ call ∈ s5.funcComefroms, i < call.pos ∨ call.pos + 4 ≤ i) →
        s7.ostr.buf[i]? = s5.ostr.buf[i]? := by
    intro i hg hc
    rw [f7 i hg, f6 i hc]
  -- what stays of an event that is apart from the others
  have hjump : ∀ e ∈ l, (∀ p sc name, e ≠ .goto p sc name) → ∀ r, e.region = some r →
      ∀ i, r.1 ≤ i → i < r.1 + r.2 → ∀ x ∈ s6.gotoComefroms, i < x.2 ∨ x.2 + 4 ≤ i := by
    intro e hm hne r hr i h1 h2 x hx
    obtain ⟨p, sc, hp, hg⟩ := hgotos x hx
    have := hi1.apart_of_ne hm hg (hne p sc x.1) hr rfl
    unfold Apart at this
    dsimp only at this
    omega
  have hdisj : ∀ r ∈ l.filterMap Event.region, ∀ r' ∈ l.filterMap Event.region, r ≠ r' →
      Apart r r' := fun r hr r' hr' hne => hi1.apart.forall hr hr' hne
  have hcall : ∀ r ∈ l.filterMap Event.region, r.2 ≠ 17 → ∀ i, r.1 ≤ i → i < r.1 + r.2 →
      ∀ call ∈ s5.funcComefroms, i < call.pos ∨ call.pos + 4 ≤ i := by
    intro r hr hne i h1 h2 call hc
    obtain ⟨p, hp, hr'⟩ := hcalls call hc
    have := hdisj r hr _ hr' (fun e => hne (by rw [e]))
    unfold Apart at this
    dsimp only at this
    omega
  refine ⟨s1.ostr.buf.length, ?_, ?_, ?_, ?_, ?_, ?_⟩
  · intro site hs
    have hd := d5 site hs
    rw [ht] at hd
    rw [htab]
    have hr := hconst site hs
    obtain ⟨e, hm, -, rfl⟩ := hsites site hs
    exact hd.congr fun i h1 h2 => hkeep i (hjump _ hm (fun _ _ _ => Event.noConfusion) _ rfl i h1 h2)
      (hcall _ hr (by simp) i h1 h2)
  · rw [htab]
    have hsit : Sits (s1.ostr.write s1.consttab.ostr).buf s1.ostr.buf.length s1.consttab.ostr := by
      rw [hw]
      exact sits_end _ _
    refine hsit.congr fun i h1 h2 => ?_
    show s7.ostr.buf[i]? = _
    rw [hkeep i (fun x hx => ?_) (fun call hm => ?_), f5 i fun site hs => ?_]
    · have := hi1.inside _ (hconst site hs)
      dsimp only at this
      omega
    · obtain ⟨p, sc, hp, hg⟩ := hgotos x hx
      have := hi1.inside (p, 7) (List.mem_filterMap.2 ⟨_, hg, rfl⟩)
      dsimp only at this
      omega
    · have := hcin call hm
      omega
  · intro pos scope name func framesize hm
    have hr : (pos, 17) ∈ l.filterMap Event.region := List.mem_filterMap.2 ⟨_, hm, rfl⟩
    have hc : (⟨name, pos + 12, Int32.ofNat func.argty.length⟩ : FuncComefrom) ∈
        s5.funcComefroms := by
      rw [hc5]
      exact List.mem_filterMap.2 ⟨_, hm, rfl⟩
    have hpair : s5.funcComefroms.Pairwise fun x y => Apart (x.pos, 4) (y.pos, 4) := by
      have ha := hi1.apart
      rw [hc5]
      rw [List.pairwise_filterMap] at ha ⊢
      refine ha.imp fun {e e'} hr a ha b hb => ?_
      cases e <;> simp [Event.comefrom] at ha
      cases e' <;> simp [Event.comefrom] at hb
      subst ha hb
      have := hr _ rfl _ rfl
      unfold Apart at this ⊢
      dsimp only at this ⊢
      omega
    obtain ⟨off, ⟨addr, ha, rfl⟩, hs⟩ := d6 hpair _ hc
    refine ⟨addr, ha, ?_⟩
    dsimp only at hs
    -- the bytes around the address
    have hsame : ∀ i, pos ≤ i → i < pos + 17 → (i < pos + 12 ∨ pos + 16 ≤ i) →
        s7.ostr.buf[i]? = (s1.ostr.write s1.consttab.ostr).buf[i]? := by
      intro i h1 h2 h3
      rw [hkeep i (hjump _ hm (fun _ _ _ => Event.noConfusion) _ rfl i h1 h2) (fun call hm => ?_),
        f5 i fun site hs => ?_]
      · have := hdisj _ hr _ (hconst site hs) (by simp)
        unfold Apart at this
        dsimp only at this
        omega
      · obtain ⟨p, hp, hr'⟩ := hcalls call hm
        by_cases e : pos = p
        · omega
        · have := hdisj _ hr _ hr' (by simp [e])
          unfold Apart at this
          dsimp only at this
          omega
    obtain ⟨s1', s2'⟩ : CallSite (s1.ostr.write s1.consttab.ostr).buf pos framesize :=
      hi3.sites _ hm
    have hoff : Sits s7.ostr.buf (pos + 12) (Raw.enc (callOff addr (pos + 12))) := by
      refine hs.congr fun i h1 h2 => f7 i (hjump _ hm (fun _ _ _ => Event.noConfusion) _ rfl i ?_ ?_)
      · dsimp only
        omega
      · rw [Raw.length_enc] at h2
        change i < pos + 12 + 4 at h2
        dsimp only
        omega
    have hhead : Sits s7.ostr.buf pos (intCode framesize ++ [OpCode.push.code, VMType.addrIp.code]) := by
      refine s1'.congr fun i h1 h2 => hsame i h1 ?_ ?_
      · simp only [List.length_append, length_intCode, List.length_cons, List.length_nil] at h2
        omega
      · simp only [List.length_append, length_intCode, List.length_cons, List.length_nil] at h2
        omega
    have htail : Sits s7.ostr.buf (pos + 16) [OpCode.call.code] := by
      refine s2'.congr fun i h1 h2 => hsame i (by omega) ?_ ?_
      · simp only [List.length_cons, List.length_nil] at h2
        omega
      · omega
    rw [callCode, List.append_assoc, ← List.append_assoc (intCode framesize)]
    refine sits_append.2 ⟨hhead, sits_append.2 ⟨hoff, ?_⟩⟩
    rw [List.length_append, length_intCode, Raw.length_enc]
    exact htail
  · intro begin ret scope name func framesize numArgs hm
    have hr : (ret, 21) ∈ l.filterMap Event.region := List.mem_filterMap.2 ⟨_, hm, rfl⟩
    have hs : Sits (s1.ostr.write s1.consttab.ostr).buf ret (retCode framesize numArgs) :=
      hi3.sites _ hm
    refine hs.congr fun i h1 h2 => ?_
    rw [length_retCode] at h2
    show s7.ostr.buf[i]? = _
    rw [hkeep i (hjump _ hm (fun _ _ _ => Event.noConfusion) _ rfl i h1 h2)
      (hcall _ hr (by simp) i h1 h2), f5 i fun site hs => ?_]
    have := hdisj _ hr _ (hconst site hs) (by simp)
    unfold Apart at this
    dsimp only at this
    omega
  · intro pos scope name hm
    have hr : (pos, 7) ∈ l.filterMap Event.region := List.mem_filterMap.2 ⟨_, hm, rfl⟩
    have hg : (name, pos + 2) ∈ s6.gotoComefroms := by
      rw [hg6]
      exact List.mem_filterMap.2 ⟨_, hm, rfl⟩
    have hpair : s6.gotoComefroms.Pairwise fun x y => Apart (x.2, 4) (y.2, 4) := by
      have ha := hi1.apart
      rw [hg6]
      rw [List.pairwise_filterMap] at ha ⊢
      refine ha.imp fun {e e'} hr a ha b hb => ?_
      cases e <;> simp [Event.gotoAt] at ha
      cases e' <;> simp [Event.gotoAt] at hb
      subst ha hb
      have := hr _ rfl _ rfl
      unfold Apart at this ⊢
      dsimp only at this ⊢
      omega
    obtain ⟨off, ⟨target, htgt, rfl⟩, hs⟩ := d7 hpair _ hg
    refine ⟨target, htgt, ?_⟩
    dsimp only at hs
    -- the bytes around the address
    have hsame : ∀ i, pos ≤ i → i < pos + 7 → (i < pos + 2 ∨ pos + 6 ≤ i) →
        s7.ostr.buf[i]? = (s1.ostr.write s1.consttab.ostr).buf[i]? := by
      intro i h1 h2 h3
      rw [hkeep i (fun x hx => ?_) (hcall _ hr (by simp) i h1 h2), f5 i fun site hs => ?_]
      · obtain ⟨e, hc, -, rfl⟩ := hsites site hs
        have := hi1.apart_of_ne hm hc Event.noConfusion rfl rfl
        unfold Apart at this
        dsimp only at this
        omega
      · obtain ⟨p, sc, hp, hg'⟩ := hgotos x hx
        by_cases e : p = pos
        · omega
        · have := hi1.apart_of_ne hm hg' (fun h => e (Event.goto.inj h).1.symm) rfl rfl
          unfold Apart at this
          dsimp only at this
          omega
    obtain ⟨s1', s2'⟩ : GotoSite (s1.ostr.write s1.consttab.ostr).buf pos := hi3.sites _ hm
    refine sits_append.2 ⟨sits_append.2 ⟨?_, hs⟩, ?_⟩
    · refine s1'.congr fun i h1 h2 => hsame i h1 ?_ ?_ <;>
        simp only [List.length_cons, List.length_nil] at h2 <;> omega
    · rw [List.length_append, Raw.length_enc]
      refine s2'.congr fun i h1 h2 => hsame i ?_ ?_ ?_ <;>
        simp only [List.length_cons, List.length_nil] at h2 <;> omega
  · show s.ostr.buf.length ≤ s7.ostr.buf.length
    have hlen1 : s1.ostr.buf.length = s.ostr.buf.length + bs.length := by
      rw [← hs1]
      exact length_write he bs
    omega

end

/-! ## programs -/

/-- the code of a program before `Finish` -/
def generate (stmts : List AST) : CGM Unit := do
  start
  (visitList stmts).forM Visit.run_

/-- what is left of a program before `Finish`, with the events of its functions and of what stands
outside of them -/
structure Compiled (syms : SymTab) (l : List Event) (t : Codegen) (H : Holes) : Prop where
  traces : Traces (Codegen.init syms) [] l t H
  atEnd : t.AtEnd
  isOpen : Open t H

section
variable {syms : SymTab} {l : List Event} {t : Codegen} {H : Holes}

theorem Compiled.emits (hc : Compiled syms l t H) : Emits (Codegen.init syms) [] l t H :=
  hc.traces.emits

theorem Compiled.scope (hc : Compiled syms l t H) : t.curscope = [] := hc.traces.curscope

end

theorem compile_ok {stmts : List AST} {n : Nat} {s s' : Codegen}
    (h : (compile stmts).run s = .ok n s') :
    ∃ t, (generate stmts).run s = .ok () t ∧ finish.run t = .ok n s' := by
  obtain ⟨_, s1, h1, h⟩ := bind_eq_ok.1 h
  obtain ⟨_, t, h2, h⟩ := bind_eq_ok.1 h
  exact ⟨t, by rw [generate, bind_ok h1, h2], h⟩

theorem open_init (syms : SymTab) : Open (Codegen.init syms) [] where
  pending := by simp [Codegen.jumps, Codegen.init]
  inside := by simp

theorem start_lays : Keeps Lays start := by
  refine Keeps.bind (Keeps.of_eq (getStackFrameSize_eq _)) fun framesize => ?_
  exact Keeps.onlyIf (Keeps.bind (lays_emits.pushIntConst_keeps _) fun _ => putOp_lays _)

/-- generated code comes from a sequence of events -/
theorem generate_emits {syms : SymTab} {stmts : List AST} {t : Codegen}
    (h : (generate stmts).run (Codegen.init syms) = .ok () t) : ∃ l H, Compiled syms l t H := by
  obtain ⟨_, s1, h1, h2⟩ := bind_eq_ok.1 h
  obtain ⟨H1, l1, t1, o1⟩ := run_lays start_lays h1 rfl (open_init syms)
  have hvisits : Keeps Lays ((visitList stmts).forM Visit.run_) :=
    Keeps.forM _ fun x hx => visitRun_keeps
      (visitList_keeps lays_rules ⟨[], false⟩ stmts (allList_true _ stmts) x hx)
  obtain ⟨H2, l2, t2, o2⟩ := run_lays hvisits h2 t1 o1
  obtain ⟨⟨l, hl⟩, -⟩ := l1.trans l2
  exact ⟨l, H2, hl, t2, o2⟩

end MuF
