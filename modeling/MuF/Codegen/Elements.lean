import MuF.Codegen.Parts
import MuF.Codegen.Strings
import MuF.VM.Fragments
import MuF.VM.Arrays
import MuF.Base.Positions

/-!
# Elements of arrays with several dimensions

* `IndexCode`: the code of the indices, with the spans of the index expressions;
* `IndexCode.run`: it leaves the indices on the stack, each multiplied with the dimensions behind;
* `visitElemIndex_code`: what the visit of an index emits;
* **`element_position`**: the index that `RDARR` and `WRARR` get is the row-major position.
-/

set_option linter.unusedVariables false

namespace MuF

open Bytes Exec Layout Positions

/-! ## the code of an index -/

/-- an integer on the stack -/
def intItem (i : Nat) : Item := (.int (Int64.ofNat i), .unknown)

/-- the multiplication of an index with the size of the dimensions behind it -/
def scaleCode (rest : Nat) : List UInt8 :=
  if 1 < rest then intCode (Int64.ofNat rest) ++ [OpCode.mul.code] else []

/-- a cast to an integer, or nothing -/
def CastCode (code : List UInt8) (m e : Nat) : Prop :=
  e = m ∨ e = m + 1 ∧ code[m]? = some OpCode.toi.code

/-- the code from `p` to `q` of the indices of some dimensions; the index expressions are at the
spans -/
def IndexCode (code : List UInt8) : List Nat → List (Nat × Nat) → Nat → Nat → Prop
  | [], [], p, q => q = p
  | _ :: dims, (b, m) :: spans, p, q =>
    b = p ∧ ∃ e, CastCode code m e ∧ Sits code e (scaleCode dims.prod) ∧
      IndexCode code dims spans (e + (scaleCode dims.prod).length) q
  | _, _, _, _ => False

/-- the indices, each multiplied with the dimensions behind its own -/
def scaled : List Nat → List Nat → List Nat
  | _ :: dims, i :: idx => i * dims.prod :: scaled dims idx
  | _, _ => []

theorem sum_scaled {dims idx : List Nat} (h : Inside idx dims) :
    (scaled dims idx).sum = position dims idx := by
  induction h with
  | nil => rfl
  | cons hi _ ih => rw [scaled, List.sum_cons, ih, position_cons]

theorem length_scaled {dims idx : List Nat} (h : Inside idx dims) :
    (scaled dims idx).length = idx.length := by
  induction h with
  | nil => rfl
  | cons hi _ ih => rw [scaled, List.length_cons, ih, List.length_cons]

section
variable [MathLib TReal] {code : List UInt8} {base : Int} {s : VM} {p q b m e need : Nat}
  {ds : List Item} {E E' : VM → Prop}

omit [MathLib TReal] in
/-- an integer takes no more room than two of them -/
theorem room_of_two {i j : Nat} (h : s.Here code base p (intItem i :: intItem j :: ds)) :
    (code.length : Int) + (9 : Nat) + sizes ds ≤ base := by
  have hroom := h.room
  have e : sizes (intItem i :: intItem j :: ds) = 9 + (9 + sizes ds) := rfl
  rw [e] at hroom
  push_cast at hroom ⊢
  omega

/-- **Multiplication** with the size of the dimensions behind. -/
theorem scale_run {i rest : Nat} (h : s.Here code base p (intItem i :: ds))
    (hc : Sits code p (scaleCode rest)) (hpos : 0 < rest)
    (hroom : (code.length : Int) + 9 + sizes (intItem i :: ds) ≤ base) :
    ∃ t, s.Turns t ∧ t.Here code base (p + (scaleCode rest).length) (intItem (i * rest) :: ds) ∧
      SameAbove base s t := by
  unfold scaleCode at hc ⊢
  by_cases h1 : 1 < rest
  · rw [if_pos h1] at hc ⊢
    obtain ⟨hc1, hc2⟩ := sits_append.1 hc
    obtain ⟨t, ht, hh, hsame⟩ := h.push (d := .int (Int64.ofNat rest)) hc1 rfl rfl hroom
    have hop : code[p + 10]? = some OpCode.mul.code := (sits_cons.1 hc2).1
    have hd : arithmetic .mul (.int (Int64.ofNat i)) (.int (Int64.ofNat rest) : TData) =
        .ok (.int (Int64.ofNat (i * rest))) := by
      rw [Int64.ofNat_mul]
      rfl
    obtain ⟨u, hu, hh', hsame'⟩ := hh.binary .mul hop rfl hd rfl (room_of_two hh)
    exact ⟨u, (VM.Turns.single ht).tail hu, hh', hsame.trans hsame'⟩
  · obtain rfl : rest = 1 := by omega
    rw [if_neg h1, Nat.mul_one]
    exact ⟨s, Relation.ReflTransGen.refl, h, SameAbove.refl base s⟩

theorem cast_run {i : Nat} (h : s.Here code base m (intItem i :: ds)) (hc : CastCode code m e) :
    ∃ t, s.Turns t ∧ t.Here code base e (intItem i :: ds) ∧ SameAbove base s t := by
  rcases hc with rfl | ⟨rfl, hop⟩
  · exact ⟨s, Relation.ReflTransGen.refl, h, SameAbove.refl base s⟩
  · have hroom : (code.length : Int) + (9 : Nat) + sizes ds ≤ base := by
      have e : sizes (intItem i :: ds) = 9 + sizes ds := rfl
      have := h.room
      rw [e] at this
      push_cast at this ⊢
      omega
    obtain ⟨t, ht, hh, hsame⟩ := h.cast .toi hop rfl (Or.inl ⟨rfl, rfl, rfl⟩) rfl hroom
    exact ⟨t, VM.Turns.single ht, hh, hsame⟩

/-- **The additions** at the end. -/
theorem adds_run {v : Nat} {vs : List Nat} (h : s.Here code base p ((v :: vs).map intItem ++ ds))
    (hc : Sits code p (List.replicate vs.length OpCode.add.code)) :
    ∃ t, s.Turns t ∧ t.Here code base (p + vs.length) (intItem (v + vs.sum) :: ds) ∧
      SameAbove base s t := by
  induction vs generalizing s p v with
  | nil => exact ⟨s, Relation.ReflTransGen.refl, h, SameAbove.refl base s⟩
  | cons w vs ih =>
    rw [List.length_cons, List.replicate_succ] at hc
    obtain ⟨hop, hc⟩ := sits_cons.1 hc
    have hd : arithmetic .add (.int (Int64.ofNat w)) (.int (Int64.ofNat v) : TData) =
        .ok (.int (Int64.ofNat (v + w))) := by
      rw [Nat.add_comm, Int64.ofNat_add]
      rfl
    obtain ⟨t, ht, hh, hsame⟩ := VM.Here.binary .add h hop rfl hd rfl (room_of_two h)
    obtain ⟨u, hu, hh', hsame'⟩ := ih hh hc
    refine ⟨u, (VM.Turns.single ht).trans hu, ?_, hsame.trans hsame'⟩
    rw [List.length_cons, List.sum_cons, show p + (vs.length + 1) = p + 1 + vs.length by omega,
      ← Nat.add_assoc]
    exact hh'

/-- **The indices** are left on the stack, each multiplied with the dimensions behind. -/
theorem IndexCode.run {dims idx : List Nat} {spans : List (Nat × Nat)} {E : Nat → VM → Prop}
    (hi : Inside idx dims) (hc : IndexCode code dims spans p q)
    (hE : ∀ k, Stable base (E k))
    (hx : ∀ k b m i, spans[k]? = some (b, m) → idx[k]? = some i →
      Computes base (E k) (E (k + 1)) code b m (intItem i) need)
    (hroom : (code.length : Int) + (need + 9 * idx.length + 9 : Nat) + sizes ds ≤ base)
    (h : s.Here code base p ds) (h0 : E 0 s) :
    ∃ t, s.Turns t ∧ t.Here code base q ((scaled dims idx).reverse.map intItem ++ ds) ∧
      E idx.length t := by
  induction hi generalizing s p ds spans E with
  | nil =>
    cases spans with
    | nil =>
      rw [show q = p from hc]
      exact ⟨s, Relation.ReflTransGen.refl, h, h0⟩
    | cons x spans => exact hc.elim
  | @cons i d idx dims hid hi ih =>
    cases spans with
    | nil => exact hc.elim
    | cons x spans =>
      obtain ⟨b, m⟩ := x
      obtain ⟨rfl, e, hcast, hscale, hrest⟩ := hc
      rw [List.length_cons] at hroom
      -- the index expression, its cast and its multiplication
      obtain ⟨t1, r1, h1, e1⟩ := hx 0 b m i rfl rfl s ds (by push_cast at hroom ⊢; omega) h h0
      obtain ⟨t2, r2, h2, a2⟩ := cast_run h1 hcast
      have hsz : sizes (intItem i :: ds) = 9 + sizes ds := rfl
      obtain ⟨t3, r3, h3, a3⟩ := scale_run h2 hscale (Nat.zero_lt_of_lt (position_lt hi))
        (by rw [hsz]; push_cast at hroom ⊢; omega)
      -- the other ones
      obtain ⟨t, r4, h4, e4⟩ := ih (E := fun k => E (k + 1)) hrest (fun k => hE (k + 1))
        (fun k b m j hs hj => hx (k + 1) b m j hs hj)
        (by
          have hsz' : sizes (intItem (i * dims.prod) :: ds) = 9 + sizes ds := rfl
          rw [hsz']
          push_cast at hroom ⊢
          omega) h3 (hE 1 _ _ a3 (hE 1 _ _ a2 e1))
      refine ⟨t, ((r1.trans r2).trans r3).trans r4, ?_, e4⟩
      rw [scaled, List.reverse_cons, List.map_append, List.append_assoc]
      exact h4

/-- **An index** is computed as the row-major position. -/
theorem IndexCode.computes {dims idx : List Nat} {spans : List (Nat × Nat)} {E : Nat → VM → Prop}
    (hi : Inside idx dims) (hc : IndexCode code dims spans p q)
    (hne : dims ≠ []) (hadd : Sits code q (List.replicate (dims.length - 1) OpCode.add.code))
    (hE : ∀ k, Stable base (E k))
    (hx : ∀ k b m i, spans[k]? = some (b, m) → idx[k]? = some i →
      Computes base (E k) (E (k + 1)) code b m (intItem i) need) :
    Computes base (E 0) (E dims.length) code p (q + (dims.length - 1))
      (intItem (position dims idx)) (need + 9 * dims.length + 9) := by
  intro s ds hroom h h0
  have hlen : idx.length = dims.length := hi.length_eq
  obtain ⟨t, ht, hh, he⟩ := hc.run hi hE hx (by rw [hlen]; exact hroom) h h0
  have hl : (scaled dims idx).reverse.length = dims.length := by
    rw [List.length_reverse, length_scaled hi, hlen]
  have hsum : (scaled dims idx).reverse.sum = position dims idx := by
    rw [List.sum_reverse, sum_scaled hi]
  generalize (scaled dims idx).reverse = vs at hh hl hsum
  cases vs with
  | nil => exact absurd (List.length_eq_zero_iff.1 hl.symm) hne
  | cons v vs =>
    have hl' : vs.length = dims.length - 1 := by
      rw [← hl]
      rfl
    rw [← hl'] at hadd ⊢
    obtain ⟨u, hu, hh', hsame⟩ := adds_run hh hadd
    rw [← hsum, List.sum_cons]
    exact ⟨u, ht.trans hu, hh', hE _ _ _ hsame (hlen ▸ he)⟩

end

/-! ## the visit of an index -/

/-- where the code of the index expressions is -/
def indexSpans (sym : Symbol) : Nat → List Visit → Codegen → List (Nat × Nat)
  | _, [], _ => []
  | curDim, num :: nums, s =>
    match num.run s, (visitIndices sym curDim [num]).run s with
    | .ok _ s1, .ok _ s2 => (s.ostr.pos, s1.ostr.pos) :: indexSpans sym (curDim + 1) nums s2
    | _, _ => []

section
variable {s s' : Codegen} {H : Holes} {l : List Event}

/-- an index expression and its cast -/
theorem visitIndex_code {num : Visit} {u : Unit} (hs : Stage s H l) (hx : Keeps Lays num)
    (h : (visitIndex num).run s = .ok u s') :
    ∃ r s1, num.run s = .ok r s1 ∧
      Gives s H l s' fun code => CastCode code s1.ostr.pos s'.ostr.pos := by
  obtain ⟨sym?, s1, h1, h⟩ := bind_eq_ok.1 h
  obtain ⟨sym, s2, h2, h3⟩ := bind_eq_ok.1 h
  obtain ⟨-, rfl⟩ := deref_ok h2
  refine ⟨sym?, s2, h1, ?_⟩
  have hv := hs.visit hx h1
  cases hc : sym.ty != .int with
  | false =>
    rw [hc] at h3
    cases h3
    exact hv.mono fun code _ => Or.inl rfl
  | true =>
    rw [hc, run_onlyIf_true] at h3
    have h4 : (putOp .toi).run s2 = .ok u s' := h3
    rw [run_putOp] at h4
    cases h4
    refine (Gives.bind hs hv fun H' l' hs' => hs'.write [OpCode.toi.code]).mono ?_
    rintro code ⟨-, hsit⟩
    refine Or.inr ⟨?_, (sits_cons.1 hsit).1⟩
    obtain ⟨H', l', -, -, hs', -⟩ := hv
    exact pos_write hs' _

end

section
variable {sym : Symbol}

theorem foldl_dims (dims : List Nat) (a : Nat) :
    dims.foldl (fun i j => i * Int32.ofNat j) (Int32.ofNat a) = Int32.ofNat (a * dims.prod) := by
  induction dims generalizing a with
  | nil => rw [List.foldl_nil, List.prod_nil, Nat.mul_one]
  | cons d dims ih => rw [List.foldl_cons, ← Int32.ofNat_mul, ih, List.prod_cons, Nat.mul_assoc]

theorem getTotalSize_eq (sym : Symbol) (k : Nat) :
    sym.getTotalSize k = Int32.ofNat (sym.dims.drop k).prod := by
  have h := foldl_dims (sym.dims.drop k) 1
  rw [Nat.one_mul] at h
  exact h

theorem toInt64_ofNat {n : Nat} (h : n < 2^31) : (Int32.ofNat n).toInt64 = Int64.ofNat n := by
  rw [← Int64.toInt_inj, Int32.toInt_toInt64, Word.toInt_ofNat h,
    Int64.toInt_ofNat_of_lt (by omega)]

/-- the product of some of the dimensions -/
theorem prod_drop_le {dims : List Nat} (hpos : ∀ d ∈ dims, 0 < d) (k : Nat) :
    (dims.drop k).prod ≤ dims.prod ∧ 0 < dims.prod := by
  induction dims generalizing k with
  | nil => simp
  | cons d dims ih =>
    obtain ⟨hd, hpos⟩ := List.forall_mem_cons.1 hpos
    have hp : 0 < (d :: dims).prod := by
      rw [List.prod_cons]
      exact Nat.mul_pos hd (ih hpos 0).2
    refine ⟨?_, hp⟩
    cases k with
    | zero => exact Nat.le_refl _
    | succ k =>
      rw [List.drop_succ_cons, List.prod_cons]
      calc (dims.drop k).prod ≤ dims.prod := (ih hpos k).1
        _ ≤ d * dims.prod := Nat.le_mul_of_pos_left _ hd

end

section
variable {s s' : Codegen} {H : Holes} {l : List Event} {sym : Symbol}

/-- the multiplication that `visitIndices` emits -/
theorem scale_code {rest : Nat} {u : Unit} (hs : Stage s H l) (hr : rest < 2^31)
    (h : (onlyIf ((Int32.ofNat rest).toInt64 > 1) do
      pushIntConst (Int32.ofNat rest).toInt64
      putOp .mul : CGM Unit).run s = .ok u s') :
    s' = { s with ostr := s.ostr.write (scaleCode rest) } := by
  have hgt : decide ((1 : Int64) < Int64.ofNat rest) = decide (1 < rest) := by
    rw [decide_eq_decide, Int64.lt_iff_toInt_lt, Int64.toInt_ofNat_of_lt (by omega)]
    show (1 : Int) < rest ↔ _
    omega
  rw [toInt64_ofNat hr] at h
  unfold scaleCode
  by_cases h1 : 1 < rest
  · rw [show decide (Int64.ofNat rest > 1) = true from hgt.trans (decide_eq_true h1),
      run_onlyIf_true] at h
    obtain ⟨_, s1, h2, h⟩ := bind_eq_ok.1 h
    rw [pushIntConst, run_pushConst _ hs.atEnd] at h2
    cases h2
    rw [run_putOp] at h
    cases h
    rw [if_pos h1]
    exact congrArg (fun o => ({ s with ostr := o } : Codegen)) (write_write _ hs.atEnd _ _)
  · rw [show decide (Int64.ofNat rest > 1) = false from hgt.trans (decide_eq_false h1)] at h
    cases h
    rw [if_neg h1, write_nil hs.atEnd]

/-- **The visit of the indices.** -/
theorem visitIndices_code {nums : List Visit} {curDim : Nat} {u : Unit}
    (hx : ∀ num ∈ nums, Keeps Lays num) (hpos : ∀ d ∈ sym.dims, 0 < d)
    (hP : sym.dims.prod < 2^31) (hlen : (sym.dims.drop curDim).length = nums.length)
    (hs : Stage s H l) (h : (visitIndices sym curDim nums).run s = .ok u s') :
    Gives s H l s' fun code => IndexCode code (sym.dims.drop curDim)
      (indexSpans sym curDim nums s) s.ostr.pos s'.ostr.pos := by
  induction nums generalizing s H l curDim with
  | nil =>
    rw [List.length_eq_zero_iff.1 hlen]
    cases h
    exact hs.refl.mono fun code _ => rfl
  | cons num nums ih =>
    obtain ⟨hx1, hx⟩ := List.forall_mem_cons.1 hx
    have hlt : curDim < sym.dims.length := by
      rw [List.length_drop, List.length_cons] at hlen
      omega
    rw [List.drop_eq_getElem_cons hlt] at hlen ⊢
    obtain ⟨_, s1, h1, h⟩ := bind_eq_ok.1 h
    dsimp only at h
    obtain ⟨_, s2, h2, h⟩ := bind_eq_ok.1 h
    have hr : (sym.dims.drop (curDim + 1)).prod < 2^31 :=
      Nat.lt_of_le_of_lt (prod_drop_le hpos _).1 hP
    obtain ⟨r, s0, h0, hcast⟩ := visitIndex_code hs hx1 h1
    -- the spans begin with this one
    have hspan : indexSpans sym curDim (num :: nums) s =
        (s.ostr.pos, s0.ostr.pos) :: indexSpans sym (curDim + 1) nums s2 := by
      have hone : (visitIndices sym curDim [num]).run s = .ok () s2 := by
        rw [visitIndices, bind_ok h1]
        dsimp only
        rw [bind_ok h2]
        rfl
      rw [indexSpans, h0, hone]
    rw [hspan]
    -- the multiplication and the other indices
    have hrest : ∀ H1 l1, Stage s1 H1 l1 → Gives s1 H1 l1 s' fun code =>
        Sits code s1.ostr.pos (scaleCode (sym.dims.drop (curDim + 1)).prod) ∧
        IndexCode code (sym.dims.drop (curDim + 1)) (indexSpans sym (curDim + 1) nums s2)
          (s1.ostr.pos + (scaleCode (sym.dims.drop (curDim + 1)).prod).length) s'.ostr.pos := by
      intro H1 l1 hs1
      rw [getTotalSize_eq] at h2
      have e2 := scale_code hs1 hr h2
      have hw := hs1.write (scaleCode (sym.dims.drop (curDim + 1)).prod)
      have hpos2 : s1.ostr.pos + (scaleCode (sym.dims.drop (curDim + 1)).prod).length =
          s2.ostr.pos := by
        rw [e2]
        exact (pos_write hs1 _).symm
      rw [← e2] at hw
      rw [hpos2]
      refine hw.bind hs1 fun H2 l2 hs2 => ?_
      exact ih hx (Nat.succ.inj hlen) hs2 h
    refine (hcast.bind hs hrest).mono ?_
    rintro code ⟨h1, h2, h3⟩
    exact ⟨rfl, s1.ostr.pos, h1, h2, h3⟩

/-- the index expressions -/
def Index.exprs : Index → List Visit
  | .list nums => nums
  | .single num => [num]

/-- the code of an index with its additions -/
structure ElemCode (code : List UInt8) (dims : List Nat) (spans : List (Nat × Nat)) (p q : Nat) :
    Prop where
  index : IndexCode code dims spans p (q - (dims.length - 1))
  adds : Sits code (q - (dims.length - 1)) (List.replicate (dims.length - 1) OpCode.add.code)
  le : dims.length - 1 ≤ q

theorem run_adds (n : Nat) {u : Unit} (hs : Stage s H l)
    (h : ((List.replicate n ()).forM fun _ => putOp .add : CGM Unit).run s = .ok u s') :
    s' = { s with ostr := s.ostr.write (List.replicate n OpCode.add.code) } := by
  induction n generalizing s H l with
  | zero =>
    cases h
    exact (write_nil hs.atEnd).symm
  | succ n ih =>
    obtain ⟨_, s1, h1, h⟩ := bind_eq_ok.1 h
    rw [run_putOp] at h1
    cases h1
    obtain ⟨H1, l1, -, -, hs1, -⟩ := hs.write [OpCode.add.code]
    rw [ih hs1 h]
    exact congrArg (fun o => ({ s with ostr := o } : Codegen)) (write_write _ hs.atEnd _ _)

/-- **The visit of an index** as a list or a single expression. -/
theorem visitElemIndex_code {node : String} {num : Index} {u : Unit}
    (hx : ∀ x ∈ num.exprs, Keeps Lays x) (hpos : ∀ d ∈ sym.dims, 0 < d)
    (hP : sym.dims.prod < 2^31) (hlen : num.exprs.length = sym.dims.length)
    (hne : sym.dims ≠ []) (hsize : sym.dims.length < 2^64) (hs : Stage s H l)
    (h : (visitElemIndex node sym num).run s = .ok u s') :
    Gives s H l s' fun code =>
      ElemCode code sym.dims (indexSpans sym 0 num.exprs s) s.ostr.pos s'.ostr.pos := by
  have hlen0 : 0 < sym.dims.length := List.length_pos_of_ne_nil hne
  cases num with
  | list nums =>
    have hlen' : nums.length = sym.dims.length := hlen
    rw [visitElemIndex, if_neg (by omega)] at h
    obtain ⟨_, s1, h1, h⟩ := bind_eq_ok.1 h
    have hnum : (UInt64.ofNat nums.length - 1).toNat = sym.dims.length - 1 := by
      rw [hlen', UInt64.toNat_sub_of_le _ _ ?_, UInt64.toNat_ofNat_of_lt' hsize]
      · rfl
      · rw [UInt64.le_iff_toNat_le, UInt64.toNat_ofNat_of_lt' hsize]
        exact hlen0
    rw [hnum] at h
    have hi := visitIndices_code hx hpos hP (by rw [List.drop_zero, ← hlen]) hs h1
    refine (hi.bind hs (Q := fun code => Sits code s1.ostr.pos
      (List.replicate (sym.dims.length - 1) OpCode.add.code) ∧
        s'.ostr.pos = s1.ostr.pos + (sym.dims.length - 1)) fun H1 l1 hs1 => ?_).mono ?_
    · have e := run_adds _ hs1 h
      have hp := pos_write hs1 (List.replicate (sym.dims.length - 1) OpCode.add.code)
      rw [List.length_replicate] at hp
      rw [e]
      exact (hs1.write _).mono fun code hc => ⟨hc, hp⟩
    · rintro code ⟨h1, h2, h3⟩
      rw [List.drop_zero] at h1
      refine ⟨?_, ?_, by omega⟩
      · rw [h3, Nat.add_sub_cancel]
        exact h1
      · rw [h3, Nat.add_sub_cancel]
        exact h2
  | single num =>
    have hlen' : sym.dims.length = 1 := hlen.symm
    obtain ⟨d, hd⟩ := List.length_eq_one_iff.1 hlen'
    -- the same code as for a list of one expression
    have h1 : (visitIndices sym 0 [num]).run s = .ok u s' := by
      have hone : sym.getTotalSize (0 + 1) = 1 := by
        rw [getTotalSize_eq, hd]
        rfl
      have h' : (visitIndex num).run s = .ok u s' := h
      rw [visitIndices, bind_ok h']
      dsimp only
      rw [hone]
      rfl
    have hi := visitIndices_code hx hpos hP (by rw [List.drop_zero, hlen']; rfl) hs h1
    refine hi.mono fun code hc => ?_
    rw [List.drop_zero] at hc
    refine ⟨?_, ?_, by omega⟩
    · rw [hlen']
      exact hc
    · rw [hlen']
      exact fun i hi => absurd hi (Nat.not_lt_zero i)

end

/-! ## uses of elements -/

/-- a use of an element of an array -/
inductive ElemUse
  | access
  | assign (expr : AST)

/-- its syntax tree -/
def ElemUse.ast (ident : Str) (num : AST) : ElemUse → AST
  | .access => .arrayAccess (.var ident) (some num) none false
  | .assign expr => .arrayAssign ident expr (some num) none false

/-- its instruction -/
def ElemUse.op : ElemUse → OpCode
  | .access => .rdarr
  | .assign _ => .wrarr

/-- its name in error messages -/
def ElemUse.node : ElemUse → String
  | .access => "ASTArrayAccess"
  | .assign _ => "ASTArrayAssign"

/-- the part of its visit before the index: the array, or its address and the value -/
def ElemUse.before (ident : Str) : ElemUse → CGM Symbol
  | .access => do
    let term ← pushVar ident
    deref term
  | .assign expr => do
    let sym ← getSym ident
    putVarAddr sym
    let expr ← visit expr
    let exprSym ← deref expr
    match getArrayTypeConst sym.ty with
    | none => fail ("ASTArrayAssign: Invalid array element type in \"" ++ ident.text ++ "\".")
    | some (_, elemTy) => onlyIf (exprSym.ty != sym.ty) (castTo (some elemTy))
    return sym

/-- the expressions of an index -/
def AST.indices : AST → List AST
  | .exprList exprs _ => exprs
  | ast => [ast]

theorem length_visitList (asts : List AST) : (visitList asts).length = asts.length := by
  induction asts with
  | nil => rw [visitList, List.length_nil, List.length_nil]
  | cons ast asts ih => rw [visitList, List.length_cons, ih, List.length_cons]

theorem visitNum_exprs (num : AST) :
    ∃ ix, visitNum (some num) = some ix ∧ ix.exprs = visitList num.indices := by
  cases num with
  | exprList exprs ty => exact ⟨.list (visitList exprs), by rw [visitNum], rfl⟩
  | _ => exact ⟨.single _, by rw [visitNum]; simp, by rw [AST.indices]; rfl; simp⟩

section
variable {s s' : Codegen} {H : Holes} {l : List Event} {ident : Str} {num : AST} {use : ElemUse}
  {ret : Option Symbol}

/-- a variable that is pushed has its symbol -/
theorem pushVar_ok {u : Option Symbol} (h : (pushVar ident).run s = .ok u s') :
    ∃ sym, u = some sym ∧ s.resolve ident none = some sym := by
  obtain ⟨sym, s1, h1, h2⟩ := bind_eq_ok.1 h
  refine ⟨sym, ?_, getSym_resolve h1⟩
  split at h2
  · cases h2
  · obtain ⟨_, s2, -, h3⟩ := bind_eq_ok.1 h2
    obtain ⟨_, s3, -, h4⟩ := bind_eq_ok.1 h3
    cases h4
    rfl

theorem before_access {sym : Symbol} (h : (pushVar ident).run s = .ok (some sym) s') :
    (ElemUse.access.before ident).run s = .ok sym s' := by
  rw [ElemUse.before, bind_ok h]
  rfl

/-- the symbol an access of an element leaves -/
def elementType (sym : Symbol) : Visit :=
  match getArrayTypeConst sym.ty with
  | some (_, elemTy) => return some elemTy
  | none => fail ("ASTArrayAccess: Invalid array type of \"" ++ sym.name.text ++ "\".")

theorem elementType_same {sym : Symbol} (h : (elementType sym).run s = .ok ret s') : s' = s := by
  unfold elementType at h
  split at h
  · cases h
    rfl
  · cases h

/-- the instruction of an access and the type of the element -/
theorem access_tail {sym : Symbol}
    (h : (do putOp .rdarr; elementType (← deref (some sym)) : Visit).run s = .ok ret s') :
    s' = { s with ostr := s.ostr.write [OpCode.rdarr.code] } := by
  obtain ⟨_, s1, h1, h2⟩ := bind_eq_ok.1 h
  rw [run_putOp] at h1
  cases h1
  exact elementType_same h2

/-- the parts of an access -/
theorem visit_access (h : (visit (ElemUse.access.ast ident num)).run s = .ok ret s') :
    ∃ ix sym s1 s2, ix.exprs = visitList num.indices ∧
      (ElemUse.access.before ident).run s = .ok sym s1 ∧
      (visitElemIndex ElemUse.access.node sym ix).run s1 = .ok () s2 ∧
      s' = { s2 with ostr := s2.ostr.write [OpCode.rdarr.code] } := by
  obtain ⟨ix, hix, hexprs⟩ := visitNum_exprs num
  have h : (visitArrayAccess (pushVar ident) (some ix) none false).run s = .ok ret s' := by
    rw [ElemUse.ast, visit, visit, hix, visitNum] at h
    exact h
  obtain ⟨term, s1, h1, h2⟩ := bind_eq_ok.1 h
  obtain ⟨sym, rfl, -⟩ := pushVar_ok h1
  cases ix with
  | list nums =>
    have h2 : (do
        visitElemIndex "ASTArrayAccess" sym (.list nums)
        putOp .rdarr
        elementType (← deref (some sym)) : Visit).run s1 = .ok ret s' := h2
    obtain ⟨_, s2, h3, h4⟩ := bind_eq_ok.1 h2
    exact ⟨.list nums, sym, s1, s2, hexprs, before_access h1, h3, access_tail h4⟩
  | single num =>
    obtain ⟨_, s2, h3, h4⟩ := bind_eq_ok.1 h2
    exact ⟨.single num, sym, s1, s2, hexprs, before_access h1, h3, access_tail h4⟩

/-- the parts of an assignment -/
theorem visit_assign {expr : AST}
    (h : (visit ((ElemUse.assign expr).ast ident num)).run s = .ok ret s') :
    ∃ ix sym s1 s2, ix.exprs = visitList num.indices ∧
      ((ElemUse.assign expr).before ident).run s = .ok sym s1 ∧
      (visitElemIndex (ElemUse.assign expr).node sym ix).run s1 = .ok () s2 ∧
      s' = { s2 with ostr := s2.ostr.write [OpCode.wrarr.code] } := by
  obtain ⟨ix, hix, hexprs⟩ := visitNum_exprs num
  have h : (visitArrayAssign ident (visit expr) (some ix) none false).run s = .ok ret s' := by
    rw [ElemUse.ast, visit, hix, visitNum] at h
    exact h
  obtain ⟨sym, s1, h1, h2⟩ := bind_eq_ok.1 h
  split at h2
  · cases h2
  · obtain ⟨_, s2, h3, h4⟩ := bind_eq_ok.1 h2
    obtain ⟨u, s3, h5, h6⟩ := bind_eq_ok.1 h4
    dsimp only at h6
    split at h6
    · cases h6
    · rename_i arrTy elemTy hty
      obtain ⟨exprSym, s4, h7, h8⟩ := bind_eq_ok.1 h6
      obtain ⟨_, s5, h9, h10⟩ := bind_eq_ok.1 h8
      obtain ⟨_, s6, h11, h12⟩ := bind_eq_ok.1 h10
      cases h12
      refine ⟨ix, sym, s5, s6, hexprs, ?_, h11, rfl⟩
      rw [ElemUse.before, bind_ok h1, bind_ok h3, bind_ok h5, bind_ok h7, hty, bind_ok h9]
      rfl

/-- **The parts of a visit**: what is before the index, the index, and the instruction. -/
theorem visit_use (h : (visit (use.ast ident num)).run s = .ok ret s') :
    ∃ ix sym s1 s2, ix.exprs = visitList num.indices ∧ (use.before ident).run s = .ok sym s1 ∧
      (visitElemIndex use.node sym ix).run s1 = .ok () s2 ∧
      s' = { s2 with ostr := s2.ostr.write [use.op.code] } := by
  cases use with
  | access => exact visit_access h
  | assign expr => exact visit_assign h

theorem before_resolve {sym : Symbol} {s1 : Codegen} (h : (use.before ident).run s = .ok sym s1) :
    s.resolve ident none = some sym := by
  cases use with
  | access =>
    obtain ⟨u, s2, h1, h2⟩ := bind_eq_ok.1 h
    obtain ⟨sym', rfl, hr⟩ := pushVar_ok h1
    obtain ⟨e, -⟩ := deref_ok h2
    rw [hr, e]
  | assign expr =>
    obtain ⟨sym', s2, h1, h2⟩ := bind_eq_ok.1 h
    obtain ⟨_, s3, -, h4⟩ := bind_eq_ok.1 h2
    obtain ⟨u, s5, -, h6⟩ := bind_eq_ok.1 h4
    obtain ⟨exprSym, s7, -, h8⟩ := bind_eq_ok.1 h6
    have e : sym' = sym := by
      dsimp only at h8
      split at h8
      · cases h8
      · obtain ⟨_, s9, -, h10⟩ := bind_eq_ok.1 h8
        cases h10
        rfl
    rw [getSym_resolve h1, e]

theorem before_keeps (use : ElemUse) (ident : Str) : Keeps Lays (use.before ident) := by
  cases use with
  | access =>
    exact Keeps.bind (lays_emits.pushVar_keeps ident) fun term => Keeps.of_eq (deref_eq _)
  | assign expr =>
    refine Keeps.bind (Keeps.of_eq (getSym_eq _ _ _)) fun sym => ?_
    refine Keeps.bind (lays_emits.putVarAddr_keeps sym) fun _ => ?_
    refine Keeps.bind (visit_keeps lays_rules ⟨[], false⟩ expr (AST.all_true _ expr)) fun u => ?_
    refine Keeps.bind (Keeps.of_eq (deref_eq _)) fun exprSym => ?_
    split
    · exact Keeps.bind (fail_keeps _) fun _ => Keeps.pure _
    · exact Keeps.bind (Keeps.onlyIf (lays_emits.castTo_keeps _ _)) fun _ => Keeps.pure _

end

/-! ## the writing of an element -/

section
variable [MathLib TReal] {E : Type} [Raw E] [Indexed E] {s : VM} {code : List UInt8} {base : Int}
  {q : Nat} {ds : List Item} {a off r : Int32} {rty : VMType} {v : List E}

/-- **A turn with `WRARR`** on a variable above the stack. -/
theorem VM.Here.wrarr {x : E} {i : Int64} (hw : Indexed.writable E = true)
    (h : s.Here code base q (elemOps off rty x i ++ ds))
    (hop : code[q]? = some OpCode.wrarr.code) (hty : rty = .addrBp ∨ rty = .addrGbp)
    (hb : s.base rty = some r) (ha : off + r = a) (hv : s.HasSeq a v) (hv0 : 0 < v.length)
    (habove : base ≤ a.toInt) :
    ∃ t, step.run s = .ok .running t ∧
      t.HasSeq a (v.set (i.toInt32.toInt % v.length).toNat x) := by
  obtain ⟨hp, -⟩ := List.getElem?_eq_some_iff.1 hop
  have hr := h.ready
  have h1 := hr.sp_ge
  have h2 := hr.sp_le
  have hlen := hr.length_lt
  have hsp := h.sp
  have ep : s.ip.toInt = q := by rw [h.ip, Word.toInt_ofNat (by omega)]
  have e1 : s.ip + 1 = Int32.ofNat (q + 1) := by
    rw [h.ip]
    exact ofNat_add_ofNat q 1
  have hsz : sizes (elemOps off rty x i ++ ds) = 9 + ((Indexed.elem x).size + 5) + sizes ds := by
    rw [sizes_append]
    rfl
  rw [hsz] at hsp
  have hh : VM.Holds { s with ip := Int32.ofNat (q + 1) } (elemOps off rty x i ++ ds) :=
    ⟨h.holds.items, h.holds.room, h.holds.contents⟩
  -- the variable and the base register after the pops
  have hpop : VM.HasSeq (VM.popped { s with ip := Int32.ofNat (q + 1) }
      (9 + ((Indexed.elem x).size + 5))) a v := by
    refine ⟨hv.room, VM.at_cleared hv.bytes (Or.inl ?_)⟩
    show s.sp.toInt + _ ≤ a.toInt
    push_cast at hsp ⊢
    omega
  have hbase : (VM.popped { s with ip := Int32.ofNat (q + 1) }
      (9 + ((Indexed.elem x).size + 5))).base rty = some r := by
    rcases hty with rfl | rfl
    · exact hb
    · exact hb
  have hpops := opWrarr_pops hh.left hbase
  obtain ⟨m, hm, hseq⟩ := writeElemAt_mem hpop hv0 hw x i
  refine ⟨_, step_op hr ep hop (run_andGoOn ?_) ?_, hseq⟩
  · rw [e1, hpops, ha, bind_ok hpop.readType]
    exact hm
  · show (Int32.ofNat (q + 1)).toInt < s.memsize.toInt
    rw [Word.toInt_ofNat (by omega)]
    push_cast
    omega

omit [MathLib TReal] in
/-- a position of an element as an index of the machine -/
theorem position_index {n k : Nat} (hk : k < n) (hn : n < 2^31) :
    ((Int64.ofNat k).toInt % n).toNat = k ∧ ((Int64.ofNat k).toInt32.toInt % n).toNat = k := by
  have h1 : (Int64.ofNat k).toInt = k := Int64.toInt_ofNat_of_lt (by omega)
  have hm : ((k : Int) % n).toNat = k := by
    rw [Int.emod_eq_of_lt (by omega) (by omega)]
    rfl
  have hs := samePos_of_small n (i := Int64.ofNat k) (by omega) (by omega)
  unfold SamePos at hs
  rw [hs, h1]
  exact ⟨hm, hm⟩

omit [MathLib TReal] in
/-- an element is read at its position -/
theorem VM.HasSeq.yields_position (h : s.HasSeq a v) {k : Nat} (hk : k < v.length)
    (hn : v.length < 2^31) {d : TData} :
    Yields s a (Int64.ofNat k) d ↔ ∃ x, v[k]? = some x ∧ d = Indexed.elem x := by
  rw [h.yields_iff, elemAt_iff (by omega), (position_index hk hn).1]

end

/-- the code from `p` on hands the row-major position of every tuple of indices to the instruction
at `q`, whatever the index expressions do as long as they compute the indices -/
structure HandsPosition [MathLib TReal] (code : List UInt8) (dims : List Nat)
    (spans : List (Nat × Nat)) (p q : Nat) (op : OpCode) : Prop where
  op : code[q]? = some op.code
  computes : ∀ (base : Int) (E : Nat → VM → Prop) (idx : List Nat) (need : Nat), Inside idx dims →
    (∀ k, Stable base (E k)) →
    (∀ k b m i, spans[k]? = some (b, m) → idx[k]? = some i →
      Computes base (E k) (E (k + 1)) code b m (intItem i) need) →
    Computes base (E 0) (E dims.length) code p q (intItem (position dims idx))
      (need + 9 * dims.length + 9)

/-- `WRARR` at `q` with the position of a tuple changes what is read at this tuple, and at no
other -/
def ChangesOne [MathLib TReal] (code : List UInt8) (dims : List Nat) (q : Nat) : Prop :=
  ∀ {E : Type} [Raw E] [Indexed E] (s : VM) (base : Int) (ds : List Item) (a off r : Int32)
    (rty : VMType) (v : List E) (x : E) (idx : List Nat), Indexed.writable E = true →
    Inside idx dims → v.length = dims.prod →
    s.Here code base q (elemOps off rty x (Int64.ofNat (position dims idx)) ++ ds) →
    (rty = .addrBp ∨ rty = .addrGbp) → s.base rty = some r → off + r = a → s.HasSeq a v →
    base ≤ a.toInt →
    ∃ t, step.run s = .ok .running t ∧
      Yields t a (Int64.ofNat (position dims idx)) (Indexed.elem x) ∧
      ∀ idx', Inside idx' dims → idx' ≠ idx → ∀ d,
        Yields t a (Int64.ofNat (position dims idx')) d ↔
          Yields s a (Int64.ofNat (position dims idx')) d

theorem changesOne [MathLib TReal] {code : List UInt8} {dims : List Nat} {q : Nat}
    (hop : code[q]? = some OpCode.wrarr.code) (hP : dims.prod < 2^31) :
    ChangesOne code dims q := by
  intro E _ _ s base ds a off r rty v x idx hw hi hl h hty hb ha hv habove
  have hk := position_lt hi
  rw [← hl] at hk hP
  obtain ⟨t, ht, hseq⟩ := h.wrarr hw hop hty hb ha hv (by omega) habove
  rw [(position_index hk hP).2] at hseq
  have hset : (v.set (position dims idx) x).length = v.length := List.length_set
  refine ⟨t, ht, ?_, fun idx' hi' hne d => ?_⟩
  · refine (hseq.yields_position (by rw [hset]; exact hk) (by rw [hset]; exact hP)).2 ⟨x, ?_, rfl⟩
    exact List.getElem?_set_self hk
  · have hk' := position_lt hi'
    rw [← hl] at hk'
    rw [hseq.yields_position (by rw [hset]; exact hk') (by rw [hset]; exact hP),
      hv.yields_position hk' hP, List.getElem?_set_ne]
    exact fun e => hne (position_inj hi' hi e.symm)

/-- **Elements of arrays with several dimensions.**  At every point of the code generation, and
however it goes on, the code of an access and of an assignment of an element hands the row-major
position to `RDARR` and `WRARR`; the position is inside the array, different tuples have different
ones, and an assignment changes what is read at its tuple only. -/
theorem element_position [MathLib TReal] {syms : SymTab} {s s' : Codegen} {H : Holes}
    {l : List Event} (he : Emits (Codegen.init syms) [] l s H) (hs : s.AtEnd) (ho : Open s H)
    {use : ElemUse} {ident : Str} {num : AST} {ret : Option Symbol}
    (hv : (visit (use.ast ident num)).run s = .ok ret s') {sym : Symbol}
    (hsym : s.resolve ident none = some sym) (hne : sym.dims ≠ []) (hsize : sym.dims.length < 2^64)
    (hpos : ∀ d ∈ sym.dims, 1 ≤ d) (hP : sym.dims.prod < 2^31)
    (hlen : num.indices.length = sym.dims.length) :
    (∃ s1, (use.before ident).run s = .ok sym s1 ∧
      ∃ H' l', Emits s H l' s' H' ∧ H ⊆ H' ∧ s'.AtEnd ∧ Open s' H' ∧
        ∀ l'' t H'' n f, Emits s' H' l'' t H'' → t.AtEnd → finish.run t = .ok n f →
          HandsPosition f.ostr.buf sym.dims (indexSpans sym 0 (visitList num.indices) s1)
            s1.ostr.pos (s'.ostr.pos - 1) use.op ∧
          (use.op = .wrarr → ChangesOne f.ostr.buf sym.dims (s'.ostr.pos - 1))) ∧
    (∀ idx, Inside idx sym.dims → position sym.dims idx < sym.dims.prod) ∧
    ∀ idx idx', Inside idx sym.dims → Inside idx' sym.dims →
      position sym.dims idx = position sym.dims idx' → idx = idx' := by
  refine ⟨?_, fun idx hi => position_lt hi, fun idx idx' hi hi' e => position_inj hi hi' e⟩
  obtain ⟨ix, sym', s1, s2, hexprs, hb, hix, hs'⟩ := visit_use hv
  obtain rfl : sym' = sym := Option.some.inj ((before_resolve hb).symm.trans hsym)
  have hst : Stage s H l := ⟨emits_sited he [] (sited_init syms), hs, ho⟩
  have hkeeps : ∀ x ∈ ix.exprs, Keeps Lays x := by
    rw [hexprs]
    exact visitList_keeps lays_rules ⟨[], false⟩ _ (allList_true _ _)
  have hlen' : ix.exprs.length = sym'.dims.length := by rw [hexprs, length_visitList, hlen]
  refine ⟨s1, hb, ?_⟩
  have hindex := (hst.visit (before_keeps use ident) hb).bind hst fun H1 l1 hs1 =>
    visitElemIndex_code hkeeps hpos hP hlen' hne hsize hs1 hix
  have hq : s'.ostr.pos - 1 = s2.ostr.pos := by
    obtain ⟨H2, l2, -, -, hs2, -⟩ := hindex
    rw [hs']
    exact congrArg (· - 1) (pos_write hs2 _)
  have hwhole := hindex.bind hst fun H2 l2 hs2 => hs2.write [use.op.code]
  rw [← hs'] at hwhole
  obtain ⟨H', l', e', hsub, hst', hcode⟩ := hwhole
  refine ⟨H', l', e', hsub, hst'.atEnd, hst'.isOpen, ?_⟩
  intro l'' t H'' n f e'' ht hf
  have hkeep : Keeping s' H' (l ++ l') f.ostr.buf :=
    (finish_keeping (emits_sited e'' _ hst'.sited) ht hf).before e'' hst'.sited
  obtain ⟨⟨-, hcode⟩, hop⟩ := hcode _ hkeep
  have hop' : f.ostr.buf[s2.ostr.pos]? = some use.op.code := (sits_cons.1 hop).1
  rw [hexprs] at hcode
  rw [hq]
  refine ⟨⟨hop', ?_⟩, fun hw => changesOne (by rw [hop', hw]) hP⟩
  intro base E idx need hi hE hx
  have hc := hcode.index.computes hi hne hcode.adds hE hx
  rwa [Nat.sub_add_cancel hcode.le] at hc

/-! ### an element of an array of two by three -/

theorem computes_int [MathLib TReal] {base : Int} {E : VM → Prop} {code : List UInt8} {b i : Nat}
    (hE : Stable base E) (hc : Sits code b (intCode (Int64.ofNat i))) :
    Computes base E E code b (b + 10) (intItem i) 9 := by
  intro s ds hroom h he
  obtain ⟨t, ht, hh, hsame⟩ := h.push (d := .int (Int64.ofNat i)) hc rfl rfl hroom
  exact ⟨t, VM.Turns.single ht, hh, hE _ _ hsame he⟩

def elemSym : Symbol :=
  { name := ascii "a", scopedName := ascii "a", ty := .intArray, dims := [2, 3]
    addr := some (-53), isGlobal := true }

/-- `a[1, 2]` -/
def elemNum : AST := .exprList [.intConst 1, .intConst 2] .intArray

def elemSpans : List (Nat × Nat) := [(7, 17), (28, 38)]

/-- the code after `Finish` has the constants in place -/
def elemChecks (s : Codegen) : Bool :=
  decide (s.ostr.pos = 40) && endsIn finish s fun f =>
    decide (Sits f.ostr.buf 7 (intCode 1)) && decide (Sits f.ostr.buf 28 (intCode 2))

theorem element_position_one_two : ∃ (s' f : Codegen) (n : Nat),
    finish.run s' = .ok n f ∧ ∀ base, @Computes (MathLib.absent ⟨0⟩) base (fun _ => True)
      (fun _ => True) f.ostr.buf 7 39 (intItem 5) 36 := by
  have h1 : endsIn (visit (ElemUse.access.ast (ascii "a") elemNum))
      (Codegen.init [(ascii "a", elemSym)]) elemChecks = true := by decide +kernel
  have h2 : endsIn (ElemUse.access.before (ascii "a")) (Codegen.init [(ascii "a", elemSym)])
      (fun s1 => decide (s1.ostr.pos = 7) &&
        decide (indexSpans elemSym 0 (visitList elemNum.indices) s1 = elemSpans)) = true := by
    decide +kernel
  obtain ⟨ret, s', hv, hc⟩ := endsIn_ok h1
  obtain ⟨hpos', hfin⟩ := Bool.and_eq_true_iff.1 hc
  obtain ⟨n, f, hf, hsits⟩ := endsIn_ok hfin
  obtain ⟨hs1, hs2⟩ := Bool.and_eq_true_iff.1 hsits
  obtain ⟨⟨s1, hb, H', l', -, -, hend, -, hpos⟩, -⟩ := @element_position (MathLib.absent ⟨0⟩)
    [(ascii "a", elemSym)] _ s' [] [] (.refl _ _) rfl
    (open_init _) .access (ascii "a") elemNum ret hv elemSym rfl (by decide) (by decide)
    (by decide) (by decide) rfl
  obtain ⟨⟨-, hcomp⟩, -⟩ := hpos [] s' H' n f (.refl _ _) hend hf
  obtain ⟨_, t, ht, hspans⟩ := endsIn_ok h2
  rw [hb] at ht
  cases ht
  obtain ⟨hp1, hp2⟩ := Bool.and_eq_true_iff.1 hspans
  rw [of_decide_eq_true hp1, of_decide_eq_true hp2, of_decide_eq_true hpos'] at hcomp
  refine ⟨s', f, n, hf, fun base => ?_⟩
  refine hcomp base (fun _ _ => True) [1, 2] 9 (.cons (by decide) (.cons (by decide) .nil))
    (fun _ _ _ _ _ => trivial) ?_
  intro k b m i hb hi
  have hE : Stable base fun _ => True := fun _ _ _ _ => trivial
  match k with
  | 0 =>
    cases hb
    cases hi
    exact @computes_int (MathLib.absent ⟨0⟩) _ _ _ _ _ hE (of_decide_eq_true hs1)
  | 1 =>
    cases hb
    cases hi
    exact @computes_int (MathLib.absent ⟨0⟩) _ _ _ _ _ hE (of_decide_eq_true hs2)
  | k + 2 => cases hb

end MuF
