import MuF.VM.Stack
import Mathlib.Data.List.Basic

/-!
# Array elements and ranges of elements

* `setFrom`: elements written one after the other, upwards or downwards;
* `safeArrayIndex_eq`: an index is taken modulo the length;
* `Indexed`: the element types of arrays, and the characters of strings;
* `opRdarr_ok`, `opWrarr_run`, `writeRange_ok`: the runs of the instructions;
* `Yields`, `YieldsRange`: what reads give, with `Yields.run` and `YieldsRange.run` for the
  instructions that leave it on the stack;
* **`arrays_agree_iff`**: reads give what was written if and only if the index that the write
  truncates to 32 bits is the same position as the one that the read takes.
-/

set_option linter.unusedVariables false
set_option linter.unusedSectionVars false

namespace MuF

open Bytes Exec

/-! ## ranges of positions -/

section
variable {E : Type}

/-- the direction from one position to another one -/
def dir (p q : Int) : Int := if q ≥ p then 1 else -1

theorem dir_unit (p q : Int) : dir p q = 1 ∨ dir p q = -1 := by
  unfold dir
  split
  · exact Or.inl rfl
  · exact Or.inr rfl

/-- the values written from position `p` on, in steps of `δ` -/
def setFrom (v : List E) (p δ : Int) : List E → List E
  | [] => v
  | x :: xs => setFrom (v.set p.toNat x) (p + δ) δ xs

@[simp] theorem length_setFrom (v : List E) (p δ : Int) (xs : List E) :
    (setFrom v p δ xs).length = v.length := by
  induction xs generalizing v p with
  | nil => rfl
  | cons x xs ih => rw [setFrom, ih, List.length_set]

/-- positions that are not written keep their values -/
theorem setFrom_miss {v xs : List E} {p δ : Int} {k : Nat} (hp : ∀ i : Nat, i < xs.length →
    0 ≤ p + δ * i) (h : ∀ i : Nat, i < xs.length → (k : Int) ≠ p + δ * i) :
    (setFrom v p δ xs)[k]? = v[k]? := by
  induction xs generalizing v p with
  | nil => rfl
  | cons x xs ih =>
    have hs : ∀ i : Nat, p + δ + δ * i = p + δ * ((i + 1 : Nat) : Int) := by
      intro i
      rw [Nat.cast_add, Int.mul_add]
      push_cast
      omega
    have h0 : 0 ≤ p := by simpa using hp 0 (by simp)
    have h1 : (k : Int) ≠ p := by simpa using h 0 (by simp)
    rw [setFrom, ih, List.getElem?_set_ne (by omega)]
    · intro i hi
      rw [hs]
      exact hp (i + 1) (by simpa using hi)
    · intro i hi
      rw [hs]
      exact h (i + 1) (by simpa using hi)

/-- positions that are written have the new values -/
theorem setFrom_hit {v xs : List E} {p δ : Int} {i : Nat} (hδ : δ = 1 ∨ δ = -1)
    (hp : ∀ i : Nat, i < xs.length → 0 ≤ p + δ * i ∧ p + δ * i < v.length)
    (hi : i < xs.length) : (setFrom v p δ xs)[(p + δ * i).toNat]? = xs[i]? := by
  induction xs generalizing v p i with
  | nil => cases hi
  | cons x xs ih =>
    have hs : ∀ i : Nat, p + δ + δ * i = p + δ * ((i + 1 : Nat) : Int) := by
      intro i
      rw [Nat.cast_add, Int.mul_add]
      push_cast
      omega
    have hp' : ∀ i : Nat, i < xs.length → 0 ≤ p + δ + δ * i ∧ p + δ + δ * i < v.length := by
      intro i hi
      rw [hs]
      exact hp (i + 1) (by simpa using hi)
    have h0 : 0 ≤ p ∧ p < v.length := by simpa using hp 0 (by simp)
    cases i with
    | zero =>
      have e : (p + δ * ((0 : Nat) : Int)).toNat = p.toNat := by simp
      rw [e, setFrom, setFrom_miss (fun i hi => (hp' i hi).1), List.getElem?_set_self (by omega)]
      · rfl
      · intro i hi
        rcases hδ with rfl | rfl <;> omega
    | succ i =>
      have hi' : i < xs.length := by simpa using hi
      rw [setFrom, ← hs, ih (v := v.set p.toNat x) (fun i hi => by
        rw [List.length_set]
        exact hp' i hi) hi', List.getElem?_cons_succ]

theorem length_indexRange (p q : Int) : (indexRange p q).length = (q - p).natAbs + 1 := by
  unfold indexRange
  split <;> simp <;> omega

theorem indexRange_eq (p q : Int) : indexRange p q =
    (List.range ((q - p).natAbs + 1)).map fun (i : Nat) => p + dir p q * (i : Int) := by
  unfold indexRange dir
  split
  · rename_i h
    rw [show (q - p).natAbs = (q - p).toNat by omega]
    simp
  · rename_i h
    rw [show (q - p).natAbs = (p - q).toNat by omega]
    refine List.map_congr_left fun i _ => ?_
    omega

/-- a range in the other direction has the same positions in reverse -/
theorem indexRange_reverse (p q : Int) : indexRange q p = (indexRange p q).reverse := by
  apply List.ext_getElem
  · rw [List.length_reverse, length_indexRange, length_indexRange]
    omega
  · intro i h1 h2
    rw [List.length_reverse, length_indexRange] at h2
    rw [List.getElem_reverse]
    simp only [indexRange_eq, List.getElem_map, List.getElem_range, List.length_map,
      List.length_range]
    unfold dir
    by_cases h : q ≥ p
    · by_cases h' : p ≥ q
      · rw [if_pos h, if_pos h']
        omega
      · rw [if_pos h, if_neg h']
        omega
    · rw [if_neg h, if_pos (by omega)]
      omega

theorem filterMap_range_getElem? (xs : List E) :
    (List.range xs.length).filterMap (fun i => xs[i]?) = xs := by
  induction xs with
  | nil => rfl
  | cons x xs ih =>
    rw [List.length_cons, List.range_succ_eq_map, List.filterMap_cons_some (b := x) (by simp),
      List.filterMap_map]
    congr 1

/-- the elements in a range of positions -/
def slice (v : List E) (p q : Int) : List E := (indexRange p q).filterMap fun i => v[i.toNat]?

theorem slice_reverse (v : List E) (p q : Int) : slice v q p = (slice v p q).reverse := by
  rw [slice, indexRange_reverse, List.filterMap_reverse]
  rfl

theorem getElem?_filterMap {α β : Type} {l : List α} {f : α → Option β}
    (h : ∀ a ∈ l, (f a).isSome = true) (i : Nat) : (l.filterMap f)[i]? = l[i]?.bind f := by
  induction l generalizing i with
  | nil => rfl
  | cons a l ih =>
    obtain ⟨b, hb⟩ := Option.isSome_iff_exists.1 (h a (by simp))
    rw [List.filterMap_cons_some hb]
    cases i with
    | zero => exact hb.symm
    | succ i => exact ih (fun c hc => h c (by simp [hc])) i

/-- a position on the way from `p` to `q` lies between them -/
theorem between {p q : Int} {i : Nat} (hi : i < (q - p).natAbs + 1) :
    min p q ≤ p + dir p q * i ∧ p + dir p q * i ≤ max p q := by
  unfold dir
  split <;> omega

/-- the elements of a slice -/
theorem slice_getElem? {v : List E} {p q : Int} (hp : 0 ≤ p ∧ p < v.length)
    (hq : 0 ≤ q ∧ q < v.length) {i : Nat} (hi : i < (q - p).natAbs + 1) :
    (slice v p q)[i]? = v[(p + dir p q * i).toNat]? := by
  rw [slice, getElem?_filterMap, indexRange_eq, List.getElem?_map, List.getElem?_range hi]
  · rfl
  · rw [indexRange_eq]
    intro k hk
    obtain ⟨j, hj, rfl⟩ := List.mem_map.1 hk
    have := between (List.mem_range.1 hj)
    rw [List.getElem?_eq_getElem (by omega)]
    rfl

/-! ### the range that was written

Elements are written to the range from `p'` to `q'` of an array of equal elements, and then read
from the range from `p` to `q`. -/

section
variable {n : Nat} {x y : E} {p q p' q' : Int}

theorem write_pos (hp : 0 ≤ p' ∧ p' < n) (hq : 0 ≤ q' ∧ q' < n) {k : Nat}
    (hk : k < (q' - p').natAbs + 1) :
    0 ≤ p' + dir p' q' * k ∧ p' + dir p' q' * k < (List.replicate n x).length := by
  have := between hk
  rw [List.length_replicate]
  omega

/-- if the first element read differs from all the others, then it was the first one written -/
theorem range_first (hxy : x ≠ y) (hp : 0 ≤ p ∧ p < n) (hq : 0 ≤ q ∧ q < n)
    (hp' : 0 ≤ p' ∧ p' < n) (hq' : 0 ≤ q' ∧ q' < n)
    (hle : (q' - p').natAbs + 1 ≤ (y :: List.replicate (q - p).natAbs x).length)
    (h : slice (setFrom (List.replicate n x) p' (dir p' q')
      ((y :: List.replicate (q - p).natAbs x).take ((q' - p').natAbs + 1))) p q =
        y :: List.replicate (q - p).natAbs x) : p' = p := by
  generalize hr : (y :: List.replicate (q - p).natAbs x).take ((q' - p').natAbs + 1) = rhs at h
  rw [List.length_cons, List.length_replicate] at hle
  have hrl : rhs.length = (q' - p').natAbs + 1 := by
    rw [← hr, List.length_take, List.length_cons, List.length_replicate]
    omega
  have hpos : ∀ k : Nat, k < rhs.length → 0 ≤ p' + dir p' q' * k ∧
      p' + dir p' q' * k < (List.replicate n x).length := fun k hk => write_pos hp' hq' (by omega)
  have hl : (setFrom (List.replicate n x) p' (dir p' q') rhs).length = n := by
    rw [length_setFrom, List.length_replicate]
  have h0 := slice_getElem? (v := setFrom (List.replicate n x) p' (dir p' q') rhs) (p := p)
    (q := q) (i := 0) (by rw [hl]; exact hp) (by rw [hl]; exact hq) (by omega)
  have hpe : (p + dir p q * ((0 : Nat) : Int)).toNat = p.toNat := by simp
  rw [h, hpe] at h0
  by_contra hne
  have hval : (setFrom (List.replicate n x) p' (dir p' q') rhs)[p.toNat]? = some x := by
    by_cases hit : ∃ k : Nat, k < rhs.length ∧ p = p' + dir p' q' * k
    · obtain ⟨k, hk, hk'⟩ := hit
      have hk0 : k ≠ 0 := by
        rintro rfl
        simp at hk'
        omega
      obtain ⟨l, rfl⟩ : ∃ l, k = l + 1 := ⟨k - 1, by omega⟩
      rw [hk', setFrom_hit (dir_unit _ _) hpos hk, ← hr, List.getElem?_take_of_lt (by omega),
        List.getElem?_cons_succ, List.getElem?_replicate_of_lt (by omega)]
    · rw [setFrom_miss (fun m hm => (hpos m hm).1), List.getElem?_replicate_of_lt (by omega)]
      intro m hm e
      exact hit ⟨m, hm, by omega⟩
  rw [hval] at h0
  exact hxy (Option.some.inj h0).symm

/-- if all elements read are new and the others old, then the last position read was the last one
written -/
theorem range_last (hxy : x ≠ y) (hp : 0 ≤ p ∧ p < n) (hq : 0 ≤ q ∧ q < n) (hq' : 0 ≤ q' ∧ q' < n)
    (first : p' = p) (hle : (q' - p').natAbs + 1 ≤ (List.replicate ((q - p).natAbs + 1) y).length)
    (h : slice (setFrom (List.replicate n x) p' (dir p' q')
      ((List.replicate ((q - p).natAbs + 1) y).take ((q' - p').natAbs + 1))) p q =
        List.replicate ((q - p).natAbs + 1) y)
    (hout : ∀ k : Nat, (k : Int) < min p q ∨ max p q < k → (setFrom (List.replicate n x) p'
      (dir p' q') ((List.replicate ((q - p).natAbs + 1) y).take ((q' - p').natAbs + 1)))[k]? =
        (List.replicate n x)[k]?) : q' = q := by
  generalize hr : (List.replicate ((q - p).natAbs + 1) y).take ((q' - p').natAbs + 1) = rhs at *
  rw [List.length_replicate] at hle
  have hrl : rhs.length = (q' - p').natAbs + 1 := by
    rw [← hr, List.length_take, List.length_replicate]
    omega
  have hry : ∀ k : Nat, k < rhs.length → rhs[k]? = some y := by
    intro k hk
    rw [← hr, List.getElem?_take_of_lt (by omega), List.getElem?_replicate_of_lt (by omega)]
  have hpos : ∀ k : Nat, k < rhs.length → 0 ≤ p' + dir p' q' * k ∧
      p' + dir p' q' * k < (List.replicate n x).length :=
    fun k hk => write_pos (by omega) hq' (by omega)
  have hl : (setFrom (List.replicate n x) p' (dir p' q') rhs).length = n := by
    rw [length_setFrom, List.length_replicate]
  have hlast := slice_getElem? (v := setFrom (List.replicate n x) p' (dir p' q') rhs) (p := p)
    (q := q) (i := (q - p).natAbs) (by rw [hl]; exact hp) (by rw [hl]; exact hq) (by omega)
  have hend : ∀ a b : Int, a + dir a b * ((b - a).natAbs : Int) = b := by
    intro a b
    unfold dir
    split <;> omega
  rw [h, List.getElem?_replicate_of_lt (by omega), hend] at hlast
  -- the last position of the range was written
  have h1 : min p' q' ≤ q ∧ q ≤ max p' q' := by
    by_contra hne
    rw [setFrom_miss (fun m hm => (hpos m hm).1), List.getElem?_replicate_of_lt (by omega)] at hlast
    · exact hxy (Option.some.inj hlast).symm
    · intro m hm e
      have hm' : m < (q' - p').natAbs + 1 := by omega
      have := between hm'
      omega
  -- the last position that was written lies in the range
  have h2 : min p q ≤ q' ∧ q' ≤ max p q := by
    by_contra hne
    have ho := hout q'.toNat (by omega)
    have hh := setFrom_hit (dir_unit p' q') hpos (by omega : (q' - p').natAbs < rhs.length)
    rw [hend, ho, List.getElem?_replicate_of_lt (by omega), hry _ (by omega)] at hh
    exact hxy (Option.some.inj hh)
  omega

end

/-- **Reading a range gives what was written to it.** -/
theorem slice_setFrom {v xs : List E} {p q : Int} (hp : 0 ≤ p ∧ p < v.length)
    (hq : 0 ≤ q ∧ q < v.length) (hl : xs.length = (q - p).natAbs + 1) :
    slice (setFrom v p (dir p q) xs) p q = xs := by
  have hb : ∀ i : Nat, i < xs.length → 0 ≤ p + dir p q * i ∧ p + dir p q * i < v.length := by
    intro i hi
    have := between (p := p) (q := q) (by omega : i < (q - p).natAbs + 1)
    omega
  conv_rhs => rw [← filterMap_range_getElem? xs]
  rw [slice, indexRange_eq, List.filterMap_map, ← hl]
  refine List.filterMap_congr fun i hi => ?_
  exact setFrom_hit (dir_unit p q) hb (List.mem_range.1 hi)

end

/-! ## indices -/

/-- **An index is taken modulo the length.** -/
theorem safeArrayIndex_eq {w : Nat} {idx size : Int} (h : 0 < size) :
    safeArrayIndex w idx size = .ok (idx % size) := by
  have h1 := Int.emod_nonneg idx h.ne'
  have h2 := Int.emod_lt_of_pos idx h
  have e0 : idx % size = idx.tmod size % size := by
    conv_lhs => rw [← Int.mul_tdiv_add_tmod idx size, Int.add_comm]
    exact Int.add_mul_emod_self_left _ _ _
  have h3 := Int.tmod_lt_of_pos idx h
  have h4 := Int.lt_tmod_of_pos idx h
  have e : (if idx.tmod size < 0 then idx.tmod size + size else idx.tmod size) = idx % size := by
    rw [e0]
    split
    · rw [← Int.add_emod_right, Int.emod_eq_of_lt (by omega) (by omega)]
    · rw [Int.emod_eq_of_lt (by omega) h3]
  show (if size = 0 ∨ (size = -1 ∧ idx = -2^(w - 1)) then (.error divError : Res Int) else
    if (if idx.tmod size < 0 then idx.tmod size + size else idx.tmod size) ≥ size ∨
      (if idx.tmod size < 0 then idx.tmod size + size else idx.tmod size) < 0 then _ else _) = _
  rw [if_neg (by omega), e, if_neg (by omega)]

/-! ## element types -/

section

/-- the end of `WRARR`, with the descriptor that was read -/
def writeElemAt (tyval : UInt8) (addr : Int32) (data : TData) (idx : Int64) : VMM Unit :=
  match VMType.ofCode tyval with
  | some .realArr => writeArrayElem TReal (addr + 1) data idx
  | some .intArr => writeArrayElem Int64 (addr + 1) data idx
  | some .cplxArr => writeArrayElem (Cplx TReal) (addr + 1) data idx
  | some .quatArr => writeArrayElem (Quat TReal) (addr + 1) data idx
  | _ => throw (.throw "Cannot index non-array type.")

/-- the end of `WRARRR`, with the descriptor that was read -/
def writeRangeAt (tyval : UInt8) (addr : Int32) (data : TData) (idx1 idx2 : Int64) : VMM Unit :=
  match VMType.ofCode tyval with
  | some .realArr => writeArrayElemRange TReal (addr + 1) data idx1 idx2
  | some .intArr => writeArrayElemRange Int64 (addr + 1) data idx1 idx2
  | some .cplxArr => writeArrayElemRange (Cplx TReal) (addr + 1) data idx1 idx2
  | some .quatArr => writeArrayElemRange (Quat TReal) (addr + 1) data idx1 idx2
  | some .str =>
    match data with
    | .str rhs =>
      writeRange (addr + 1) (fun i => rhs[i]?) "String index out of bounds." idx1 idx2
    | _ => throw (.throw "String range has to be of string type.")
  | _ => throw (.throw "Cannot index non-array type.")

/-- an element of a sequence as a datum -/
def elemAt {E : Type} (v : List E) (f : E → TData) (idx : Int64) : Res TData :=
  (safeArrayIndex 64 idx.toInt v.length).bind fun i =>
    match v[i.toNat]? with
    | some x => .ok (f x)
    | none => .error (.ub "index")

/-- a range of elements of a sequence as a datum -/
def sliceAt {E : Type} (v : List E) (f : List E → TData) (idx1 idx2 : Int64) : Res TData := do
  let i1 ← safeArrayIndex 64 idx1.toInt v.length
  let i2 ← safeArrayIndex 64 idx2.toInt v.length
  return f (slice v i1 i2)

/-- `WRARR` of one element behind the descriptor -/
def writeOne {E : Type} [Raw E] (addr : Int32) (val : E) (idx : Int64) : VMM Unit := do
  let veclen ← readMemRaw Int32 addr
  let i ← liftE (safeArrayIndex 32 idx.toInt32.toInt veclen.toInt)
  writeMemRaw (addrAdd (addr + 4) (i * Raw.size E)) val

/-- what may be indexed: the element types of arrays, and characters for strings -/
class Indexed (E : Type) [Raw E] where
  ty : VMType
  seq : List E → TData
  elem : E → TData
  /-- `WRARR` knows the type -/
  writable : Bool
  size_pos : 1 ≤ Raw.size E
  two : ∃ x y : E, x ≠ y
  wf_seq : ∀ v, (seq v).wf .unknown = true
  bytes_seq : ∀ v, (seq v).bytes .unknown = ty.code :: arrBytes v
  ty_seq : ∀ v, (seq v).ty .unknown = ty
  seq_inj : ∀ v w, seq v = seq w → v = w
  wf_elem : ∀ x, (elem x).wf .unknown = true
  size_elem : ∀ x, (elem x).size ≤ 33
  elem_inj : ∀ x y, elem x = elem y → x = y
  arrayElem_seq : ∀ v i, arrayElem (seq v) i = elemAt v elem i
  arrayElemRange_seq : ∀ v i j, arrayElemRange (seq v) i j = sliceAt v seq i j
  writeElem : writable = true → ∀ addr x i,
    writeElemAt ty.code addr (elem x) i = writeOne (addr + 1) x i
  noWriteElem : writable = false → ∀ addr x i, ∃ msg,
    writeElemAt ty.code addr (elem x) i = throw (.throw msg)
  writeRange : ∀ addr (rhs : List E) i j, ∃ msg,
    writeRangeAt ty.code addr (seq rhs) i j = MuF.writeRange (addr + 1) (fun k => rhs[k]?) msg i j

instance : Indexed TReal where
  ty := .realArr
  seq := .realArr
  elem := .real
  writable := true
  size_pos := by decide
  two := ⟨⟨0⟩, ⟨1⟩, by decide⟩
  wf_seq _ := rfl
  bytes_seq _ := rfl
  ty_seq _ := rfl
  seq_inj _ _ h := Data.realArr.inj h
  wf_elem _ := rfl
  size_elem _ := by simp [Data.size]
  elem_inj _ _ h := Data.real.inj h
  arrayElem_seq _ _ := rfl
  arrayElemRange_seq _ _ _ := rfl
  writeElem _ _ _ _ := rfl
  noWriteElem h := nomatch h
  writeRange _ _ _ _ := ⟨_, rfl⟩

instance : Indexed Int64 where
  ty := .intArr
  seq := .intArr
  elem := .int
  writable := true
  size_pos := by decide
  two := ⟨0, 1, by decide⟩
  wf_seq _ := rfl
  bytes_seq _ := rfl
  ty_seq _ := rfl
  seq_inj _ _ h := Data.intArr.inj h
  wf_elem _ := rfl
  size_elem _ := by simp [Data.size]
  elem_inj _ _ h := Data.int.inj h
  arrayElem_seq _ _ := rfl
  arrayElemRange_seq _ _ _ := rfl
  writeElem _ _ _ _ := rfl
  noWriteElem h := nomatch h
  writeRange _ _ _ _ := ⟨_, rfl⟩

instance : Indexed (Cplx TReal) where
  ty := .cplxArr
  seq := .cplxArr
  elem := .cplx
  writable := true
  size_pos := by decide
  two := ⟨⟨⟨0⟩, ⟨0⟩⟩, ⟨⟨0⟩, ⟨1⟩⟩, by decide⟩
  wf_seq _ := rfl
  bytes_seq _ := rfl
  ty_seq _ := rfl
  seq_inj _ _ h := Data.cplxArr.inj h
  wf_elem _ := rfl
  size_elem _ := by simp [Data.size]
  elem_inj _ _ h := Data.cplx.inj h
  arrayElem_seq _ _ := rfl
  arrayElemRange_seq _ _ _ := rfl
  writeElem _ _ _ _ := rfl
  noWriteElem h := nomatch h
  writeRange _ _ _ _ := ⟨_, rfl⟩

instance : Indexed (Quat TReal) where
  ty := .quatArr
  seq := .quatArr
  elem := .quat
  writable := true
  size_pos := by decide
  two := ⟨⟨⟨0⟩, ⟨0⟩, ⟨0⟩, ⟨0⟩⟩, ⟨⟨0⟩, ⟨0⟩, ⟨0⟩, ⟨1⟩⟩, by decide⟩
  wf_seq _ := rfl
  bytes_seq _ := rfl
  ty_seq _ := rfl
  seq_inj _ _ h := Data.quatArr.inj h
  wf_elem _ := rfl
  size_elem _ := by simp [Data.size]
  elem_inj _ _ h := Data.quat.inj h
  arrayElem_seq _ _ := rfl
  arrayElemRange_seq _ _ _ := rfl
  writeElem _ _ _ _ := rfl
  noWriteElem h := nomatch h
  writeRange _ _ _ _ := ⟨_, rfl⟩

instance : Indexed UInt8 where
  ty := .str
  seq := .str
  elem c := .str [c]
  writable := false
  size_pos := by decide
  two := ⟨0, 1, by decide⟩
  wf_seq _ := rfl
  bytes_seq _ := rfl
  ty_seq _ := rfl
  seq_inj _ _ h := Data.str.inj h
  wf_elem _ := rfl
  size_elem _ := by simp [Data.size]
  elem_inj _ _ h := List.singleton_inj.1 (Data.str.inj h)
  arrayElem_seq _ _ := rfl
  arrayElemRange_seq _ _ _ := rfl
  writeElem h := nomatch h
  noWriteElem _ _ _ _ := ⟨_, rfl⟩
  writeRange _ _ _ _ := ⟨_, rfl⟩

/-! ## elements in memory -/

section
variable {E : Type} [Raw E] {m : Mem} {a : Int} {v : List E}

theorem encElems_append (v w : List E) : encElems (v ++ w) = encElems v ++ encElems w :=
  List.flatMap_append

/-- **A write of one element** changes the encoded array at its position. -/
theorem write_elem (h : At m a (arrBytes v)) {k : Nat} (hk : k < v.length) (x : E) :
    At (write m (a + 4 + k * Raw.size E) (Raw.enc x)) a (arrBytes (v.set k x)) := by
  obtain ⟨l, y, r, hv, hl⟩ : ∃ l y r, v = l ++ y :: r ∧ l.length = k :=
    ⟨v.take k, v[k], v.drop (k + 1), by simp, by simp; omega⟩
  have hset : v.set k x = l ++ x :: r := by
    rw [hv, ← hl, List.set_append_right _ _ (le_refl _)]
    simp
  have hlen : (l ++ x :: r).length = v.length := by
    rw [hv]
    simp
  have hll : (encElems l).length = k * Raw.size E := by rw [length_encElems, hl]
  rw [hset, arrBytes, hlen, encElems_append]
  have hev : encElems v = encElems l ++ encElems (y :: r) := by rw [hv, encElems_append]
  rw [arrBytes, hev] at h
  obtain ⟨h1, h2⟩ := at_append.1 h
  obtain ⟨h3, h4⟩ := at_append.1 h2
  have hc : (Raw.enc (Int32.ofNat v.length)).length = 4 := Raw.length_enc _
  rw [hc] at h2 h3 h4
  rw [hll] at h4
  have h5 : At m (a + 4 + k * Raw.size E) (Raw.enc y ++ encElems r) := by
    push_cast at h4
    exact h4
  obtain ⟨-, h6⟩ := at_append.1 h5
  rw [Raw.length_enc] at h6
  have hx : (Raw.enc x).length = Raw.size E := Raw.length_enc x
  have hz : (0 : Int) ≤ ((k * Raw.size E : Nat) : Int) := Int.natCast_nonneg _
  push_cast at hz
  refine at_append.2 ⟨(at_write_outside (by rw [hc]; right; push_cast; omega)).2 h1, ?_⟩
  rw [hc]
  refine at_append.2 ⟨(at_write_outside (by rw [hll]; right; push_cast; omega)).2 h3, ?_⟩
  rw [hll]
  have he : a + ((4 : Nat) : Int) + ((k * Raw.size E : Nat) : Int) = a + 4 + k * Raw.size E := by
    push_cast
    rfl
  rw [he]
  show At _ _ (Raw.enc x ++ encElems r)
  refine at_append.2 ⟨at_write_self _ _ _, ?_⟩
  rw [hx]
  exact (at_write_outside (by rw [hx]; left; omega)).2 h6

variable {s : VM} {addr : Int32}

/-- the room of an element of an array in memory -/
theorem elem_room (hr : s.Room addr.toInt (4 + v.length * Raw.size E)) {k : Nat}
    (hk : k < v.length) : s.Room (addr.toInt + 4 + k * Raw.size E) (Raw.size E) := by
  obtain ⟨h1, h2⟩ := hr
  have h3 : (k + 1) * Raw.size E ≤ v.length * Raw.size E := Nat.mul_le_mul_right _ hk
  have h4 : ((k + 1) * Raw.size E : Nat) = k * Raw.size E + Raw.size E := by ring
  have h5 : (0 : Int) ≤ ((k * Raw.size E : Nat) : Int) := Int.natCast_nonneg _
  push_cast at h2 h5
  have h6 : ((k * Raw.size E + Raw.size E : Nat) : Int) ≤ ((v.length * Raw.size E : Nat) : Int) :=
    by rw [← h4]; exact_mod_cast h3
  push_cast at h6
  exact ⟨by omega, by omega⟩

theorem elem_addr (hr : s.Room addr.toInt (4 + v.length * Raw.size E)) {k : Nat}
    (hk : k < v.length) :
    (Int32.ofInt (addr.toInt + 4 + k * Raw.size E)).toInt = addr.toInt + 4 + k * Raw.size E := by
  obtain ⟨h1, h2⟩ := elem_room hr hk
  have := s.memsize.toInt_lt
  exact Word.toInt_ofInt (by omega) (by omega)

theorem addrAdd_add (a : Int) (x : Int) : addrAdd (Int32.ofInt a) x = Int32.ofInt (a + x) := by
  rw [addrAdd, Int32.ofInt_add, Int32.ofInt_toInt, ← Int32.ofInt_add]

theorem addr_four (addr : Int32) : addr + 4 = Int32.ofInt (addr.toInt + 4) := by
  rw [Int32.ofInt_add, Int32.ofInt_toInt]
  rfl

/-- the length field in front of the elements -/
theorem readLength_run (h1 : 1 ≤ Raw.size E) (hr : s.Room addr.toInt (4 + v.length * Raw.size E))
    (h : At s.mem addr.toInt (arrBytes v)) :
    (readMemRaw Int32 addr).run s = .ok (Int32.ofNat v.length) s ∧
      (Int32.ofNat v.length).toInt = v.length := by
  have hp := readMemRaw_run (α := Int32) (s := s) (a := addr) hr.left
  rw [size_int32, (at_arrBytes h).1] at hp
  exact ⟨hp, Word.toInt_ofNat (hr.length_lt h1)⟩

/-- **The write of one element.** -/
theorem writeOne_run (h1 : 1 ≤ Raw.size E) (hr : s.Room addr.toInt (4 + v.length * Raw.size E))
    (h : At s.mem addr.toInt (arrBytes v)) (hv : 0 < v.length) (x : E) (idx : Int64) :
    ∃ m, (writeOne addr x idx).run s = .ok () { s with mem := m } ∧
      At m addr.toInt (arrBytes (v.set (idx.toInt32.toInt % v.length).toNat x)) ∧
      ∀ b < addr.toInt, m b = s.mem b := by
  obtain ⟨hl, hn⟩ := readLength_run h1 hr h
  have hpos : (0 : Int) < v.length := by exact_mod_cast hv
  have hm0 := Int.emod_nonneg idx.toInt32.toInt hpos.ne'
  have hm1 := Int.emod_lt_of_pos idx.toInt32.toInt hpos
  generalize hk : (idx.toInt32.toInt % v.length).toNat = k
  have hk' : idx.toInt32.toInt % v.length = k := by omega
  have hlt : k < v.length := by omega
  have ha : addrAdd (addr + 4) (k * Raw.size E) =
      Int32.ofInt (addr.toInt + 4 + k * Raw.size E) := by rw [addr_four, addrAdd_add]
  have he := elem_addr hr hlt
  have hk0 : (0 : Int) ≤ ((k * Raw.size E : Nat) : Int) := Int.natCast_nonneg _
  push_cast at hk0
  refine ⟨write s.mem (addr.toInt + 4 + k * Raw.size E) (Raw.enc x), ?_, write_elem h hlt x,
    fun b hb => write_outside _ _ _ _ (by left; omega)⟩
  rw [writeOne, bind_ok hl, hn, safeArrayIndex_eq hpos, hk']
  show (writeMemRaw (addrAdd (addr + 4) (k * Raw.size E)) x).run s = _
  rw [ha, writeMemRaw_run x (by rw [he]; exact elem_room hr hlt), he]

/-- **Writes of elements** that lie in the array. -/
theorem writeElems_run (xs : List E) {p δ : Int} (err : String)
    (hr : s.Room addr.toInt (4 + v.length * Raw.size E)) (h : At s.mem addr.toInt (arrBytes v))
    (hp : ∀ i : Nat, i < xs.length → 0 ≤ p + δ * i ∧ p + δ * i < v.length) :
    ∃ m, (writeElems (Raw.size E * δ) err (Int32.ofInt (addr.toInt + 4 + p * Raw.size E))
        (xs.map some)).run s = .ok () { s with mem := m } ∧
      At m addr.toInt (arrBytes (setFrom v p δ xs)) ∧ ∀ b < addr.toInt, m b = s.mem b := by
  induction xs generalizing s v p with
  | nil => exact ⟨s.mem, rfl, h, fun _ _ => rfl⟩
  | cons x xs ih =>
    have h0 : 0 ≤ p ∧ p < v.length := by simpa using hp 0 (by simp)
    obtain ⟨k, rfl⟩ : ∃ k : Nat, p = k := ⟨p.toNat, by omega⟩
    have hk : k < v.length := by omega
    have he := elem_addr hr hk
    have hw := writeMemRaw_run x (s := s) (a := Int32.ofInt (addr.toInt + 4 + k * Raw.size E))
      (by rw [he]; exact elem_room hr hk)
    rw [he] at hw
    have hnext : addrAdd (Int32.ofInt (addr.toInt + 4 + k * Raw.size E)) (Raw.size E * δ) =
        Int32.ofInt (addr.toInt + 4 + (k + δ) * Raw.size E) := by
      rw [addrAdd_add]
      congr 1
      ring
    have hlen : (v.set k x).length = v.length := List.length_set
    have hk0 : (0 : Int) ≤ ((k * Raw.size E : Nat) : Int) := Int.natCast_nonneg _
    push_cast at hk0
    obtain ⟨m, hm1, hm2, hm3⟩ := ih (s := { s with mem := write s.mem _ (Raw.enc x) })
      (v := v.set k x) (p := k + δ) (by rw [hlen]; exact hr) (write_elem h hk x) (by
        intro i hi
        have := hp (i + 1) (by simpa using hi)
        rw [hlen, Int.add_assoc, show δ + δ * (i : Int) = δ * ((i + 1 : Nat) : Int) by push_cast; ring]
        exact this)
    refine ⟨m, ?_, hm2, fun b hb => ?_⟩
    · rw [List.map_cons, writeElems, bind_ok hw, hnext]
      exact hm1
    · rw [hm3 b hb]
      exact write_outside _ _ _ _ (by left; omega)

theorem writeElems_append {xs : List E} {step : Int} {err : String} (vals : List (Option E))
    {a : Int32} {t : VM} (h : (writeElems step err a (xs.map some)).run s = .ok () t) :
    ∃ b, (writeElems step err a (xs.map some ++ vals)).run s = (writeElems step err b vals).run t := by
  induction xs generalizing s a with
  | nil => exact ⟨a, by cases h; rfl⟩
  | cons x xs ih =>
    rw [List.map_cons, writeElems] at h
    obtain ⟨u, t1, h1, h2⟩ := bind_eq_ok.1 h
    obtain ⟨b, hb⟩ := ih h2
    refine ⟨b, ?_⟩
    rw [List.map_cons, List.cons_append, writeElems, bind_ok h1, hb]

theorem range_map_getElem? {xs : List E} {n : Nat} (h : n ≤ xs.length) :
    (List.range n).map (fun k => xs[k]?) = (xs.take n).map some := by
  apply List.ext_getElem
  · simp [h]
  · intro i h1 h2
    have hi : i < xs.length := by
      rw [List.length_map, List.length_range] at h1
      omega
    simp [hi]

/-- the positions that a write of a range takes -/
theorem write_positions {n : Nat} (hn : 0 < n) (i j : Int) {k : Nat}
    (hk : k < ((j % n) - (i % n)).natAbs + 1) :
    0 ≤ i % n + dir (i % n) (j % n) * k ∧ i % n + dir (i % n) (j % n) * k < n := by
  have hpos : (0 : Int) < n := by exact_mod_cast hn
  have h1 := Int.emod_nonneg i hpos.ne'
  have h2 := Int.emod_lt_of_pos i hpos
  have h3 := Int.emod_nonneg j hpos.ne'
  have h4 := Int.emod_lt_of_pos j hpos
  have := between hk
  omega

section
variable {rhs : List E} {idx1 idx2 : Int64} (err : String)

/-- the elements that the write of a range puts into the array -/
theorem writeRange_eq (h1 : 1 ≤ Raw.size E) (hr : s.Room addr.toInt (4 + v.length * Raw.size E))
    (h : At s.mem addr.toInt (arrBytes v)) (hv : 0 < v.length) {p q : Int}
    (hp : idx1.toInt32.toInt % v.length = p) (hq : idx2.toInt32.toInt % v.length = q) :
    (writeRange addr (fun i => rhs[i]?) err idx1 idx2).run s =
      (writeElems (Raw.size E * dir p q) err (Int32.ofInt (addr.toInt + 4 + p * Raw.size E))
        ((List.range ((q - p).natAbs + 1)).map fun i => rhs[i]?)).run s := by
  obtain ⟨hl, hn⟩ := readLength_run h1 hr h
  have hpos : (0 : Int) < v.length := by exact_mod_cast hv
  rw [writeRange, bind_ok hl, hn, safeArrayIndex_eq hpos, safeArrayIndex_eq hpos, hp, hq]
  show (writeElems _ err (addrAdd (addr + 4) (p * Raw.size E)) _).run s = _
  rw [addr_four, addrAdd_add]
  rfl

/-- **The write of a range** from enough elements. -/
theorem writeRange_ok (h1 : 1 ≤ Raw.size E) (hr : s.Room addr.toInt (4 + v.length * Raw.size E))
    (h : At s.mem addr.toInt (arrBytes v)) (hv : 0 < v.length) {p q : Int}
    (hp : idx1.toInt32.toInt % v.length = p) (hq : idx2.toInt32.toInt % v.length = q)
    (hl : (q - p).natAbs + 1 ≤ rhs.length) :
    ∃ m, (writeRange addr (fun i => rhs[i]?) err idx1 idx2).run s = .ok () { s with mem := m } ∧
      At m addr.toInt (arrBytes (setFrom v p (dir p q) (rhs.take ((q - p).natAbs + 1)))) ∧
      ∀ b < addr.toInt, m b = s.mem b := by
  rw [writeRange_eq err h1 hr h hv hp hq, range_map_getElem? hl]
  refine writeElems_run _ err hr h fun i hi => ?_
  rw [List.length_take] at hi
  subst hp hq
  exact write_positions hv _ _ (by omega)

/-- the write of a range from too few elements -/
theorem writeRange_throw (h1 : 1 ≤ Raw.size E)
    (hr : s.Room addr.toInt (4 + v.length * Raw.size E))
    (h : At s.mem addr.toInt (arrBytes v)) (hv : 0 < v.length) {p q : Int}
    (hp : idx1.toInt32.toInt % v.length = p) (hq : idx2.toInt32.toInt % v.length = q)
    (hl : rhs.length < (q - p).natAbs + 1) :
    ∃ t, (writeRange addr (fun i => rhs[i]?) err idx1 idx2).run s = .error (.throw err) t := by
  obtain ⟨r, hr'⟩ : ∃ r, (q - p).natAbs + 1 = rhs.length + (r + 1) :=
    ⟨(q - p).natAbs - rhs.length, by omega⟩
  have h0 : rhs[rhs.length + 0]? = none := List.getElem?_eq_none (by omega)
  obtain ⟨vals, hvals⟩ : ∃ vals, (List.range ((q - p).natAbs + 1)).map (fun i => rhs[i]?) =
      rhs.map some ++ none :: vals := by
    rw [hr', List.range_add, List.map_append, range_map_getElem? (le_refl _), List.take_length,
      List.range_succ_eq_map, List.map_cons, List.map_cons, h0]
    exact ⟨_, rfl⟩
  obtain ⟨m, hm, -⟩ := writeElems_run rhs (δ := dir p q) err hr h (p := p) (by
    intro i hi
    subst hp hq
    exact write_positions hv _ _ (by omega))
  obtain ⟨b, hb⟩ := writeElems_append (none :: vals) hm
  refine ⟨{ s with mem := m }, ?_⟩
  rw [writeRange_eq err h1 hr h hv hp hq, hvals, hb]
  rfl

end

end

/-! ## the instructions on a variable -/

section
variable {s t : VM} {val d : TData} {idx idx1 idx2 : Int64} {off r : Int32} {rty : VMType}

/-- `RDARR` pushes the element. -/
theorem opRdarr_ok {ty1 ty2 : VMType} (h : s.Holds [(.int idx, ty1), (val, ty2)])
    (hd : arrayElem val idx = .ok d) (hp : (s.popped (9 + val.size)).Pushable d.size)
    (hw : d.wf .unknown = true) :
    opRdarr.run s = .ok () ((s.popped (9 + val.size)).pushed (d.bytes .unknown)) := by
  have hr : s.Room s.sp.toInt (9 + val.size) := h.room
  have h2 : popData.run (s.popped 9) = .ok val ((s.popped 9).popped val.size) := h.tail.head
  rw [VM.popped_popped hr] at h2
  rw [opRdarr, bind_ok (popInt_run h), bind_ok h2, hd]
  exact push_run d .unknown true hw hp

/-- `RDARRR` pushes the range of elements. -/
theorem opRdarrr_ok {ty1 ty2 ty3 : VMType}
    (h : s.Holds [(.int idx2, ty1), (.int idx1, ty2), (val, ty3)])
    (hd : arrayElemRange val idx1 idx2 = .ok d)
    (hp : (s.popped (18 + val.size)).Pushable d.size) (hw : d.wf .unknown = true) :
    opRdarrr.run s = .ok () ((s.popped (18 + val.size)).pushed (d.bytes .unknown)) := by
  have hr : s.Room s.sp.toInt (9 + (9 + val.size)) := h.room
  have hr' : s.Room s.sp.toInt (9 + 9 + val.size) := by rw [Nat.add_assoc]; exact hr
  have h2 : popInt.run (s.popped 9) = .ok idx1 ((s.popped 9).popped 9) := popInt_run h.tail
  rw [VM.popped_popped hr'.left] at h2
  have h3 : popData.run ((s.popped 9).popped 9) = .ok val (((s.popped 9).popped 9).popped val.size) :=
    h.tail.tail.head
  rw [VM.popped_popped hr'.left, VM.popped_popped hr'] at h3
  rw [opRdarrr, bind_ok (popInt_run h), bind_ok h2, bind_ok h3, hd]
  exact push_run d .unknown true hw hp

/-- `WRARR` after its operands were popped -/
theorem opWrarr_pops (h : t.Holds [(.int idx, .unknown), (d, .unknown), (.addr off, rty)])
    (hb : (t.popped (9 + (d.size + 5))).base rty = some r) :
    opWrarr.run t = (readMemType (off + r) >>= fun tyval =>
      writeElemAt tyval (off + r) d idx).run (t.popped (9 + (d.size + 5))) := by
  have hr : t.Room t.sp.toInt (9 + (d.size + 5)) := h.room
  have hr' : t.Room t.sp.toInt (9 + d.size + 5) := by rw [Nat.add_assoc]; exact hr
  have h2 : popData.run (t.popped 9) = .ok d ((t.popped 9).popped d.size) := h.tail.head
  have h3 : popAddress.run ((t.popped 9).popped d.size) =
      .ok (off + r) (((t.popped 9).popped d.size).popped 5) := by
    refine popAddress_run h.tail.tail ?_
    show (((t.popped 9).popped d.size).popped 5).base rty = some r
    rw [VM.popped_popped hr'.left, VM.popped_popped hr', Nat.add_assoc]
    exact hb
  rw [VM.popped_popped hr'.left, VM.popped_popped hr', Nat.add_assoc] at h3
  rw [VM.popped_popped hr'.left] at h2
  rw [opWrarr, bind_ok (popInt_run h), bind_ok h2, bind_ok h3]
  rfl

/-- `WRARRR` after its operands were popped -/
theorem opWrarrr_pops
    (h : t.Holds [(.int idx2, .unknown), (.int idx1, .unknown), (d, .unknown), (.addr off, rty)])
    (hb : (t.popped (9 + (9 + (d.size + 5)))).base rty = some r) :
    opWrarrr.run t = (readMemType (off + r) >>= fun tyval =>
      writeRangeAt tyval (off + r) d idx1 idx2).run (t.popped (9 + (9 + (d.size + 5)))) := by
  have hr : t.Room t.sp.toInt (9 + (9 + (d.size + 5))) := h.room
  have hr' : t.Room t.sp.toInt (9 + 9 + d.size + 5) := by simpa only [Nat.add_assoc] using hr
  have h2 : popInt.run (t.popped 9) = .ok idx1 ((t.popped 9).popped 9) := popInt_run h.tail
  have h3 : popData.run ((t.popped 9).popped 9) = .ok d (((t.popped 9).popped 9).popped d.size) :=
    h.tail.tail.head
  have h4 : popAddress.run (((t.popped 9).popped 9).popped d.size) =
      .ok (off + r) ((((t.popped 9).popped 9).popped d.size).popped 5) := by
    refine popAddress_run h.tail.tail.tail ?_
    show ((((t.popped 9).popped 9).popped d.size).popped 5).base rty = some r
    rw [VM.popped_popped hr'.left.left, VM.popped_popped hr'.left, VM.popped_popped hr',
      Nat.add_assoc, Nat.add_assoc]
    exact hb
  rw [VM.popped_popped hr'.left.left, VM.popped_popped hr'.left, VM.popped_popped hr',
    Nat.add_assoc, Nat.add_assoc] at h4
  rw [VM.popped_popped hr'.left.left, VM.popped_popped hr'.left, Nat.add_assoc] at h3
  rw [VM.popped_popped hr'.left.left] at h2
  rw [opWrarrr, bind_ok (popInt_run h), bind_ok h2, bind_ok h3, bind_ok h4]
  rfl

end

section
variable {E : Type} [Raw E] [Indexed E] {s : VM} {a off r : Int32} {rty : VMType} {n k : Nat}
  {v : List E}

/-- the variable at `a` holds the elements `v` -/
structure VM.HasSeq (s : VM) (a : Int32) (v : List E) : Prop where
  room : s.Room a.toInt (5 + v.length * Raw.size E)
  bytes : At s.mem a.toInt ((Indexed.seq v).bytes .unknown)

/-- what `RDMEM` and `RDARR` give for an element of the variable at `a` -/
def Yields (s : VM) (a : Int32) (i : Int64) (d : TData) : Prop :=
  ∃ ty arr, (readMemData a).run s = .ok (ty, arr) s ∧ arrayElem arr i = .ok d

/-- what `RDMEM` and `RDARRR` give for a range of the variable at `a` -/
def YieldsRange (s : VM) (a : Int32) (i j : Int64) (d : TData) : Prop :=
  ∃ ty arr, (readMemData a).run s = .ok (ty, arr) s ∧ arrayElemRange arr i j = .ok d

theorem size_seq (v : List E) : (Indexed.seq v).size = 5 + v.length * Raw.size E := by
  rw [← Data.length_bytes .unknown, Indexed.bytes_seq, List.length_cons, length_arrBytes]
  omega

theorem VM.HasSeq.read (h : s.HasSeq a v) :
    (readMemData a).run s = .ok (Indexed.ty E, Indexed.seq v) s := by
  have hr := readMemData_run (Indexed.wf_seq v) (by rw [size_seq]; exact h.room) h.bytes
  rwa [Indexed.ty_seq] at hr

theorem VM.HasSeq.yields_iff (h : s.HasSeq a v) {i : Int64} {d : TData} :
    Yields s a i d ↔ elemAt v Indexed.elem i = .ok d := by
  constructor
  · rintro ⟨ty, arr, h1, h2⟩
    rw [h.read] at h1
    cases h1
    rwa [Indexed.arrayElem_seq] at h2
  · intro hd
    exact ⟨_, _, h.read, (Indexed.arrayElem_seq v i).trans hd⟩

theorem VM.HasSeq.yieldsRange_iff (h : s.HasSeq a v) {i j : Int64} {d : TData} :
    YieldsRange s a i j d ↔ sliceAt v Indexed.seq i j = .ok d := by
  constructor
  · rintro ⟨ty, arr, h1, h2⟩
    rw [h.read] at h1
    cases h1
    rwa [Indexed.arrayElemRange_seq] at h2
  · intro hd
    exact ⟨_, _, h.read, (Indexed.arrayElemRange_seq v i j).trans hd⟩

theorem elemAt_iff {f : E → TData} (hv : 0 < v.length) {i : Int64} {d : TData} :
    elemAt v f i = .ok d ↔ ∃ x, v[(i.toInt % v.length).toNat]? = some x ∧ d = f x := by
  have hpos : (0 : Int) < v.length := by exact_mod_cast hv
  rw [elemAt, safeArrayIndex_eq hpos]
  show (match v[(i.toInt % v.length).toNat]? with
    | some x => (.ok (f x) : Res TData)
    | none => .error (.ub "index")) = .ok d ↔ _
  cases v[(i.toInt % v.length).toNat]? with
  | none => exact ⟨nofun, nofun⟩
  | some x =>
    constructor
    · intro h
      exact ⟨x, rfl, (Except.ok.inj h).symm⟩
    · rintro ⟨y, hy, rfl⟩
      rw [Option.some.inj hy]

theorem sliceAt_eq {f : List E → TData} (hv : 0 < v.length) {i j : Int64} :
    sliceAt v f i j = .ok (f (slice v (i.toInt % v.length) (j.toInt % v.length))) := by
  have hpos : (0 : Int) < v.length := by exact_mod_cast hv
  rw [sliceAt, safeArrayIndex_eq hpos, safeArrayIndex_eq hpos]
  rfl

/-! ### a variable and operands on the stack -/

/-- the machine with elements in the variable at `a` -/
def VM.withSeq (s : VM) (a : Int32) (v : List E) : VM :=
  { s with mem := write s.mem a.toInt ((Indexed.seq v).bytes .unknown) }

/-- the machine with elements in the variable at `a` and operands on the stack -/
def VM.loaded (s : VM) (a : Int32) (v : List E) (ops : List Item) : VM :=
  (s.withSeq a v).pushed (encs ops)

variable (E) in
/-- a variable for `n` elements at `a`, and room for `k` bytes of operands apart from it -/
structure Slot (s : VM) (a : Int32) (n k : Nat) : Prop where
  room : s.Room a.toInt (5 + n * Raw.size E)
  push : s.Pushable k
  apart : s.sp.toInt ≤ a.toInt ∨ a.toInt + (5 + n * Raw.size E : Nat) ≤ s.sp.toInt - k

variable {ops : List Item}

theorem Slot.holds (h : Slot E s a n k) (hi : Items ops) (hk : sizes ops ≤ k) :
    (s.loaded a v ops).Holds ops :=
  VM.pushed_holds hi (h.push.1.mono hk)

/-- the stack pointer, and what is in the variable after `j` bytes were popped -/
theorem Slot.popped (h : Slot E s a n k) (hv : v.length = n) (hk : sizes ops ≤ k) {j : Nat}
    (hj : j ≤ sizes ops) : ((s.loaded a v ops).popped j).HasSeq a v := by
  have hsz : ((Indexed.seq v).bytes .unknown).length = 5 + n * Raw.size E := by
    rw [Data.length_bytes, size_seq, hv]
  have hl : (encs ops).length = sizes ops := length_encs ops
  have hsp : (s.loaded a v ops).sp.toInt = s.sp.toInt - sizes ops := by
    have e := VM.pushed_sp (s := s.withSeq a v) (b := encs ops)
      (by rw [hl]; exact h.push.1.mono hk)
    rw [hl] at e
    exact e
  refine ⟨?_, ?_⟩
  · rw [hv]
    exact h.room
  · refine VM.at_cleared ?_ ?_
    · refine (at_write_outside ?_).2 (at_write_self _ _ _)
      rw [hsz, hl]
      have := h.apart
      have e : (s.withSeq a v).sp.toInt = s.sp.toInt := rfl
      omega
    · rw [hsp, hsz]
      have := h.apart
      omega

theorem Slot.base (h : Slot E s a n k) (hk : sizes ops ≤ k) :
    ((s.loaded a v ops).popped (sizes ops)).base rty = s.base rty := by
  have e : ((s.loaded a v ops).popped (sizes ops)).sp = s.sp := by
    show s.sp - Int32.ofNat (encs ops).length + Int32.ofNat (sizes ops) = s.sp
    rw [length_encs, Int32.sub_add_cancel]
  cases rty <;> first | rfl | (show some _ = some _; rw [e])

theorem VM.HasSeq.readType (h : s.HasSeq a v) :
    (readMemType a).run s = .ok (Indexed.ty E).code s := by
  have hr : s.Room a.toInt 1 := h.room.mono (by omega)
  have hb := h.bytes
  rw [Indexed.bytes_seq] at hb
  have h1 : s.mem a.toInt = (Indexed.ty E).code := (at_cons.1 hb).1
  have h2 : (readMemRaw UInt8 a).run s = .ok (Raw.dec (Bytes.read s.mem a.toInt 1)) s :=
    readMemRaw_run hr
  rw [readMemType, h2]
  simp [Bytes.read, h1, Raw.dec]

/-- room and contents behind the descriptor -/
theorem VM.HasSeq.behind (h : s.HasSeq a v) : (a + 1).toInt = a.toInt + 1 ∧
    s.Room (a + 1).toInt (4 + v.length * Raw.size E) ∧ At s.mem (a + 1).toInt (arrBytes v) := by
  have e : (a + 1).toInt = a.toInt + 1 :=
    Word.toInt_add_nat (n := 1) (by have := h.room.2; have := s.memsize.toInt_lt; omega)
  have hr : s.Room a.toInt (1 + (4 + v.length * Raw.size E)) := by
    rw [← Nat.add_assoc]
    exact h.room
  have hb := h.bytes
  rw [Indexed.bytes_seq] at hb
  rw [e]
  exact ⟨rfl, hr.right, (at_cons.1 hb).2⟩

/-- the variable with other elements of the same number -/
theorem VM.HasSeq.update (h : s.HasSeq a v) {m : Mem} {w : List E} (hl : w.length = v.length)
    (hd : m a.toInt = s.mem a.toInt) (hw : At m (a + 1).toInt (arrBytes w)) :
    VM.HasSeq { s with mem := m } a w := by
  obtain ⟨e, -, -⟩ := h.behind
  have hb := h.bytes
  rw [Indexed.bytes_seq] at hb
  refine ⟨by rw [hl]; exact h.room, ?_⟩
  rw [Indexed.bytes_seq]
  rw [e] at hw
  exact at_cons.2 ⟨hd.trans (at_cons.1 hb).1, hw⟩

/-! ### reads after writes -/

/-- the operands of `WRARR` -/
def elemOps (off : Int32) (rty : VMType) (x : E) (i : Int64) : List Item :=
  [(.int i, .unknown), (Indexed.elem x, .unknown), (.addr off, rty)]

/-- the operands of `WRARRR` -/
def rangeOps (off : Int32) (rty : VMType) (rhs : List E) (i j : Int64) : List Item :=
  [(.int j, .unknown), (.int i, .unknown), (Indexed.seq rhs, .unknown), (.addr off, rty)]

variable (E) in
/-- after `WRARR` of an element at `i`, a read at `i` gives it, and reads elsewhere give what they
gave before -/
def ElemAgrees (s : VM) (a off : Int32) (rty : VMType) (n : Nat) (i : Int64) : Prop :=
  ∀ (v : List E) (x : E), v.length = n →
    ∃ s', opWrarr.run (s.loaded a v (elemOps off rty x i)) = .ok () s' ∧
      Yields s' a i (Indexed.elem x) ∧
      ∀ (j : Int64) (d : TData), j.toInt % n ≠ i.toInt % n →
        Yields (s.loaded a v (elemOps off rty x i)) a j d → Yields s' a j d

variable (E) in
/-- after `WRARRR` of as many elements as the range has, a read of the range gives them, a read in
the other direction gives them in reverse, and the other elements and the length stay -/
def RangeAgrees (s : VM) (a off : Int32) (rty : VMType) (n : Nat) (i j : Int64) : Prop :=
  ∀ v rhs : List E, v.length = n →
    rhs.length = (j.toInt % n - i.toInt % n).natAbs + 1 →
    ∃ s', opWrarrr.run (s.loaded a v (rangeOps off rty rhs i j)) = .ok () s' ∧
      YieldsRange s' a i j (Indexed.seq rhs) ∧ YieldsRange s' a j i (Indexed.seq rhs.reverse) ∧
      ∃ w : List E, s'.HasSeq a w ∧ w.length = n ∧
        ∀ k : Nat, (k : Int) < min (i.toInt % n) (j.toInt % n) ∨
          max (i.toInt % n) (j.toInt % n) < k → w[k]? = v[k]?

/-- an index that is truncated to 32 bits stands for the same position -/
def SamePos (n : Nat) (i : Int64) : Prop := i.toInt32.toInt % n = i.toInt % n

theorem elemOps_items {x : E} {i : Int64} (hr : rty.isAddr = true) :
    Items (elemOps off rty x i) := by
  intro p hp
  simp only [elemOps, List.mem_cons, List.not_mem_nil, or_false] at hp
  rcases hp with rfl | rfl | rfl
  · rfl
  · exact Indexed.wf_elem x
  · exact hr

theorem rangeOps_items {rhs : List E} {i j : Int64} (hr : rty.isAddr = true) :
    Items (rangeOps off rty rhs i j) := by
  intro p hp
  simp only [rangeOps, List.mem_cons, List.not_mem_nil, or_false] at hp
  rcases hp with rfl | rfl | rfl | rfl
  · rfl
  · rfl
  · exact Indexed.wf_seq rhs
  · exact hr

theorem isAddr_of_base {ty : VMType} (h : s.base ty = some r) : ty.isAddr = true := by
  cases ty <;> first | rfl | cases h

section

/-- the run of `WRARR` after its operands were popped -/
theorem opWrarr_run (hs : Slot E s a n (47 + n * Raw.size E)) (hb : s.base rty = some r)
    (ha : off + r = a) (hv : v.length = n) (x : E) (i : Int64) :
    ∃ t : VM, t.HasSeq a v ∧ opWrarr.run (s.loaded a v (elemOps off rty x i)) =
      (writeElemAt (Indexed.ty E).code a (Indexed.elem x) i).run t := by
  have hx := Indexed.size_elem x
  have hk : sizes (elemOps off rty x i) ≤ 47 + n * Raw.size E := by
    show 9 + ((Indexed.elem x).size + (5 + 0)) ≤ _
    omega
  have hh := hs.holds (v := v) (elemOps_items (x := x) (i := i) (isAddr_of_base hb)) hk
  have hp := hs.popped hv hk (le_refl _)
  refine ⟨_, hp, ?_⟩
  rw [opWrarr_pops hh ((hs.base hk).trans hb), ha]
  exact bind_ok hp.readType

/-- the run of `WRARRR` after its operands were popped -/
theorem opWrarrr_run (hs : Slot E s a n (47 + n * Raw.size E)) (hb : s.base rty = some r)
    (ha : off + r = a) (hv : v.length = n) (rhs : List E) (hl : rhs.length ≤ n) (i j : Int64) :
    ∃ t : VM, t.HasSeq a v ∧ opWrarrr.run (s.loaded a v (rangeOps off rty rhs i j)) =
      (writeRangeAt (Indexed.ty E).code a (Indexed.seq rhs) i j).run t := by
  have hx := size_seq rhs
  have hm : rhs.length * Raw.size E ≤ n * Raw.size E := Nat.mul_le_mul_right _ hl
  have hk : sizes (rangeOps off rty rhs i j) ≤ 47 + n * Raw.size E := by
    show 9 + (9 + ((Indexed.seq rhs).size + (5 + 0))) ≤ _
    omega
  have hh := hs.holds (v := v) (rangeOps_items (i := i) (j := j) (isAddr_of_base hb)) hk
  have hp := hs.popped hv hk (le_refl _)
  refine ⟨_, hp, ?_⟩
  rw [opWrarrr_pops hh ((hs.base hk).trans hb), ha]
  exact bind_ok hp.readType

/-- `WRARR` writes the position that the truncated index stands for. -/
theorem writeElemAt_mem {t : VM} (h : t.HasSeq a v) (hv : 0 < v.length)
    (hw : Indexed.writable E = true) (x : E) (i : Int64) :
    ∃ m : Mem, (writeElemAt (Indexed.ty E).code a (Indexed.elem x) i).run t =
        .ok () { t with mem := m } ∧
      VM.HasSeq { t with mem := m } a (v.set (i.toInt32.toInt % v.length).toNat x) := by
  obtain ⟨e, hr, hat⟩ := h.behind
  obtain ⟨m, h1, h2, h3⟩ := writeOne_run (Indexed.size_pos (E := E)) hr hat hv x i
  rw [Indexed.writeElem hw]
  exact ⟨m, h1, h.update List.length_set (h3 _ (by omega)) h2⟩

theorem writeElemAt_run {t : VM} (h : t.HasSeq a v) (hv : 0 < v.length)
    (hw : Indexed.writable E = true) (x : E) (i : Int64) :
    ∃ s', (writeElemAt (Indexed.ty E).code a (Indexed.elem x) i).run t = .ok () s' ∧
      s'.HasSeq a (v.set (i.toInt32.toInt % v.length).toNat x) := by
  obtain ⟨m, h1, h2⟩ := writeElemAt_mem h hv hw x i
  exact ⟨_, h1, h2⟩

/-- `WRARRR` writes the range that the truncated indices stand for. -/
theorem writeRangeAt_run {t : VM} (h : t.HasSeq a v) (hv : 0 < v.length) (rhs : List E)
    {i j : Int64} {p q : Int} (hp : i.toInt32.toInt % v.length = p)
    (hq : j.toInt32.toInt % v.length = q) (hl : (q - p).natAbs + 1 ≤ rhs.length) :
    ∃ s', (writeRangeAt (Indexed.ty E).code a (Indexed.seq rhs) i j).run t = .ok () s' ∧
      s'.HasSeq a (setFrom v p (dir p q) (rhs.take ((q - p).natAbs + 1))) := by
  obtain ⟨e, hr, hat⟩ := h.behind
  obtain ⟨msg, hw⟩ := Indexed.writeRange a rhs i j
  obtain ⟨m, h1, h2, h3⟩ := writeRange_ok msg (Indexed.size_pos (E := E)) hr hat hv hp hq hl
  rw [hw]
  exact ⟨_, h1, h.update (length_setFrom _ _ _ _) (h3 _ (by omega)) h2⟩

/-- too few elements for the range that the truncated indices stand for -/
theorem writeRangeAt_throw {t : VM} (h : t.HasSeq a v) (hv : 0 < v.length) {rhs : List E}
    {i j : Int64} {p q : Int} (hp : i.toInt32.toInt % v.length = p)
    (hq : j.toInt32.toInt % v.length = q) (hl : rhs.length < (q - p).natAbs + 1) (s' : VM) :
    (writeRangeAt (Indexed.ty E).code a (Indexed.seq rhs) i j).run t ≠ .ok () s' := by
  obtain ⟨e, hr, hat⟩ := h.behind
  obtain ⟨msg, hw⟩ := Indexed.writeRange a rhs i j
  obtain ⟨t', h1⟩ := writeRange_throw msg (Indexed.size_pos (E := E)) hr hat hv hp hq hl
  rw [hw, h1]
  exact nofun

theorem VM.HasSeq.unique {w : List E} (h : s.HasSeq a v) (h' : s.HasSeq a w) : v = w := by
  have e := h.read
  rw [h'.read] at e
  cases e' : Indexed.seq w
  all_goals
    refine Indexed.seq_inj _ _ ?_
    injection e with e1
    exact (Prod.mk.inj e1).2.symm

theorem pos_of_mod (hn : 0 < n) (x : Int) : ((x % n).toNat : Int) = x % n ∧ (x % n).toNat < n := by
  have hpos : (0 : Int) < n := by exact_mod_cast hn
  have h1 := Int.emod_nonneg x hpos.ne'
  have h2 := Int.emod_lt_of_pos x hpos
  omega

section
variable (hs : Slot E s a n (47 + n * Raw.size E)) (hn : 0 < n) (hb : s.base rty = some r)
  (ha : off + r = a)
include hs hn hb ha

/-- **Element reads see element writes** where the truncated index stands for the same position. -/
theorem elemAgrees_iff (i : Int64) :
    ElemAgrees E s a off rty n i ↔ Indexed.writable E = true ∧ SamePos n i := by
  constructor
  · intro h
    obtain ⟨x, y, hxy⟩ := Indexed.two (E := E)
    have hv : (List.replicate n x).length = n := List.length_replicate
    obtain ⟨s', h1, h2, -⟩ := h (List.replicate n x) y hv
    obtain ⟨t, ht, hrun⟩ := opWrarr_run hs hb ha hv y i
    rw [hrun] at h1
    cases hw : Indexed.writable E with
    | false =>
      obtain ⟨msg, e⟩ := Indexed.noWriteElem hw a y i
      rw [e] at h1
      cases h1
    | true =>
      refine ⟨rfl, ?_⟩
      obtain ⟨s'', h3, h4⟩ := writeElemAt_run ht (by rw [hv]; exact hn) hw y i
      rw [h3] at h1
      cases h1
      obtain ⟨z, hz1, hz2⟩ := (elemAt_iff (by simpa using hn)).1 (h4.yields_iff.1 h2)
      obtain rfl := Indexed.elem_inj _ _ hz2
      rw [List.length_set, hv] at hz1
      obtain ⟨e1, l1⟩ := pos_of_mod hn i.toInt
      obtain ⟨e2, l2⟩ := pos_of_mod hn i.toInt32.toInt
      by_contra hne
      have hne' : (i.toInt32.toInt % n).toNat ≠ (i.toInt % n).toNat := by
        unfold SamePos at hne
        omega
      rw [List.getElem?_set_ne hne', List.getElem?_replicate_of_lt l1] at hz1
      exact hxy (Option.some.inj hz1)
  · rintro ⟨hw, hi⟩ v x hv
    obtain ⟨t, ht, hrun⟩ := opWrarr_run hs hb ha hv x i
    obtain ⟨s', h3, h4⟩ := writeElemAt_run ht (by omega) hw x i
    have hv0 : 0 < v.length := by omega
    have hset : 0 < (v.set (i.toInt32.toInt % v.length).toNat x).length := by simpa using hv0
    unfold SamePos at hi
    rw [hv, hi] at h4 hset
    obtain ⟨e1, l1⟩ := pos_of_mod hn i.toInt
    refine ⟨s', hrun.trans h3, ?_, fun j d hj hd => ?_⟩
    · refine h4.yields_iff.2 ((elemAt_iff hset).2 ⟨x, ?_, rfl⟩)
      rw [List.length_set, hv]
      exact List.getElem?_set_self (by omega)
    · have hk : sizes (elemOps off rty x i) ≤ 47 + n * Raw.size E := by
        have hx := Indexed.size_elem x
        show 9 + ((Indexed.elem x).size + (5 + 0)) ≤ _
        omega
      have hl : (s.loaded a v (elemOps off rty x i)).HasSeq a v := by
        have h0 := hs.popped hv hk (Nat.zero_le _)
        rwa [VM.popped_zero] at h0
      obtain ⟨y, hy, rfl⟩ := (elemAt_iff hv0).1 (hl.yields_iff.1 hd)
      refine h4.yields_iff.2 ((elemAt_iff hset).2 ⟨y, ?_, rfl⟩)
      obtain ⟨e2, l2⟩ := pos_of_mod hn j.toInt
      rw [List.length_set, hv, List.getElem?_set_ne (by omega), ← hv]
      exact hy

/-- what a write to the truncated range leaves in a variable with one value at all places -/
theorem rangeAgrees_left {i j : Int64} {p q p' q' : Int} (hp : i.toInt % (n : Int) = p)
    (hq : j.toInt % (n : Int) = q) (hp' : i.toInt32.toInt % (n : Int) = p')
    (hq' : j.toInt32.toInt % (n : Int) = q') (h : RangeAgrees E s a off rty n i j) (x : E)
    (rhs : List E) (hl : rhs.length = (q - p).natAbs + 1) :
    (q' - p').natAbs + 1 ≤ rhs.length ∧
      slice (setFrom (List.replicate n x) p' (dir p' q') (rhs.take ((q' - p').natAbs + 1))) p q =
        rhs ∧
      ∀ k : Nat, (k : Int) < min p q ∨ max p q < k → (setFrom (List.replicate n x) p' (dir p' q')
        (rhs.take ((q' - p').natAbs + 1)))[k]? = (List.replicate n x)[k]? := by
  obtain ⟨ei, li⟩ := pos_of_mod hn i.toInt
  obtain ⟨ej, lj⟩ := pos_of_mod hn j.toInt
  rw [hp] at ei li
  rw [hq] at ej lj
  have hv : (List.replicate n x).length = n := List.length_replicate
  have hv0 : 0 < (List.replicate n x).length := by omega
  have hl' : rhs.length = (j.toInt % n - i.toInt % n).natAbs + 1 := by rw [hp, hq, hl]
  obtain ⟨s', h1, h2, -, w, h5, -, h6⟩ := h _ rhs hv hl'
  obtain ⟨t, ht, hrun⟩ := opWrarrr_run hs hb ha hv rhs (by omega) i j
  rw [hrun] at h1
  have hpv : i.toInt32.toInt % ((List.replicate n x).length : Int) = p' := by rw [hv, hp']
  have hqv : j.toInt32.toInt % ((List.replicate n x).length : Int) = q' := by rw [hv, hq']
  have hle : (q' - p').natAbs + 1 ≤ rhs.length := by
    by_contra hlt
    exact writeRangeAt_throw ht hv0 hpv hqv (by omega) s' h1
  obtain ⟨s'', h3, h4⟩ := writeRangeAt_run ht hv0 rhs hpv hqv hle
  rw [h3] at h1
  cases h1
  obtain rfl := h4.unique h5
  have hsl := h4.yieldsRange_iff.1 h2
  rw [sliceAt_eq (by rwa [length_setFrom]), length_setFrom, hv, hp, hq] at hsl
  refine ⟨hle, Indexed.seq_inj _ _ (Except.ok.inj hsl), fun k hk => h6 k ?_⟩
  rw [hp, hq]
  exact hk

/-- **Range reads see range writes** where the truncated indices stand for the same positions. -/
theorem rangeAgrees_iff (i j : Int64) :
    RangeAgrees E s a off rty n i j ↔ SamePos n i ∧ SamePos n j := by
  obtain ⟨ei, li⟩ := pos_of_mod hn i.toInt
  obtain ⟨ej, lj⟩ := pos_of_mod hn j.toInt
  obtain ⟨ei', li'⟩ := pos_of_mod hn i.toInt32.toInt
  obtain ⟨ej', lj'⟩ := pos_of_mod hn j.toInt32.toInt
  unfold SamePos
  generalize hp : i.toInt % (n : Int) = p at *
  generalize hq : j.toInt % (n : Int) = q at *
  generalize hp' : i.toInt32.toInt % (n : Int) = p' at *
  generalize hq' : j.toInt32.toInt % (n : Int) = q' at *
  constructor
  · intro h
    obtain ⟨x, y, hxy⟩ := Indexed.two (E := E)
    have key := rangeAgrees_left hs hn hb ha hp hq hp' hq' h x
    have first : p' = p := by
      obtain ⟨hle, hsl, -⟩ := key (y :: List.replicate (q - p).natAbs x) (by simp)
      exact range_first hxy (by omega) (by omega) (by omega) (by omega) hle hsl
    obtain ⟨hle, hsl, hout⟩ := key (List.replicate ((q - p).natAbs + 1) y) (by simp)
    exact ⟨first, range_last hxy (by omega) (by omega) (by omega) first hle hsl hout⟩
  · rintro ⟨rfl, rfl⟩ v rhs hv hl
    rw [hp, hq] at hl ⊢
    have hv0 : 0 < v.length := by omega
    obtain ⟨t, ht, hrun⟩ := opWrarrr_run hs hb ha hv rhs (by omega) i j
    have hpv : i.toInt32.toInt % (v.length : Int) = p' := by rw [hv, hp']
    have hqv : j.toInt32.toInt % (v.length : Int) = q' := by rw [hv, hq']
    obtain ⟨s', h3, h4⟩ := writeRangeAt_run ht hv0 rhs hpv hqv (by omega)
    rw [← hl, List.take_length] at h4
    have hw0 : 0 < (setFrom v p' (dir p' q') rhs).length := by rwa [length_setFrom]
    have hsl : slice (setFrom v p' (dir p' q') rhs) p' q' = rhs :=
      slice_setFrom (by omega) (by omega) hl
    refine ⟨s', hrun.trans h3, ?_, ?_, _, h4, by rw [length_setFrom, hv], fun k hk => ?_⟩
    · refine h4.yieldsRange_iff.2 ?_
      rw [sliceAt_eq hw0, length_setFrom, hv, hp, hq, hsl]
    · refine h4.yieldsRange_iff.2 ?_
      rw [sliceAt_eq hw0, length_setFrom, hv, hp, hq, slice_reverse, hsl]
    · refine setFrom_miss (fun m hm => ?_) fun m hm => ?_
      · have := between (p := p') (q := q') (i := m) (by omega)
        omega
      · have := between (p := p') (q := q') (i := m) (by omega)
        omega

end

/-- **Reads see writes** of elements and ranges of elements where the indices, truncated to 32 bits,
stand for the same positions; elements of strings cannot be written. -/
theorem arrays_agree_iff (hs : Slot E s a n (47 + n * Raw.size E)) (hn : 0 < n)
    (hb : s.base rty = some r) (ha : off + r = a) :
    (∀ i, ElemAgrees E s a off rty n i ↔ Indexed.writable E = true ∧ SamePos n i) ∧
      ∀ i j, RangeAgrees E s a off rty n i j ↔ SamePos n i ∧ SamePos n j :=
  ⟨elemAgrees_iff hs hn hb ha, rangeAgrees_iff hs hn hb ha⟩

end

/-- indices of 32 bits stand for themselves -/
theorem samePos_of_small (n : Nat) {i : Int64} (h1 : -2^31 ≤ i.toInt) (h2 : i.toInt < 2^31) :
    SamePos n i := by
  have e : i.toInt32.toInt = i.toInt := by
    rw [Int64.toInt_toInt32]
    exact Word.bmod_of_range h1 h2
  rw [SamePos, e]

end

/-! ### reads as the machine does them -/

section
variable {E : Type} [Raw E] [Indexed E] {s : VM} {a off : Int32} {rty : VMType} {v : List E}
  {d : TData}

/-- popped operands leave the room that they were pushed into -/
theorem VM.Pushable.back {k : Nat} (h : s.Pushable k) (ds : List Item) :
    ((s.pushed (encs ds)).popped (sizes ds)).Pushable k := by
  have e : ((s.pushed (encs ds)).popped (sizes ds)).sp = s.sp := by
    show s.sp - Int32.ofNat (encs ds).length + Int32.ofNat (sizes ds) = s.sp
    rw [length_encs, Int32.sub_add_cancel]
  unfold VM.Pushable VM.Fits at h ⊢
  rw [e]
  exact h

/-- the address of a variable on the stack, and room for the variable and `k` more bytes -/
structure Loads (s : VM) (a off : Int32) (rty : VMType) (v : List E) (k : Nat) : Prop where
  holds : s.Holds [(.addr off, rty)]
  base : ((s.popped 5).base rty).map (off + ·) = some a
  seq : (s.popped 5).HasSeq a v
  push : (s.popped 5).Pushable (k + (5 + v.length * Raw.size E))

/-- **`RDMEM`** of a variable, and operands behind it -/
theorem Loads.run (ds : List Item) (h : Loads s a off rty v (sizes ds)) (hi : Items ds) :
    (do opRdmem; pushAll ds).run s =
      .ok () ((s.popped 5).pushed (encs (ds.reverse ++ [(Indexed.seq v, Indexed.ty E)]))) ∧
    ((s.popped 5).pushed (encs (ds.reverse ++ [(Indexed.seq v, Indexed.ty E)]))).Holds
      (ds.reverse ++ [(Indexed.seq v, Indexed.ty E)]) := by
  obtain ⟨r, hr, ha⟩ := Option.map_eq_some_iff.1 h.base
  have hread := h.seq.read
  rw [← ha] at hread
  have hw : (Indexed.seq v).wf (Indexed.ty E) = true := by
    have h0 := Indexed.wf_seq v
    cases e : (Indexed.seq v : TData) <;> rw [e] at h0 <;> first | rfl | cases h0
  have hi' : Items ((Indexed.seq v, Indexed.ty E) :: ds) := Items.cons hw hi
  have hsz : sizes ((Indexed.seq v, Indexed.ty E) :: ds) =
      sizes ds + (5 + v.length * Raw.size E) := by
    rw [sizes_cons, size_seq, Nat.add_comm]
  have hp := pushAll_run hi' (s := s.popped 5) (by rw [hsz]; exact h.push)
  rw [List.reverse_cons] at hp
  refine ⟨?_, ?_⟩
  · rw [opRdmem, bind_assoc, bind_ok (popAddress_run h.holds hr), bind_assoc, bind_ok hread, ← hp]
    rfl
  · rw [← List.reverse_cons]
    refine VM.pushed_holds hi'.reverse ?_
    rw [sizes_reverse, hsz]
    exact h.push.1

/-- **`RDMEM` and `RDARR`** leave the element that the variable yields. -/
theorem Yields.run {i : Int64} (hd : Yields (s.popped 5) a i d) (h : Loads s a off rty v 9)
    (hw : d.wf .unknown = true) (hp : (s.popped 5).Pushable d.size) :
    ∃ t, (do opRdmem; pushAll [(.int i, .unknown)]; opRdarr).run s = .ok () t ∧
      t.Holds [(d, .unknown)] := by
  obtain ⟨ty, arr, h1, h2⟩ := hd
  rw [h.seq.read] at h1
  cases h1
  obtain ⟨hrun, hh⟩ := Loads.run [(.int i, .unknown)] h (Items.cons rfl (by simp [Items]))
  have hsz : 9 + (Indexed.seq v).size =
      sizes ([(.int i, .unknown)].reverse ++ [((Indexed.seq v : TData), Indexed.ty E)]) := rfl
  have hp' := hp.back ([(.int i, .unknown)].reverse ++ [(Indexed.seq v, Indexed.ty E)])
  rw [← hsz] at hp'
  refine ⟨_, ?_, @VM.pushed_holds _ [(d, .unknown)] (Items.cons hw (by simp [Items])) hp'.1⟩
  rw [← bind_assoc, bind_ok hrun, opRdarr_ok hh h2 hp' hw, encs_cons, encs_nil, List.append_nil]

/-- **`RDMEM` and `RDARRR`** leave the range that the variable yields. -/
theorem YieldsRange.run {i j : Int64} (hd : YieldsRange (s.popped 5) a i j d)
    (h : Loads s a off rty v 18) (hw : d.wf .unknown = true)
    (hp : (s.popped 5).Pushable d.size) :
    ∃ t, (do opRdmem; pushAll [(.int i, .unknown), (.int j, .unknown)]; opRdarrr).run s =
      .ok () t ∧ t.Holds [(d, .unknown)] := by
  obtain ⟨ty, arr, h1, h2⟩ := hd
  rw [h.seq.read] at h1
  cases h1
  obtain ⟨hrun, hh⟩ := Loads.run [(.int i, .unknown), (.int j, .unknown)] h
    (Items.cons rfl (Items.cons rfl (by simp [Items])))
  have hsz : 18 + (Indexed.seq v).size = sizes ([(.int i, .unknown), (.int j, .unknown)].reverse ++
      [((Indexed.seq v : TData), Indexed.ty E)]) := (Nat.add_assoc 9 9 _)
  have hp' := hp.back ([(.int i, .unknown), (.int j, .unknown)].reverse ++
    [(Indexed.seq v, Indexed.ty E)])
  rw [← hsz] at hp'
  refine ⟨_, ?_, @VM.pushed_holds _ [(d, .unknown)] (Items.cons hw (by simp [Items])) hp'.1⟩
  rw [← bind_assoc, bind_ok hrun, opRdarrr_ok hh h2 hp' hw, encs_cons, encs_nil, List.append_nil]

end

/-! ### a machine with an array -/

/-- a machine of 1024 bytes -/
def vmArray : VM := @VM.init Platform.packed 1024 ⟨0⟩ []

/-- room for an array of three integers above the stack pointer -/
theorem vmArray_slot : Slot Int64 vmArray 985 3 (47 + 3 * Raw.size Int64) where
  room := ⟨by decide, by decide⟩
  push := ⟨⟨by decide, by decide⟩, by decide⟩
  apart := Or.inl (by decide)

theorem arrays_agree_vmArray :
    (∀ i, ElemAgrees Int64 vmArray 985 985 .addrMem 3 i ↔
      Indexed.writable Int64 = true ∧ SamePos 3 i) ∧
    ∀ i j, RangeAgrees Int64 vmArray 985 985 .addrMem 3 i j ↔ SamePos 3 i ∧ SamePos 3 j :=
  arrays_agree_iff vmArray_slot (by decide) rfl (by decide)

/-- the index `2 ^ 32` is 1 for a read and 0 for a write -/
theorem arrays_disagree : ¬ SamePos 3 (2^32) ∧
    ¬ ElemAgrees Int64 vmArray 985 985 .addrMem 3 (2^32) := by
  have h : ¬ SamePos 3 (2^32) := by
    unfold SamePos
    decide
  refine ⟨h, fun he => ?_⟩
  exact h ((elemAgrees_iff vmArray_slot (by decide) rfl (by decide) _).1 he).2

end

end MuF
