import MuF.VM.Arrays
import MuF.VM.Spares

/-!
# Integer divisions of the machine

* `badOp`: whether an instruction divides out of the domain of the division, by its operands;
* `badStep`: the same for the instruction that comes next;
* main results: `step_divides`, `VM.not_stops_iff`.
-/

set_option linter.unusedVariables false

namespace MuF

open Bytes Exec

/-! ## operands -/

/-- integers with no quotient -/
def noQuotient (a b : Int64) : Bool := b == 0 || (a == Int64.minValue && b == -1)

/-- operands of a division with no quotient -/
def badOperands : TData → TData → Bool
  | .int a, .int b => noQuotient a b
  | _, _ => false

/-- the operators with divisions -/
def ArithOp.divides : ArithOp → Bool
  | .div | .mod => true
  | _ => false

theorem intArith_divides (op : ArithOp) (a b : Int64) :
    intArith op a b = .error divError ↔ (op.divides && noQuotient a b) = true := by
  have h {x : Int64} : (if b = 0 ∨ (a = Int64.minValue ∧ b = -1) then .error divError
      else .ok x : Res Int64) = .error divError ↔ (true && noQuotient a b) = true := by
    have e : (true && noQuotient a b) = true ↔ b = 0 ∨ (a = Int64.minValue ∧ b = -1) := by
      simp [noQuotient]
    rw [e]
    split
    · next hc => exact iff_of_true rfl hc
    · next hc => exact iff_of_false nofun hc
  cases op with
  | div => exact h
  | mod => exact h
  | _ => exact iff_of_false nofun Bool.false_ne_true

theorem vecArith_spares {R E F : Type} {ops : VecOps R E} (h : ops.Throws) (op : ArithOp)
    (a b : List E) (f : List E → F) : (vecArith ops op a b).map f ≠ .error divError := by
  cases op with
  | add => exact (h.add a b).ne f
  | sub => exact (h.sub a b).ne f
  | _ => exact nofun

theorem throwIf_spares {α : Type} {c : Prop} [Decidable c] {msg : String} {a : α} :
    (if c then .error (.throw msg) else .ok a : Res α) ≠ .error divError := by
  split
  · exact nofun
  · exact nofun

theorem of_throwIf {α : Type} {c : Prop} [Decidable c] {msg : String} {a b : α}
    (h : (if c then .error (.throw msg) else .ok a : Res α) = .ok b) : ¬ c := by
  intro hc
  rw [if_pos hc] at h
  cases h

theorem safeArrayIndex_divides {w : Nat} {idx size : Int} :
    safeArrayIndex w idx size = .error divError ↔
      size = 0 ∨ (size = -1 ∧ idx = -2^(w - 1)) := by
  unfold safeArrayIndex
  split
  · next h => exact iff_of_true rfl h
  · next h => exact iff_of_false throwIf_spares h

/-- an index is accepted below positive lengths only -/
theorem safeArrayIndex_pos {w : Nat} {idx size i : Int} (h : safeArrayIndex w idx size = .ok i) :
    0 < size := by
  unfold safeArrayIndex at h
  split at h
  · cases h
  · have hc := of_throwIf h
    omega

theorem elemAt_divides {E : Type} (v : List E) (f : E → TData) (idx : Int64) :
    elemAt v f idx = .error divError ↔ v = [] := by
  have hi : safeArrayIndex 64 idx.toInt v.length = .error divError ↔ _ := safeArrayIndex_divides
  unfold elemAt
  cases h : safeArrayIndex 64 idx.toInt v.length with
  | error e =>
    rw [h, Except.error.injEq] at hi
    show Except.error e = _ ↔ _
    rw [Except.error.injEq, hi]
    constructor
    · rintro (h0 | ⟨h1, -⟩)
      · exact List.length_eq_zero_iff.1 (by omega)
      · omega
    · rintro rfl
      exact Or.inl rfl
  | ok i =>
    refine iff_of_false ?_ ?_
    · dsimp only [bind, Except.bind]
      split <;> simp [divError]
    · rintro rfl
      rw [h] at hi
      exact ok_spares i (hi.2 (Or.inl rfl))

theorem sliceAt_divides {E : Type} (v : List E) (f : List E → TData) (idx1 idx2 : Int64) :
    sliceAt v f idx1 idx2 = .error divError ↔ v = [] := by
  cases v with
  | nil => exact iff_of_true rfl rfl
  | cons x v =>
    have hpos : (0 : Int) < (x :: v).length := by
      rw [List.length_cons]
      omega
    refine iff_of_false ?_ (List.cons_ne_nil x v)
    rw [sliceAt, safeArrayIndex_eq hpos, safeArrayIndex_eq hpos]
    exact ok_spares _

/-- no elements to index -/
def emptySeq : TData → Bool
  | .realArr v => v.isEmpty
  | .intArr v => v.isEmpty
  | .cplxArr v => v.isEmpty
  | .quatArr v => v.isEmpty
  | .str v => v.isEmpty
  | _ => false

theorem arrayElem_divides (arr : TData) (idx : Int64) :
    arrayElem arr idx = .error divError ↔ emptySeq arr = true := by
  cases arr with
  | realArr v => exact (elemAt_divides v _ idx).trans List.isEmpty_iff.symm
  | intArr v => exact (elemAt_divides v _ idx).trans List.isEmpty_iff.symm
  | cplxArr v => exact (elemAt_divides v _ idx).trans List.isEmpty_iff.symm
  | quatArr v => exact (elemAt_divides v _ idx).trans List.isEmpty_iff.symm
  | str v => exact (elemAt_divides v _ idx).trans List.isEmpty_iff.symm
  | _ => exact iff_of_false nofun Bool.false_ne_true

theorem arrayElemRange_divides (arr : TData) (idx1 idx2 : Int64) :
    arrayElemRange arr idx1 idx2 = .error divError ↔ emptySeq arr = true := by
  cases arr with
  | realArr v => exact (sliceAt_divides v _ idx1 idx2).trans List.isEmpty_iff.symm
  | intArr v => exact (sliceAt_divides v _ idx1 idx2).trans List.isEmpty_iff.symm
  | cplxArr v => exact (sliceAt_divides v _ idx1 idx2).trans List.isEmpty_iff.symm
  | quatArr v => exact (sliceAt_divides v _ idx1 idx2).trans List.isEmpty_iff.symm
  | str v => exact (sliceAt_divides v _ idx1 idx2).trans List.isEmpty_iff.symm
  | _ => exact iff_of_false nofun Bool.false_ne_true

/-! ## conditions on the operands -/

/-- the operands of the next division have no quotient -/
def badDiv : VMM Bool := do
  let val2 ← popData
  let val1 ← popData
  return badOperands val1 val2

/-- the next element is one of no elements -/
def badRead : VMM Bool := do
  let idx ← popInt
  let arr ← popData
  return emptySeq arr

/-- the next range is one of no elements -/
def badReadRange : VMM Bool := do
  let idx2 ← popInt
  let idx1 ← popInt
  let arr ← popData
  return emptySeq arr

/-- the length at an address is zero, or -1 below the least index -/
def badLength (addr idx : Int32) : VMM Bool := do
  let veclen ← readMemRaw Int32 addr
  return veclen == 0 || (veclen == -1 && idx == Int32.minValue)

/-- an element that is written behind a bad length -/
def badWriteElem (E : Type) [Elem E] (addr : Int32) (data : TData) (idx : Int64) : VMM Bool :=
  if (Elem.ofData data : Option E).isSome then badLength addr idx.toInt32 else pure false

/-- elements that are written behind a bad length -/
def badWriteElems (E : Type) [Elem E] (addr : Int32) (data : TData) (idx : Int64) : VMM Bool :=
  if (Elem.ofArr data : Option (List E)).isSome || (Elem.ofData data : Option E).isSome then
    badLength addr idx.toInt32
  else
    pure false

/-- the same for the array with the given descriptor -/
def badWriteAt (tyval : UInt8) (addr : Int32) (data : TData) (idx : Int64) : VMM Bool :=
  match VMType.ofCode tyval with
  | some .realArr => badWriteElem TReal (addr + 1) data idx
  | some .intArr => badWriteElem Int64 (addr + 1) data idx
  | some .cplxArr => badWriteElem (Cplx TReal) (addr + 1) data idx
  | some .quatArr => badWriteElem (Quat TReal) (addr + 1) data idx
  | _ => pure false

/-- the same for a range of the array or string with the given descriptor -/
def badWriteRangeAt (tyval : UInt8) (addr : Int32) (data : TData) (idx : Int64) : VMM Bool :=
  match VMType.ofCode tyval with
  | some .realArr => badWriteElems TReal (addr + 1) data idx
  | some .intArr => badWriteElems Int64 (addr + 1) data idx
  | some .cplxArr => badWriteElems (Cplx TReal) (addr + 1) data idx
  | some .quatArr => badWriteElems (Quat TReal) (addr + 1) data idx
  | some .str =>
    match data with
    | .str _ => badLength (addr + 1) idx.toInt32
    | _ => pure false
  | _ => pure false

/-- the next element is written behind a bad length -/
def badWrite : VMM Bool := do
  let idx ← popInt
  let data ← popData
  let addr ← popAddress
  let tyval ← readMemType addr
  badWriteAt tyval addr data idx

/-- the next range is written behind a bad length -/
def badWriteRange : VMM Bool := do
  let idx2 ← popInt
  let idx1 ← popInt
  let data ← popData
  let addr ← popAddress
  let tyval ← readMemType addr
  badWriteRangeAt tyval addr data idx1

/-- the instruction divides out of the domain of the division -/
def badOp : Option OpCode → VMM Bool
  | some .div | some .mod => badDiv
  | some .rdarr => badRead
  | some .rdarrr => badReadRange
  | some .wrarr => badWrite
  | some .wrarrr => badWriteRange
  | _ => pure false

/-- the next instruction divides out of the domain of the division -/
def badStep : VMM Bool := do
  checkPointerBounds
  let op ← fetch
  badOp op

/-! ## instructions -/

section
variable {s : VM}

/-- an operation on the operands, and what it divides -/
theorem fails_liftE_push {r : Res TData} {b : Bool} (h : r = .error divError ↔ b = true) :
    Fails divError (liftE r >>= pushVal) s ↔ Says (pure b : VMM Bool) s := by
  rw [fails_bind_left fun data => never_pushVal data, fails_liftE, says_pure, h]

theorem opBinary_divides {f : TData → TData → Res TData} {bad : TData → TData → Bool}
    (h : ∀ x y, f x y = .error divError ↔ bad x y = true) :
    Fails divError (opBinary f) s ↔ Says (do
      let val2 ← popData
      let val1 ← popData
      return bad val1 val2) s :=
  fails_bind_says never_popData fun val2 _ => fails_bind_says never_popData fun val1 _ =>
    fails_liftE_push (h val1 val2)

theorem opRdarr_divides : Fails divError opRdarr s ↔ Says badRead s :=
  fails_bind_says never_popInt fun idx _ => fails_bind_says never_popData fun arr _ =>
    fails_liftE_push (arrayElem_divides arr idx)

theorem opRdarrr_divides : Fails divError opRdarrr s ↔ Says badReadRange s :=
  fails_bind_says never_popInt fun idx2 _ => fails_bind_says never_popInt fun idx1 _ =>
    fails_bind_says never_popData fun arr _ =>
      fails_liftE_push (arrayElemRange_divides arr idx1 idx2)

/-- an index below a stored length, and what comes behind it -/
theorem index_divides {α : Type} {addr : Int32} {idx : Int64} {k : Int32 → Int → VMM α}
    (hk : ∀ n i, 0 < n.toInt → Never divError (k n i)) :
    Fails divError (do
      let veclen ← readMemRaw Int32 addr
      let i ← liftE (safeArrayIndex 32 idx.toInt32.toInt veclen.toInt)
      k veclen i) s ↔ Says (badLength addr idx.toInt32) s := by
  apply fails_bind_says (never_readMemRaw _ _)
  intro veclen t
  have hd : safeArrayIndex 32 idx.toInt32.toInt veclen.toInt = .error divError ↔ _ :=
    safeArrayIndex_divides
  have hb : (veclen == 0 || (veclen == -1 && idx.toInt32 == Int32.minValue)) = true ↔
      veclen.toInt = 0 ∨ (veclen.toInt = -1 ∧ idx.toInt32.toInt = -2^(32 - 1)) := by
    rw [Bool.or_eq_true_iff, Bool.and_eq_true_iff, beq_iff_eq, beq_iff_eq, beq_iff_eq,
      ← Int32.toInt_inj, ← Int32.toInt_inj (y := -1), ← Int32.toInt_inj (y := Int32.minValue)]
    exact Iff.rfl
  rw [says_pure, hb, ← hd]
  cases h : safeArrayIndex 32 idx.toInt32.toInt veclen.toInt with
  | ok i => exact iff_of_false (hk veclen i (safeArrayIndex_pos h) t) nofun
  | error e =>
    have he : (liftE (.error e) : VMM Int).run t = .error e t := run_throw _ _
    rw [Except.error.injEq, Fails, bind_error he]
    constructor
    · rintro ⟨t', ht⟩
      cases ht
      rfl
    · rintro rfl
      exact ⟨t, rfl⟩

theorem writeArrayElem_divides (E : Type) [Elem E] (addr : Int32) (data : TData) (idx : Int64) :
    Fails divError (writeArrayElem E addr data idx) s ↔ Says (badWriteElem E addr data idx) s := by
  unfold writeArrayElem badWriteElem
  cases (Elem.ofData data : Option E) with
  | none => exact fails_says_false (never_throw _) rfl
  | some val => exact index_divides fun n i hn => never_writeMemRaw _ _

theorem never_writeElems {E : Type} [Raw E] (step : Int) (err : String) :
    ∀ (addr : Int32) (vals : List (Option E)), Never divError (writeElems step err addr vals)
  | addr, [] => Never.pure _
  | addr, some val :: vals =>
    Never.bind (never_writeMemRaw _ _) fun _ => never_writeElems step err _ vals
  | addr, none :: vals => never_throw _

/-- only the first index of a range may divide out of the domain -/
theorem writeRange_divides {E : Type} [Raw E] (addr : Int32) (src : Nat → Option E) (err : String)
    (idx1 idx2 : Int64) : Fails divError (writeRange addr src err idx1 idx2) s ↔
      Says (badLength addr idx1.toInt32) s := by
  apply index_divides
  intro n i1 hn
  apply Never.bind
  · apply never_liftE
    rw [safeArrayIndex_eq hn]
    exact nofun
  · intro i2
    exact never_writeElems _ _ _ _

theorem writeArrayElemRange_divides (E : Type) [Elem E] (addr : Int32) (data : TData)
    (idx1 idx2 : Int64) : Fails divError (writeArrayElemRange E addr data idx1 idx2) s ↔
      Says (badWriteElems E addr data idx1) s := by
  unfold writeArrayElemRange badWriteElems
  cases (Elem.ofArr data : Option (List E)) with
  | some vec => exact writeRange_divides _ _ _ _ _
  | none =>
    cases (Elem.ofData data : Option E) with
    | some val => exact writeRange_divides _ _ _ _ _
    | none => exact fails_says_false (never_throw _) rfl

theorem writeElemAt_divides (tyval : UInt8) (addr : Int32) (data : TData) (idx : Int64) :
    Fails divError (writeElemAt tyval addr data idx) s ↔
      Says (badWriteAt tyval addr data idx) s := by
  unfold writeElemAt badWriteAt
  cases VMType.ofCode tyval with
  | none => exact fails_says_false (never_throw _) rfl
  | some ty =>
    cases ty with
    | realArr => exact writeArrayElem_divides _ _ _ _
    | intArr => exact writeArrayElem_divides _ _ _ _
    | cplxArr => exact writeArrayElem_divides _ _ _ _
    | quatArr => exact writeArrayElem_divides _ _ _ _
    | _ => exact fails_says_false (never_throw _) rfl

theorem writeRangeAt_divides (tyval : UInt8) (addr : Int32) (data : TData) (idx1 idx2 : Int64) :
    Fails divError (writeRangeAt tyval addr data idx1 idx2) s ↔
      Says (badWriteRangeAt tyval addr data idx1) s := by
  unfold writeRangeAt badWriteRangeAt
  cases VMType.ofCode tyval with
  | none => exact fails_says_false (never_throw _) rfl
  | some ty =>
    cases ty with
    | realArr => exact writeArrayElemRange_divides _ _ _ _ _
    | intArr => exact writeArrayElemRange_divides _ _ _ _ _
    | cplxArr => exact writeArrayElemRange_divides _ _ _ _ _
    | quatArr => exact writeArrayElemRange_divides _ _ _ _ _
    | str =>
      cases data with
      | str rhs => exact writeRange_divides _ _ _ _ _
      | _ => exact fails_says_false (never_throw _) rfl
    | _ => exact fails_says_false (never_throw _) rfl

theorem opWrarr_divides : Fails divError opWrarr s ↔ Says badWrite s :=
  fails_bind_says never_popInt fun idx _ => fails_bind_says never_popData fun data _ =>
    fails_bind_says never_popAddress fun addr _ => fails_bind_says (never_readMemType addr)
      fun tyval _ => writeElemAt_divides tyval addr data idx

theorem opWrarrr_divides : Fails divError opWrarrr s ↔ Says badWriteRange s :=
  fails_bind_says never_popInt fun idx2 _ => fails_bind_says never_popInt fun idx1 _ =>
    fails_bind_says never_popData fun data _ => fails_bind_says never_popAddress fun addr _ =>
      fails_bind_says (never_readMemType addr) fun tyval _ =>
        writeRangeAt_divides tyval addr data idx1 idx2

theorem andGoOn_divides {x : VMM Unit} : Fails divError (andGoOn x) s ↔ Fails divError x s :=
  fails_bind_left fun _ => Never.pure _

/-- an instruction without divisions -/
theorem andGoOn_spares {x : VMM Unit} (hx : Never divError x) :
    Fails divError (andGoOn x) s ↔ Says (pure false : VMM Bool) s :=
  fails_says_false (Never.bind hx fun _ => Never.pure _) rfl

variable [MathLib TReal] [LibThrows TReal]

theorem arithMixed_spares {op : ArithOp} {x y : TData} {r : Res TData}
    (h : arithMixed op x y = some r) : op.divides = false ∧ r ≠ .error divError := by
  unfold arithMixed at h
  split at h
  · cases h
    exact ⟨rfl, (LibThrows.realVec.inner _ _).ne _⟩
  · cases h
    exact ⟨rfl, ((LibThrows.intVec (R := TReal)).inner _ _).ne _⟩
  · cases h
    exact ⟨rfl, (LibThrows.cplxVec.inner _ _).ne _⟩
  · cases h
    exact ⟨rfl, (LibThrows.quatVec.inner _ _).ne _⟩
  · cases h
    exact ⟨rfl, (LibThrows.realVec.scale _ _).ne _⟩
  · cases h
    exact ⟨rfl, (LibThrows.realVec.scale _ _).ne _⟩
  · cases h
    exact ⟨rfl, ((LibThrows.intVec (R := TReal)).scale _ _).ne _⟩
  · cases h
    exact ⟨rfl, ((LibThrows.intVec (R := TReal)).scale _ _).ne _⟩
  · cases h
    exact ⟨rfl, (LibThrows.cplxVec.scale _ _).ne _⟩
  · cases h
    exact ⟨rfl, (LibThrows.cplxVec.scale _ _).ne _⟩
  · cases h
    exact ⟨rfl, (LibThrows.quatVec.scale _ _).ne _⟩
  · cases h
    exact ⟨rfl, (LibThrows.quatVec.scale _ _).ne _⟩
  · cases h
    exact ⟨rfl, (LibThrows.quatRotate _ _).ne _⟩
  · cases h
    exact ⟨rfl, nofun⟩
  · cases h
    exact ⟨rfl, nofun⟩
  · cases h

theorem arithSameType_divides {op : ArithOp} {x y : TData} {r : Res TData}
    (h : arithSameType op x y = some r) :
    r = .error divError ↔ (op.divides && badOperands x y) = true := by
  have hno {r : Res TData} (hr : r ≠ .error divError) :
      r = .error divError ↔ (op.divides && false) = true := by
    rw [Bool.and_false]
    exact iff_of_false hr Bool.false_ne_true
  unfold arithSameType at h
  split at h
  · cases h
    exact hno nofun
  · next a b =>
    cases h
    rw [badOperands, ← intArith_divides]
    cases intArith op a b with
    | ok k => exact iff_of_false nofun nofun
    | error e => simp [Except.map]
  · cases h
    exact hno nofun
  · cases h
    exact hno nofun
  · cases h
    exact hno nofun
  · cases h
    exact hno (vecArith_spares LibThrows.realVec _ _ _ _)
  · cases h
    exact hno (vecArith_spares (LibThrows.intVec (R := TReal)) _ _ _ _)
  · cases h
    exact hno (vecArith_spares LibThrows.cplxVec _ _ _ _)
  · cases h
    exact hno (vecArith_spares LibThrows.quatVec _ _ _ _)
  · cases h

/-- **An operator** divides out of the domain for integers with no quotient only. -/
theorem arithmetic_divides (op : ArithOp) (x y : TData) :
    arithmetic op x y = .error divError ↔ (op.divides && badOperands x y) = true := by
  unfold arithmetic
  cases hm : arithMixed op x y with
  | some r =>
    obtain ⟨ho, hr⟩ := arithMixed_spares hm
    rw [ho]
    exact iff_of_false hr Bool.false_ne_true
  | none =>
    cases hs : arithSameType op x y with
    | some r => exact arithSameType_divides hs
    | none =>
      refine iff_of_false nofun fun hb => ?_
      -- two integers have operations
      rw [Bool.and_eq_true_iff] at hb
      cases x <;> cases y <;> first | exact absurd hb.2 Bool.false_ne_true | cases hs

theorem arith_divides {op : ArithOp} (h : op.divides = true) :
    Fails divError (opBinary (arithmetic op)) s ↔ Says badDiv s := by
  apply opBinary_divides
  intro x y
  rw [arithmetic_divides, h, Bool.true_and]

theorem arith_spares {op : ArithOp} (h : op.divides = false) :
    Never divError (opBinary (arithmetic op)) := by
  apply opBinary_spares
  intro x y
  rw [ne_eq, arithmetic_divides, h]
  exact Bool.false_ne_true

/-- **An instruction** divides out of the domain of the division as its operands say. -/
theorem execOp_divides (op : Option OpCode) : Fails divError (execOp op) s ↔ Says (badOp op) s := by
  cases op with
  | none => exact fails_says_false (Never.pure _) rfl
  | some op =>
    cases op with
    | div => exact andGoOn_divides.trans (arith_divides rfl)
    | mod => exact andGoOn_divides.trans (arith_divides rfl)
    | rdarr => exact andGoOn_divides.trans opRdarr_divides
    | rdarrr => exact andGoOn_divides.trans opRdarrr_divides
    | wrarr => exact andGoOn_divides.trans opWrarr_divides
    | wrarrr => exact andGoOn_divides.trans opWrarrr_divides
    | halt => exact fails_says_false (Never.pure _) rfl
    | nop => exact fails_says_false (Never.pure _) rfl
    | invalid => exact fails_says_false (Never.pure _) rfl
    | push => exact andGoOn_spares never_opPush
    | wrmem => exact andGoOn_spares never_opWrmem
    | rdmem => exact andGoOn_spares never_opRdmem
    | makerealarr => exact andGoOn_spares (never_opMakeArr _)
    | makeintarr => exact andGoOn_spares (never_opMakeArr _)
    | makecplxarr => exact andGoOn_spares (never_opMakeArr _)
    | makequatarr => exact andGoOn_spares (never_opMakeArr _)
    | usub => exact andGoOn_spares never_opUsub
    | add => exact andGoOn_spares (arith_spares rfl)
    | sub => exact andGoOn_spares (arith_spares rfl)
    | mul => exact andGoOn_spares (arith_spares rfl)
    | pow => exact andGoOn_spares (arith_spares rfl)
    | matmul => exact andGoOn_spares never_opMatrixMultiplication
    | and => exact andGoOn_spares (never_opLogical _)
    | or => exact andGoOn_spares (never_opLogical _)
    | xor => exact andGoOn_spares (never_opLogical _)
    | not => exact andGoOn_spares never_opNot
    | gt => exact andGoOn_spares (never_opComparison _)
    | lt => exact andGoOn_spares (never_opComparison _)
    | gequ => exact andGoOn_spares (never_opComparison _)
    | lequ => exact andGoOn_spares (never_opComparison _)
    | equ => exact andGoOn_spares (never_opComparison _)
    | nequ => exact andGoOn_spares (never_opComparison _)
    | binand => exact andGoOn_spares (opBinary_spares (binary_spares _))
    | binor => exact andGoOn_spares (opBinary_spares (binary_spares _))
    | binxor => exact andGoOn_spares (opBinary_spares (binary_spares _))
    | binnot => exact andGoOn_spares never_opBinNot
    | shl => exact andGoOn_spares (opBinary_spares (binary_spares _))
    | shr => exact andGoOn_spares (opBinary_spares (binary_spares _))
    | rotl => exact andGoOn_spares (opBinary_spares (binary_spares _))
    | rotr => exact andGoOn_spares (opBinary_spares (binary_spares _))
    | tor => exact andGoOn_spares (never_opCast _)
    | toi => exact andGoOn_spares (never_opCast _)
    | toc => exact andGoOn_spares (never_opCast _)
    | toq => exact andGoOn_spares (never_opCast _)
    | tob => exact andGoOn_spares (never_opCast _)
    | tos => exact andGoOn_spares (never_opCast _)
    | torealarr => exact andGoOn_spares (never_opToArr _)
    | tointarr => exact andGoOn_spares (never_opToArr _)
    | tocplxarr => exact andGoOn_spares (never_opToArr _)
    | toquatarr => exact andGoOn_spares (never_opToArr _)
    | jmp => exact andGoOn_spares never_opJmp
    | jmpcnd => exact andGoOn_spares never_opJmpcnd
    | call => exact andGoOn_spares never_opCall
    | ret => exact andGoOn_spares never_opRet
    | extcall => exact andGoOn_spares never_opExtcall
    | addframe => exact andGoOn_spares never_opAddframe
    | remframe => exact andGoOn_spares never_opRemframe

/-- **A turn** divides out of the domain of the division as the next instruction and its operands
say. -/
theorem step_divides : Fails divError step s ↔ Says badStep s := by
  refine fails_bind_says never_checkPointerBounds fun _ _ => ?_
  refine fails_bind_says never_fetch fun op _ => ?_
  rw [fails_bind_left, execOp_divides]
  intro status
  exact Never.ite (Never.pure _) (Never.bind never_wrapIp fun _ => Never.pure _)

end

section
variable [MathLib TReal]

/-- turns of the main loop, with interrupts that are requested between them -/
def VM.Reaches (s t : VM) : Prop :=
  Relation.ReflTransGen (fun s t => step.run s = .ok .running t ∨
    ∃ num, t = s.requestInterrupt num) s t

/-- a run ends with an integer division out of its domain -/
def VM.StopsByDivision (s : VM) : Prop := ∃ u, s.Reaches u ∧ Fails divError step u

/-- **A run** divides out of the domain of the division only where the next instruction and its
operands say so. -/
theorem VM.not_stops_iff [LibThrows TReal] (s : VM) :
    ¬ s.StopsByDivision ↔ ∀ u, s.Reaches u → ¬ Says badStep u := by
  constructor
  · intro h u hu hb
    exact h ⟨u, hu, step_divides.2 hb⟩
  · rintro h ⟨u, hu, hd⟩
    exact h u hu (step_divides.1 hd)

end

end MuF
