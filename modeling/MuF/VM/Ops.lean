import MuF.VM.Types
import MuF.VM.State

/-!
# Operations on data

The operators of `ops.h` as functions on data, without the stack:

* `MathLib`: floating-point arithmetic, number formatting and the mathematics library, which are
  not part of the program;
* `castData`, `castToArray`, `arithmetic`, `matrixMultiplication`, `binary`, `comparison`.
-/

set_option linter.unusedVariables false

namespace MuF

/-- a result, or how the operation fails -/
abbrev Res (α : Type) := Except Err α

/-! ## the outside -/

/-- operations on arrays of one element type -/
structure VecOps (R E : Type) where
  neg : List E → Res (List E)
  add : List E → List E → Res (List E)
  sub : List E → List E → Res (List E)
  /-- array times scalar -/
  scale : List E → E → Res (List E)
  inner : List E → List E → Res E
  /-- product of two matrices given by rows, columns and elements -/
  matMul : Int64 → Int64 → List E → Int64 → Int64 → List E → Res (List E)
  /-- `m::equals_0`, within the given tolerance -/
  equals0 : E → R → Bool
  /-- `m::equals`, within the given tolerance -/
  equals : List E → List E → R → Bool
  /-- output with the given precision -/
  print : Int64 → E → Str

/-- floating-point arithmetic, number input and output, and the mathematics library -/
class MathLib (R : Type) where
  zero : R
  add : R → R → R
  sub : R → R → R
  mul : R → R → R
  div : R → R → R
  fmod : R → R → R
  pow : R → R → R
  neg : R → R
  abs : R → R
  sqrt : R → R
  sin : R → R
  cos : R → R
  tan : R → R
  lt : R → R → Bool
  le : R → R → Bool
  ofInt : Int64 → R
  /-- conversion to an integer; out of its range it is undefined -/
  toInt : R → Option Int64
  /-- conversion to a byte; out of its range it is undefined -/
  toByte : R → Option UInt8
  /-- extraction from an input stream: success, the value, the characters left -/
  scan : Str → Bool × R × Str
  scanCplx : Str → Cplx R
  scanQuat : Str → Quat R
  cplxMul : Cplx R → Cplx R → Cplx R
  cplxDiv : Cplx R → Cplx R → Cplx R
  cplxPow : Cplx R → Cplx R → Cplx R
  quatOfReal : R → Quat R
  quatNeg : Quat R → Quat R
  quatAdd : Quat R → Quat R → Quat R
  quatSub : Quat R → Quat R → Quat R
  quatMul : Quat R → Quat R → Quat R
  quatDiv : Quat R → Quat R → Quat R
  quatPow : Quat R → R → Quat R
  /-- rotation of a vector by a quaternion -/
  quatRotate : Quat R → List R → Res (List R)
  norm : List R → R
  realVec : VecOps R R
  intVec : VecOps R Int64
  cplxVec : VecOps R (Cplx R)
  quatVec : VecOps R (Quat R)

/-- no operations on arrays -/
def VecOps.absent (R : Type) {E : Type} (zero : E) : VecOps R E :=
  let err {α : Type} : Res α := .error (.throw "no arrays")
  { neg := fun _ => err, add := fun _ _ => err, sub := fun _ _ => err, scale := fun _ _ => err
    inner := fun _ _ => .ok zero, matMul := fun _ _ _ _ _ _ => err, equals0 := fun _ _ => true
    equals := fun _ _ _ => true, print := fun _ _ => [] }

/-- no arithmetic but zero, for programs that use integers and strings only -/
abbrev MathLib.absent {R : Type} (zero : R) : MathLib R :=
  let c : Cplx R := ⟨zero, zero⟩
  let q : Quat R := ⟨zero, zero, zero, zero⟩
  { zero, add := fun _ _ => zero, sub := fun _ _ => zero, mul := fun _ _ => zero
    div := fun _ _ => zero, fmod := fun _ _ => zero, pow := fun _ _ => zero, neg := fun _ => zero
    abs := fun _ => zero, sqrt := fun _ => zero, sin := fun _ => zero, cos := fun _ => zero
    tan := fun _ => zero, lt := fun _ _ => false, le := fun _ _ => true, ofInt := fun _ => zero
    toInt := fun _ => some 0, toByte := fun _ => some 0, scan := fun s => (false, zero, s)
    scanCplx := fun _ => c, scanQuat := fun _ => q, cplxMul := fun _ _ => c
    cplxDiv := fun _ _ => c, cplxPow := fun _ _ => c, quatOfReal := fun _ => q
    quatNeg := fun _ => q, quatAdd := fun _ _ => q, quatSub := fun _ _ => q
    quatMul := fun _ _ => q, quatDiv := fun _ _ => q, quatPow := fun _ _ => q
    quatRotate := fun _ v => .ok v, norm := fun _ => zero, realVec := VecOps.absent R zero
    intVec := VecOps.absent R 0, cplxVec := VecOps.absent R c, quatVec := VecOps.absent R q }

section
variable {R : Type} [MathLib R]

/-- `t_cplx{}` -/
def cplxZero : Cplx R := ⟨MathLib.zero, MathLib.zero⟩

/-- `t_quat{}` -/
def quatZero : Quat R := ⟨MathLib.zero, MathLib.zero, MathLib.zero, MathLib.zero⟩

/-- a real as a complex number -/
def cplxOfReal (x : R) : Cplx R := ⟨x, MathLib.zero⟩

/-! ## text -/

/-- `isspace` -/
def isSpace (c : UInt8) : Bool := c == 32 || (9 ≤ c && c ≤ 13)

/-- the value of decimal digits in front of a text, how many there are, and what follows -/
def scanDigits : Nat → Nat → Str → Nat × Nat × Str
  | val, num, c :: cs =>
    if 48 ≤ c && c ≤ 57 then scanDigits (10 * val + (c.toNat - 48)) (num + 1) cs
    else (val, num, c :: cs)
  | val, num, [] => (val, num, [])

/-- extraction of an integer from an input stream: success, the value, the characters left -/
def scanInt (s : Str) : Bool × Int64 × Str :=
  let s := s.dropWhile isSpace
  let (neg, s) := match s with
    | 45 :: cs => (true, cs)
    | 43 :: cs => (false, cs)
    | cs => (false, cs)
  let (val, num, rest) := scanDigits 0 0 s
  let x : Int := if neg then -val else val
  if num = 0 then (false, 0, rest)
  else if x < Int64.minValue.toInt then (false, Int64.minValue, rest)
  else if x > Int64.maxValue.toInt then (false, Int64.maxValue, rest)
  else (true, Int64.ofInt x, rest)

/-- extraction of a byte: the first character that is no space -/
def scanByte (s : Str) : UInt8 := (s.dropWhile isSpace).headD 0

/-- an integer as text -/
def printInt (x : Int64) : Str := ascii (toString x.toInt)

/-- a real as text; small ones count as zero -/
def printReal (eps : R) (prec : Int64) (x : R) : Str :=
  MathLib.realVec.print prec
    (if MathLib.realVec.equals0 x eps then MathLib.zero else x)

/-- the elements of an array as text; small ones count as zero -/
def printArr {E : Type} (ops : VecOps R E) (zero : E) (eps : R) (prec : Int64) (v : List E) :
    Str :=
  let elems := v.map fun x => ops.print prec (if ops.equals0 x eps then zero else x)
  ascii "[ " ++ (ascii ", ").intercalate elems ++ ascii " ]"

/-! ## casts -/

/-- `OpCast` on a datum: the datum that replaces it, `none` if it stays -/
def castData (eps : R) (prec : Int64) (tgt : VMType) (data : Data R) : Res (Option (Data R)) :=
  let invalid (what name : String) : Res (Option (Data R)) :=
    .error (.throw s!"Invalid cast from {what} to {name}.")
  -- names by the type index, which is the default one for quaternions
  let tgtName := if tgt = .quat then "unknown" else tgt.name
  match data with
  | .real x =>
    match tgt with
    | .real => .ok none
    | .str => .ok (some (.str (printReal eps prec x)))
    | .int => match MathLib.toInt x with
      | some i => .ok (some (.int i))
      | none => .error (.ub "conversion out of range")
    | .bool => match MathLib.toByte x with
      | some b => .ok (some (.bool b))
      | none => .error (.ub "conversion out of range")
    | .cplx => .ok (some (.cplx (cplxOfReal x)))
    | .quat => .ok (some (.quat (MathLib.quatOfReal x)))
    | _ => .ok none
  | .int x =>
    match tgt with
    | .int => .ok none
    | .str => .ok (some (.str (printInt x)))
    | .real => .ok (some (.real (MathLib.ofInt x)))
    | .bool => .ok (some (.bool x.toBitVec.toNat.toUInt8))
    | .cplx => .ok (some (.cplx (cplxOfReal (MathLib.ofInt x))))
    | .quat => .ok (some (.quat (MathLib.quatOfReal (MathLib.ofInt x))))
    | _ => .ok none
  | .cplx x =>
    match tgt with
    | .cplx => .ok none
    | .str => .ok (some (.str (ascii "(" ++ printReal eps prec x.re ++ ascii ", " ++
        printReal eps prec x.im ++ ascii ")")))
    | _ => invalid "complex" tgtName
  | .quat x =>
    match tgt with
    | .quat => .ok none
    | .str => .ok (some (.str (ascii "(" ++ printReal eps prec x.re ++ ascii ", " ++
        printReal eps prec x.im1 ++ ascii ", " ++ printReal eps prec x.im2 ++ ascii ", " ++
        printReal eps prec x.im3 ++ ascii ")")))
    | _ => invalid "complex" tgtName
  | .bool x =>
    let val := x != 0
    let num : Int64 := if val then 1 else 0
    match tgt with
    | .bool => .ok none
    | .str => .ok (some (.str (ascii (if val then "true" else "false"))))
    | .real => .ok (some (.real (MathLib.ofInt num)))
    | .int => .ok (some (.int num))
    | .cplx => .ok (some (.cplx (cplxOfReal (MathLib.ofInt num))))
    | .quat => .ok (some (.quat (MathLib.quatOfReal (MathLib.ofInt num))))
    | _ => .ok none
  | .str x =>
    match tgt with
    | .real => .ok (some (.real (MathLib.scan x).2.1))
    | .int => .ok (some (.int (scanInt x).2.1))
    | .bool => .ok (some (.bool (scanByte x)))
    | .cplx => .ok (some (.cplx (MathLib.scanCplx x)))
    | .quat => .ok (some (.quat (MathLib.scanQuat x)))
    | _ => .ok none
  | .realArr v =>
    if tgt = .str then .ok (some (.str (printArr MathLib.realVec MathLib.zero eps prec v)))
    else invalid "array" tgtName
  | .intArr v =>
    if tgt = .str then .ok (some (.str (printArr MathLib.intVec 0 eps prec v)))
    else invalid "array" tgtName
  | .cplxArr v =>
    if tgt = .str then .ok (some (.str (printArr MathLib.cplxVec cplxZero eps prec v)))
    else invalid "array" tgtName
  | .quatArr v =>
    if tgt = .str then .ok (some (.str (printArr MathLib.quatVec quatZero eps prec v)))
    else invalid "array" tgtName
  | .none | .addr _ => .ok none

/-- every element set to `x`; the size is a `size_t` for the container -/
def createArr {E : Type} (size : Int32) (x : Res E) : Res (List E) :=
  if size < 0 then .error (.throw "length_error")
  else if size = 0 then .ok []
  else x.map (List.replicate size.toInt.toNat)

/-- `OpCastToArray` on a datum: the datum that replaces it, `none` if it stays -/
def castToArray (tgt : VMType) (size : Int32) (data : Data R) : Res (Option (Data R)) :=
  let tgtName := if tgt = .quatArr then "unknown" else tgt.name
  let invalid : Res (Option (Data R)) :=
    .error (.throw s!"Invalid cast from {data.typeName} to {tgtName}.")
  let toInt (x : R) : Res Int64 := match MathLib.toInt x with
    | some i => .ok i
    | none => .error (.ub "conversion out of range")
  match tgt, data with
  | .realArr, .realArr _ | .intArr, .intArr _ | .cplxArr, .cplxArr _ | .quatArr, .quatArr _ =>
    .ok none
  | .realArr, .real x => (createArr size (.ok x)).map (some ∘ .realArr)
  | .intArr, .real x => (createArr size (toInt x)).map (some ∘ .intArr)
  | .cplxArr, .real x => (createArr size (.ok (cplxOfReal x))).map (some ∘ .cplxArr)
  | .quatArr, .real x => (createArr size (.ok (MathLib.quatOfReal x))).map (some ∘ .quatArr)
  | .realArr, .int x => (createArr size (.ok (MathLib.ofInt x))).map (some ∘ .realArr)
  | .intArr, .int x => (createArr size (.ok x)).map (some ∘ .intArr)
  | .cplxArr, .int x =>
    (createArr size (.ok (cplxOfReal (MathLib.ofInt x)))).map (some ∘ .cplxArr)
  | .quatArr, .int x =>
    (createArr size (.ok (MathLib.quatOfReal (MathLib.ofInt x)))).map (some ∘ .quatArr)
  | .cplxArr, .cplx x => (createArr size (.ok x)).map (some ∘ .cplxArr)
  | .quatArr, .quat x => (createArr size (.ok x)).map (some ∘ .quatArr)
  | _, _ => invalid

/-! ## arithmetic -/

/-- arithmetic operators -/
inductive ArithOp
  | add | sub | mul | div | mod | pow
  deriving DecidableEq, Repr

/-- the product of `r` with `num` factors `a` -/
def powLoop (a : Int64) : Int64 → Nat → Int64
  | r, 0 => r
  | r, num+1 => powLoop a (r * a) num

/-- `power` of integers -/
def intPower (a b : Int64) : Int64 :=
  if b = 0 then 1
  else if b < 0 then 0
  else powLoop a a (b.toInt.toNat - 1)

/-- an integer division with no result -/
def divError : Err := .ub "integer division"

/-- integer arithmetic; a division with no representable result is undefined -/
def intArith (op : ArithOp) (a b : Int64) : Res Int64 :=
  match op with
  | .add => .ok (a + b)
  | .sub => .ok (a - b)
  | .mul => .ok (a * b)
  | .div =>
    if b = 0 ∨ (a = Int64.minValue ∧ b = -1) then .error divError else .ok (a / b)
  | .mod =>
    if b = 0 ∨ (a = Int64.minValue ∧ b = -1) then .error divError else .ok (a % b)
  | .pow => .ok (intPower a b)

/-- real arithmetic -/
def realArith (op : ArithOp) (a b : R) : R :=
  match op with
  | .add => MathLib.add a b
  | .sub => MathLib.sub a b
  | .mul => MathLib.mul a b
  | .div => MathLib.div a b
  | .mod => MathLib.fmod a b
  | .pow => MathLib.pow a b

/-- complex arithmetic; operators that are missing give the default value -/
def cplxArith (op : ArithOp) (a b : Cplx R) : Cplx R :=
  match op with
  | .add => ⟨MathLib.add a.re b.re, MathLib.add a.im b.im⟩
  | .sub => ⟨MathLib.sub a.re b.re, MathLib.sub a.im b.im⟩
  | .mul => MathLib.cplxMul a b
  | .div => MathLib.cplxDiv a b
  | .pow => MathLib.cplxPow a b
  | .mod => cplxZero

/-- quaternion arithmetic; operators that are missing give the default value -/
def quatArith (op : ArithOp) (a b : Quat R) : Quat R :=
  match op with
  | .add => MathLib.quatAdd a b
  | .sub => MathLib.quatSub a b
  | .mul => MathLib.quatMul a b
  | .div => MathLib.quatDiv a b
  | .mod | .pow => quatZero

/-- array arithmetic; operators that are missing give the default value -/
def vecArith {E : Type} (ops : VecOps R E) (op : ArithOp) (a b : List E) : Res (List E) :=
  match op with
  | .add => ops.add a b
  | .sub => ops.sub a b
  | _ => .ok []

/-- string arithmetic; operators that are missing give the default value -/
def strArith (op : ArithOp) (a b : Str) : Str :=
  match op with
  | .add => a ++ b
  | _ => []

/-- `OpArithmeticSameType` by type; `none` if there is no such operation -/
def arithSameType (op : ArithOp) (val1 val2 : Data R) : Option (Res (Data R)) :=
  match val1, val2 with
  | .real a, .real b => some (.ok (.real (realArith op a b)))
  | .int a, .int b => some ((intArith op a b).map .int)
  | .cplx a, .cplx b => some (.ok (.cplx (cplxArith op a b)))
  | .quat a, .quat b => some (.ok (.quat (quatArith op a b)))
  | .str a, .str b => some (.ok (.str (strArith op a b)))
  | .realArr a, .realArr b => some ((vecArith MathLib.realVec op a b).map .realArr)
  | .intArr a, .intArr b => some ((vecArith (MathLib.intVec (R := R)) op a b).map .intArr)
  | .cplxArr a, .cplxArr b => some ((vecArith MathLib.cplxVec op a b).map .cplxArr)
  | .quatArr a, .quatArr b => some ((vecArith MathLib.quatVec op a b).map .quatArr)
  | _, _ => none

/-- products and powers of mixed types; `none` if there is no such operation -/
def arithMixed (op : ArithOp) (val1 val2 : Data R) : Option (Res (Data R)) :=
  match op, val1, val2 with
  | .mul, .realArr a, .realArr b => some ((MathLib.realVec.inner a b).map .real)
  | .mul, .intArr a, .intArr b => some (((MathLib.intVec (R := R)).inner a b).map .int)
  | .mul, .cplxArr a, .cplxArr b => some ((MathLib.cplxVec.inner a b).map .cplx)
  | .mul, .quatArr a, .quatArr b => some ((MathLib.quatVec.inner a b).map .quat)
  | .mul, .realArr a, .real b | .mul, .real b, .realArr a =>
    some ((MathLib.realVec.scale a b).map .realArr)
  | .mul, .intArr a, .int b | .mul, .int b, .intArr a =>
    some (((MathLib.intVec (R := R)).scale a b).map .intArr)
  | .mul, .cplxArr a, .cplx b | .mul, .cplx b, .cplxArr a =>
    some ((MathLib.cplxVec.scale a b).map .cplxArr)
  | .mul, .quatArr a, .quat b | .mul, .quat b, .quatArr a =>
    some ((MathLib.quatVec.scale a b).map .quatArr)
  | .mul, .quat a, .realArr b => some ((MathLib.quatRotate a b).map .realArr)
  | .pow, .quat a, .real b => some (.ok (.quat (MathLib.quatPow a b)))
  | .pow, .quat a, .int b => some (.ok (.quat (MathLib.quatPow a (MathLib.ofInt b))))
  | _, _, _ => none

/-- `OpArithmetic` -/
def arithmetic (op : ArithOp) (val1 val2 : Data R) : Res (Data R) :=
  match arithMixed op val1 val2 with
  | some res => res
  | none => match arithSameType op val1 val2 with
    | some res => res
    | none => .error (.throw (s!"Unknown arithmetic operation. Types: {val1.typeName}, " ++
        s!"{val2.typeName}."))

/-- unary minus -/
def negate (val : Data R) : Res (Data R) :=
  match val with
  | .real x => .ok (.real (MathLib.neg x))
  | .int x => .ok (.int (-x))
  | .cplx x => .ok (.cplx ⟨MathLib.neg x.re, MathLib.neg x.im⟩)
  | .quat x => .ok (.quat (MathLib.quatNeg x))
  | .realArr v => (MathLib.realVec.neg v).map .realArr
  | .intArr v => ((MathLib.intVec (R := R)).neg v).map .intArr
  | .cplxArr v => (MathLib.cplxVec.neg v).map .cplxArr
  | .quatArr v => (MathLib.quatVec.neg v).map .quatArr
  | _ => .error (.throw "Type mismatch in arithmetic operation.")

/-- `OpMatrixMultiplication`, with no value for types without matrices -/
def matrixMultiplication (rows1 cols1 rows2 cols2 : Int64) (val1 val2 : Data R) : Res (Data R) :=
  match val1, val2 with
  | .realArr a, .realArr b => (MathLib.realVec.matMul rows1 cols1 a rows2 cols2 b).map .realArr
  | .intArr a, .intArr b =>
    ((MathLib.intVec (R := R)).matMul rows1 cols1 a rows2 cols2 b).map .intArr
  | .cplxArr a, .cplxArr b => (MathLib.cplxVec.matMul rows1 cols1 a rows2 cols2 b).map .cplxArr
  | _, _ => .ok .none

/-! ## logical and binary operators, comparisons -/

/-- logical operators -/
inductive LogicOp
  | and | or | xor
  deriving DecidableEq, Repr

/-- `OpLogical` on the operands -/
def logical (op : LogicOp) (val1 val2 : Bool) : Bool :=
  match op with
  | .and => val1 && val2
  | .or => val1 || val2
  | .xor => val1 ^^ val2

/-- binary operators -/
inductive BinOp
  | and | or | xor | shl | shr | rotl | rotr
  deriving DecidableEq, Repr

/-- `OpBinarySameType` of integers; shifts by 64 or more bits are undefined -/
def intBinary (op : BinOp) (a b : Int64) : Res Int64 :=
  let rot := (b.toInt % 64).toNat
  match op with
  | .and => .ok (a &&& b)
  | .or => .ok (a ||| b)
  | .xor => .ok (a ^^^ b)
  | .shl => if b < 0 ∨ 64 ≤ b then .error (.ub "shift") else .ok (a <<< b)
  | .shr => if b < 0 ∨ 64 ≤ b then .error (.ub "shift") else .ok (a >>> b)
  | .rotl => .ok (Int64.ofBitVec (a.toBitVec.rotateLeft rot))
  | .rotr => .ok (Int64.ofBitVec (a.toBitVec.rotateRight rot))

/-- `OpBinary` -/
def binary (op : BinOp) (val1 val2 : Data R) : Res (Data R) :=
  if val1.index ≠ val2.index then
    .error (.throw (s!"Type mismatch in binary operation. Types: {val1.typeName}, " ++
      s!"{val2.typeName}."))
  else match val1, val2 with
    | .int a, .int b => (intBinary op a b).map .int
    | _, _ => .error (.throw "Invalid type in binary operation.")

/-- comparison operators -/
inductive CompOp
  | gt | lt | gequ | lequ | equ | nequ
  deriving DecidableEq, Repr

/-- comparison of integers -/
def intComp (op : CompOp) (a b : Int64) : Bool :=
  match op with
  | .gt => a > b
  | .lt => a < b
  | .gequ => a ≥ b
  | .lequ => a ≤ b
  | .equ => a == b
  | .nequ => a != b

/-- comparison of reals; equality is up to `eps` -/
def realComp (eps : R) (op : CompOp) (a b : R) : Bool :=
  match op with
  | .gt => MathLib.lt b a
  | .lt => MathLib.lt a b
  | .gequ => MathLib.le b a
  | .lequ => MathLib.le a b
  | .equ => MathLib.le (MathLib.abs (MathLib.sub a b)) eps
  | .nequ => MathLib.lt eps (MathLib.abs (MathLib.sub a b))

/-- comparison of values that are only equal or not; the others are false -/
def equComp (op : CompOp) (eq : Bool) : Bool :=
  match op with
  | .equ => eq
  | .nequ => !eq
  | _ => false

/-- `OpComparison` -/
def comparison (eps : R) (op : CompOp) (val1 val2 : Data R) : Res Bool :=
  if val1.index ≠ val2.index then
    .error (.throw (s!"Type mismatch in comparison operation. Types: {val1.typeName}, " ++
      s!"{val2.typeName}."))
  else match val1, val2 with
    | .real a, .real b => .ok (realComp eps op a b)
    | .int a, .int b => .ok (intComp op a b)
    | .str a, .str b => .ok (equComp op (a == b))
    | .realArr a, .realArr b => .ok (equComp op (MathLib.realVec.equals a b eps))
    | .intArr a, .intArr b => .ok (equComp op (MathLib.intVec.equals a b eps))
    | _, _ => .error (.throw "Invalid type in comparison operation.")

/-- `safe_array_index` of integers of `w` bits -/
def safeArrayIndex (w : Nat) (idx size : Int) : Res Int :=
  if size = 0 ∨ (size = -1 ∧ idx = -2^(w - 1)) then .error divError
  else
    let r := idx.tmod size
    let r := if r < 0 then r + size else r
    if r ≥ size ∨ r < 0 then .error (.throw "Array index out of bounds.") else .ok r

end

end MuF
