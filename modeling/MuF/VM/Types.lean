import MuF.Base.Bytes

/-!
# Data of the virtual machine

* `VMType`, `OpCode`: the type descriptor bytes and the instruction bytes;
* `Raw`: fixed-width values with their memory bytes;
* `Data`: the data that instructions work on (`t_data`), `Data.bytes` their descriptor-prefixed
  encoding and `Data.size` its length.
-/

set_option linter.unusedVariables false

namespace MuF

open Bytes

/-! ## descriptors -/

/-- data type descriptors -/
inductive VMType
  | unknown
  | real | int | cplx | quat | bool | str
  | realArr | intArr | cplxArr | quatArr
  | addrMem | addrIp | addrSp | addrBp | addrGbp
  deriving DecidableEq, Repr

/-- descriptor byte -/
def VMType.code : VMType → UInt8
  | .unknown => 0x00
  | .real => 0x01
  | .int => 0x02
  | .cplx => 0x03
  | .quat => 0x04
  | .bool => 0x05
  | .str => 0x06
  | .realArr => 0x11
  | .intArr => 0x12
  | .cplxArr => 0x13
  | .quatArr => 0x14
  | .addrMem => 0x20
  | .addrIp => 0x21
  | .addrSp => 0x22
  | .addrBp => 0x23
  | .addrGbp => 0x24

/-- the enumerator of a descriptor byte, if it has one -/
def VMType.ofCode : UInt8 → Option VMType
  | 0x00 => some .unknown
  | 0x01 => some .real
  | 0x02 => some .int
  | 0x03 => some .cplx
  | 0x04 => some .quat
  | 0x05 => some .bool
  | 0x06 => some .str
  | 0x11 => some .realArr
  | 0x12 => some .intArr
  | 0x13 => some .cplxArr
  | 0x14 => some .quatArr
  | 0x20 => some .addrMem
  | 0x21 => some .addrIp
  | 0x22 => some .addrSp
  | 0x23 => some .addrBp
  | 0x24 => some .addrGbp
  | _ => none

@[simp] theorem VMType.ofCode_code (ty : VMType) : VMType.ofCode ty.code = some ty := by
  cases ty <;> rfl

/-- `get_vm_type_name` -/
def VMType.name : VMType → String
  | .unknown => "unknown"
  | .real => "real"
  | .int => "integer"
  | .cplx => "complex"
  | .quat => "quaternion"
  | .bool => "bool"
  | .str => "string"
  | .realArr => "array_real"
  | .intArr => "array_integer"
  | .cplxArr => "array_complex"
  | .quatArr => "<unknown>"
  | .addrMem => "absolute address"
  | .addrIp => "address relative to ip"
  | .addrSp => "address relative to sp"
  | .addrBp => "address relative to bp"
  | .addrGbp => "address relative to gbp"

/-- name of a descriptor byte read from memory -/
def vmTypeName (b : UInt8) : String :=
  match VMType.ofCode b with
  | some ty => ty.name
  | none => "<unknown>"

/-- the descriptors of address data -/
def VMType.isAddr : VMType → Bool
  | .addrMem | .addrIp | .addrSp | .addrBp | .addrGbp => true
  | _ => false

/-! ## instructions -/

/-- instructions -/
inductive OpCode
  | halt | nop | invalid
  | push | wrmem | rdmem
  | usub | add | sub | mul | div | mod | pow | matmul
  | tor | toi | toc | toq | tob | tos
  | torealarr | tointarr | tocplxarr | toquatarr
  | jmp | jmpcnd
  | and | or | xor | not
  | gt | lt | gequ | lequ | equ | nequ
  | call | ret | extcall | addframe | remframe
  | binand | binor | binxor | binnot | shl | shr | rotl | rotr
  | makerealarr | makeintarr | makecplxarr | makequatarr
  | rdarr | rdarrr | wrarr | wrarrr
  deriving DecidableEq, Repr

/-- instruction byte -/
def OpCode.code : OpCode → UInt8
  | .halt => 0x00
  | .nop => 0x01
  | .invalid => 0x02
  | .push => 0x10
  | .wrmem => 0x11
  | .rdmem => 0x12
  | .usub => 0x20
  | .add => 0x21
  | .sub => 0x22
  | .mul => 0x23
  | .div => 0x24
  | .mod => 0x25
  | .pow => 0x26
  | .matmul => 0x27
  | .tor => 0x31
  | .toi => 0x32
  | .toc => 0x33
  | .toq => 0x34
  | .tob => 0x35
  | .tos => 0x36
  | .torealarr => 0x41
  | .tointarr => 0x42
  | .tocplxarr => 0x43
  | .toquatarr => 0x44
  | .jmp => 0x50
  | .jmpcnd => 0x51
  | .and => 0x60
  | .or => 0x61
  | .xor => 0x62
  | .not => 0x63
  | .gt => 0x70
  | .lt => 0x71
  | .gequ => 0x72
  | .lequ => 0x73
  | .equ => 0x74
  | .nequ => 0x75
  | .call => 0x80
  | .ret => 0x81
  | .extcall => 0x82
  | .addframe => 0x85
  | .remframe => 0x86
  | .binand => 0x90
  | .binor => 0x91
  | .binxor => 0x92
  | .binnot => 0x93
  | .shl => 0x94
  | .shr => 0x95
  | .rotl => 0x96
  | .rotr => 0x97
  | .makerealarr => 0xa1
  | .makeintarr => 0xa2
  | .makecplxarr => 0xa3
  | .makequatarr => 0xa4
  | .rdarr => 0xb0
  | .rdarrr => 0xb1
  | .wrarr => 0xb4
  | .wrarrr => 0xb5

/-- the instruction of a byte, if it is one -/
def OpCode.ofCode : UInt8 → Option OpCode
  | 0x00 => some .halt
  | 0x01 => some .nop
  | 0x02 => some .invalid
  | 0x10 => some .push
  | 0x11 => some .wrmem
  | 0x12 => some .rdmem
  | 0x20 => some .usub
  | 0x21 => some .add
  | 0x22 => some .sub
  | 0x23 => some .mul
  | 0x24 => some .div
  | 0x25 => some .mod
  | 0x26 => some .pow
  | 0x27 => some .matmul
  | 0x31 => some .tor
  | 0x32 => some .toi
  | 0x33 => some .toc
  | 0x34 => some .toq
  | 0x35 => some .tob
  | 0x36 => some .tos
  | 0x41 => some .torealarr
  | 0x42 => some .tointarr
  | 0x43 => some .tocplxarr
  | 0x44 => some .toquatarr
  | 0x50 => some .jmp
  | 0x51 => some .jmpcnd
  | 0x60 => some .and
  | 0x61 => some .or
  | 0x62 => some .xor
  | 0x63 => some .not
  | 0x70 => some .gt
  | 0x71 => some .lt
  | 0x72 => some .gequ
  | 0x73 => some .lequ
  | 0x74 => some .equ
  | 0x75 => some .nequ
  | 0x80 => some .call
  | 0x81 => some .ret
  | 0x82 => some .extcall
  | 0x85 => some .addframe
  | 0x86 => some .remframe
  | 0x90 => some .binand
  | 0x91 => some .binor
  | 0x92 => some .binxor
  | 0x93 => some .binnot
  | 0x94 => some .shl
  | 0x95 => some .shr
  | 0x96 => some .rotl
  | 0x97 => some .rotr
  | 0xa1 => some .makerealarr
  | 0xa2 => some .makeintarr
  | 0xa3 => some .makecplxarr
  | 0xa4 => some .makequatarr
  | 0xb0 => some .rdarr
  | 0xb1 => some .rdarrr
  | 0xb4 => some .wrarr
  | 0xb5 => some .wrarrr
  | _ => none

@[simp] theorem OpCode.ofCode_code (op : OpCode) : OpCode.ofCode op.code = some op := by
  cases op <;> rfl

/-! ## fixed-width values -/

/-- a double, given by its bit pattern -/
structure TReal where
  bits : BitVec 64
  deriving DecidableEq, Repr

/-- complex numbers -/
structure Cplx (R : Type) where
  re : R
  im : R
  deriving DecidableEq, Repr

/-- quaternions -/
structure Quat (R : Type) where
  re : R
  im1 : R
  im2 : R
  im3 : R
  deriving DecidableEq, Repr

/-- values of a fixed number of bytes, with their bytes in memory -/
class Raw (α : Type) where
  /-- `sizeof` -/
  size : Nat
  enc : α → List UInt8
  dec : List UInt8 → α
  length_enc : ∀ x, (enc x).length = size
  dec_enc : ∀ x, dec (enc x) = x

attribute [simp] Raw.length_enc Raw.dec_enc

instance : Raw UInt8 where
  size := 1
  enc b := [b]
  dec bs := bs.headD 0
  length_enc _ := rfl
  dec_enc _ := rfl

/-- bytes of a word of `8 * n` bits -/
def encWord (n : Nat) (x : BitVec (8 * n)) : List UInt8 := toLE n x.toNat

/-- word of `8 * n` bits with the given bytes -/
def decWord (n : Nat) (bs : List UInt8) : BitVec (8 * n) := BitVec.ofNat _ (ofLE bs)

theorem length_encWord (n : Nat) (x : BitVec (8 * n)) : (encWord n x).length = n := by
  simp [encWord]

theorem decWord_encWord (n : Nat) (x : BitVec (8 * n)) : decWord n (encWord n x) = x := by
  have h : x.toNat < 256^n := by
    have e : (256 : Nat)^n = 2^(8 * n) := by rw [Nat.pow_mul]
    rw [e]
    exact x.isLt
  rw [decWord, encWord, ofLE_toLE _ _ h]
  simp

instance : Raw Int32 where
  size := 4
  enc x := encWord 4 x.toBitVec
  dec bs := Int32.ofBitVec (decWord 4 bs)
  length_enc _ := length_encWord 4 _
  dec_enc x := by rw [decWord_encWord]; rfl

instance : Raw Int64 where
  size := 8
  enc x := encWord 8 x.toBitVec
  dec bs := Int64.ofBitVec (decWord 8 bs)
  length_enc _ := length_encWord 8 _
  dec_enc x := by rw [decWord_encWord]; rfl

instance : Raw TReal where
  size := 8
  enc x := encWord 8 x.bits
  dec bs := ⟨decWord 8 bs⟩
  length_enc _ := length_encWord 8 _
  dec_enc x := by rw [decWord_encWord]

instance : Raw (Cplx TReal) where
  size := 16
  enc x := Raw.enc x.re ++ Raw.enc x.im
  dec bs := ⟨Raw.dec (bs.take 8), Raw.dec (bs.drop 8)⟩
  length_enc x := by simp [Raw.size]
  dec_enc x := by
    have h (r : TReal) : (Raw.enc r).length = 8 := Raw.length_enc r
    rw [List.take_left' (h _), List.drop_left' (h _), Raw.dec_enc, Raw.dec_enc]

instance : Raw (Quat TReal) where
  size := 32
  enc x := (Raw.enc x.re ++ Raw.enc x.im1) ++ (Raw.enc x.im2 ++ Raw.enc x.im3)
  dec bs := ⟨Raw.dec ((bs.take 16).take 8), Raw.dec ((bs.take 16).drop 8),
    Raw.dec ((bs.drop 16).take 8), Raw.dec ((bs.drop 16).drop 8)⟩
  length_enc x := by simp [Raw.size]
  dec_enc x := by
    have h (r : TReal) : (Raw.enc r).length = 8 := Raw.length_enc r
    have h2 (r s : TReal) : (Raw.enc r ++ Raw.enc s).length = 16 := by simp [h]
    rw [List.take_left' (h2 _ _), List.drop_left' (h2 _ _), List.take_left' (h _),
      List.drop_left' (h _), List.take_left' (h _), List.drop_left' (h _)]
    simp

@[simp] theorem size_uint8 : Raw.size UInt8 = 1 := rfl
@[simp] theorem size_int32 : Raw.size Int32 = 4 := rfl
@[simp] theorem size_int64 : Raw.size Int64 = 8 := rfl
@[simp] theorem size_treal : Raw.size TReal = 8 := rfl
@[simp] theorem size_cplx : Raw.size (Cplx TReal) = 16 := rfl
@[simp] theorem size_quat : Raw.size (Quat TReal) = 32 := rfl
@[simp] theorem enc_uint8 (b : UInt8) : Raw.enc b = [b] := rfl

/-! ## arrays of fixed-width values -/

/-- the elements of an array, one after the other -/
def encElems {E : Type} [Raw E] (v : List E) : List UInt8 := v.flatMap Raw.enc

/-- `n` elements from their bytes -/
def decElems (E : Type) [Raw E] : Nat → List UInt8 → List E
  | 0, _ => []
  | n+1, bs => Raw.dec (bs.take (Raw.size E)) :: decElems E n (bs.drop (Raw.size E))

@[simp] theorem length_encElems {E : Type} [Raw E] (v : List E) :
    (encElems v).length = v.length * Raw.size E := by
  induction v with
  | nil => simp [encElems]
  | cons x v ih =>
    have e : encElems (x :: v) = Raw.enc x ++ encElems v := rfl
    rw [e, List.length_append, ih, Raw.length_enc, List.length_cons]
    ring

theorem decElems_encElems {E : Type} [Raw E] (v : List E) :
    decElems E v.length (encElems v) = v := by
  induction v with
  | nil => rfl
  | cons x v ih =>
    have e : encElems (x :: v) = Raw.enc x ++ encElems v := rfl
    rw [List.length_cons, decElems, e, List.take_left' (Raw.length_enc x),
      List.drop_left' (Raw.length_enc x), Raw.dec_enc, ih]

/-! ## data -/

/-- strings, as their bytes -/
abbrev Str := List UInt8

/-- the bytes of an ASCII text -/
def ascii (s : String) : Str := s.toList.map fun c => c.toNat.toUInt8

/-- the text of a string in a message -/
def Str.text (s : Str) : String := String.ofList (s.map fun c => Char.ofNat c.toNat)

/-- data of all types (`t_data`) -/
inductive Data (R : Type)
  | none
  | real (val : R)
  | int (val : Int64)
  | cplx (val : Cplx R)
  | bool (val : UInt8)
  | addr (val : Int32)
  | realArr (val : List R)
  | intArr (val : List Int64)
  | cplxArr (val : List (Cplx R))
  | str (val : Str)
  | quat (val : Quat R)
  | quatArr (val : List (Quat R))
  deriving DecidableEq, Repr

/-- the data the machine holds in memory -/
abbrev TData := Data TReal

/-- `data.index()` -/
def Data.index {R : Type} : Data R → Nat
  | .none => 0
  | .real _ => 1
  | .int _ => 2
  | .cplx _ => 3
  | .bool _ => 4
  | .addr _ => 5
  | .realArr _ => 6
  | .intArr _ => 7
  | .cplxArr _ => 8
  | .str _ => 9
  | .quat _ => 10
  | .quatArr _ => 11

/-- `GetDataTypeName` -/
def Data.typeName {R : Type} : Data R → String
  | .real _ => VMType.real.name
  | .int _ => VMType.int.name
  | .cplx _ => VMType.cplx.name
  | .bool _ => VMType.bool.name
  | .str _ => VMType.str.name
  | .addr _ => "address"
  | .realArr _ => VMType.realArr.name
  | .intArr _ => VMType.intArr.name
  | .cplxArr _ => VMType.cplxArr.name
  | .none | .quat _ | .quatArr _ => "unknown"

/-- types that occur as array elements, with the array type over them -/
class Elem (E : Type) extends Raw E where
  /-- `GetArraySymbolType` -/
  arrTy : VMType
  /-- trivial and of standard layout: popped elements are zeroed by one `memset` -/
  isPod : Bool
  toData : E → TData
  ofData : TData → Option E
  toArr : List E → TData
  ofArr : TData → Option (List E)

instance : Elem TReal where
  arrTy := .realArr
  isPod := true
  toData := .real
  ofData | .real x => some x | _ => none
  toArr := .realArr
  ofArr | .realArr v => some v | _ => none

instance : Elem Int64 where
  arrTy := .intArr
  isPod := true
  toData := .int
  ofData | .int x => some x | _ => none
  toArr := .intArr
  ofArr | .intArr v => some v | _ => none

instance : Elem (Cplx TReal) where
  arrTy := .cplxArr
  isPod := false
  toData := .cplx
  ofData | .cplx x => some x | _ => none
  toArr := .cplxArr
  ofArr | .cplxArr v => some v | _ => none

instance : Elem (Quat TReal) where
  arrTy := .quatArr
  isPod := false
  toData := .quat
  ofData | .quat x => some x | _ => none
  toArr := .quatArr
  ofArr | .quatArr v => some v | _ => none

/-! ## encoding -/

/-- the descriptor of a datum; address data take the given one -/
def Data.ty (ty : VMType) : TData → VMType
  | .none => .unknown
  | .real _ => .real
  | .int _ => .int
  | .cplx _ => .cplx
  | .bool _ => .bool
  | .addr _ => ty
  | .realArr _ => .realArr
  | .intArr _ => .intArr
  | .cplxArr _ => .cplxArr
  | .str _ => .str
  | .quat _ => .quat
  | .quatArr _ => .quatArr

/-- length-prefixed elements -/
def arrBytes {E : Type} [Raw E] (v : List E) : List UInt8 :=
  Raw.enc (Int32.ofNat v.length) ++ encElems v

/-- the bytes behind the descriptor -/
def Data.payload : TData → List UInt8
  | .none => []
  | .real x => Raw.enc x
  | .int x => Raw.enc x
  | .cplx x => Raw.enc x
  | .bool x => Raw.enc x
  | .addr x => Raw.enc x
  | .realArr v => arrBytes v
  | .intArr v => arrBytes v
  | .cplxArr v => arrBytes v
  | .str s => arrBytes s
  | .quat x => Raw.enc x
  | .quatArr v => arrBytes v

/-- descriptor and payload -/
def Data.bytes (ty : VMType) (d : TData) : List UInt8 := (d.ty ty).code :: d.payload

/-- number of bytes of a datum with its descriptor -/
def Data.size : TData → Nat
  | .none => 1
  | .real _ => 9
  | .int _ => 9
  | .cplx _ => 17
  | .bool _ => 2
  | .addr _ => 5
  | .realArr v => v.length * 8 + 5
  | .intArr v => v.length * 8 + 5
  | .cplxArr v => v.length * 16 + 5
  | .str s => s.length + 5
  | .quat _ => 33
  | .quatArr v => v.length * 32 + 5

@[simp] theorem length_arrBytes {E : Type} [Raw E] (v : List E) :
    (arrBytes v).length = v.length * Raw.size E + 4 := by
  simp [arrBytes]
  omega

@[simp] theorem Data.length_bytes (ty : VMType) (d : TData) : (d.bytes ty).length = d.size := by
  cases d <;> simp [Data.bytes, Data.payload, Data.size]

theorem Data.size_pos (d : TData) : 0 < d.size := by
  cases d <;> simp [Data.size]

/-! ## sizes known to the compiler -/

/-- `vm_type_size` -/
def vmTypeSize (ty : VMType) (withDescr : Bool) : Int32 :=
  let size := match ty with
    | .real | .int => 8
    | .cplx => 16
    | .quat => 32
    | .bool => 1
    | .addrMem | .addrIp | .addrSp | .addrBp | .addrGbp => 4
    | _ => 64
  size + (if withDescr then 1 else 0)

/-- size of `rawLen` elements with their length and descriptor -/
def getVmSeqSize (elemSize rawLen : Int32) (withDescr withLen : Bool) : Int32 :=
  rawLen * elemSize + (if withLen then 4 else 0) + (if withDescr then 1 else 0)

/-- `get_vm_str_size` -/
def getVmStrSize (rawLen : Int32) (withDescr withLen : Bool) : Int32 :=
  getVmSeqSize 1 rawLen withDescr withLen

/-- `get_vm_vec_real_size` -/
def getVmVecRealSize (rawLen : Int32) (withDescr withLen : Bool) : Int32 :=
  getVmSeqSize 8 rawLen withDescr withLen

/-- `get_vm_vec_int_size` -/
def getVmVecIntSize (rawLen : Int32) (withDescr withLen : Bool) : Int32 :=
  getVmSeqSize 8 rawLen withDescr withLen

/-- `get_vm_vec_cplx_size` -/
def getVmVecCplxSize (rawLen : Int32) (withDescr withLen : Bool) : Int32 :=
  getVmSeqSize 16 rawLen withDescr withLen

/-- `get_vm_vec_quat_size` -/
def getVmVecQuatSize (rawLen : Int32) (withDescr withLen : Bool) : Int32 :=
  getVmSeqSize 32 rawLen withDescr withLen

end MuF
