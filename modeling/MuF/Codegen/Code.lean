import MuF.Base.Layout
import MuF.Codegen.State

/-!
# Code as a sequence of instructions

* `Instr`, `decode`: linear decoding of a program up to the first `HALT`;
* `Piece`, `code`: what the code generator emits in one go, a plain instruction or an address
  relative to the instruction pointer together with the instruction that uses it;
* `Ext`: code that was only appended to and whose addresses were only filled in;
* `Framed`: every jump lands at the start of a piece or is still to be filled in.
-/

set_option linter.unusedVariables false

namespace MuF

open Layout

/-! ## instructions -/

/-- instructions with their operands -/
inductive Instr
  | op (op : OpCode)
  | push (ty : VMType) (operand : List UInt8)
  deriving DecidableEq, Repr

def Instr.bytes : Instr → List UInt8
  | .op o => [o.code]
  | .push ty operand => OpCode.push.code :: ty.code :: operand

def Instr.size (i : Instr) : Nat := i.bytes.length

theorem Instr.size_pos (i : Instr) : 0 < i.size := by
  cases i <;> simp [Instr.size, Instr.bytes]

/-- types of operands of a fixed size, with their size -/
def VMType.fixedSize : VMType → Option Nat
  | .real | .int => some 8
  | .cplx => some 16
  | .quat => some 32
  | .bool => some 1
  | .addrMem | .addrIp | .addrSp | .addrBp | .addrGbp => some 4
  | _ => none

/-- the size of an operand of `PUSH` of the given type at the head of `bs` -/
def operandSize (ty : VMType) (bs : List UInt8) : Option Nat :=
  match ty with
  | .str => some (4 + (Raw.dec (bs.take 4) : Int32).toInt.toNat)
  | ty => ty.fixedSize

/-- the instruction at the head of the bytes and the bytes behind it -/
def decodeInstr : List UInt8 → Option (Instr × List UInt8)
  | [] => none
  | b :: bs =>
    match OpCode.ofCode b with
    | none | some .invalid => none
    | some .push =>
      match bs with
      | [] => none
      | t :: bs => do
        let ty ← VMType.ofCode t
        let size ← operandSize ty bs
        if size ≤ bs.length then some (.push ty (bs.take size), bs.drop size) else none
    | some op => some (.op op, bs)

/-- the instructions up to the first `HALT` and the bytes behind it -/
def decodeUpTo : Nat → List UInt8 → Option (List Instr × List UInt8)
  | 0, _ => none
  | n+1, bs => do
    let (i, rest) ← decodeInstr bs
    if i = .op .halt then some ([i], rest)
    else do
      let (is, rest) ← decodeUpTo n rest
      some (i :: is, rest)

/-- linear decoding from the first byte on -/
def decode (bs : List UInt8) : Option (List Instr × List UInt8) := decodeUpTo bs.length bs

/-- an instruction with an operand of the right size that the decoding goes on behind -/
def Instr.Ok : Instr → Prop
  | .op o => o ≠ .halt ∧ o ≠ .invalid ∧ o ≠ .push
  | .push ty operand => ty.fixedSize = some operand.length

instance : DecidablePred Instr.Ok
  | .op o => inferInstanceAs (Decidable (o ≠ .halt ∧ o ≠ .invalid ∧ o ≠ .push))
  | .push ty operand => inferInstanceAs (Decidable (ty.fixedSize = some operand.length))

theorem operandSize_eq {ty : VMType} {n : Nat} (h : ty.fixedSize = some n) (bs : List UInt8) :
    operandSize ty bs = some n := by
  cases ty <;> first | exact h | cases h

theorem decodeInstr_op {op : OpCode} (h1 : op ≠ .invalid) (h2 : op ≠ .push) (rest : List UInt8) :
    decodeInstr (op.code :: rest) = some (.op op, rest) := by
  cases op <;> first | rfl | exact absurd rfl h1 | exact absurd rfl h2

theorem decodeInstr_bytes {i : Instr} (h : i.Ok) (rest : List UInt8) :
    decodeInstr (i.bytes ++ rest) = some (i, rest) := by
  cases i with
  | op op => exact decodeInstr_op h.2.1 h.2.2 rest
  | push ty operand =>
    have e : operandSize ty (operand ++ rest) = some operand.length := operandSize_eq h _
    simp [decodeInstr, Instr.bytes, e]

theorem decodeUpTo_bytes {is : List Instr} (h : ∀ i ∈ is, i.Ok) (rest : List UInt8) {n : Nat}
    (hn : is.length < n) :
    decodeUpTo n (is.flatMap Instr.bytes ++ OpCode.halt.code :: rest) =
      some (is ++ [.op .halt], rest) := by
  induction is generalizing n with
  | nil =>
    obtain ⟨n, rfl⟩ : ∃ m, n = m + 1 := ⟨n - 1, by simp at hn; omega⟩
    rfl
  | cons i is ih =>
    obtain ⟨n, rfl⟩ : ∃ m, n = m + 1 := ⟨n - 1, by simp at hn; omega⟩
    have hi : i.Ok := h i List.mem_cons_self
    have hne : i ≠ .op .halt := by
      rintro rfl
      exact hi.1 rfl
    rw [List.flatMap_cons, List.append_assoc, decodeUpTo, decodeInstr_bytes hi]
    simp only [Option.bind_eq_bind, Option.bind_some, if_neg hne]
    rw [ih (fun j hj => h j (List.mem_cons_of_mem _ hj)) (by simpa using hn)]
    rfl

theorem length_le_flatMap_bytes (is : List Instr) :
    is.length ≤ (is.flatMap Instr.bytes).length := by
  induction is with
  | nil => exact Nat.le_refl 0
  | cons i is ih =>
    have := i.size_pos
    rw [List.flatMap_cons, List.length_append, List.length_cons]
    simp only [Instr.size] at this
    omega

/-- **Encoded instructions are decoded again.** -/
theorem decode_bytes {is : List Instr} (h : ∀ i ∈ is, i.Ok) (rest : List UInt8) :
    decode (is.flatMap Instr.bytes ++ OpCode.halt.code :: rest) =
      some (is ++ [.op .halt], rest) := by
  apply decodeUpTo_bytes h
  have := length_le_flatMap_bytes is
  rw [List.length_append, List.length_cons]
  omega

/-! ## pieces -/

/-- jumps and calls, which take an address -/
def OpCode.isJump : OpCode → Bool
  | .jmp | .jmpcnd | .call => true
  | _ => false

/-- what is emitted in one go -/
inductive Piece
  | instr (i : Instr)
  /-- the address of something in the code or the constants table, and what is done with it -/
  | ref (off : Int32) (op : OpCode)

def Piece.instrs : Piece → List Instr
  | .instr i => [i]
  | .ref off op => [.push .addrIp (Raw.enc off), .op op]

def Piece.bytes (i : Piece) : List UInt8 := i.instrs.flatMap Instr.bytes

def Piece.size (i : Piece) : Nat := i.bytes.length

@[simp] theorem Piece.size_ref (off : Int32) (op : OpCode) : (Piece.ref off op).size = 7 := by
  simp [Piece.size, Piece.bytes, Piece.instrs, Instr.bytes]

theorem Piece.total_instrs (i : Piece) : total Instr.size i.instrs = i.size :=
  total_length Instr.bytes i.instrs

theorem Piece.size_pos (i : Piece) : 0 < i.size := by
  cases i with
  | instr i =>
    have := i.size_pos
    simpa [Piece.size, Piece.bytes, Piece.instrs, Instr.size] using this
  | ref off op => simp

/-- the bytes of pieces -/
def code (is : List Piece) : List UInt8 := is.flatMap Piece.bytes

@[simp] theorem code_append (is js : List Piece) : code (is ++ js) = code is ++ code js :=
  List.flatMap_append

theorem code_cons (i : Piece) (is : List Piece) : code (i :: is) = i.bytes ++ code is :=
  List.flatMap_cons

@[simp] theorem code_singleton (i : Piece) : code [i] = i.bytes := List.append_nil _

theorem length_code (is : List Piece) : (code is).length = total Piece.size is :=
  (total_length Piece.bytes is).symm

theorem code_eq_bytes (is : List Piece) :
    code is = (is.flatMap Piece.instrs).flatMap Instr.bytes := by
  rw [code, List.flatMap_assoc]
  rfl

/-- a single instruction that takes no address relative to the instruction pointer -/
def Instr.Plain : Instr → Prop
  | .op o => (Instr.op o).Ok ∧ o.isJump = false
  | .push ty operand => (Instr.push ty operand).Ok ∧ ty ≠ .addrIp

instance : DecidablePred Instr.Plain
  | .op o => inferInstanceAs (Decidable ((Instr.op o).Ok ∧ o.isJump = false))
  | .push ty operand => inferInstanceAs (Decidable ((Instr.push ty operand).Ok ∧ ty ≠ .addrIp))

theorem Instr.Plain.ok {i : Instr} (h : i.Plain) : i.Ok := by
  cases i <;> exact h.1

/-- the pieces that occur -/
def Piece.Ok : Piece → Prop
  | .instr i => i.Plain
  | .ref _ op => op.isJump = true ∨ op = .rdmem

theorem Piece.Ok.instrs {i : Piece} (h : i.Ok) : ∀ j ∈ i.instrs, j.Ok := by
  cases i with
  | instr i =>
    intro j hj
    rw [List.mem_singleton.1 hj]
    exact Instr.Plain.ok h
  | ref off op =>
    intro j hj
    simp only [Piece.instrs, List.mem_cons, List.not_mem_nil, or_false] at hj
    rcases hj with rfl | rfl
    · exact congrArg some (Raw.length_enc off).symm
    · have h : op.isJump = true ∨ op = .rdmem := h
      refine ⟨?_, ?_, ?_⟩ <;> rintro rfl <;> simp [OpCode.isJump] at h

/-! ## filling in addresses -/

/-- a piece without its address -/
def Piece.shape : Piece → Piece
  | .instr i => .instr i
  | .ref _ op => .ref 0 op

@[simp] theorem Piece.size_shape (i : Piece) : i.shape.size = i.size := by
  cases i with
  | instr i => rfl
  | ref off op => rw [Piece.shape, Piece.size_ref, Piece.size_ref]

/-- `is'` is `is` with other addresses and more pieces behind it -/
def Ext (is is' : List Piece) : Prop := is.map Piece.shape <+: is'.map Piece.shape

theorem Ext.refl (is : List Piece) : Ext is is := List.prefix_refl _

theorem Ext.trans {is is' is'' : List Piece} (h1 : Ext is is') (h2 : Ext is' is'') :
    Ext is is'' := List.IsPrefix.trans h1 h2

theorem Ext.append (is js : List Piece) : Ext is (is ++ js) := by
  rw [Ext, List.map_append]
  exact List.prefix_append _ _

theorem Ext.fill (l r : List Piece) (off off' : Int32) (op : OpCode) :
    Ext (l ++ .ref off op :: r) (l ++ .ref off' op :: r) := by
  rw [Ext, List.map_append, List.map_append]
  exact List.prefix_refl _

section
variable {is is' : List Piece} {p t : Nat} {i : Piece}

theorem has_shape : Has Piece.size (is.map Piece.shape) p i ↔
    ∃ j, j.shape = i ∧ Has Piece.size is p j := has_map Piece.size_shape

theorem Ext.boundary (h : Ext is is') (hb : Boundary Piece.size is t) :
    Boundary Piece.size is' t := by
  rw [← boundary_map Piece.size_shape] at hb ⊢
  obtain ⟨js, e⟩ := h
  rw [← e]
  exact hb.append

theorem Ext.has (h : Ext is is') (hi : Has Piece.size is p i) :
    ∃ j, j.shape = i.shape ∧ Has Piece.size is' p j := by
  obtain ⟨js, e⟩ := h
  apply has_shape.1
  rw [← e]
  exact Has.append (has_shape.2 ⟨i, rfl, hi⟩)

theorem shape_eq_instr {i : Piece} {j : Instr} (h : i.shape = .instr j) : i = .instr j := by
  cases i with
  | instr i => exact h
  | ref off op => cases h

theorem shape_eq_ref {i : Piece} {op : OpCode} (h : i.shape = .ref 0 op) :
    ∃ off, i = .ref off op := by
  cases i with
  | instr i => cases h
  | ref off op' =>
    cases h
    exact ⟨off, rfl⟩

theorem Ext.has_ref {off : Int32} {op : OpCode} (h : Ext is is')
    (hi : Has Piece.size is p (.ref off op)) : ∃ off, Has Piece.size is' p (.ref off op) := by
  obtain ⟨i, e, hi⟩ := h.has hi
  obtain ⟨off', rfl⟩ := shape_eq_ref e
  exact ⟨off', hi⟩

end

/-! ## where addresses lead -/

/-- an address whose bytes are at `pos` leads, seen from behind the instruction that uses it, to
the start of a piece or to the end -/
def Lands (is : List Piece) (pos : Nat) (off : Int32) : Prop :=
  ∃ t, Boundary Piece.size is t ∧ off = toSkip t pos

theorem Ext.lands {is is' : List Piece} (h : Ext is is') {pos : Nat} {off : Int32}
    (hl : Lands is pos off) : Lands is' pos off := by
  obtain ⟨t, hb, e⟩ := hl
  exact ⟨t, h.boundary hb, e⟩

/-- the bytes at `pos` are the address of an instruction of the given kind -/
def IsRef (K : OpCode → Prop) (is : List Piece) (pos : Nat) : Prop :=
  ∃ p off op, pos = p + 2 ∧ K op ∧ Has Piece.size is p (.ref off op)

theorem Ext.isRef {K : OpCode → Prop} {is is' : List Piece} (h : Ext is is') {pos : Nat}
    (hr : IsRef K is pos) : IsRef K is' pos := by
  obtain ⟨p, off, op, rfl, hk, hr⟩ := hr
  obtain ⟨off', hr⟩ := h.has_ref hr
  exact ⟨p, off', op, rfl, hk, hr⟩

theorem IsRef.replace {K : OpCode → Prop} {l r : List Piece} {pos : Nat} {op op' : OpCode}
    (h : IsRef K (l ++ .instr (.op op) :: r) pos) : IsRef K (l ++ .instr (.op op') :: r) pos := by
  obtain ⟨p, off, op'', e, hk, hr⟩ := h
  have hs : (Piece.instr (.op op')).size = (Piece.instr (.op op)).size := rfl
  refine ⟨p, off, op'', e, hk, (has_replace Piece.size_pos hs).2 (Or.inr ⟨?_, hr⟩)⟩
  rintro rfl
  cases Has.unique Piece.size_pos hr has_total

/-- jumps among the instructions that take an address -/
abbrev IsJump (op : OpCode) : Prop := op ≠ .rdmem

/-- the code so far: the addresses at the positions of `Q` are still to be filled in, all other
jumps land at the start of a piece or at the end -/
structure Framed (Q : Nat → Prop) (is : List Piece) : Prop where
  ok : ∀ i ∈ is, i.Ok
  jumps : ∀ p off op, Has Piece.size is p (.ref off op) → IsJump op →
    Q (p + 2) ∨ Lands is (p + 2) off
  open_ : ∀ pos, Q pos → IsRef IsJump is pos

section
variable {Q Q' : Nat → Prop} {is : List Piece}

theorem Framed.weaken (h : Framed Q is) (h1 : ∀ pos, Q pos → Q' pos)
    (h2 : ∀ pos, Q' pos → IsRef IsJump is pos) : Framed Q' is :=
  ⟨h.ok, fun p off op hr hk => (h.jumps p off op hr hk).imp_left (h1 _), h2⟩

theorem Framed.iff (h : Framed Q is) (hq : ∀ pos, Q pos ↔ Q' pos) : Framed Q' is :=
  h.weaken (fun pos => (hq pos).1) fun pos hp => h.open_ pos ((hq pos).2 hp)

theorem Framed.instr (h : Framed Q is) {i : Instr} (hi : i.Plain) :
    Framed Q (is ++ [.instr i]) where
  ok j hj := by
    rcases List.mem_append.1 hj with hj | hj
    · exact h.ok j hj
    · rw [List.mem_singleton.1 hj]
      exact hi
  jumps p off op hr hk := by
    rcases has_append.1 hr with hr | ⟨-, hr⟩
    · exact (h.jumps p off op hr hk).imp_right (Ext.append _ _).lands
    · exact absurd hr.mem (by simp)
  open_ pos hq := (Ext.append _ _).isRef (h.open_ pos hq)

/-- one more address: a jump lands somewhere or is filled in later -/
theorem Framed.snoc (h : Framed Q is) {off : Int32} {op : OpCode}
    (hop : op.isJump = true ∨ op = .rdmem)
    (hl : IsJump op → Q' (total Piece.size is + 2) ∨ Lands is (total Piece.size is + 2) off)
    (hq : ∀ pos, Q pos → Q' pos)
    (hq' : ∀ pos, Q' pos → Q pos ∨ pos = total Piece.size is + 2 ∧ IsJump op) :
    Framed Q' (is ++ [.ref off op]) where
  ok j hj := by
    rcases List.mem_append.1 hj with hj | hj
    · exact h.ok j hj
    · rw [List.mem_singleton.1 hj]
      exact hop
  jumps p off' op' hr hk := by
    have e := Ext.append is [.ref off op]
    rcases has_append.1 hr with hr | ⟨h1, hr⟩
    · exact (h.jumps p off' op' hr hk).imp (hq _) e.lands
    · rcases hr with ⟨h2, e'⟩ | ⟨-, hr⟩
      · cases e'
        obtain rfl : p = total Piece.size is := by omega
        exact (hl hk).imp_right e.lands
      · exact hr.elim
  open_ pos hp := by
    rcases hq' pos hp with hp | ⟨rfl, hk⟩
    · exact (Ext.append _ _).isRef (h.open_ pos hp)
    · exact ⟨_, off, op, rfl, hk, has_total⟩

theorem isJump_of {op : OpCode} (h : op.isJump = true) : IsJump op := by
  rintro rfl
  cases h

/-- an address that is filled in later -/
theorem Framed.ref (h : Framed Q is) (off : Int32) {op : OpCode} (hop : op.isJump = true) :
    Framed (fun pos => pos = total Piece.size is + 2 ∨ Q pos) (is ++ [.ref off op]) := by
  apply h.snoc (Or.inl hop)
  · exact fun _ => Or.inl (Or.inl rfl)
  · exact fun pos => Or.inr
  · rintro pos (rfl | hp)
    · exact Or.inr ⟨rfl, isJump_of hop⟩
    · exact Or.inl hp

/-- a jump to a known place -/
theorem Framed.refTo (h : Framed Q is) {off : Int32} {op : OpCode} (hop : op.isJump = true)
    (hl : Lands is (total Piece.size is + 2) off) : Framed Q (is ++ [.ref off op]) :=
  h.snoc (Or.inl hop) (fun _ => Or.inr hl) (fun pos => id) fun pos => Or.inl

/-- a reference to a constant -/
theorem Framed.constRef (h : Framed Q is) (off : Int32) : Framed Q (is ++ [.ref off .rdmem]) :=
  h.snoc (Or.inr rfl) (fun hk => absurd rfl hk) (fun pos => id) fun pos => Or.inl

/-- another address in a piece -/
theorem Framed.fill {l r : List Piece} {off : Int32} {op : OpCode}
    (h : Framed Q (l ++ .ref off op :: r)) (off' : Int32)
    (hl : IsJump op → Q' (total Piece.size l + 2) ∨
      Lands (l ++ .ref off op :: r) (total Piece.size l + 2) off')
    (hq : ∀ pos, Q pos → pos = total Piece.size l + 2 ∨ Q' pos) (hq' : ∀ pos, Q' pos → Q pos) :
    Framed Q' (l ++ .ref off' op :: r) where
  ok j hj := by
    rcases List.mem_append.1 hj with hj | hj
    · exact h.ok j (List.mem_append_left _ hj)
    · rcases List.mem_cons.1 hj with rfl | hj
      · exact h.ok (.ref off op) (by simp)
      · exact h.ok j (by simp [hj])
  jumps p off'' op' hr hk := by
    have e := Ext.fill l r off off' op
    have hs : (Piece.ref off' op).size = (Piece.ref off op).size := by simp
    rcases (has_replace Piece.size_pos hs).1 hr with ⟨rfl, e'⟩ | ⟨hne, hr⟩
    · cases e'
      exact (hl hk).imp_right e.lands
    · rcases h.jumps p off'' op' hr hk with hp | hl
      · rcases hq _ hp with hp | hp
        · omega
        · exact Or.inl hp
      · exact Or.inr (e.lands hl)
  open_ pos hp := (Ext.fill l r off off' op).isRef (h.open_ pos (hq' pos hp))

/-- another instruction in place of one -/
theorem Framed.replace {l r : List Piece} {op op' : OpCode}
    (h : Framed Q (l ++ .instr (.op op) :: r)) (hop : (Instr.op op').Plain) :
    Framed Q (l ++ .instr (.op op') :: r) := by
  have hs : (Piece.instr (.op op')).size = (Piece.instr (.op op)).size := rfl
  refine ⟨fun j hj => ?_, fun p off op'' hr hk => ?_, fun pos hp => ?_⟩
  · rcases List.mem_append.1 hj with hj | hj
    · exact h.ok j (List.mem_append_left _ hj)
    · rcases List.mem_cons.1 hj with rfl | hj
      · exact hop
      · exact h.ok j (by simp [hj])
  · rcases (has_replace Piece.size_pos hs).1 hr with ⟨-, e⟩ | ⟨hne, hr⟩
    · cases e
    · refine (h.jumps p off op'' hr hk).imp_right ?_
      rintro ⟨t, hb, e⟩
      exact ⟨t, (boundary_replace hs).2 hb, e⟩
  · exact (h.open_ pos hp).replace

end

/-! ## writing into code -/

theorem write_end (o : OStr) (h : o.pos = o.buf.length) (bs : List UInt8) :
    o.write bs = ⟨o.buf ++ bs, o.buf.length + bs.length⟩ := by
  simp [OStr.write, h]

theorem write_middle (a b c bs : List UInt8) (h : bs.length = b.length) :
    ((⟨a ++ b ++ c, a.length⟩ : OStr).write bs).buf = a ++ bs ++ c := by
  simp [OStr.write, h]

theorem write_ref (l r : List Piece) (off off' : Int32) (op : OpCode) (tail : List UInt8) :
    ((⟨code (l ++ .ref off op :: r) ++ tail, total Piece.size l + 2⟩ : OStr).write
      (Raw.enc off')).buf = code (l ++ .ref off' op :: r) ++ tail := by
  have e (off : Int32) : code (l ++ .ref off op :: r) ++ tail =
      (code l ++ [OpCode.push.code, VMType.addrIp.code]) ++ Raw.enc off ++
        (op.code :: (code r ++ tail)) := by
    simp [code_cons, Piece.bytes, Piece.instrs, Instr.bytes]
  have hl : total Piece.size l + 2 =
      (code l ++ [OpCode.push.code, VMType.addrIp.code]).length := by
    simp [length_code]
  rw [e, hl, write_middle _ _ _ _ (by simp), ← e]

theorem write_op (l r : List Piece) (op op' : OpCode) (tail : List UInt8) :
    ((⟨code (l ++ .instr (.op op) :: r) ++ tail, total Piece.size l⟩ : OStr).write
      [op'.code]).buf = code (l ++ .instr (.op op') :: r) ++ tail := by
  have e (op : OpCode) : code (l ++ .instr (.op op) :: r) ++ tail =
      code l ++ [op.code] ++ (code r ++ tail) := by
    simp [code_cons, Piece.bytes, Piece.instrs, Instr.bytes]
  rw [e, ← length_code, write_middle _ [op.code] _ [op'.code] rfl, ← e]

end MuF
