import MuF.Base.Fails
import MuF.VM.Run

/-!
# Operations without divisions

None of these fails with an integer division:

* the operations on the memory and the stack;
* casts, comparisons, and the operations of the mathematics library, whose failures are exceptions
  (`LibThrows`);
* the instructions that neither divide nor index, `fetch` and `wrapIp`.
-/

set_option linter.unusedVariables false

namespace MuF

open Bytes Exec

section
variable {α β : Type}

/-! ## memory and stack -/

theorem throw_ne_divError (msg : String) : Err.throw msg ≠ divError := nofun

theorem ok_spares (a : α) : (.ok a : Res α) ≠ .error divError := by
  intro h
  cases h

theorem throw_spares (msg : String) : (.error (.throw msg) : Res α) ≠ .error divError := by
  intro h
  exact throw_ne_divError msg (Except.error.inj h)

@[simp] theorem never_throw (msg : String) : Never divError (throw (.throw msg) : VMM α) :=
  Never.throw (throw_ne_divError msg)

theorem never_ub {msg : String} (h : msg ≠ "integer division") :
    Never divError (throw (.ub msg) : VMM α) := by
  apply Never.throw
  intro he
  exact h (Err.ub.inj he)

@[simp] theorem never_checkMemoryBounds (addr size : Int32) :
    Never divError (checkMemoryBounds addr size) :=
  Never.bind Never.get fun s => Never.ite (never_throw _) (Never.pure _)

@[simp] theorem never_checkPointer (name : String) (reg : Int32) (data : Bool) :
    Never divError (checkPointer name reg data) :=
  Never.bind Never.get fun s => Never.ite (never_throw _) (Never.pure _)

@[simp] theorem never_checkPointerBounds : Never divError checkPointerBounds :=
  Never.bind Never.get fun s => Never.onlyIf (Never.bind (never_checkPointer _ _ _) fun _ =>
    Never.bind (never_checkPointer _ _ _) fun _ => Never.bind (never_checkPointer _ _ _) fun _ =>
      never_checkPointer _ _ _)

@[simp] theorem never_readBytes (a : Int) (n : Nat) : Never divError (readBytes a n) :=
  Never.bind Never.get fun s => Never.ite (Never.pure _) (never_ub (by decide))

@[simp] theorem never_writeBytes (a : Int) (bs : List UInt8) : Never divError (writeBytes a bs) :=
  Never.bind Never.get fun s => Never.ite (Never.set _) (never_ub (by decide))

@[simp] theorem never_memset (a n : Int) : Never divError (memset a n) :=
  Never.ite (never_ub (by decide)) (never_writeBytes _ _)

@[simp] theorem never_moveSp (n : Int32) : Never divError (moveSp n) := Never.modify _

section
variable (α) [Raw α]

@[simp] theorem never_readMemRaw (addr : Int32) : Never divError (readMemRaw α addr) := by
  simp [readMemRaw]

@[simp] theorem never_topRaw (spOffs : Int32) : Never divError (topRaw α spOffs) :=
  Never.bind Never.get fun s => Never.bind (never_checkMemoryBounds _ _) fun _ =>
    Never.bind (never_readBytes _ _) fun _ => Never.pure _

@[simp] theorem never_popRaw : Never divError (popRaw α) :=
  Never.bind Never.get fun s => Never.bind (never_checkMemoryBounds _ _) fun _ =>
    Never.bind (never_readBytes _ _) fun _ => Never.bind (Never.onlyIf (never_writeBytes _ _))
      fun _ => Never.bind (never_moveSp _) fun _ => Never.pure _

variable {α}

@[simp] theorem never_writeMemRaw (addr : Int32) (val : α) :
    Never divError (writeMemRaw addr val) := by
  simp [writeMemRaw]

@[simp] theorem never_pushRaw (val : α) : Never divError (pushRaw val) :=
  Never.bind Never.get fun s => Never.bind (never_checkMemoryBounds _ _) fun _ =>
    Never.bind (never_moveSp _) fun _ => never_writeBytes _ _

@[simp] theorem never_pushDescr (ty : VMType) : Never divError (pushDescr ty) := never_pushRaw _

@[simp] theorem never_pushTuple (val : α) (ty : VMType) (raw : Bool) :
    Never divError (pushTuple val ty raw) :=
  Never.bind Never.get fun s => Never.bind (never_checkMemoryBounds _ _) fun _ =>
    Never.bind (never_moveSp _) fun _ => Never.bind (never_writeBytes _ _) fun _ =>
      Never.onlyIf (never_pushDescr _)

@[simp] theorem never_writeMemTagged (addr : Int32) (ty : VMType) (val : α) :
    Never divError (writeMemTagged addr ty val) := by
  simp [writeMemTagged]

end

section
variable (E : Type) [Raw E]

@[simp] theorem never_readElems (a : Int) (num : Int32) : Never divError (readElems E a num) :=
  Never.ite (never_throw _) (Never.bind (never_readBytes _ _) fun _ => Never.pure _)

@[simp] theorem never_clearElems (pod : Bool) (a : Int) (num : Int32) :
    Never divError (clearElems E pod a num) :=
  Never.ite (never_memset _ _) (never_writeBytes _ _)

@[simp] theorem never_popSeq (pod : Bool) : Never divError (popSeq E pod) :=
  Never.bind (never_popRaw _) fun num => Never.bind Never.get fun s =>
    Never.bind (never_checkMemoryBounds _ _) fun _ => Never.bind (never_readElems _ _ _) fun vec =>
      Never.bind (never_moveSp _) fun _ =>
        Never.bind (Never.onlyIf (never_clearElems _ _ _ _)) fun _ => Never.pure _

@[simp] theorem never_topSeq (spOffs : Int32) : Never divError (topSeq E spOffs) :=
  Never.bind (never_topRaw _ _) fun num => Never.bind Never.get fun s =>
    Never.bind (never_checkMemoryBounds _ _) fun _ => never_readElems _ _ _

@[simp] theorem never_readSeq (addr : Int32) : Never divError (readSeq E addr) := by
  simp [readSeq]

variable {E}

@[simp] theorem never_copyElems (a : Int) (v : List E) (n : Int32) :
    Never divError (copyElems a v n) :=
  Never.ite (never_ub (by decide)) (never_writeBytes _ _)

@[simp] theorem never_pushSeq (vec : List E) (ty : VMType) (raw : Bool) :
    Never divError (pushSeq vec ty raw) :=
  Never.bind Never.get fun s => Never.bind (never_checkMemoryBounds _ _) fun _ =>
    Never.bind (never_moveSp _) fun _ => Never.bind (never_copyElems _ _ _) fun _ =>
      Never.bind (never_pushRaw _) fun _ => Never.onlyIf (never_pushDescr _)

@[simp] theorem never_writeSeq (addr : Int32) (vec : List E) :
    Never divError (writeSeq addr vec) := by
  simp [writeSeq]

end

/-! ## data -/

@[simp] theorem never_popAddress : Never divError popAddress := by
  refine Never.bind (never_popRaw _) fun regval => Never.bind (never_popRaw _) fun addr =>
    Never.bind Never.get fun s => ?_
  cases (VMType.ofCode regval).bind s.base with
  | none => exact never_throw _
  | some reg => exact Never.pure _

@[simp] theorem never_pushAddress (addr : Int32) (ty : VMType) :
    Never divError (pushAddress addr ty) := by
  simp [pushAddress]

theorem never_dataOf {raw : (α : Type) → [Raw α] → VMM α}
    {seq : (E : Type) → [Raw E] → (pod : Bool) → VMM (List E)} {what : String} {tyval : UInt8}
    (h1 : ∀ (α : Type) [Raw α], Never divError (raw α))
    (h2 : ∀ (E : Type) [Raw E] (pod : Bool), Never divError (seq E pod)) :
    Never divError (dataOf raw seq what tyval) := by
  unfold dataOf
  cases VMType.ofCode tyval with
  | none => exact never_throw _
  | some ty => cases ty <;> simp [h1, h2, unknownType]

@[simp] theorem never_topData : Never divError topData :=
  Never.bind (never_topRaw _ _) fun tyval =>
    never_dataOf (fun α _ => never_topRaw α _) fun E _ pod => never_topSeq E _

@[simp] theorem never_popData : Never divError popData :=
  Never.bind (never_popRaw _) fun tyval =>
    never_dataOf (fun α _ => never_popRaw α) fun E _ pod => never_popSeq E _

@[simp] theorem never_readMemType (addr : Int32) : Never divError (readMemType addr) :=
  never_readMemRaw _ _

@[simp] theorem never_readMemData (addr : Int32) : Never divError (readMemData addr) :=
  Never.bind (never_readMemType _) fun tyval =>
    Never.bind (never_dataOf (fun α _ => never_readMemRaw α _) fun E _ pod => never_readSeq E _)
      fun data => Never.pure _

@[simp] theorem never_pushData (data : TData) (ty : VMType) (errOnUnknown : Bool) :
    Never divError (pushData data ty errOnUnknown) := by
  cases data with
  | none => exact Never.ite (never_throw _) (Never.pure _)
  | _ => simp [pushData, pushComplex, pushQuaternion, pushString, pushArray]

@[simp] theorem never_pushVal (data : TData) : Never divError (pushVal data) := never_pushData _ _ _

@[simp] theorem never_writeArray [Elem α] (addr : Int32) (vec : List α) (raw : Bool) :
    Never divError (writeArray addr vec raw) := by
  refine Never.ite (never_writeSeq _ _) ?_
  simp

@[simp] theorem never_writeMemData (addr : Int32) (data : TData) :
    Never divError (writeMemData addr data) := by
  cases data <;> simp [writeMemData, writeMemStr]

@[simp] theorem never_popBool : Never divError popBool := by
  refine Never.bind never_popData fun data => ?_
  cases data <;> simp

@[simp] theorem never_pushBool (val : Bool) : Never divError (pushBool val) := never_pushVal _

@[simp] theorem never_popInt : Never divError popInt := by
  refine Never.bind never_popData fun data => ?_
  cases data <;> simp

@[simp] theorem never_getDataSize (data : TData) : Never divError (getDataSize data) := by
  cases data <;> simp [getDataSize]

theorem fails_liftE {r : Res α} {s : VM} : Fails divError (liftE r) s ↔ r = .error divError := by
  cases r with
  | ok a => exact iff_of_false (Never.pure a s) nofun
  | error e =>
    show Fails divError (throw e : VMM α) s ↔ _
    rw [fails_throw, Except.error.injEq]

theorem never_liftE {r : Res α} (h : r ≠ .error divError) : Never divError (liftE r : VMM α) :=
  fun s hs => h (fails_liftE.1 hs)

end

/-! ## the mathematics library -/

/-- the failures of a part of the mathematics library are exceptions -/
def Throws {α : Type} (r : Res α) : Prop := ∀ e, r = .error e → ∃ msg, e = .throw msg

theorem Throws.ne {α β : Type} {r : Res α} (h : Throws r) (f : α → β) :
    r.map f ≠ .error divError := by
  cases r with
  | ok a => exact nofun
  | error e =>
    obtain ⟨msg, rfl⟩ := h e rfl
    exact nofun

/-- operations on arrays whose failures are exceptions -/
structure VecOps.Throws {R E : Type} (ops : VecOps R E) : Prop where
  neg : ∀ v, MuF.Throws (ops.neg v)
  add : ∀ v w, MuF.Throws (ops.add v w)
  sub : ∀ v w, MuF.Throws (ops.sub v w)
  scale : ∀ v x, MuF.Throws (ops.scale v x)
  inner : ∀ v w, MuF.Throws (ops.inner v w)
  matMul : ∀ rows1 cols1 v rows2 cols2 w, MuF.Throws (ops.matMul rows1 cols1 v rows2 cols2 w)

/-- a mathematics library whose failures are exceptions -/
class LibThrows (R : Type) [MathLib R] : Prop where
  quatRotate : ∀ (q : Quat R) (v : List R), Throws (MathLib.quatRotate q v)
  realVec : (MathLib.realVec (R := R)).Throws
  intVec : (MathLib.intVec (R := R)).Throws
  cplxVec : (MathLib.cplxVec (R := R)).Throws
  quatVec : (MathLib.quatVec (R := R)).Throws

theorem throws_ok {α : Type} (a : α) : Throws (.ok a : Res α) := nofun

theorem throws_throw {α : Type} (msg : String) : Throws (.error (.throw msg) : Res α) := by
  intro e h
  cases h
  exact ⟨msg, rfl⟩

theorem VecOps.absent_throws {R E : Type} (zero : E) : (VecOps.absent R zero).Throws :=
  ⟨fun v => throws_throw _, fun v w => throws_throw _, fun v w => throws_throw _,
    fun v x => throws_throw _, fun v w => throws_ok _, fun _ _ v _ _ w => throws_throw _⟩

theorem LibThrows.absent {R : Type} (zero : R) : @LibThrows R (MathLib.absent zero) :=
  @LibThrows.mk R (MathLib.absent zero) (fun q v => throws_ok v) (VecOps.absent_throws _)
    (VecOps.absent_throws _) (VecOps.absent_throws _) (VecOps.absent_throws _)

/-! ## instructions -/

theorem createArr_spares {E : Type} {size : Int32} {x : Res E} (h : x ≠ .error divError)
    (f : List E → Option TData) : (createArr size x).map f ≠ .error divError := by
  unfold createArr
  split
  · exact nofun
  · split
    · exact nofun
    · cases x with
      | ok a => exact nofun
      | error e =>
        intro he
        exact h (congrArg Except.error (Except.error.inj he))

theorem binary_spares (op : BinOp) (val1 val2 : TData) :
    binary op val1 val2 ≠ .error divError := by
  unfold binary
  split
  · exact nofun
  · split
    · next a b h =>
      cases op with
      | shl =>
        show (if b < 0 ∨ 64 ≤ b then (.error (.ub "shift") : Res Int64) else _).map _ ≠ _
        split
        · simp [Except.map, divError]
        · exact nofun
      | shr =>
        show (if b < 0 ∨ 64 ≤ b then (.error (.ub "shift") : Res Int64) else _).map _ ≠ _
        split
        · simp [Except.map, divError]
        · exact nofun
      | _ => exact nofun
    · exact nofun

theorem opBinary_spares {f : TData → TData → Res TData} (h : ∀ x y, f x y ≠ .error divError) :
    Never divError (opBinary f) :=
  Never.bind never_popData fun val2 => Never.bind never_popData fun val1 =>
    Never.bind (never_liftE (h val1 val2)) fun res => never_pushVal res

theorem never_replaceTop {res : Res (Option TData)} (h : res ≠ .error divError) :
    Never divError (replaceTop res) := by
  refine Never.bind (never_liftE h) fun r => ?_
  cases r with
  | none => exact Never.pure _
  | some data => exact Never.bind never_popData fun _ => never_pushVal data

theorem never_opLogical (op : LogicOp) : Never divError (opLogical op) := by
  simp [opLogical]

theorem never_opNot : Never divError opNot := by
  simp [opNot]

theorem never_opBinNot : Never divError opBinNot := by
  refine Never.bind never_popData fun val => ?_
  cases val <;> simp

theorem never_popElems (E : Type) [Elem E] :
    ∀ (num : Nat) (vec : List E), Never divError (popElems E num vec)
  | 0, vec => Never.pure _
  | num+1, vec => by
    refine Never.bind never_popData fun data => ?_
    cases (Elem.ofData data : Option E) with
    | none => exact never_throw _
    | some elem => exact never_popElems E num _

theorem never_opMakeArr (E : Type) [Elem E] : Never divError (opMakeArr E) :=
  Never.bind (Never.bind never_popAddress fun num =>
    Never.ite (never_throw _) (never_popElems E _ _)) fun vec => never_pushVal _

@[simp] theorem never_popStr : Never divError popStr := by
  refine Never.bind never_popData fun data => ?_
  cases data <;> simp

@[simp] theorem never_print (text : Str) : Never divError (print text) := Never.modify _

@[simp] theorem never_readCin {α : Type} (zero : α) (scan : Str → Bool × α × Str) :
    Never divError (readCin zero scan) :=
  Never.bind Never.get fun s => Never.ite (Never.pure _)
    (Never.bind (Never.set _) fun _ => Never.pure _)

@[simp] theorem never_setISR (num addr : Int32) : Never divError (setISR num addr) := by
  unfold setISR
  split
  · exact Never.modify _
  · exact never_ub (by decide)

theorem never_opCall : Never divError opCall :=
  Never.bind never_popAddress fun _ => Never.bind never_popInt fun _ =>
    Never.bind Never.get fun s => Never.bind (never_pushAddress _ _) fun _ =>
      Never.bind (never_pushAddress _ _) fun _ => Never.modify _

theorem never_popRetvals (framesize : Int64) :
    ∀ (fuel : Nat) (retvals : List TData), Never divError (popRetvals framesize fuel retvals)
  | 0, retvals => never_ub (by decide)
  | fuel+1, retvals => Never.bind Never.get fun s => Never.ite
    (Never.bind never_popData fun val => never_popRetvals framesize fuel _) (Never.pure _)

theorem never_popDatas : ∀ num : Nat, Never divError (popDatas num)
  | 0 => Never.pure _
  | num+1 => Never.bind never_popData fun _ => never_popDatas num

theorem never_pushDatas : ∀ vals : List TData, Never divError (pushDatas vals)
  | [] => Never.pure _
  | val :: vals => Never.bind (never_pushData _ _ _) fun _ => never_pushDatas vals

theorem never_opRet : Never divError opRet :=
  Never.bind never_popInt fun _ => Never.bind never_popInt fun _ => Never.bind Never.get fun s =>
    Never.bind (never_popRetvals _ _ _) fun _ => Never.bind Never.get fun s =>
      Never.bind (Never.onlyIf (never_memset _ _)) fun _ => Never.bind (Never.modify _) fun _ =>
        Never.bind never_popAddress fun _ => Never.bind (Never.modify _) fun _ =>
          Never.bind never_popAddress fun _ => Never.bind (Never.modify _) fun _ =>
            Never.bind (never_popDatas _) fun _ => never_pushDatas _

theorem never_opAddframe : Never divError opAddframe :=
  Never.bind never_popInt fun _ => Never.modify _

theorem never_opRemframe : Never divError opRemframe :=
  Never.bind never_popInt fun _ => Never.bind Never.get fun s =>
    Never.bind (Never.onlyIf (never_memset _ _)) fun _ => Never.modify _

theorem never_opPush : Never divError opPush :=
  Never.bind Never.get fun s => Never.bind (never_readMemData _) fun p =>
    Never.bind (never_getDataSize _) fun _ => Never.bind (Never.modify _) fun _ =>
      never_pushData _ _ _

theorem never_opRdmem : Never divError opRdmem :=
  Never.bind never_popAddress fun _ => Never.bind (never_readMemData _) fun p =>
    never_pushData _ _ _

theorem never_opWrmem : Never divError opWrmem :=
  Never.bind never_popAddress fun _ => Never.bind never_popData fun _ => never_writeMemData _ _

theorem never_opJmp : Never divError opJmp :=
  Never.bind never_popAddress fun _ => Never.modify _

theorem never_opJmpcnd : Never divError opJmpcnd :=
  Never.bind never_popAddress fun _ => Never.bind never_popBool fun _ =>
    Never.onlyIf (Never.modify _)

theorem never_fetch : Never divError fetch := by
  apply Never.bind Never.get
  intro s
  dsimp only
  generalize VM.takeIrq (List.finRange numInterrupts) s = p
  obtain ⟨isr, s'⟩ := p
  apply Never.bind (Never.set s')
  intro _
  cases isr with
  | some addr => exact Never.bind (never_pushAddress _ _) fun _ => Never.pure _
  | none => exact Never.bind (never_readBytes _ _) fun _ => Never.bind (Never.modify _) fun _ =>
      Never.pure _

theorem never_wrapIp : Never divError wrapIp :=
  Never.bind Never.get fun s => Never.ite (Never.ite (never_ub (by decide)) (Never.set _))
    (Never.pure _)

section
variable [MathLib TReal]

theorem castData_spares (eps : TReal) (prec : Int64) (tgt : VMType) (data : TData) :
    castData eps prec tgt data ≠ .error divError := by
  cases data with
  | real x =>
    cases tgt with
    | int => cases hx : MathLib.toInt x <;> simp [castData, hx, divError]
    | bool => cases hx : MathLib.toByte x <;> simp [castData, hx, divError]
    | _ => exact ok_spares _
  | _ => cases tgt <;> first | exact ok_spares _ | exact throw_spares _

theorem castToArray_spares (tgt : VMType) (size : Int32) (data : TData) :
    castToArray tgt size data ≠ .error divError := by
  cases tgt with
  | intArr =>
    cases data with
    | real x =>
      apply createArr_spares
      cases hx : MathLib.toInt x <;> simp [hx, divError]
    | int x => exact createArr_spares (ok_spares _) _
    | intArr v => exact ok_spares _
    | _ => exact throw_spares _
  | realArr | cplxArr | quatArr =>
    cases data <;>
      first | exact createArr_spares (ok_spares _) _ | exact ok_spares _ | exact throw_spares _
  | _ => cases data <;> exact throw_spares _

theorem comparison_spares (eps : TReal) (op : CompOp) (val1 val2 : TData) :
    comparison eps op val1 val2 ≠ .error divError := by
  unfold comparison
  split
  · exact nofun
  · split <;> exact nofun

theorem extAbs_spares (data : TData) : extAbs data ≠ .error divError := by
  cases data <;> exact nofun

@[simp] theorem never_opCast (tgt : VMType) : Never divError (opCast tgt) :=
  Never.bind never_topData fun data => Never.bind Never.get fun s =>
    never_replaceTop (castData_spares _ _ tgt data)

theorem never_opToArr (tgt : VMType) : Never divError (opToArr tgt) :=
  Never.bind never_popAddress fun size => Never.bind never_topData fun data =>
    never_replaceTop (castToArray_spares tgt size data)

theorem never_opComparison (op : CompOp) : Never divError (opComparison op) :=
  Never.bind never_popData fun _ => Never.bind never_popData fun _ => Never.bind Never.get fun s =>
    Never.bind (never_liftE (comparison_spares _ _ _ _)) fun res => never_pushBool res

@[simp] theorem never_popReal : Never divError popReal := by
  refine Never.bind (never_opCast _) fun _ => Never.bind never_popData fun data => ?_
  cases data <;> simp

@[simp] theorem never_popCastInt : Never divError popCastInt :=
  Never.bind (never_opCast _) fun _ => never_popInt

@[simp] theorem never_extReal (f : TReal → TReal) : Never divError (extReal f) :=
  Never.bind never_popReal fun arg => Never.pure _

/-- a text that is asked for is printed -/
theorem never_askStr {α : Type} {k : Str → VMM α} (hk : ∀ arg, Never divError (k arg)) :
    Never divError (do
      opCast .str
      let arg ← popStr
      k arg) :=
  Never.bind (never_opCast _) fun _ => Never.bind never_popStr hk

theorem never_callExternal (funcName : Str) : Never divError (callExternal funcName) := by
  unfold callExternal
  repeat' apply Never.ite
  · exact Never.bind never_popData fun data => never_liftE (extAbs_spares data)
  · exact never_extReal _
  · exact Never.bind never_popReal fun _ => Never.bind never_popReal fun _ => Never.pure _
  · exact never_extReal _
  · exact never_extReal _
  · exact never_extReal _
  · exact Never.bind never_popReal fun _ => Never.bind (Never.modify _) fun _ => Never.pure _
  · exact Never.bind never_popCastInt fun _ => Never.bind (Never.modify _) fun _ => Never.pure _
  · exact Never.bind Never.get fun s => Never.pure _
  · exact Never.bind (never_opCast _) fun _ => Never.pure _
  · exact never_askStr fun arg => Never.pure _
  · exact never_askStr fun arg => Never.bind (never_print _) fun _ => Never.pure _
  · exact never_askStr fun arg => Never.bind (never_print _) fun _ => Never.pure _
  · exact never_askStr fun arg => Never.bind (never_print _) fun _ =>
      Never.bind (never_readCin _ _) fun _ => Never.pure _
  · exact never_askStr fun arg => Never.bind (never_print _) fun _ =>
      Never.bind (never_readCin _ _) fun _ => Never.pure _
  · exact Never.bind never_popCastInt fun _ => Never.bind never_popAddress fun _ =>
      Never.bind (never_setISR _ _) fun _ => Never.pure _
  · exact Never.bind never_popCastInt fun _ => Never.pure _
  · exact Never.bind never_popCastInt fun _ => Never.bind (Never.modify _) fun _ => Never.pure _
  · exact Never.bind never_popCastInt fun _ => Never.bind (Never.modify _) fun _ => Never.pure _
  · exact Never.pure _

theorem never_opExtcall : Never divError opExtcall :=
  Never.bind never_popStr fun _ => Never.bind (never_callExternal _) fun _ => never_pushData _ _ _

variable [LibThrows TReal]

theorem negate_spares (val : TData) : negate val ≠ .error divError := by
  cases val with
  | realArr v => exact (LibThrows.realVec.neg v).ne _
  | intArr v => exact ((LibThrows.intVec (R := TReal)).neg v).ne _
  | cplxArr v => exact (LibThrows.cplxVec.neg v).ne _
  | quatArr v => exact (LibThrows.quatVec.neg v).ne _
  | _ => exact nofun

theorem matrixMultiplication_spares (rows1 cols1 rows2 cols2 : Int64) (val1 val2 : TData) :
    matrixMultiplication rows1 cols1 rows2 cols2 val1 val2 ≠ .error divError := by
  unfold matrixMultiplication
  split
  · exact (LibThrows.realVec.matMul _ _ _ _ _ _).ne _
  · exact ((LibThrows.intVec (R := TReal)).matMul _ _ _ _ _ _).ne _
  · exact (LibThrows.cplxVec.matMul _ _ _ _ _ _).ne _
  · exact nofun

theorem never_opUsub : Never divError opUsub :=
  Never.bind never_popData fun val => Never.bind (never_liftE (negate_spares val)) fun res =>
    never_pushVal res

theorem never_opMatrixMultiplication : Never divError opMatrixMultiplication :=
  Never.bind never_popInt fun _ => Never.bind never_popInt fun _ => Never.bind never_popInt fun _ =>
    Never.bind never_popInt fun _ => Never.bind never_popData fun _ =>
      Never.bind never_popData fun _ =>
        Never.bind (never_liftE (matrixMultiplication_spares _ _ _ _ _ _)) fun res =>
          never_pushVal res

end

end MuF
