import MuF.VM.Stack
import Mathlib.Algebra.Order.Field.Basic
import Mathlib.Algebra.Order.Ring.Rat

/-!
# The six comparison instructions

* `OrderedReals`: the real operations are those of an ordered field;
* `opComparison_ok`, `opComparison_error`: a comparison instruction pushes the result of
  `comparison` or fails with its error;
* `Coherent`: the laws that relate the six results on a pair of data;
* **`coherent_iff`**: they hold for integers and for reals that are equal or differ by more than
  the tolerance, and for no other data of the types that can be compared.
-/

set_option linter.unusedVariables false
set_option linter.unusedSectionVars false

namespace MuF

open Exec

/-- the real operations are those of an ordered field -/
class OrderedReals (R : Type) [Field R] [LinearOrder R] [MathLib R] : Prop where
  sub : ∀ a b : R, MathLib.sub a b = a - b
  abs : ∀ a : R, MathLib.abs a = |a|
  lt : ∀ a b : R, MathLib.lt a b = decide (a < b)
  le : ∀ a b : R, MathLib.le a b = decide (a ≤ b)

/-- rational numbers, with the operations that comparisons use -/
abbrev MathLib.rational : MathLib ℚ :=
  { MathLib.absent 0 with
    sub := fun a b => a - b
    abs := fun a => |a|
    lt := fun a b => decide (a < b)
    le := fun a b => decide (a ≤ b) }

theorem orderedReals_rational : @OrderedReals ℚ _ _ MathLib.rational :=
  @OrderedReals.mk ℚ _ _ MathLib.rational (fun _ _ => rfl) (fun _ => rfl) (fun _ _ => rfl)
    (fun _ _ => rfl)

/-! ## the instruction -/

section
variable [MathLib TReal] {s : VM} {val1 val2 : TData} {ty1 ty2 : VMType}

theorem VM.popped_pushable {n k : Nat} (h : s.Room s.sp.toInt (n + 8)) (hk : k ≤ n) :
    (s.popped n).Pushable k := by
  have e := VM.popped_sp h.left
  obtain ⟨h1, h2⟩ := h
  refine ⟨⟨?_, ?_⟩, ?_⟩
  · rw [e]
    omega
  · rw [e]
    show _ ≤ s.memsize.toInt
    omega
  · rw [e]
    show _ ≤ s.memsize.toInt
    omega

/-- **A comparison instruction** replaces its operands by the result. -/
theorem opComparison_ok {op : CompOp} {b : Bool} (h : s.Holds [(val2, ty2), (val1, ty1)])
    (hr : s.Room s.sp.toInt (val2.size + val1.size + 8))
    (hb : comparison s.eps op val1 val2 = .ok b) :
    (opComparison op).run s = .ok () ((s.popped (val2.size + val1.size)).pushed
      ((Data.bool (if b then 1 else 0) : TData).bytes .unknown)) := by
  have h2 := h.tail.head
  rw [VM.popped_popped hr.left] at h2
  have hs1 := val1.size_pos
  have hs2 := val2.size_pos
  have hp : (s.popped (val2.size + val1.size)).Pushable 2 := VM.popped_pushable hr (by omega)
  rw [opComparison, bind_ok h.head, bind_ok h2, run_get_bind]
  show (liftE (comparison s.eps op val1 val2) >>= fun res => pushBool res).run _ = _
  rw [hb]
  exact push_run (.bool (if b then 1 else 0)) .unknown true rfl hp

/-- a comparison that is not defined stops the machine -/
theorem opComparison_error {op : CompOp} {e : Err} (h : s.Holds [(val2, ty2), (val1, ty1)])
    (he : comparison s.eps op val1 val2 = .error e) :
    (opComparison op).run s = .error e ((s.popped val2.size).popped val1.size) := by
  rw [opComparison, bind_ok h.head, bind_ok h.tail.head, run_get_bind]
  show (liftE (comparison s.eps op val1 val2) >>= fun res => pushBool res).run _ = _
  rw [he]
  rfl

end

/-! ## laws -/

section
variable {R : Type} [MathLib R] (eps : R) (val1 val2 : Data R)

/-- the comparison is defined for the type of the operand: equality for all types that can be
compared, order for numbers -/
def CompOp.defined (op : CompOp) (val : Data R) : Bool :=
  match op, val with
  | .equ, _ | .nequ, _ => true
  | _, .int _ | _, .real _ => true
  | _, _ => false

/-- numbers and strings -/
def Data.hasOrder : Data R → Bool
  | .int _ | .real _ | .str _ => true
  | _ => false

/-- the comparison pushes `true` -/
def IsTrue (op : CompOp) : Prop := comparison eps op val1 val2 = .ok true

/-- the comparison pushes a result -/
def HasResult (op : CompOp) : Prop := ∃ b, comparison eps op val1 val2 = .ok b

/-- the laws of the comparison instructions, wherever they push results -/
structure Coherent : Prop where
  nequ : HasResult eps val1 val2 .equ → HasResult eps val1 val2 .nequ →
    (IsTrue eps val1 val2 .nequ ↔ ¬ IsTrue eps val1 val2 .equ)
  lequ : val1.hasOrder = true → HasResult eps val1 val2 .lequ → HasResult eps val1 val2 .lt →
    HasResult eps val1 val2 .equ →
    (IsTrue eps val1 val2 .lequ ↔ IsTrue eps val1 val2 .lt ∨ IsTrue eps val1 val2 .equ)
  gequ : val1.hasOrder = true → HasResult eps val1 val2 .gequ → HasResult eps val1 val2 .gt →
    HasResult eps val1 val2 .equ →
    (IsTrue eps val1 val2 .gequ ↔ IsTrue eps val1 val2 .gt ∨ IsTrue eps val1 val2 .equ)
  antisymm : val1.hasOrder = true → ¬ (IsTrue eps val1 val2 .lt ∧ IsTrue eps val1 val2 .gt)
  total : val1.hasOrder = true → HasResult eps val1 val2 .lt → HasResult eps val1 val2 .equ →
    HasResult eps val1 val2 .gt →
    IsTrue eps val1 val2 .lt ∨ IsTrue eps val1 val2 .equ ∨ IsTrue eps val1 val2 .gt
  undefined_ : ∀ op : CompOp, op.defined val1 = false →
    ∃ msg, comparison eps op val1 val2 = .error (.throw msg)

/-- two data of one of the types that can be compared -/
inductive Comparable : Data R → Data R → Prop
  | int (a b : Int64) : Comparable (.int a) (.int b)
  | real (a b : R) : Comparable (.real a) (.real b)
  | str (a b : Str) : Comparable (.str a) (.str b)
  | realArr (a b : List R) : Comparable (.realArr a) (.realArr b)
  | intArr (a b : List Int64) : Comparable (.intArr a) (.intArr b)

end

/-! ## results -/

section
variable {R : Type} [MathLib R] {eps : R} {val1 val2 : Data R}

/-- the six results on data of one type, if they are all pushed -/
structure Results (eps : R) (val1 val2 : Data R) (res : CompOp → Bool) : Prop where
  eq : ∀ op, comparison eps op val1 val2 = .ok (res op)

theorem Results.isTrue {res : CompOp → Bool} (h : Results eps val1 val2 res) (op : CompOp) :
    IsTrue eps val1 val2 op ↔ res op = true := by
  unfold IsTrue
  rw [h.eq op]
  exact ⟨fun e => Except.ok.inj e, fun e => by rw [e]⟩

theorem Results.hasResult {res : CompOp → Bool} (h : Results eps val1 val2 res) (op : CompOp) :
    HasResult eps val1 val2 op := ⟨_, h.eq op⟩

theorem results_int (eps : R) (a b : Int64) :
    Results eps (.int a) (.int b) fun op => intComp op a b := ⟨fun _ => rfl⟩

theorem results_real (eps a b : R) :
    Results eps (.real a) (.real b) fun op => realComp eps op a b := ⟨fun _ => rfl⟩

theorem coherent_int (eps : R) (a b : Int64) : Coherent eps (.int a) (.int b) := by
  have h := results_int eps a b
  have e : ∀ op, IsTrue eps (.int a) (.int b) op ↔ intComp op a b = true := h.isTrue
  refine ⟨fun _ _ => ?_, fun _ _ _ _ => ?_, fun _ _ _ _ => ?_, fun _ => ?_, fun _ _ _ _ => ?_,
    fun op ho => by cases op <;> cases ho⟩
  · rw [e, e]
    simp [intComp]
  · rw [e, e, e]
    simp only [intComp, decide_eq_true_eq, beq_iff_eq, Int64.le_iff_toInt_le,
      Int64.lt_iff_toInt_lt, ← Int64.toInt_inj]
    omega
  · rw [e, e, e]
    simp only [intComp, decide_eq_true_eq, beq_iff_eq, ge_iff_le, gt_iff_lt,
      Int64.le_iff_toInt_le, Int64.lt_iff_toInt_lt, ← Int64.toInt_inj]
    omega
  · rw [e, e]
    simp only [intComp, decide_eq_true_eq, gt_iff_lt, Int64.lt_iff_toInt_lt]
    omega
  · rw [e, e, e]
    simp only [intComp, decide_eq_true_eq, beq_iff_eq, gt_iff_lt, Int64.lt_iff_toInt_lt,
      ← Int64.toInt_inj]
    omega

/-- an order comparison of data without one gives `false` -/
theorem not_coherent_of_false (ho : CompOp.defined .lt val1 = false)
    (h : comparison eps .lt val1 val2 = .ok false) : ¬ Coherent eps val1 val2 := by
  intro hc
  obtain ⟨msg, e⟩ := hc.undefined_ .lt ho
  rw [h] at e
  cases e

section
variable [Field R] [LinearOrder R] [IsStrictOrderedRing R] [OrderedReals R]

theorem realComp_equ (eps a b : R) : realComp eps .equ a b = true ↔ |a - b| ≤ eps := by
  show MathLib.le (MathLib.abs (MathLib.sub a b)) eps = true ↔ _
  rw [OrderedReals.le, OrderedReals.abs, OrderedReals.sub, decide_eq_true_eq]

theorem realComp_nequ (eps a b : R) : realComp eps .nequ a b = true ↔ eps < |a - b| := by
  show MathLib.lt eps (MathLib.abs (MathLib.sub a b)) = true ↔ _
  rw [OrderedReals.lt, OrderedReals.abs, OrderedReals.sub, decide_eq_true_eq]

theorem realComp_lt (eps a b : R) : realComp eps .lt a b = true ↔ a < b := by
  show MathLib.lt a b = true ↔ _
  rw [OrderedReals.lt, decide_eq_true_eq]

theorem realComp_gt (eps a b : R) : realComp eps .gt a b = true ↔ b < a := by
  show MathLib.lt b a = true ↔ _
  rw [OrderedReals.lt, decide_eq_true_eq]

theorem realComp_lequ (eps a b : R) : realComp eps .lequ a b = true ↔ a ≤ b := by
  show MathLib.le a b = true ↔ _
  rw [OrderedReals.le, decide_eq_true_eq]

theorem realComp_gequ (eps a b : R) : realComp eps .gequ a b = true ↔ b ≤ a := by
  show MathLib.le b a = true ↔ _
  rw [OrderedReals.le, decide_eq_true_eq]

/-- equality up to a tolerance and exact order go together where the tolerance makes no
difference -/
theorem coherent_real {a b : R} (h0 : 0 ≤ eps) :
    Coherent eps (.real a) (.real b) ↔ a = b ∨ eps < |a - b| := by
  have h := results_real eps a b
  have e : ∀ op, IsTrue eps (.real a) (.real b) op ↔ realComp eps op a b = true := h.isTrue
  have p : ∀ op, HasResult eps (.real a) (.real b) op := h.hasResult
  constructor
  · intro hc
    by_contra hn
    rw [not_or, not_lt] at hn
    have h1 := hc.lequ rfl (p _) (p _) (p _)
    have h2 := hc.gequ rfl (p _) (p _) (p _)
    rw [e, e, e, realComp_lequ, realComp_lt, realComp_equ] at h1
    rw [e, e, e, realComp_gequ, realComp_gt, realComp_equ] at h2
    exact hn.1 (le_antisymm (h1.2 (Or.inr hn.2)) (h2.2 (Or.inr hn.2)))
  · intro hab
    have hequ : |a - b| ≤ eps ↔ a = b := by
      rcases hab with rfl | hab
      · simp [h0]
      · refine ⟨fun hl => absurd hab (not_lt.2 hl), ?_⟩
        rintro rfl
        simpa using h0
    refine ⟨fun _ _ => ?_, fun _ _ _ _ => ?_, fun _ _ _ _ => ?_, fun _ => ?_, fun _ _ _ _ => ?_,
      fun op ho => by cases op <;> cases ho⟩
    · rw [e, e, realComp_nequ, realComp_equ, not_le]
    · rw [e, e, e, realComp_lequ, realComp_lt, realComp_equ, hequ]
      exact le_iff_lt_or_eq
    · rw [e, e, e, realComp_gequ, realComp_gt, realComp_equ, hequ, eq_comm (a := a)]
      exact le_iff_lt_or_eq
    · rw [e, e, realComp_lt, realComp_gt]
      exact fun hl => lt_asymm hl.1 hl.2
    · rw [e, e, e, realComp_lt, realComp_gt, realComp_equ, hequ]
      exact lt_trichotomy a b

/-- integers, and reals that are equal or differ by more than the tolerance -/
def Distinguishable (eps : R) : Data R → Data R → Prop
  | .int _, .int _ => True
  | .real a, .real b => a = b ∨ eps < |a - b|
  | _, _ => False

/-- **The comparison instructions are coherent** on integers and on reals that are equal or differ
by more than the tolerance, and on nothing else. -/
theorem coherent_iff (h0 : 0 ≤ eps) (h : Comparable val1 val2) :
    Coherent eps val1 val2 ↔ Distinguishable eps val1 val2 := by
  cases h with
  | int a b => exact ⟨fun _ => trivial, fun _ => coherent_int eps a b⟩
  | real a b => exact coherent_real h0
  | str a b => exact ⟨fun hc => absurd hc (not_coherent_of_false rfl rfl), False.elim⟩
  | realArr a b => exact ⟨fun hc => absurd hc (not_coherent_of_false rfl rfl), False.elim⟩
  | intArr a b => exact ⟨fun hc => absurd hc (not_coherent_of_false rfl rfl), False.elim⟩

end

end

theorem coherent_rational :
    @Coherent ℚ MathLib.rational (1/2) (.real 1) (.real 2) ↔
      Distinguishable (1/2) (.real (1 : ℚ)) (.real 2) :=
  @coherent_iff ℚ MathLib.rational (1/2) (.real 1) (.real 2) _ _ _ orderedReals_rational
    (one_half_pos : (0 : ℚ) < 1/2).le (@Comparable.real ℚ 1 2)

/-- `"a" < "b"` is false, and so is every other order comparison of the two strings -/
theorem incoherent_strings :
    @Comparable ℚ (.str (ascii "a")) (.str (ascii "b")) ∧
    @comparison ℚ MathLib.rational 0 .lt (.str (ascii "a")) (.str (ascii "b")) = .ok false ∧
    ¬ @Coherent ℚ MathLib.rational 0 (.str (ascii "a")) (.str (ascii "b")) :=
  ⟨.str _ _, rfl, @not_coherent_of_false ℚ MathLib.rational _ _ _ rfl rfl⟩

end MuF
