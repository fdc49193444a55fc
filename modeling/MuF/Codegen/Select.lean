import MuF.Codegen.Cases
import MuF.Codegen.Induct

/-!
# Runs of select statements

* `Selects`: the parts that a run of the statement goes through, one after the other;
* `Expected`: what the statement means: the selector once, the cases up to the first that is equal,
  and one block;
* **`select_once`**: when a run of the code does this.
-/

set_option linter.unusedVariables false

namespace MuF

open Bytes Exec Layout

/-! ## the parts of a run -/

/-- a part of a run: the selector or the value of a case with its result, the block of a case, or
the block behind all cases; a case has the tolerance and precision at its comparison -/
inductive SelectPart
  | selector (x : TData)
  | test (i : Nat) (y : TData) (eps : TReal) (prec : Int64)
  | block (i : Nat)
  | default

/-- types that `==` can compare -/
def Data.selectable : TData → Bool
  | .int _ | .real _ | .str _ => true
  | _ => false

section
variable [MathLib TReal]

/-- a number of turns of the main loop -/
def TurnsN : Nat → VM → VM → Prop
  | 0, s, t => s = t
  | n + 1, s, t => ∃ u, step.run s = .ok .running u ∧ TurnsN n u t

/-- the run of the statement from a case on, or from behind all cases: the cases that are left,
the number of the first of them, and the parts up to the end `q` -/
inductive Selects (q : Nat) (hasDefault : Bool) :
    List CaseSpan → Nat → VM → List SelectPart → VM → Prop
  | done {i : Nat} {s : VM} (hd : hasDefault = false) : Selects q hasDefault [] i s [] s
  | default {i : Nat} {s t : VM} (hd : hasDefault = true) (h : Leaves q s t) :
    Selects q hasDefault [] i s [.default] t
  | hit {i : Nat} {c : CaseSpan} {cs : List CaseSpan} {s t1 t2 t3 t4 u : VM} {x y : TData}
    (h1 : Leaves c.test s t1) (hx : topData.run t1 = .ok x t1)
    (h2 : Leaves c.comp t1 t2) (hy : topData.run t2 = .ok y t2)
    (h3 : TurnsN 4 t2 t3) (hip : t3.ip = Int32.ofNat c.block)
    (h4 : Leaves c.jump t3 t4) (h5 : TurnsN 2 t4 u) (hq : u.ip = Int32.ofNat q) :
    Selects q hasDefault (c :: cs) i s [.selector x, .test i y t2.eps t2.prec, .block i] u
  | miss {i : Nat} {c : CaseSpan} {cs : List CaseSpan} {s t1 t2 t3 u : VM} {x y : TData}
    {w : List SelectPart}
    (h1 : Leaves c.test s t1) (hx : topData.run t1 = .ok x t1)
    (h2 : Leaves c.comp t1 t2) (hy : topData.run t2 = .ok y t2)
    (h3 : TurnsN 4 t2 t3) (hip : t3.ip = Int32.ofNat c.next)
    (hw : Selects q hasDefault cs (i + 1) t3 w u) :
    Selects q hasDefault (c :: cs) i s (.selector x :: .test i y t2.eps t2.prec :: w) u

/-! ## what the statement means -/

/-- the type that `==` casts both operands to -/
def commonType (x y : TData) : VMType :=
  match x, y with
  | .str _, _ | _, .str _ => .str
  | .real _, _ | _, .real _ => .real
  | _, _ => .int

/-- the result of `==` -/
def languageEqual (eps : TReal) (prec : Int64) (x y : TData) : Res Bool := do
  let x' ← castData eps prec (commonType x y) x
  let y' ← castData eps prec (commonType x y) y
  comparison eps .equ (x'.getD x) (y'.getD y)

/-- the cases one after the other, from the number `i` on -/
def testParts (i : Nat) : List (TData × TReal × Int64) → List SelectPart
  | [] => []
  | y :: ys => .test i y.1 y.2.1 y.2.2 :: testParts (i + 1) ys

/-- the parts in a run of a statement with `n` cases: the selector once, the cases up to the first
that is equal and its block, or all cases and the default block if there is one -/
def Expected (n : Nat) (hasDefault : Bool) (w : List SelectPart) : Prop :=
  ∃ x ys, (∀ y ∈ ys, languageEqual y.2.1 y.2.2 x y.1 = .ok false) ∧
    ((∃ y, languageEqual y.2.1 y.2.2 x y.1 = .ok true ∧ ys.length < n ∧
        w = .selector x :: testParts 0 (ys ++ [y]) ++ [.block ys.length]) ∨
      ys.length = n ∧
        w = .selector x :: testParts 0 ys ++ if hasDefault then [.default] else [])

/-- the first case is compared only, with a value of the type of the selector -/
def OneComparison (cs : List CaseSpan) (s : VM) : Prop :=
  ∃ c t1 t2 x y, cs.head? = some c ∧ Leaves c.test s t1 ∧ topData.run t1 = .ok x t1 ∧
    Leaves c.comp t1 t2 ∧ topData.run t2 = .ok y t2 ∧ x.index = y.index ∧
    (cs.length = 1 ∨ comparison t2.eps .equ x y = .ok true)

/-! ## assumptions on the parts -/

/-- from everywhere at `b` with `E` the machine comes to `m` with a value that `==` can compare,
where it needs `need` bytes -/
def Evaluates (base : Int) (E : VM → Prop) (code : List UInt8) (b m need : Nat) : Prop :=
  ∀ s ds, (code.length : Int) + need + sizes ds ≤ base → s.Here code base b ds → E s →
    ∃ t x ty, Leaves m s t ∧ t.Here code base m ((x, ty) :: ds) ∧ E t ∧ x.selectable = true ∧
      x.size ≤ need

/-- from everywhere at `b` with `E` the machine comes to `m` with the same data on the stack -/
def Executes (base : Int) (E : VM → Prop) (code : List UInt8) (b m need : Nat) : Prop :=
  ∀ s ds, (code.length : Int) + need + sizes ds ≤ base → s.Here code base b ds → E s →
    ∃ t, Leaves m s t ∧ t.Here code base m ds ∧ E t

/-- every part of the statement comes to its end -/
structure PartsEnd (base : Int) (E : VM → Prop) (code : List UInt8) (cs : List CaseSpan)
    (d q need : Nat) (hasDefault : Bool) : Prop where
  stable : Stable base E
  selector : ∀ c ∈ cs, Evaluates base E code c.sel c.test need
  test : ∀ c ∈ cs, Evaluates base E code c.test c.comp need
  block : ∀ c ∈ cs, Executes base E code c.block c.jump need
  default : hasDefault = true → Executes base E code d q need

/-! ## lemmas -/

section
variable {s t u : VM} {code : List UInt8} {base : Int} {p q d need i : Nat} {ds : List Item}
  {E : VM → Prop} {x y : TData} {c : CaseSpan} {cs : List CaseSpan}
  {hasDefault : Bool} {w : List SelectPart} {ty ty1 ty2 : VMType}

theorem TurnsN.unique {n : Nat} (h : TurnsN n s t) (h' : TurnsN n s u) : t = u := by
  induction n generalizing s with
  | zero => exact h.symm.trans h'
  | succ n ih =>
    obtain ⟨v, hv, h⟩ := h
    obtain ⟨v', hv', h'⟩ := h'
    rw [hv] at hv'
    cases hv'
    exact ih h h'

omit [MathLib TReal] in
theorem VM.Here.topData (h : s.Here code base p ((x, ty) :: ds)) : topData.run s = .ok x s :=
  topData_run h.holds.items.head h.holds.room.left (at_append.1 h.holds.contents).1

/-- values of one type are compared as they are -/
theorem comparison_same (eps : TReal) (hx : x.selectable = true) (hy : y.selectable = true)
    (h : x.index = y.index) : ∃ b, comparison eps .equ x y = .ok b ∧
      ∀ prec, languageEqual eps prec x y = .ok b := by
  cases x <;> cases hx <;> cases y <;> cases hy <;> try cases h
  · exact ⟨_, rfl, fun _ => rfl⟩
  · exact ⟨_, rfl, fun _ => rfl⟩
  · exact ⟨_, rfl, fun _ => rfl⟩

theorem comparison_mixed (eps : TReal) (h : x.index ≠ y.index) :
    ∃ e, comparison eps .equ x y = .error e := by
  unfold comparison
  rw [if_pos h]
  exact ⟨_, rfl⟩

/-- the selector is the first part only -/
theorem expected_selector {n : Nat} {part : SelectPart} (h : Expected n hasDefault (part :: w)) :
    (∃ x, part = .selector x) ∧ ∀ x, .selector x ∉ w := by
  have htests (i : Nat) (ys : List (TData × TReal × Int64)) (x : TData) :
      .selector x ∉ testParts i ys := by
    induction ys generalizing i with
    | nil => simp [testParts]
    | cons y ys ih => simp [testParts, ih]
  obtain ⟨x, ys, -, ⟨y, -, -, e⟩ | ⟨-, e⟩⟩ := h
  · obtain ⟨rfl, rfl⟩ := List.cons.inj e
    exact ⟨⟨x, rfl⟩, fun x' => by simp [htests]⟩
  · obtain ⟨rfl, rfl⟩ := List.cons.inj e
    refine ⟨⟨x, rfl⟩, fun x' => ?_⟩
    cases hasDefault <;> simp [htests]

/-- a run through a case begins with the selector -/
theorem selects_selector (h : Selects q hasDefault (c :: cs) i s w u) :
    ∃ x w', w = .selector x :: w' := by
  cases h with
  | hit => exact ⟨_, _, rfl⟩
  | miss => exact ⟨_, _, rfl⟩

/-- a run behind all cases has no selector -/
theorem selects_nil (h : Selects q hasDefault [] i s w u) : ∀ x, .selector x ∉ w := by
  cases h with
  | done => simp
  | default => simp

omit [MathLib TReal] in
/-- the block of a case is not at the next case -/
theorem CaseCode.block_ne (h : CaseCode code q c) : c.block ≠ c.next := by
  intro e
  have e' : c.comp + 9 = c.jump + 7 := e
  have h1 : code[c.comp + 2 + 6]? = some OpCode.jmpcnd.code :=
    (sits_cons.1 (sits_append.1 h.skip).2).1
  have h2 : code[c.jump + 6]? = some OpCode.jmp.code := (sits_cons.1 (sits_append.1 h.jump).2).1
  rw [show c.jump + 6 = c.comp + 2 + 6 by omega, h1] at h2
  exact absurd h2 (by decide)

omit [MathLib TReal] in
theorem CaseCode.next_le (h : CaseCode code q c) : c.next ≤ code.length := by
  have hle := h.jump.le (by simp [skipCode])
  rw [length_skipCode] at hle
  exact hle

omit [MathLib TReal] in
theorem CaseCode.block_le (h : CaseCode code q c) : c.block ≤ code.length := by
  have hle := h.skip.le (by simp [skipCode])
  rw [length_skipCode] at hle
  exact hle

/-- **A comparison** of the selector with a case goes on at the block or behind the case. -/
theorem run_compare (hcode : CaseCode code q c)
    (h : s.Here code base c.comp ((y, ty2) :: (x, ty1) :: ds)) {b : Bool}
    (hroom : (code.length : Int) + 7 + sizes ds ≤ base)
    (hb : comparison s.eps .equ x y = .ok b) :
    ∃ t, TurnsN 4 s t ∧ t.Here code base (if b then c.block else c.next) ds ∧ SameAbove base s t := by
  obtain ⟨t1, r1, h1, a1⟩ := VM.Here.compare .equ .equ h hcode.equ rfl hb
  obtain ⟨t2, r2, h2, a2⟩ := h1.not hcode.not
  obtain ⟨t3, t4, r3, r4, h4, a4⟩ :=
    h2.jumpCond hcode.skip (toSkip_add c.next (c.comp + 2)) hcode.next_le hroom
  refine ⟨t4, ⟨t1, r1, t2, r2, t3, r3, t4, r4, rfl⟩, ?_, (a1.trans a2).trans a4⟩
  cases b with
  | true => exact h4
  | false => exact h4

/-- a comparison of values of different types stops the machine -/
theorem run_compare_mixed (hcode : CaseCode code q c)
    (h : s.Here code base c.comp ((y, ty2) :: (x, ty1) :: ds)) (hne : x.index ≠ y.index) :
    ¬ TurnsN 4 s t := by
  obtain ⟨e, he⟩ := comparison_mixed s.eps hne
  obtain ⟨u, hu⟩ := VM.Here.compareStop .equ .equ h hcode.equ rfl he
  rintro ⟨v, hv, -⟩
  rw [hu] at hv
  cases hv

/-- **The selector and a case** are evaluated. -/
theorem run_case (hp : PartsEnd base E code cs d q need hasDefault) (hc : c ∈ cs)
    (h : s.Here code base c.sel ds) (hE : E s)
    (hroom : (code.length : Int) + (2 * need + 7) + sizes ds ≤ base) :
    ∃ t1 t2 x y ty1 ty2, Leaves c.test s t1 ∧ topData.run t1 = .ok x t1 ∧ Leaves c.comp t1 t2 ∧
      topData.run t2 = .ok y t2 ∧ t2.Here code base c.comp ((y, ty2) :: (x, ty1) :: ds) ∧ E t2 ∧
      x.selectable = true ∧ y.selectable = true := by
  obtain ⟨t1, x, ty1, l1, h1, e1, sx, nx⟩ := hp.selector c hc s ds (by omega) h hE
  have hroom1 : (code.length : Int) + need + sizes ((x, ty1) :: ds) ≤ base := by
    rw [sizes_cons]
    push_cast
    omega
  obtain ⟨t2, y, ty2, l2, h2, e2, sy, -⟩ := hp.test c hc t1 _ hroom1 h1 e1
  exact ⟨t1, t2, x, y, ty1, ty2, l1, h1.topData, l2, h2.topData, h2, e2, sx, sy⟩

/-- **A block** is executed, and the run goes on behind all cases. -/
theorem run_block (hp : PartsEnd base E code cs d q need hasDefault) (hc : c ∈ cs)
    (hcode : CaseCode code q c) (hq : q ≤ code.length) (h : s.Here code base c.block ds) (hE : E s)
    (hroom : (code.length : Int) + (2 * need + 7) + sizes ds ≤ base) :
    ∃ t u, Leaves c.jump s t ∧ TurnsN 2 t u ∧ u.Here code base q ds := by
  obtain ⟨t, l, ht, -⟩ := hp.block c hc s ds (by omega) h hE
  obtain ⟨v, u, r1, r2, hu, -⟩ := ht.jump hcode.jump (toSkip_add q c.jump) hq (by omega)
  exact ⟨t, u, l, ⟨v, r1, u, r2, rfl⟩, hu⟩

/-- the run behind all cases -/
theorem run_rest (hp : PartsEnd base E code cs d q need hasDefault)
    (hdq : hasDefault = false → q = d) (h : s.Here code base d ds) (hE : E s)
    (hroom : (code.length : Int) + (2 * need + 7) + sizes ds ≤ base) (i : Nat) :
    ∃ u, Selects q hasDefault [] i s (if hasDefault then [.default] else []) u ∧
      u.Here code base q ds := by
  cases hasDefault with
  | false => exact ⟨s, .done rfl, hdq rfl ▸ h⟩
  | true =>
    obtain ⟨t, l, ht, -⟩ := hp.default rfl s ds (by omega) h hE
    exact ⟨t, .default rfl l, ht⟩

omit [MathLib TReal] in
theorem ofNat_ne {m n : Nat} (hm : m < 2^31) (hn : n < 2^31) (h : m ≠ n) :
    Int32.ofNat m ≠ Int32.ofNat n := by
  intro e
  have e' := congrArg Int32.toInt e
  rw [Word.toInt_ofNat hm, Word.toInt_ofNat hn] at e'
  omega

/-- **A run does what the statement means** if and only if it compares the first case only. -/
theorem selects_iff (hp : PartsEnd base E code cs d q need hasDefault) (hchain : Chained cs p d)
    (hcode : ∀ c ∈ cs, CaseCode code q c) (hq : q ≤ code.length)
    (hdq : hasDefault = false → q = d) (h : s.Here code base p ds) (hE : E s)
    (hroom : (code.length : Int) + (2 * need + 7) + sizes ds ≤ base) :
    (∃ w u, Selects q hasDefault cs 0 s w u ∧ u.Here code base q ds ∧
      Expected cs.length hasDefault w) ↔ OneComparison cs s := by
  have hlen := h.ready.length_lt
  cases cs with
  | nil =>
    constructor
    · rintro ⟨w, u, hw, -, x, ys, -, ⟨y, -, -, rfl⟩ | ⟨-, rfl⟩⟩
      · exact absurd List.mem_cons_self (selects_nil hw x)
      · exact absurd List.mem_cons_self (selects_nil hw x)
    · rintro ⟨c, t1, t2, x, y, hc, -⟩
      cases hc
  | cons c cs =>
    obtain ⟨rfl, hchain⟩ := hchain
    have hc := hcode c List.mem_cons_self
    obtain ⟨t1, t2, x, y, ty1, ty2, l1, hx, l2, hy, h2, e2, sx, sy⟩ :=
      run_case hp List.mem_cons_self h hE hroom
    -- the comparison that every run begins with
    have hcomp {b : Bool} (hb : comparison t2.eps .equ x y = .ok b) :
        ∃ t3, TurnsN 4 t2 t3 ∧ t3.Here code base (if b then c.block else c.next) ds ∧ E t3 := by
      obtain ⟨t3, r3, h3, a3⟩ := run_compare hc h2 (by omega) hb
      exact ⟨t3, r3, h3, hp.stable _ _ a3 e2⟩
    have hindex {t3 : VM} (r3 : TurnsN 4 t2 t3) : x.index = y.index := by
      by_contra hne
      exact run_compare_mixed hc h2 hne r3
    constructor
    · rintro ⟨w, u, hw, -, hexp⟩
      cases hw with
      | hit l1' hx' l2' hy' r3 hip =>
        obtain rfl := l1.unique l1'
        obtain rfl := l2.unique l2'
        have hi := hindex r3
        obtain ⟨b, hb, -⟩ := comparison_same t2.eps sx sy hi
        refine ⟨c, t1, t2, x, y, rfl, l1, hx, l2, hy, hi, Or.inr ?_⟩
        cases b with
        | true => exact hb
        | false =>
          obtain ⟨t3', r3', h3', -⟩ := hcomp hb
          obtain rfl := r3.unique r3'
          have hn := hc.next_le
          have hl := hc.block_le
          refine absurd (hip.symm.trans h3'.ip) (ofNat_ne (by omega) ?_ hc.block_ne)
          show c.next < 2^31
          omega
      | miss l1' hx' l2' hy' r3 hip hw =>
        obtain rfl := l1.unique l1'
        obtain rfl := l2.unique l2'
        refine ⟨c, t1, t2, x, y, rfl, l1, hx, l2, hy, hindex r3, Or.inl ?_⟩
        cases cs with
        | nil => rfl
        | cons c' cs =>
          obtain ⟨x', w', rfl⟩ := selects_selector hw
          exact absurd (by simp) ((expected_selector hexp).2 x')
    · rintro ⟨c', t1', t2', x', y', hc', l1', hx', l2', hy', hi, hone⟩
      obtain rfl : c = c' := Option.some.inj hc'
      obtain rfl := l1.unique l1'
      obtain rfl := l2.unique l2'
      obtain rfl : x = x' := by
        rw [hx] at hx'
        cases hx'
        rfl
      obtain rfl : y = y' := by
        rw [hy] at hy'
        cases hy'
        rfl
      obtain ⟨b, hb, hlang⟩ := comparison_same t2.eps sx sy hi
      obtain ⟨t3, r3, h3, e3⟩ := hcomp hb
      cases b with
      | true =>
        obtain ⟨t4, u, l4, r5, hu⟩ := run_block hp List.mem_cons_self hc hq h3 e3 hroom
        refine ⟨_, u, .hit l1 hx l2 hy r3 h3.ip l4 r5 hu.ip, hu, x, [], by simp, Or.inl ?_⟩
        exact ⟨(y, t2.eps, t2.prec), hlang _, Nat.succ_pos _, rfl⟩
      | false =>
        have hnil : cs = [] := by
          rcases hone with hone | hone
          · exact List.length_eq_zero_iff.1 (Nat.succ.inj hone)
          · rw [hb] at hone
            cases hone
        subst hnil
        have h3' : t3.Here code base d ds := by
          rw [show d = c.next from hchain]
          exact h3
        obtain ⟨u, hw, hu⟩ := run_rest hp hdq h3' e3 hroom 1
        refine ⟨_, u, .miss l1 hx l2 hy r3 h3.ip hw, hu, x, [(y, t2.eps, t2.prec)], ?_, Or.inr ?_⟩
        · intro y' hy'
          rw [List.mem_singleton.1 hy']
          exact hlang _
        · exact ⟨rfl, rfl⟩

end

end

theorem length_visitPairs (asts : List (AST × AST)) :
    (visitPairs asts).length = asts.length := by
  induction asts with
  | nil => rw [visitPairs, List.length_nil, List.length_nil]
  | cons ast asts ih => rw [visitPairs, List.length_cons, ih, List.length_cons]

theorem visitOpt_none {ast : Option AST} : visitOpt ast = none ↔ ast.isSome = false := by
  cases ast with
  | none => simp [visitOpt]
  | some ast => simp [visitOpt]

/-- the code of a select statement, however code generation goes on -/
theorem select_code {syms : SymTab} {s s' : Codegen} {H : Holes} {l : List Event}
    (he : Emits (Codegen.init syms) [] l s H) (hs : s.AtEnd) (ho : Open s H) {expr : AST}
    {cases_ : List (AST × AST)} {defaultStmts : Option AST} {ret : Option Symbol}
    (hv : (visit (.cases expr cases_ defaultStmts)).run s = .ok ret s') :
    ∃ cs s1, (caseSpans (visit expr) (visitPairs cases_)).run s = .ok cs s1 ∧
      cs.length = cases_.length ∧ Chained cs s.ostr.pos s1.ostr.pos ∧
      (defaultStmts.isSome = false → s'.ostr.pos = s1.ostr.pos) ∧
      ∀ (x : CGM Unit) (n : Nat) (f : Codegen), Keeps Lays x → (do x; finish).run s' = .ok n f →
        (∀ c ∈ cs, CaseCode f.ostr.buf s'.ostr.pos c) ∧ s'.ostr.pos ≤ f.ostr.buf.length := by
  have hst : Stage s H l := ⟨emits_sited he [] (sited_init syms), hs, ho⟩
  have hexpr : Keeps Lays (visit expr) :=
    visit_keeps lays_rules ⟨[], false⟩ expr (AST.all_true _ expr)
  have hcases := visitPairs_keeps lays_rules ⟨[], false⟩ cases_ (allPairs_true _ cases_)
  have hdefault := visitOpt_keeps lays_rules ⟨[], false⟩ defaultStmts (allOpt_true _ defaultStmts)
  rw [visit] at hv
  obtain ⟨cs, s1, hspans, hlen, hchain, hd, hadds⟩ :=
    visitCases_code hexpr hcases hdefault hst.draft hv
  rw [length_visitPairs] at hlen
  exact ⟨cs, s1, hspans, hlen, hchain, fun h => hd (visitOpt_none.2 h),
    fun x n f hx hf => hadds.finish hx hf⟩

/-- **Select statements.**  At every point of the code generation, and however it goes on, a run of
the code of a select statement does what the statement means if and only if it compares the first
case only, with a value of the type of the selector. -/
theorem select_once [MathLib TReal] {syms : SymTab} {s s' : Codegen} {H : Holes} {l : List Event}
    (he : Emits (Codegen.init syms) [] l s H) (hs : s.AtEnd) (ho : Open s H) {expr : AST}
    {cases_ : List (AST × AST)} {defaultStmts : Option AST} {ret : Option Symbol}
    (hv : (visit (.cases expr cases_ defaultStmts)).run s = .ok ret s') :
    ∃ cs s1, (caseSpans (visit expr) (visitPairs cases_)).run s = .ok cs s1 ∧
      cs.length = cases_.length ∧
      ∀ (x : CGM Unit) (n : Nat) (f : Codegen), Keeps Lays x → (do x; finish).run s' = .ok n f →
        ∀ (base : Int) (E : VM → Prop) (need : Nat) (vm : VM) (ds : List Item),
          PartsEnd base E f.ostr.buf cs s1.ostr.pos s'.ostr.pos need defaultStmts.isSome →
          vm.Here f.ostr.buf base s.ostr.pos ds → E vm →
          (f.ostr.buf.length : Int) + (2 * need + 7) + sizes ds ≤ base →
          ((∃ w u, Selects s'.ostr.pos defaultStmts.isSome cs 0 vm w u ∧
              u.Here f.ostr.buf base s'.ostr.pos ds ∧
              Expected cases_.length defaultStmts.isSome w) ↔ OneComparison cs vm) := by
  obtain ⟨cs, s1, hspans, hlen, hchain, hd, hcode⟩ := select_code he hs ho hv
  refine ⟨cs, s1, hspans, hlen, ?_⟩
  intro x n f hx hf base E need vm ds hparts hvm hE hroom
  obtain ⟨hcode, hq⟩ := hcode x n f hx hf
  rw [← hlen]
  exact selects_iff hparts hchain hcode hq hd hvm hE hroom

/-! ### two cases -/

section
variable {code : List UInt8} {base : Int} {s t : VM} {ds : List Item} {b need : Nat} {i : Int64}

/-- a machine with code at the beginning of its memory -/
def vmOn (code : List UInt8) : VM :=
  let s := @VM.init Platform.packed 4096 ⟨0⟩ []
  { s with mem := write s.mem 0 code, codeRange := (0, Int32.ofNat code.length) }

theorem here_vmOn (hl : code.length < 4000) :
    (vmOn code).Here code (vmOn code).sp.toInt 0 [] := by
  have hsp : (vmOn code).sp.toInt = 4055 := rfl
  have hm : (vmOn code).memsize.toInt = 4096 := rfl
  have hb : (vmOn code).bp.toInt = 4096 := rfl
  have hg : (vmOn code).gbp.toInt = 4096 := rfl
  refine ⟨⟨at_write_self _ _ _, rfl, fun _ => rfl, ?_, ?_, ?_, ?_⟩, rfl, ⟨?_, ?_, ?_⟩, ?_, ?_⟩
  · rw [hsp]
    omega
  · rw [hsp, hm]
    decide
  · rw [hb, hm]
    omega
  · rw [hg, hm]
    omega
  · intro x hx
    cases hx
  · rw [VM.Room, hsp, hm]
    decide
  · rfl
  · exact Int.add_zero _
  · rw [hsp, hm]
    decide

variable [MathLib TReal]

/-- an integer constant is left behind its instruction -/
theorem leaves_int (h : s.Here code base b ds) (hc : Sits code b (intCode i))
    (hroom : (code.length : Int) + 9 + sizes ds ≤ base) :
    ∃ t, Leaves (b + 10) s t ∧ t.Here code base (b + 10) ((.int i, .unknown) :: ds) := by
  obtain ⟨t, ht, hh, hsame⟩ := h.push (d := .int i) hc rfl rfl hroom
  have hlen := h.ready.length_lt
  have hle := hc.le (by simp [intCode])
  rw [length_intCode] at hle
  refine ⟨t, .turn ?_ ht (.done ⟨hh.ip, ?_⟩), hh⟩
  · rintro ⟨hip, -⟩
    exact ofNat_ne (by omega) (by omega) (by omega) (h.ip.symm.trans hip)
  · rw [hsame.rest]

theorem evaluates_int (hc : Sits code b (intCode i)) :
    Evaluates base (fun _ => True) code b (b + 10) 9 := by
  intro s ds hroom h _
  obtain ⟨t, l, ht⟩ := leaves_int h hc hroom
  exact ⟨t, _, _, l, ht, trivial, rfl, Nat.le_refl 9⟩

theorem executes_nothing : Executes base (fun _ => True) code b b need :=
  fun s ds _ h _ => ⟨s, .done ⟨h.ip, rfl⟩, h, trivial⟩

end

/-- a select statement with the cases 1 and 2 and no statements -/
def selectAst (i : Int64) : AST :=
  .cases (.intConst i) [(.intConst 1, .stmts []), (.intConst 2, .stmts [])] none

def selectSpans : List CaseSpan := [⟨0, 10, 20, 29⟩, ⟨36, 46, 56, 65⟩]

/-- the result of a computation -/
def resultOf {α : Type} (x : CGM α) (s : Codegen) : Option (α × Nat) :=
  match x.run s with
  | .ok a t => some (a, t.ostr.pos)
  | .error _ _ => none

theorem resultOf_ok {α : Type} {x : CGM α} {s t : Codegen} {a a' : α} {p : Nat}
    (h : resultOf x s = some (a, p)) (hr : x.run s = .ok a' t) : a' = a ∧ t.ostr.pos = p := by
  unfold resultOf at h
  rw [hr] at h
  cases h
  exact ⟨rfl, rfl⟩

/-- the code after `Finish` has the constants in place -/
def selectChecks (i : Int64) (s : Codegen) : Bool :=
  decide (s.ostr.pos = 72) && endsIn finish s fun f =>
    decide (f.ostr.buf.length < 4000) && decide (Sits f.ostr.buf 0 (intCode i)) &&
      decide (Sits f.ostr.buf 36 (intCode i)) && decide (Sits f.ostr.buf 10 (intCode 1)) &&
      decide (Sits f.ostr.buf 46 (intCode 2))

theorem partsEnd_select [MathLib TReal] {base : Int} {code : List UInt8} {i : Int64}
    (h0 : Sits code 0 (intCode i)) (h1 : Sits code 36 (intCode i)) (h2 : Sits code 10 (intCode 1))
    (h3 : Sits code 46 (intCode 2)) :
    PartsEnd base (fun _ => True) code selectSpans 72 72 9 false where
  stable := fun _ _ _ _ => trivial
  selector := by
    intro c hc
    rcases List.mem_pair.1 hc with rfl | rfl
    · exact evaluates_int h0
    · exact evaluates_int h1
  test := by
    intro c hc
    rcases List.mem_pair.1 hc with rfl | rfl
    · exact evaluates_int h2
    · exact evaluates_int h3
  block := by
    intro c hc
    rcases List.mem_pair.1 hc with rfl | rfl
    · exact executes_nothing
    · exact executes_nothing
  default := by
    intro h
    cases h

/-- what is known of the code of a select statement with constants -/
theorem select_consts {i : Int64} (h1 : endsIn (visit (selectAst i)) (Codegen.init [])
      (selectChecks i) = true)
    (h2 : resultOf (caseSpans (visit (.intConst i))
      (visitPairs [(.intConst 1, .stmts []), (.intConst 2, .stmts [])])) (Codegen.init []) =
        some (selectSpans, 72)) :
    ∃ ret s' n f, (visit (selectAst i)).run (Codegen.init []) = .ok ret s' ∧ s'.ostr.pos = 72 ∧
      finish.run s' = .ok n f ∧ f.ostr.buf.length < 4000 ∧ Sits f.ostr.buf 0 (intCode i) ∧
      Sits f.ostr.buf 10 (intCode 1) ∧
      ∀ base, @PartsEnd (MathLib.absent ⟨0⟩) base (fun _ => True) f.ostr.buf selectSpans 72 72 9
        false := by
  obtain ⟨ret, s', hv, hc⟩ := endsIn_ok h1
  obtain ⟨hpos, hfin⟩ := Bool.and_eq_true_iff.1 hc
  obtain ⟨n, f, hf, hsits⟩ := endsIn_ok hfin
  obtain ⟨hsits, hs4⟩ := Bool.and_eq_true_iff.1 hsits
  obtain ⟨hlen, hs1, hs2, hs3⟩ := and4 hsits
  refine ⟨ret, s', n, f, hv, of_decide_eq_true hpos, hf, of_decide_eq_true hlen,
    of_decide_eq_true hs1, of_decide_eq_true hs3, fun base => ?_⟩
  exact @partsEnd_select (MathLib.absent ⟨0⟩) base _ i (of_decide_eq_true hs1)
    (of_decide_eq_true hs2) (of_decide_eq_true hs3) (of_decide_eq_true hs4)

/-- the selector and the first case -/
theorem select_first [MathLib TReal] {code : List UInt8} {i : Int64} (h0 : Sits code 0 (intCode i))
    (h1 : Sits code 10 (intCode 1)) (hl : code.length < 4000) :
    ∃ t1 t2, Leaves 10 (vmOn code) t1 ∧ topData.run t1 = .ok (.int i) t1 ∧ Leaves 20 t1 t2 ∧
      topData.run t2 = .ok (.int 1) t2 := by
  have h := here_vmOn hl
  have hsp : (vmOn code).sp.toInt = 4055 := rfl
  rw [hsp] at h
  obtain ⟨t1, l1, ht1⟩ := leaves_int h h0 (by show (code.length : Int) + 9 + (0 : Nat) ≤ 4055; omega)
  obtain ⟨t2, l2, ht2⟩ := leaves_int ht1 h1
    (by show (code.length : Int) + 9 + (9 : Nat) ≤ 4055; omega)
  exact ⟨t1, t2, l1, ht1.topData, l2, ht2.topData⟩

/-- the selector is only evaluated once if it is equal to the first case -/
theorem oneComparison_select [MathLib TReal] {code : List UInt8} {i : Int64}
    (h0 : Sits code 0 (intCode i)) (h1 : Sits code 10 (intCode 1)) (hl : code.length < 4000) :
    OneComparison selectSpans (vmOn code) ↔ i = 1 := by
  obtain ⟨t1, t2, l1, hx, l2, hy⟩ := select_first h0 h1 hl
  have hcomp : comparison t2.eps .equ (.int i : TData) (.int 1) = .ok (i == 1) := rfl
  constructor
  · rintro ⟨c, t1', t2', x, y, hc, l1', hx', l2', hy', -, hone⟩
    cases hc
    obtain rfl := l1.unique l1'
    obtain rfl := l2.unique l2'
    rw [hx] at hx'
    rw [hy] at hy'
    cases hx'
    cases hy'
    rcases hone with hone | hone
    · exact absurd hone (by decide)
    · rw [hcomp] at hone
      exact beq_iff_eq.1 (Except.ok.inj hone)
  · rintro rfl
    exact ⟨_, t1, t2, _, _, rfl, l1, hx, l2, hy, rfl, Or.inr hcomp⟩

/-- the code of two cases that are compared with an integer -/
def selectCases : List (Visit × Visit) :=
  visitPairs [(.intConst 1, .stmts []), (.intConst 2, .stmts [])]

/-- the selector 5 is evaluated for every case -/
theorem select_five : ∃ ret s' n f cs s1, (visit (selectAst 5)).run (Codegen.init []) = .ok ret s' ∧
    finish.run s' = .ok n f ∧
    (caseSpans (visit (.intConst 5)) selectCases).run (Codegen.init []) = .ok cs s1 ∧
    (vmOn f.ostr.buf).Here f.ostr.buf (vmOn f.ostr.buf).sp.toInt 0 [] ∧
    @PartsEnd (MathLib.absent ⟨0⟩) (vmOn f.ostr.buf).sp.toInt (fun _ => True) f.ostr.buf cs
      s1.ostr.pos s'.ostr.pos 9 false ∧
    ¬ ∃ w u, @Selects (MathLib.absent ⟨0⟩) s'.ostr.pos false cs 0 (vmOn f.ostr.buf) w u ∧
      u.Here f.ostr.buf (vmOn f.ostr.buf).sp.toInt s'.ostr.pos [] ∧
      @Expected (MathLib.absent ⟨0⟩) 2 false w := by
  have hs : resultOf (caseSpans (visit (.intConst 5)) selectCases) (Codegen.init []) =
      some (selectSpans, 72) := by decide +kernel
  obtain ⟨ret, s', n, f, hv, hp, hf, hl, h0, h1, hparts⟩ :=
    select_consts (i := 5) (by decide +kernel) hs
  obtain ⟨cs, s1, hspans, -, hchain, -, hcode⟩ :=
    select_code (s := Codegen.init []) (.refl _ _) rfl
      (open_init _) hv
  obtain ⟨rfl, hp1⟩ := resultOf_ok hs hspans
  obtain ⟨hcode, hq⟩ := hcode (pure ()) n f (Keeps.pure _) hf
  rw [hp1] at hchain
  rw [hp] at hcode hq
  refine ⟨ret, s', n, f, selectSpans, s1, hv, hf, hspans, here_vmOn hl, ?_, ?_⟩
  · rw [hp, hp1]
    exact hparts _
  · rw [hp]
    intro hw
    have hone := (@selects_iff (MathLib.absent ⟨0⟩) _ f.ostr.buf (vmOn f.ostr.buf).sp.toInt 0 72 72 9
      [] (fun _ => True) selectSpans false (hparts _) hchain hcode hq (fun _ => rfl) (here_vmOn hl)
      trivial (by show (f.ostr.buf.length : Int) + (2 * (9 : Nat) + 7) + (0 : Nat) ≤ 4055; omega)).1 hw
    exact absurd ((@oneComparison_select (MathLib.absent ⟨0⟩) _ _ h0 h1 hl).1 hone) (by decide)

/-- the selector 1 is equal to the first case -/
theorem select_once_one : ∃ f w u, @Selects (MathLib.absent ⟨0⟩) 72 false selectSpans 0
    (vmOn f) w u ∧ u.Here f (vmOn f).sp.toInt 72 [] ∧ @Expected (MathLib.absent ⟨0⟩) 2 false w := by
  have hs : resultOf (caseSpans (visit (.intConst 1)) selectCases) (Codegen.init []) =
      some (selectSpans, 72) := by decide +kernel
  obtain ⟨ret, s', n, f, hv, hp, hf, hl, h0, h1, hparts⟩ :=
    select_consts (i := 1) (by decide +kernel) hs
  obtain ⟨cs, s1, hspans, -, honce⟩ :=
    @select_once (MathLib.absent ⟨0⟩) [] (Codegen.init []) s' [] []
      (.refl _ _) rfl (open_init _) (.intConst 1)
      [(.intConst 1, .stmts []), (.intConst 2, .stmts [])] none ret hv
  obtain ⟨rfl, hp1⟩ := resultOf_ok hs hspans
  have h := honce (pure ()) n f (Keeps.pure _) hf (vmOn f.ostr.buf).sp.toInt (fun _ => True) 9
    (vmOn f.ostr.buf) [] (by rw [hp, hp1]; exact hparts _) (here_vmOn hl) trivial
    (by show (f.ostr.buf.length : Int) + (2 * (9 : Nat) + 7) + (0 : Nat) ≤ 4055; omega)
  rw [hp] at h
  exact ⟨f.ostr.buf, h.2 ((@oneComparison_select (MathLib.absent ⟨0⟩) _ _ h0 h1 hl).2 rfl)⟩

end MuF
