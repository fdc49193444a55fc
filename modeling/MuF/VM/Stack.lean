import MuF.VM.Wire
import MuF.VM.Run

/-!
# Lists of data on the stack

* `encs`: the bytes of a list of data, the first one on top;
* `Holds s ds`: the stack of `s` starts with the data `ds`;
* pushes and pops of whole lists: `pushAll_run`, `popDatas_run`, `popRetvals_run`;
* the runs of `popInt`, `popBool`, `popAddress` on a stack that holds what they expect.
-/

set_option linter.unusedVariables false

namespace MuF

open Bytes Exec

/-- a datum with the descriptor it has on the stack, which matters for addresses only -/
abbrev Item := TData × VMType

/-- the bytes of a list of data -/
def encs (ds : List Item) : List UInt8 := ds.flatMap fun p => p.1.bytes p.2

/-- number of bytes of a list of data -/
def sizes (ds : List Item) : Nat := (ds.map fun p => p.1.size).sum

/-- all data have a descriptor -/
def Items (ds : List Item) : Prop := ∀ p ∈ ds, p.1.wf p.2 = true

instance (ds : List Item) : Decidable (Items ds) :=
  inferInstanceAs (Decidable (∀ p ∈ ds, p.1.wf p.2 = true))

@[simp] theorem encs_nil : encs [] = [] := rfl

@[simp] theorem encs_cons (p : Item) (ds : List Item) :
    encs (p :: ds) = p.1.bytes p.2 ++ encs ds := rfl

@[simp] theorem encs_append (ds es : List Item) : encs (ds ++ es) = encs ds ++ encs es :=
  List.flatMap_append

@[simp] theorem sizes_nil : sizes [] = 0 := rfl

@[simp] theorem sizes_cons (p : Item) (ds : List Item) :
    sizes (p :: ds) = p.1.size + sizes ds := rfl

@[simp] theorem sizes_append (ds es : List Item) : sizes (ds ++ es) = sizes ds + sizes es := by
  simp [sizes]

@[simp] theorem length_encs (ds : List Item) : (encs ds).length = sizes ds := by
  induction ds with
  | nil => rfl
  | cons p ds ih => simp [ih]

theorem sizes_reverse (ds : List Item) : sizes ds.reverse = sizes ds := by
  simp [sizes]

theorem length_le_sizes (ds : List Item) : ds.length ≤ sizes ds := by
  induction ds with
  | nil => simp
  | cons p ds ih =>
    have := p.1.size_pos
    simp only [List.length_cons, sizes_cons]
    omega

theorem Items.cons {p : Item} {ds : List Item} (h1 : p.1.wf p.2 = true) (h2 : Items ds) :
    Items (p :: ds) := by
  intro q hq
  rcases List.mem_cons.1 hq with rfl | hq
  · exact h1
  · exact h2 q hq

theorem Items.head {p : Item} {ds : List Item} (h : Items (p :: ds)) : p.1.wf p.2 = true :=
  h p (List.mem_cons_self ..)

theorem Items.tail {p : Item} {ds : List Item} (h : Items (p :: ds)) : Items ds :=
  fun q hq => h q (List.mem_cons_of_mem _ hq)

theorem Items.reverse {ds : List Item} (h : Items ds) : Items ds.reverse :=
  fun q hq => h q (List.mem_reverse.1 hq)

/-! ## trivial pushes and pops -/

@[simp] theorem VM.pushed_nil (s : VM) : s.pushed [] = s := by
  simp [VM.pushed]

@[simp] theorem VM.popped_zero (s : VM) : s.popped 0 = s := by
  simp [VM.popped, VM.cleared]

/-! ## data on top of the stack -/

/-- the stack starts with the given data, all of it in the memory -/
structure VM.Holds (s : VM) (ds : List Item) : Prop where
  items : Items ds
  room : s.Room s.sp.toInt (sizes ds)
  contents : At s.mem s.sp.toInt (encs ds)

theorem VM.Holds.head {s : VM} {p : Item} {ds : List Item} (h : s.Holds (p :: ds)) :
    popData.run s = .ok p.1 (s.popped p.1.size) :=
  popData_run h.items.head h.room.left (at_append.1 h.contents).1

theorem VM.Holds.tail {s : VM} {p : Item} {ds : List Item} (h : s.Holds (p :: ds)) :
    (s.popped p.1.size).Holds ds := by
  have hr := h.room
  have e := VM.popped_sp hr.left
  refine ⟨h.items.tail, ?_, ?_⟩
  · rw [e]
    exact hr.right
  · rw [e]
    have h2 := (at_append.1 h.contents).2
    rw [Data.length_bytes] at h2
    exact VM.at_cleared h2 (Or.inl (le_refl _))

theorem VM.Holds.drop {s : VM} (ds : List Item) {es : List Item} (h : s.Holds (ds ++ es)) :
    (s.popped (sizes ds)).Holds es := by
  induction ds generalizing s with
  | nil => simpa using h
  | cons p ds ih =>
    have hr := h.room
    rw [List.cons_append, sizes_cons, sizes_append, ← Nat.add_assoc] at hr
    have h2 := ih h.tail
    rwa [VM.popped_popped hr.left] at h2

/-- pushed data are held -/
theorem VM.pushed_holds {s : VM} {ds : List Item} (hi : Items ds) (hf : s.Fits (sizes ds)) :
    (s.pushed (encs ds)).Holds ds := by
  have hsp := VM.pushed_sp (s := s) (b := encs ds) (by rw [length_encs]; exact hf)
  rw [length_encs] at hsp
  refine ⟨hi, ?_, ?_⟩
  · rw [hsp]
    exact hf.room
  · rw [hsp, ← length_encs]
    exact at_write_self _ _ _

/-! ## pushes and pops of lists -/

/-- push a list of data, the first one first -/
def pushAll : List Item → VMM Unit
  | [] => pure ()
  | p :: ds => do
    pushData p.1 p.2 true
    pushAll ds

theorem Data.headroom_le (d : TData) : d.headroom ≤ 8 := by
  cases d <;> simp [Data.headroom] <;> omega

/-- room for a push of any kind: the bytes fit below and no check above fails -/
def VM.Pushable (s : VM) (n : Nat) : Prop :=
  s.Fits n ∧ s.sp.toInt + 8 ≤ s.memsize.toInt

theorem VM.Pushable.pushed {s : VM} {b : List UInt8} {n : Nat} (h : s.Pushable (b.length + n)) :
    (s.pushed b).Pushable n := by
  obtain ⟨h1, h2⟩ := h
  have e := VM.pushed_sp (h1.mono (Nat.le_add_right b.length n))
  have em : (s.pushed b).memsize = s.memsize := rfl
  exact ⟨VM.pushed_fits h1, by rw [e, em]; omega⟩

theorem VM.Pushable.mono {s : VM} {m n : Nat} (h : s.Pushable n) (hm : m ≤ n) : s.Pushable m :=
  ⟨h.1.mono hm, h.2⟩

theorem push_run {s : VM} (d : TData) (ty : VMType) (b : Bool) (hw : d.wf ty = true)
    (h : s.Pushable d.size) : (pushData d ty b).run s = .ok () (s.pushed (d.bytes ty)) :=
  pushData_run b hw h.1 fun _ => by have := d.headroom_le; have := h.2; omega

theorem pushAll_run {s : VM} {ds : List Item} (hi : Items ds) (h : s.Pushable (sizes ds)) :
    (pushAll ds).run s = .ok () (s.pushed (encs ds.reverse)) := by
  induction ds generalizing s with
  | nil => rw [pushAll, run_pure]; simp
  | cons p ds ih =>
    have hl : (p.1.bytes p.2).length = p.1.size := Data.length_bytes _ _
    have h1 := push_run _ _ true hi.head (h.mono (Nat.le_add_right _ _))
    have h2 : (s.pushed (p.1.bytes p.2)).Pushable (sizes ds) :=
      VM.Pushable.pushed (by rw [hl]; exact h)
    rw [pushAll, bind_ok h1, ih hi.tail h2, VM.pushed_pushed]
    · simp
    · rw [hl, length_encs, sizes_reverse]
      exact h.1

theorem pushDatas_run {s : VM} {ds : List TData} (hi : ∀ d ∈ ds, d.wf .unknown = true)
    (h : s.Pushable (sizes (ds.map fun d => (d, .unknown)))) :
    (pushDatas ds).run s = .ok () (s.pushed (encs (ds.map fun d => (d, .unknown)).reverse)) := by
  induction ds generalizing s with
  | nil => rw [pushDatas, run_pure]; simp
  | cons d ds ih =>
    have hl : (d.bytes .unknown).length = d.size := Data.length_bytes _ _
    have h1 := push_run _ _ false (hi d (List.mem_cons_self ..)) (h.mono (Nat.le_add_right _ _))
    have h2 : (s.pushed (d.bytes .unknown)).Pushable (sizes (ds.map fun d => (d, .unknown))) :=
      VM.Pushable.pushed (by rw [hl]; exact h)
    rw [pushDatas, bind_ok h1, ih (fun d hd => hi d (List.mem_cons_of_mem _ hd)) h2,
      VM.pushed_pushed]
    · simp
    · rw [hl, length_encs, sizes_reverse]
      exact h.1

theorem popDatas_run {s : VM} {ds : List Item} (h : s.Holds ds) :
    (popDatas ds.length).run s = .ok () (s.popped (sizes ds)) := by
  induction ds generalizing s with
  | nil =>
    rw [List.length_nil, popDatas, run_pure]
    simp
  | cons p ds ih =>
    have hr : s.Room s.sp.toInt (p.1.size + sizes ds) := h.room
    rw [List.length_cons, popDatas, bind_ok h.head, ih h.tail, VM.popped_popped hr]
    rfl

/-- pop `num` data and return them, the topmost one first -/
def popList : Nat → VMM (List TData)
  | 0 => pure []
  | num+1 => do
    let val ← popData
    let vals ← popList num
    return val :: vals

theorem popList_run {s : VM} {ds : List Item} (h : s.Holds ds) :
    (popList ds.length).run s = .ok (ds.map Prod.fst) (s.popped (sizes ds)) := by
  induction ds generalizing s with
  | nil =>
    rw [List.length_nil, popList, run_pure]
    simp
  | cons p ds ih =>
    have hr : s.Room s.sp.toInt (p.1.size + sizes ds) := h.room
    rw [List.length_cons, popList, bind_ok h.head, bind_ok (ih h.tail), run_pure,
      VM.popped_popped hr]
    rfl

/-! ## typed pops -/

theorem popInt_run {s : VM} {x : Int64} {ty : VMType} {ds : List Item}
    (h : s.Holds ((.int x, ty) :: ds)) : popInt.run s = .ok x (s.popped 9) := by
  rw [popInt, bind_ok h.head, run_pure]
  rfl

theorem popBool_run {s : VM} {d : TData} {ty : VMType} {ds : List Item} {b : Bool}
    (h : s.Holds ((d, ty) :: ds))
    (hb : d = .bool (if b then 1 else 0) ∨ ∃ x : Int64, d = .int x ∧ b = (x != 0)) :
    popBool.run s = .ok b (s.popped d.size) := by
  rw [popBool, bind_ok h.head]
  rcases hb with rfl | ⟨x, rfl, rfl⟩
  · cases b <;> rw [run_pure] <;> rfl
  · rw [run_pure]

theorem VM.base_isAddr {s : VM} {ty : VMType} (h : ty.isAddr = true) : ∃ r, s.base ty = some r := by
  cases ty <;> first | exact ⟨_, rfl⟩ | cases h

theorem popAddress_run {s : VM} {a r : Int32} {ty : VMType} {ds : List Item}
    (h : s.Holds ((.addr a, ty) :: ds)) (hr : (s.popped 5).base ty = some r) :
    popAddress.run s = .ok (a + r) (s.popped 5) := by
  have hroom : s.Room s.sp.toInt (1 + 4) := h.room.left
  obtain ⟨h1, h2⟩ := at_bytes (at_append.1 h.contents).1
  have hp : (popRaw UInt8).run s = .ok ty.code (s.popped 1) := by
    rw [popRaw_run hroom.left, size_uint8, h1]
    rfl
  have e := VM.popped_sp (s := s) (n := 1) hroom.left
  have hq : (popRaw Int32).run (s.popped 1) = .ok a ((s.popped 1).popped 4) := by
    refine popRaw_at (x := a) ?_ ?_
    · rw [e]; exact hroom.right
    · rw [e]; exact VM.at_cleared h2 (Or.inl (le_refl _))
  rw [VM.popped_popped hroom] at hq
  rw [popAddress, bind_ok hp, bind_ok hq, run_get_bind, VMType.ofCode_code, Option.bind_some, hr,
    run_pure]

end MuF
