import MuF.Lang.Statements

/-!
# Jumps that are open at the loops around a statement

* `OStr.patches`: addresses that are filled in one after the other;
* `Opens`: what a visit puts into the code if the jumps at the loops around it are filled in;
* `Opens.bind`, `Opens.jump`, `Opens.fill`: parts of a visit;
* `Opens.enclose`: at the end of a loop its jumps are filled in.
-/

set_option linter.unusedVariables false

namespace MuF

open Bytes Exec

/-! ## filling in addresses -/

/-- addresses over what is at some positions -/
def OStr.patches (o : OStr) (xs : List (Nat × Int32)) : OStr :=
  xs.foldl (fun o x => (⟨o.buf, x.1⟩ : OStr).write (Raw.enc x.2)) o

def OStr.toEnd (o : OStr) : OStr := ⟨o.buf, o.buf.length⟩

/-- jumps to a target -/
def skipsTo (target : Nat) (poss : List Nat) : List (Nat × Int32) :=
  poss.map fun pos => (pos, toSkip target pos)

/-- the places of addresses -/
def holesAt (poss : List Nat) : Holes := poss.map fun pos => (pos, 4)

theorem run_patchAll (target : Nat) (poss : List Nat) (s : Codegen) :
    (patchAll target poss).run s =
      .ok ⟨⟩ { s with ostr := s.ostr.patches (skipsTo target poss) } := by
  induction poss generalizing s with
  | nil => rfl
  | cons pos poss ih => exact ih _

section
variable {s s' s'' : Codegen} {H K K' : Holes} {l : List Event} {P Q : List UInt8 → Prop}
  {xs : List (Nat × Int32)} {L L' : Holes}

/-- **Addresses are filled in**, and the position goes back to the end. -/
theorem Draft.patches (h : Draft s H l K) (hk : K.Perm (holesAt (xs.map Prod.fst) ++ K'))
    (hs : s' = { s with ostr := (s.ostr.patches xs).toEnd }) : s'.ostr.pos = s.ostr.pos ∧
      Adds s H l K s' K' fun code => ∀ x ∈ xs, Sits code x.1 (Raw.enc x.2) := by
  induction xs generalizing s H l K with
  | nil =>
    have he : s.ostr.pos = s.ostr.buf.length := h.atEnd
    have e : s' = s := by
      rw [hs]
      exact congrArg (fun n => ({ s with ostr := ⟨s.ostr.buf, n⟩ } : Codegen)) he.symm
    rw [e]
    exact ⟨rfl, (h.perm hk).mono fun _ _ => by simp⟩
  | cons x xs ih =>
    obtain ⟨s1, h1⟩ : ∃ s1, (do MuF.patch x.1 x.2; seekEnd : CGM Unit).run s = .ok () s1 := ⟨_, rfl⟩
    -- going to the end before the next address changes nothing
    have hs1 : s' = { s1 with ostr := (s1.ostr.patches xs).toEnd } := by
      cases h1
      cases xs with
      | nil => exact hs
      | cons y xs => exact hs
    obtain ⟨p1, a1⟩ := h.patch hk h1
    obtain ⟨H1, l1, d1, -⟩ := id a1
    obtain ⟨p2, -⟩ := ih d1 (List.Perm.refl _) hs1
    refine ⟨p2.trans p1, (a1.bind fun H' l' d => (ih d (List.Perm.refl _) hs1).2).mono ?_⟩
    exact fun code hcode => List.forall_mem_cons.2 hcode

theorem MakesOpen.fill (h : MakesOpen s s' L P) (hs : Between s)
    (hp : L.Perm (holesAt (xs.map Prod.fst) ++ L'))
    (ho : s'' = { s' with ostr := (s'.ostr.patches xs).toEnd }) : s''.ostr.pos = s'.ostr.pos ∧
      MakesOpen s s'' L' fun code => P code ∧ ∀ x ∈ xs, Sits code x.1 (Raw.enc x.2) := by
  have hb : s''.bare = { s'.bare with ostr := (s'.bare.ostr.patches xs).toEnd } := by
    rw [ho]
    rfl
  have hp' (K : Holes) : (L ++ K).Perm (holesAt (xs.map Prod.fst) ++ (L' ++ K)) := by
    rw [← List.append_assoc]
    exact hp.append_right K
  refine ⟨?_, fun H l K d => (h H l K d).bind fun H' l' d' => (d'.patches (hp' K) hb).2⟩
  obtain ⟨H, l, hst⟩ := hs
  obtain ⟨H', l', d, -⟩ := h H l [] hst.draft
  exact (d.patches (hp' []) hb).1

/-- loops begin and end without changes of the code -/
theorem Makes.quiet {i : Nat} {c : List Nat} {x y : List (Nat × Nat)}
    (ht : s' = { s with loopIdent := i, curLoop := c, loopBeginComefroms := x, loopEndComefroms := y }) :
    Makes s s' fun _ => True := by
  subst ht
  intro H l K d
  have he : Emits s.bare H [] (Codegen.bare { s with loopIdent := i, curLoop := c }) H :=
    .other (.of_linked rfl)
  obtain ⟨d', hf⟩ := d.emits he d.atEnd ⟨d.isOpen.pending, d.isOpen.inside⟩
  rw [List.append_nil] at d' hf
  exact ⟨H, l, d', hf, fun _ _ => trivial⟩

theorem MakesOpen.le (h : MakesOpen s s' L P) (hs : Between s) : s.ostr.pos ≤ s'.ostr.pos := by
  obtain ⟨H, l, hst⟩ := hs
  obtain ⟨H', l', d, hf, -⟩ := h H l [] hst.draft
  have hin := (hf _ _ (hst.here.append (K := []) (by simp))).inside
  have he : s'.ostr.pos = s'.ostr.buf.length := d.atEnd
  rw [he]
  exact hin

end

/-! ## jumps at the loops around a statement -/

/-- the jumps of loops are filled in with these targets -/
def Aimed (code : List UInt8) (jumps : List (Nat × Nat)) (target : Nat → Nat) : Prop :=
  ∀ x ∈ jumps, Sits code x.2 (Raw.enc (toSkip (target x.1) x.2))

/-- the beginnings and the ends of the loops, the innermost one first -/
def loopCtx (curLoop : List Nat) (begins ends : Nat → Nat) : List (Nat × Nat) :=
  curLoop.reverse.map fun i => (begins i, ends i)

/-- between two states of a visit there are new jumps to the beginnings and ends of loops -/
structure Adjoins (s s' : Codegen) (N B : List (Nat × Nat)) : Prop where
  same : s' = { s with
    ostr := s'.ostr, loopIdent := s'.loopIdent
    loopBeginComefroms := s.loopBeginComefroms ++ N, loopEndComefroms := s.loopEndComefroms ++ B }
  ident : s.loopIdent ≤ s'.loopIdent
  known : ∀ x ∈ N ++ B, x.1 ∈ s.curLoop

/-- the identifiers of loops so far -/
structure Looped (s : Codegen) : Prop where
  cur : ∀ i ∈ s.curLoop, i ≤ s.loopIdent
  begins : ∀ x ∈ s.loopBeginComefroms, x.1 ≤ s.loopIdent
  ends : ∀ x ∈ s.loopEndComefroms, x.1 ≤ s.loopIdent

/-- the code has what was emitted between the two states, if the addresses at `K` and the jumps at
the loops around are filled in later -/
def Opens (s s' : Codegen) (K : List Nat) (P : List UInt8 → List (Nat × Nat) → Prop) : Prop :=
  ∃ N B, Adjoins s s' N B ∧ MakesOpen s s' (holesAt (K ++ (N ++ B).map Prod.snd)) fun code =>
    ∀ begins ends, Aimed code N begins → Aimed code B ends → P code (loopCtx s.curLoop begins ends)

section
variable {s s' s'' : Codegen} {K K' : List Nat} {P Q : List UInt8 → List (Nat × Nat) → Prop}
  {N N' B B' : List (Nat × Nat)}

theorem Adjoins.refl (h : OnlyWrites s s') : Adjoins s s' [] [] := by
  unfold OnlyWrites at h
  refine ⟨?_, ?_, by simp⟩
  · rw [List.append_nil, List.append_nil, h]
  · rw [h]

theorem Adjoins.curLoop (h : Adjoins s s' N B) : s'.curLoop = s.curLoop := by rw [h.same]

theorem Adjoins.trans (h : Adjoins s s' N B) (h' : Adjoins s' s'' N' B') :
    Adjoins s s'' (N ++ N') (B ++ B') := by
  refine ⟨?_, h.ident.trans h'.ident, fun x hx => ?_⟩
  · have e := h.same
    have e' := h'.same
    rw [e] at e'
    rw [← List.append_assoc, ← List.append_assoc]
    exact e'
  · have hc := h.curLoop
    simp only [List.mem_append] at hx
    rcases hx with (hx | hx) | hx | hx
    · exact h.known x (List.mem_append_left _ hx)
    · exact hc ▸ h'.known x (List.mem_append_left _ hx)
    · exact h.known x (List.mem_append_right _ hx)
    · exact hc ▸ h'.known x (List.mem_append_right _ hx)

theorem Adjoins.looped (h : Adjoins s s' N B) (hs : Looped s) : Looped s' := by
  have hi := h.ident
  have hk (x : Nat × Nat) (hx : x ∈ N ++ B) : x.1 ≤ s'.loopIdent :=
    (hs.cur _ (h.known x hx)).trans hi
  rw [h.same]
  refine ⟨fun i hx => (hs.cur i hx).trans hi, fun x hx => ?_, fun x hx => ?_⟩
  · rcases List.mem_append.1 hx with hx | hx
    · exact (hs.begins x hx).trans hi
    · exact hk x (List.mem_append_left _ hx)
  · rcases List.mem_append.1 hx with hx | hx
    · exact (hs.ends x hx).trans hi
    · exact hk x (List.mem_append_right _ hx)

theorem Opens.curLoop (h : Opens s s' K P) : s'.curLoop = s.curLoop := by
  obtain ⟨N, B, ha, -⟩ := h
  exact ha.curLoop

theorem Opens.looped (h : Opens s s' K P) (hs : Looped s) : Looped s' := by
  obtain ⟨N, B, ha, -⟩ := h
  exact ha.looped hs

theorem Opens.between (h : Opens s s' K P) (hs : Between s) : Between s' := by
  obtain ⟨N, B, -, hm⟩ := h
  exact hm.between hs

theorem Opens.le (h : Opens s s' K P) (hs : Between s) : s.ostr.pos ≤ s'.ostr.pos := by
  obtain ⟨N, B, -, hm⟩ := h
  exact hm.le hs

/-- the same names mean the same symbols -/
def SameNames (s s' : Codegen) : Prop := s'.syms = s.syms ∧ s'.curscope = s.curscope

theorem SameNames.trans (h : SameNames s s') (h' : SameNames s' s'') : SameNames s s'' :=
  ⟨h'.1.trans h.1, h'.2.trans h.2⟩

theorem Opens.sameNames (h : Opens s s' K P) : SameNames s s' := by
  obtain ⟨N, B, ha, -⟩ := h
  exact ⟨by rw [ha.same], by rw [ha.same]⟩

theorem Opens.hasSlots {F : VarSlots} (h : Opens s s' K P) (hF : s.HasSlots F) : s'.HasSlots F := by
  exact hF.congr h.sameNames.1 h.sameNames.2

theorem Opens.mono (h : Opens s s' K P) (hq : ∀ code ctx, P code ctx → Q code ctx) :
    Opens s s' K Q := by
  obtain ⟨N, B, ha, hm⟩ := h
  exact ⟨N, B, ha, hm.mono fun code hp begins ends hn hb => hq _ _ (hp begins ends hn hb)⟩

theorem holesAt_append (ps qs : List Nat) : holesAt (ps ++ qs) = holesAt ps ++ holesAt qs :=
  List.map_append

theorem holesAt_perm {ps qs : List Nat} (h : ps.Perm qs) : (holesAt ps).Perm (holesAt qs) := h.map _

/-- without jumps at loops -/
theorem Opens.of_makes {P : List UInt8 → Prop} (h : MakesOpen s s' (holesAt K) P)
    (hw : OnlyWrites s s') : Opens s s' K fun code _ => P code := by
  refine ⟨[], [], Adjoins.refl hw, ?_⟩
  rw [List.append_nil, List.map_nil, List.append_nil]
  exact h.mono fun code hp _ _ _ _ => hp

/-- one part after the other -/
theorem Opens.bind (h : Opens s s' K P) (h' : Opens s' s'' K' Q) :
    Opens s s'' (K' ++ K) fun code ctx => P code ctx ∧ Q code ctx := by
  obtain ⟨N, B, ha, hm⟩ := h
  obtain ⟨N', B', ha', hm'⟩ := h'
  refine ⟨N ++ N', B ++ B', ha.trans ha', ((hm.bind hm').perm ?_).mono ?_⟩
  · rw [← holesAt_append]
    refine holesAt_perm (List.perm_iff_count.2 fun n => ?_)
    simp only [List.map_append, List.count_append]
    omega
  · rintro code ⟨hp, hq⟩ begins ends hn hb
    rw [ha.curLoop] at hq
    refine ⟨hp begins ends ?_ ?_, hq begins ends ?_ ?_⟩
    · exact fun x hx => hn x (List.mem_append_left _ hx)
    · exact fun x hx => hb x (List.mem_append_left _ hx)
    · exact fun x hx => hn x (List.mem_append_right _ hx)
    · exact fun x hx => hb x (List.mem_append_right _ hx)

/-- **Addresses are filled in.** -/
theorem Opens.fill (xs : List (Nat × Int32)) (K' : List Nat) (h : Opens s s' K P) (hs : Between s)
    (hk : K.Perm (xs.map Prod.fst ++ K'))
    (ho : s'' = { s' with ostr := (s'.ostr.patches xs).toEnd }) : s''.ostr.pos = s'.ostr.pos ∧
      Opens s s'' K' fun code ctx => P code ctx ∧ ∀ x ∈ xs, Sits code x.1 (Raw.enc x.2) := by
  obtain ⟨N, B, ha, hm⟩ := h
  have hp : (holesAt (K ++ (N ++ B).map Prod.snd)).Perm
      (holesAt (xs.map Prod.fst) ++ holesAt (K' ++ (N ++ B).map Prod.snd)) := by
    rw [← holesAt_append, ← List.append_assoc]
    exact holesAt_perm (hk.append_right _)
  obtain ⟨p, hm'⟩ := hm.fill hs hp ho
  refine ⟨p, N, B, ?_, hm'.mono fun code hc begins ends hn hb => ⟨hc.1 begins ends hn hb, hc.2⟩⟩
  have hw : OnlyWrites s' s'' := by rw [ho]; rfl
  have := ha.trans (Adjoins.refl hw)
  rwa [List.append_nil, List.append_nil] at this

/-- a jump whose address is filled in later -/
theorem jump_makes (hs : Between s) {op : OpCode} {pos : Nat} (hr : (putJump op).run s = .ok pos s') :
    pos = s.ostr.pos + 2 ∧ s'.ostr.pos = s.ostr.pos + 7 ∧ OnlyWrites s s' ∧
      MakesOpen s s' (holesAt [pos]) fun code =>
        Sits code s.ostr.pos [OpCode.push.code, VMType.addrIp.code] ∧
          Sits code (s.ostr.pos + 6) [op.code] := by
  have he := stage_atEnd hs
  have hrb : (putJump op).run s.bare = .ok pos s'.bare := by
    have hb : s.bare.ostr.pos = s.bare.ostr.buf.length := he
    rw [run_putJump op he] at hr
    rw [run_putJump op hb]
    cases hr
    rfl
  obtain ⟨H, l, hst⟩ := id hs
  obtain ⟨e1, e2, -⟩ := hst.draft.jump hrb
  refine ⟨e1, e2, ?_, fun H l K d => (d.jump hrb).2.2⟩
  rw [run_putJump op he] at hr
  cases hr
  rfl

theorem Opens.jump (hs : Between s) {op : OpCode} {pos : Nat} (hr : (putJump op).run s = .ok pos s') :
    pos = s.ostr.pos + 2 ∧ s'.ostr.pos = s.ostr.pos + 7 ∧ Opens s s' [pos] fun code _ =>
      Sits code s.ostr.pos [OpCode.push.code, VMType.addrIp.code] ∧
        Sits code (s.ostr.pos + 6) [op.code] := by
  obtain ⟨e1, e2, hw, hm⟩ := jump_makes hs hr
  exact ⟨e1, e2, Opens.of_makes hm hw⟩

/-- **A jump at a loop around**, whose address is filled in at the end of the loop. -/
theorem Opens.save (hs : Between s) {op : OpCode} {pos : Nat} (hr : (putJump op).run s = .ok pos s')
    (hpos : (N ++ B).map Prod.snd = [pos]) (hknown : ∀ x ∈ N ++ B, x.1 ∈ s.curLoop)
    (ho : s'' = { s' with
      loopBeginComefroms := s'.loopBeginComefroms ++ N, loopEndComefroms := s'.loopEndComefroms ++ B }) :
    Opens s s'' [] fun code ctx => ∃ begins ends, ctx = loopCtx s.curLoop begins ends ∧
      Aimed code N begins ∧ Aimed code B ends ∧
      Sits code s.ostr.pos [OpCode.push.code, VMType.addrIp.code] ∧
        Sits code (s.ostr.pos + 6) [op.code] := by
  obtain ⟨-, -, hw, hm⟩ := jump_makes hs hr
  have hq : Makes s' s'' fun _ => True := by
    refine Makes.quiet (i := s'.loopIdent) (c := s'.curLoop) (x := s'.loopBeginComefroms ++ N)
      (y := s'.loopEndComefroms ++ B) ?_
    rw [ho]
  unfold OnlyWrites at hw
  refine ⟨N, B, ⟨?_, ?_, hknown⟩, ?_⟩
  · rw [ho, hw]
  · rw [ho, hw]
  · rw [List.nil_append, hpos]
    refine (hm.bind hq).mono ?_
    rintro code ⟨⟨h1, h2⟩, -⟩ begins ends hn hb
    exact ⟨begins, ends, rfl, hn, hb, h1, h2⟩

/-! ## loops -/

/-- a new innermost loop -/
def Codegen.enter (s : Codegen) : Codegen :=
  { s with loopIdent := s.loopIdent + 1, curLoop := s.curLoop ++ [s.loopIdent + 1] }

theorem Looped.enter (h : Looped s) : Looped s.enter := by
  refine ⟨fun i hi => ?_, fun x hx => (h.begins x hx).trans (Nat.le_succ _),
    fun x hx => (h.ends x hx).trans (Nat.le_succ _)⟩
  rcases List.mem_append.1 hi with hi | hi
  · exact (h.cur i hi).trans (Nat.le_succ _)
  · rw [List.mem_singleton.1 hi]
    exact Nat.le_refl _

/-- the jumps of a loop, and those of the other loops -/
def jumpsOf (jumps : List (Nat × Nat)) (i : Nat) : List Nat :=
  (jumps.filter fun p => p.1 == i).map Prod.snd

def jumpsNotOf (jumps : List (Nat × Nat)) (i : Nat) : List (Nat × Nat) :=
  jumps.filter fun p => p.1 != i

theorem run_patchLoop (i b e : Nat) (s : Codegen) : (patchLoop i b e).run s =
    .ok ⟨⟩ { s with
      ostr := s.ostr.patches (skipsTo b (jumpsOf s.loopBeginComefroms i) ++
        skipsTo e (jumpsOf s.loopEndComefroms i))
      loopBeginComefroms := jumpsNotOf s.loopBeginComefroms i
      loopEndComefroms := jumpsNotOf s.loopEndComefroms i } := by
  unfold patchLoop
  rw [run_get_bind, bind_ok (run_patchAll b _ s), run_modify_bind, run_get_bind,
    bind_ok (run_patchAll e _ _), run_modify]
  unfold OStr.patches
  rw [List.foldl_append]
  rfl

theorem perm_jumps (jumps : List (Nat × Nat)) (i : Nat) :
    (jumps.map Prod.snd).Perm (jumpsOf jumps i ++ (jumpsNotOf jumps i).map Prod.snd) := by
  unfold jumpsOf jumpsNotOf
  rw [← List.map_append]
  exact ((List.filter_append_perm (fun p => p.1 == i) jumps).symm).map _

theorem jumpsOf_none {jumps : List (Nat × Nat)} {i : Nat} (h : ∀ x ∈ jumps, x.1 ≤ i)
    (l : List (Nat × Nat)) : jumpsOf (jumps ++ l) (i + 1) = jumpsOf l (i + 1) := by
  unfold jumpsOf
  rw [List.filter_append, List.filter_eq_nil_iff.2, List.nil_append]
  intro x hx
  have := h x hx
  simp only [beq_iff_eq]
  omega

theorem jumpsNotOf_all {jumps : List (Nat × Nat)} {i : Nat} (h : ∀ x ∈ jumps, x.1 ≤ i)
    (l : List (Nat × Nat)) : jumpsNotOf (jumps ++ l) (i + 1) = jumps ++ jumpsNotOf l (i + 1) := by
  unfold jumpsNotOf
  rw [List.filter_append, List.filter_eq_self.2]
  intro x hx
  have := h x hx
  simp only [bne_iff_ne, ne_eq]
  omega

/-- the jumps of the loop and those of the loops around it -/
theorem Aimed.update {code : List UInt8} {jumps : List (Nat × Nat)} {target : Nat → Nat} {i q : Nat}
    (h : Aimed code (jumpsNotOf jumps i) target)
    (h' : ∀ x ∈ skipsTo q (jumpsOf jumps i), Sits code x.1 (Raw.enc x.2)) :
    Aimed code jumps (Function.update target i q) := by
  intro x hx
  by_cases hi : x.1 = i
  · rw [hi, Function.update_self]
    refine h' (x.2, toSkip q x.2) (List.mem_map.2 ⟨x.2, List.mem_map.2 ⟨x, ?_, rfl⟩, rfl⟩)
    exact List.mem_filter.2 ⟨hx, by simpa using hi⟩
  · rw [Function.update_of_ne hi]
    exact h x (List.mem_filter.2 ⟨hx, by simpa using hi⟩)

theorem loopCtx_enter (hs : Looped s) (begins ends : Nat → Nat) (b e : Nat) :
    loopCtx s.enter.curLoop (Function.update begins (s.loopIdent + 1) b)
      (Function.update ends (s.loopIdent + 1) e) = (b, e) :: loopCtx s.curLoop begins ends := by
  have hc : s.enter.curLoop = s.curLoop ++ [s.loopIdent + 1] := rfl
  unfold loopCtx
  rw [hc, List.reverse_append, List.reverse_singleton, List.singleton_append, List.map_cons,
    Function.update_self, Function.update_self]
  congr 1
  refine List.map_congr_left fun i hi => ?_
  have hne : i ≠ s.loopIdent + 1 := by
    have := hs.cur i (List.mem_reverse.1 hi)
    omega
  rw [Function.update_of_ne hne, Function.update_of_ne hne]

/-- **The end of a loop.**  The jumps to its beginning and to its end are filled in. -/
theorem Opens.enclose {xs : List (Nat × Int32)} {b e : Nat} (hb : Between s) (hs : Looped s)
    (h : Opens s.enter s' K P) (hk : K.Perm (xs.map Prod.fst))
    (ho : s'' = { s' with
      ostr := (s'.ostr.patches (xs ++ (skipsTo b (jumpsOf s'.loopBeginComefroms (s.loopIdent + 1)) ++
        skipsTo e (jumpsOf s'.loopEndComefroms (s.loopIdent + 1))))).toEnd
      loopBeginComefroms := jumpsNotOf s'.loopBeginComefroms (s.loopIdent + 1)
      loopEndComefroms := jumpsNotOf s'.loopEndComefroms (s.loopIdent + 1)
      curLoop := s.curLoop }) :
    s''.ostr.pos = s'.ostr.pos ∧ Opens s s'' [] fun code ctx =>
      P code ((b, e) :: ctx) ∧ ∀ x ∈ xs, Sits code x.1 (Raw.enc x.2) := by
  obtain ⟨N, B, ha, hm⟩ := h
  have hN : s'.loopBeginComefroms = s.loopBeginComefroms ++ N := by rw [ha.same]; rfl
  have hB : s'.loopEndComefroms = s.loopEndComefroms ++ B := by rw [ha.same]; rfl
  rw [hN, hB, jumpsOf_none hs.begins, jumpsOf_none hs.ends, jumpsNotOf_all hs.begins,
    jumpsNotOf_all hs.ends] at ho
  generalize hi : s.loopIdent + 1 = i at ho
  have hfst (q : Nat) (ps : List Nat) : (skipsTo q ps).map Prod.fst = ps := by
    unfold skipsTo
    rw [List.map_map]
    exact List.map_id _
  -- the loop begins, and its jumps are among the holes
  have hbegin : Makes s s.enter fun _ => True := Makes.quiet rfl
  have hall := hbegin.bind hm
  rw [List.append_nil] at hall
  obtain ⟨s1, hs1⟩ : ∃ s1 : Codegen, s1 = { s' with ostr := (s'.ostr.patches (xs ++
    (skipsTo b (jumpsOf N i) ++ skipsTo e (jumpsOf B i)))).toEnd } := ⟨_, rfl⟩
  have hp : (holesAt (K ++ (N ++ B).map Prod.snd)).Perm (holesAt ((xs ++ (skipsTo b (jumpsOf N i) ++
      skipsTo e (jumpsOf B i))).map Prod.fst) ++
        holesAt ((jumpsNotOf N i ++ jumpsNotOf B i).map Prod.snd)) := by
    rw [← holesAt_append]
    refine holesAt_perm ?_
    have h1 := hk.append ((perm_jumps N i).append (perm_jumps B i))
    rw [List.map_append, List.map_append, List.map_append, List.map_append, hfst, hfst]
    refine h1.trans (List.perm_iff_count.2 fun n => ?_)
    simp only [List.count_append]
    omega
  obtain ⟨p, hfill⟩ := hall.fill hb hp hs1
  have hend : Makes s1 s'' fun _ => True := by
    refine Makes.quiet (i := s1.loopIdent) (c := s.curLoop)
      (x := s.loopBeginComefroms ++ jumpsNotOf N i) (y := s.loopEndComefroms ++ jumpsNotOf B i) ?_
    rw [ho, hs1]
  have hknown (l : List (Nat × Nat)) (hl : ∀ x ∈ l, x.1 ∈ s.enter.curLoop) :
      ∀ x ∈ jumpsNotOf l i, x.1 ∈ s.curLoop := by
    intro x hx
    obtain ⟨hx, hne⟩ := List.mem_filter.1 hx
    rcases List.mem_append.1 (hl x hx) with hc | hc
    · exact hc
    · rw [List.mem_singleton.1 hc, hi] at hne
      simp at hne
  refine ⟨?_, jumpsNotOf N i, jumpsNotOf B i, ⟨?_, ?_, ?_⟩, ?_⟩
  · rw [← p, hs1, ho]
  · rw [ho, ha.same]
    rfl
  · have h1 := ha.ident
    have h2 : s''.loopIdent = s'.loopIdent := by rw [ho]
    have h3 : s.enter.loopIdent = s.loopIdent + 1 := rfl
    omega
  · intro x hx
    rcases List.mem_append.1 hx with hx | hx
    · exact hknown N (fun y hy => ha.known y (List.mem_append_left _ hy)) x hx
    · exact hknown B (fun y hy => ha.known y (List.mem_append_right _ hy)) x hx
  · rw [List.nil_append]
    have hlast := hfill.bind hend
    rw [List.nil_append] at hlast
    refine hlast.mono ?_
    rintro code ⟨⟨⟨-, hcode⟩, hsits⟩, -⟩ begins ends hn hb'
    refine ⟨?_, fun x hx => hsits x (List.mem_append_left _ hx)⟩
    rw [← loopCtx_enter hs, hi]
    refine hcode _ _ (hn.update fun x hx => ?_) (hb'.update fun x hx => ?_)
    · exact hsits x (List.mem_append_right _ (List.mem_append_left _ hx))
    · exact hsits x (List.mem_append_right _ (List.mem_append_right _ hx))

end

end MuF
