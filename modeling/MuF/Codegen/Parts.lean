import MuF.Codegen.Fixed

/-!
# The parts of a visit

* `Stage s H l`: code generation between two visits, with what was emitted so far;
* `Gives s H l s' P`: a part of a visit emits code with `P`;
* `Draft s H l K`: the holes `K` are left open by the visit that is running;
* `Adds s H l K s' K' P`: a part that may also fill in some of them.
-/

set_option linter.unusedVariables false

namespace MuF

open Bytes Exec Layout

instance (l : List UInt8) (p : Nat) (bs : List UInt8) : Decidable (Sits l p bs) :=
  inferInstanceAs (Decidable (∀ i, i < bs.length → l[p + i]? = bs[i]?))

/-- code generation between two visits, with what was emitted so far -/
structure Stage (s : Codegen) (H : Holes) (l : List Event) : Prop where
  sited : Sited s H l
  atEnd : s.AtEnd
  isOpen : Open s H

section
variable {s s' : Codegen} {H : Holes} {l : List Event} {P : List UInt8 → Prop}

/-- what a part of a visit does, and what it emits -/
def Gives (s : Codegen) (H : Holes) (l : List Event) (s' : Codegen) (P : List UInt8 → Prop) :
    Prop :=
  ∃ H' l', Emits s H l' s' H' ∧ H ⊆ H' ∧ Stage s' H' (l ++ l') ∧
    ∀ code, Keeping s' H' (l ++ l') code → P code

theorem Stage.refl (hs : Stage s H l) : Gives s H l s fun _ => True := by
  refine ⟨H, [], .refl _ _, List.Subset.refl _, ?_,
    fun _ _ => trivial⟩
  rw [List.append_nil]
  exact hs

/-- one part after the other -/
theorem Gives.bind {s'' : Codegen} {Q : List UInt8 → Prop} (hs : Stage s H l)
    (h : Gives s H l s' P) (h' : ∀ H' l', Stage s' H' l' → Gives s' H' l' s'' Q) :
    Gives s H l s'' fun code => P code ∧ Q code := by
  obtain ⟨H1, l1, e1, b1, hs1, hp⟩ := h
  obtain ⟨H2, l2, e2, b2, hs2, hq⟩ := h' H1 (l ++ l1) hs1
  rw [List.append_assoc] at hs2 hq
  refine ⟨H2, l1 ++ l2, e1.trans e2, List.Subset.trans b1 b2, hs2,
    fun code hk => ⟨hp code ?_, hq code hk⟩⟩
  rw [← List.append_assoc] at hk
  exact hk.before e2 hs1.sited

theorem Gives.mono {Q : List UInt8 → Prop} (h : Gives s H l s' P) (hq : ∀ code, P code → Q code) :
    Gives s H l s' Q := by
  obtain ⟨H1, l1, e1, b1, hs1, hp⟩ := h
  exact ⟨H1, l1, e1, b1, hs1, fun code hk => hq code (hp code hk)⟩

/-- a visit -/
theorem Stage.visit {α : Type} {x : CGM α} {a : α} (hs : Stage s H l) (hx : Keeps Lays x)
    (h : x.run s = .ok a s') : Gives s H l s' fun _ => True := by
  obtain ⟨H', ⟨⟨l', e⟩, hb⟩, he, ho⟩ := run_lays hx h hs.atEnd hs.isOpen
  exact ⟨H', l', e.emits, hb, ⟨emits_sited e.emits l hs.sited, he, ho⟩, fun _ _ => trivial⟩

/-- bytes at the end -/
theorem Stage.write (hs : Stage s H l) (bs : List UInt8) :
    Gives s H l { s with ostr := s.ostr.write bs } fun code => Sits code s.ostr.pos bs := by
  refine ⟨H, [], .code hs.atEnd bs, List.Subset.refl _, ?_, ?_⟩
  · rw [List.append_nil]
    exact ⟨hs.sited.write hs.atEnd bs, atEnd_write hs.atEnd bs, hs.isOpen.write hs.atEnd bs⟩
  · intro code hk
    rw [List.append_nil] at hk
    exact hk _ _ (hs.sited.fixed hs.atEnd bs)

theorem pos_write (hs : Stage s H l) (bs : List UInt8) :
    (s.ostr.write bs).pos = s.ostr.pos + bs.length := by
  have he : s.ostr.pos = s.ostr.buf.length := hs.atEnd
  rw [write_end _ hs.atEnd, he]

theorem write_nil (he : s.AtEnd) : ({ s with ostr := s.ostr.write [] } : Codegen) = s := by
  have hw : s.ostr.write [] = s.ostr := by
    rw [write_end _ he, List.append_nil]
    exact congrArg (OStr.mk s.ostr.buf) he.symm
  rw [hw]

end

/-! ## holes that are filled in during a visit -/

/-- code generation during a visit, with the holes `K` of this visit -/
structure Draft (s : Codegen) (H : Holes) (l : List Event) (K : Holes) : Prop
    extends Stage s H l where
  own : ∀ k ∈ K, ∃ bs : List UInt8, bs.length = k.2 ∧ Fixed s H l k.1 bs
  apart : K.Pairwise Apart

/-- what a part of a visit does with the holes of the visit, and what it emits -/
def Adds (s : Codegen) (H : Holes) (l : List Event) (K : Holes) (s' : Codegen) (K' : Holes)
    (P : List UInt8 → Prop) : Prop :=
  ∃ H' l', Draft s' H' l' K' ∧
    (∀ p bs, Fixed s (H ++ K) l p bs → Fixed s' (H' ++ K') l' p bs) ∧
    ∀ code, Keeping s' (H' ++ K') l' code → P code

section
variable {s s' : Codegen} {H H' K K' : Holes} {l l' : List Event} {p q n : Nat}
  {bs : List UInt8} {P : List UInt8 → Prop}

theorem Fixed.mono (h : Fixed s H l p bs) (hs : H' ⊆ H) : Fixed s H' l p bs :=
  ⟨h.sits, h.inside, fun x hx => h.holes x (hs hx), h.regions⟩

theorem Fixed.append (h : Fixed s H l p bs) (hk : ∀ k ∈ K, Apart (p, bs.length) k) :
    Fixed s (H ++ K) l p bs := by
  refine ⟨h.sits, h.inside, fun x hx => ?_, h.regions⟩
  rcases List.mem_append.1 hx with hx | hx
  · exact h.holes x hx
  · exact hk x hx

theorem Fixed.left (h : Fixed s (H ++ K) l p bs) : Fixed s H l p bs :=
  h.mono (List.subset_append_left H K)

theorem Fixed.right (h : Fixed s (H ++ K) l p bs) : ∀ k ∈ K, Apart (p, bs.length) k :=
  fun k hk => h.holes k (List.mem_append_right H hk)

theorem Sited.mono (h : Sited s H l) (hs : H' ⊆ H) : Sited s H' l :=
  { h with holes := fun x hx => h.holes x (hs hx) }

theorem Stage.draft (h : Stage s H l) : Draft s H l [] :=
  ⟨h, by simp, List.Pairwise.nil⟩

theorem Draft.append (h : Draft s H l K) : Sited s (H ++ K) l := by
  refine { h.sited with holes := fun x hx => ?_ }
  rcases List.mem_append.1 hx with hx | hx
  · exact h.sited.holes x hx
  · obtain ⟨bs, hl, hf⟩ := h.own x hx
    have h1 := hf.inside
    have h2 := hf.regions
    rw [hl] at h1 h2
    exact ⟨h1, h2⟩

theorem Adds.refl (h : Draft s H l K) : Adds s H l K s K fun _ => True :=
  ⟨H, l, h, fun _ _ hf => hf, fun _ _ => trivial⟩

theorem Adds.mono {Q : List UInt8 → Prop} (h : Adds s H l K s' K' P)
    (hq : ∀ code, P code → Q code) : Adds s H l K s' K' Q := by
  obtain ⟨H1, l1, d1, f1, hp⟩ := h
  exact ⟨H1, l1, d1, f1, fun code hk => hq code (hp code hk)⟩

/-- one part after the other -/
theorem Adds.bind {s'' : Codegen} {K'' : Holes} {Q : List UInt8 → Prop}
    (h : Adds s H l K s' K' P) (h' : ∀ H' l', Draft s' H' l' K' → Adds s' H' l' K' s'' K'' Q) :
    Adds s H l K s'' K'' fun code => P code ∧ Q code := by
  obtain ⟨H1, l1, d1, f1, hp⟩ := h
  obtain ⟨H2, l2, d2, f2, hq⟩ := h' H1 l1 d1
  refine ⟨H2, l2, d2, fun p bs hf => f2 p bs (f1 p bs hf), fun code hk => ⟨hp code ?_, hq code hk⟩⟩
  exact fun p bs hf => hk p bs (f2 p bs hf)

/-- events leave the holes of the visit alone -/
theorem Draft.emits (h : Draft s H l K) {m : List Event} (e : Emits s H m s' H')
    (he : s'.AtEnd) (ho : Open s' H') : Draft s' H' (l ++ m) K ∧
      ∀ p bs, Fixed s (H ++ K) l p bs → Fixed s' (H' ++ K) (l ++ m) p bs := by
  refine ⟨⟨⟨emits_sited e l h.sited, he, ho⟩, fun k hk => ?_, h.apart⟩, fun p bs hf => ?_⟩
  · obtain ⟨bs, hl, hf⟩ := h.own k hk
    exact ⟨bs, hl, emits_fixed e l h.sited hf⟩
  · exact (emits_fixed e l h.sited hf.left).append hf.right

theorem Draft.lays (h : Draft s H l K) (hs : Lays s s') : Adds s H l K s' K fun _ => True := by
  obtain ⟨H', ⟨⟨m, e⟩, -⟩, he, ho⟩ := hs H h.atEnd h.isOpen
  obtain ⟨d, f⟩ := h.emits e.emits he ho
  exact ⟨H', l ++ m, d, f, fun _ _ => trivial⟩

/-- a visit -/
theorem Draft.visit {α : Type} {x : CGM α} {a : α} (h : Draft s H l K) (hx : Keeps Lays x)
    (hr : x.run s = .ok a s') : Adds s H l K s' K fun _ => True :=
  h.lays (hx s a s' hr)

/-- bytes at the end -/
theorem Draft.write (h : Draft s H l K) (bs : List UInt8) :
    Adds s H l K { s with ostr := s.ostr.write bs } K fun code => Sits code s.ostr.pos bs := by
  obtain ⟨d, f⟩ := h.emits (.code h.atEnd bs) (atEnd_write h.atEnd bs) (h.isOpen.write h.atEnd bs)
  rw [List.append_nil] at d f
  exact ⟨H, l, d, f, fun code hk => hk _ _ (h.append.fixed h.atEnd bs)⟩

/-- bytes that are filled in later -/
theorem Draft.hole (h : Draft s H l K) (bs : List UInt8) :
    Adds s H l K { s with ostr := s.ostr.write bs } ((s.ostr.pos, bs.length) :: K)
      fun _ => True := by
  obtain ⟨d, f⟩ := h.emits (.code h.atEnd bs) (atEnd_write h.atEnd bs) (h.isOpen.write h.atEnd bs)
  rw [List.append_nil] at d f
  have he : s.ostr.pos = s.ostr.buf.length := h.atEnd
  refine ⟨H, l, ⟨d.toStage, List.forall_mem_cons.2 ⟨⟨bs, rfl, h.sited.fixed h.atEnd bs⟩, d.own⟩,
    List.pairwise_cons.2 ⟨fun k hk => ?_, h.apart⟩⟩, fun p bs' hf => ?_, fun _ _ => trivial⟩
  · obtain ⟨cs, hl, hf⟩ := h.own k hk
    have := hf.inside
    exact Or.inr (by dsimp only; omega)
  · have hin := hf.inside
    refine (f p bs' hf).left.append (List.forall_mem_cons.2 ⟨Or.inl ?_, hf.right⟩)
    dsimp only
    omega

/-- **Bytes into a hole of the visit**, which is closed then. -/
theorem Draft.fill (h : Draft s H l K) (hk : K.Perm ((q, bs.length) :: K'))
    (ho : s'.ostr = ⟨((⟨s.ostr.buf, q⟩ : OStr).write bs).buf, s.ostr.buf.length⟩)
    (hs : s' = { s with ostr := s'.ostr }) :
    Adds s H l K s' K' fun code => Sits code q bs := by
  have hmem : (q, bs.length) ∈ K := hk.mem_iff.2 List.mem_cons_self
  obtain ⟨cs, hl, hf⟩ := h.own _ hmem
  dsimp only at hl hf
  have hin := hf.inside
  rw [hl] at hin
  have hlen : ((⟨s.ostr.buf, q⟩ : OStr).write bs).buf.length = s.ostr.buf.length :=
    length_fill s.ostr.buf hin
  obtain ⟨hq, hp⟩ := List.pairwise_cons.1 ((hk.pairwise_iff Apart.symm).1 h.apart)
  -- the event with any holes that this one is among
  have hev (G : Holes) : Emits s ((q, bs.length) :: G) [] s' ((q, bs.length) :: G) := by
    refine Emits.trans (l := []) (.fill List.mem_cons_self) (.other ?_)
    rw [hs, ho]
    exact .of_linked rfl
  have hfix (G : Holes) (hG : Sited s ((q, bs.length) :: G) l) (p : Nat) (ds : List UInt8)
      (hd : Fixed s ((q, bs.length) :: G) l p ds) : Fixed s' G l p ds := by
    have := emits_fixed (hev G) l hG hd
    rw [List.append_nil] at this
    exact this.mono (List.subset_cons_self _ _)
  have hsub : (q, bs.length) :: (H ++ K') ⊆ H ++ K := by
    refine List.cons_subset.2 ⟨List.mem_append_right _ hmem, ?_⟩
    refine List.append_subset.2 ⟨List.subset_append_left _ _, fun k hk' => ?_⟩
    exact List.mem_append_right _ (hk.mem_iff.2 (List.mem_cons_of_mem _ hk'))
  have hsub' : (q, bs.length) :: H ⊆ H ++ K :=
    List.cons_subset.2 ⟨List.mem_append_right _ hmem, List.subset_append_left _ _⟩
  have hsited : Sited s' H l := by
    have := emits_sited (hev H) l (h.append.mono hsub')
    rw [List.append_nil] at this
    exact this.mono (List.subset_cons_self _ _)
  have hown : ∀ k ∈ K', ∃ ds : List UInt8, ds.length = k.2 ∧ Fixed s' H l k.1 ds := by
    intro k hk'
    obtain ⟨ds, hd, hf'⟩ := h.own k (hk.mem_iff.2 (List.mem_cons_of_mem _ hk'))
    refine ⟨ds, hd, hfix H (h.append.mono hsub') _ _ ?_⟩
    refine ⟨hf'.sits, hf'.inside, List.forall_mem_cons.2 ⟨?_, hf'.holes⟩, hf'.regions⟩
    rw [hd]
    exact (hq k hk').symm
  have hnew : Fixed s' (H ++ K') l q bs := by
    rw [← hl] at hq
    have hr := hf.regions
    have hh := hf.holes
    rw [hl] at hr hh hq
    refine Fixed.append ⟨?_, ?_, hh, hr⟩ hq
    · rw [ho]
      exact sits_write (by omega)
    · rw [ho]
      exact hin.trans_eq hlen.symm
  refine ⟨H, l, ⟨⟨hsited, ?_, ?_⟩, hown, hp⟩, fun p ds hd => hfix _ (h.append.mono hsub) p ds
    (hd.mono hsub), fun code hk => hk _ _ hnew⟩
  · rw [Codegen.AtEnd, ho]
    exact hlen.symm
  · have hb : s'.ostr.buf.length = s.ostr.buf.length := by rw [ho, hlen]
    refine ⟨?_, fun x hx => hb ▸ h.isOpen.inside x hx⟩
    have e : s'.jumps = s.jumps := by
      rw [hs]
      rfl
    rw [e]
    exact h.isOpen.pending

/-- the end of the output is apart from everything in it -/
theorem Stage.here (h : Stage s H l) : Fixed s H l s.ostr.pos [] := by
  have he : s.ostr.pos = s.ostr.buf.length := h.atEnd
  refine ⟨fun i hi => absurd hi (Nat.not_lt_zero i), he.le, fun x hx => ?_, fun r hr => ?_⟩
  · have := (h.sited.holes x hx).1
    exact Or.inr (by dsimp only; omega)
  · have := h.sited.inside r hr
    exact Or.inr (by dsimp only; omega)

/-- however code generation goes on, the code at the end has what was emitted -/
theorem Adds.finish {x : CGM Unit} {m : Nat} {f : Codegen} (h : Adds s H l [] s' [] P)
    (hx : Keeps Lays x) (hf : (do x; finish).run s' = .ok m f) :
    P f.ostr.buf ∧ s'.ostr.pos ≤ f.ostr.buf.length := by
  obtain ⟨H', l', d, -, hp⟩ := h
  obtain ⟨_, t, h1, h2⟩ := bind_eq_ok.1 hf
  obtain ⟨H1, l1, d1, f1, -⟩ := d.visit hx h1
  refine ⟨hp _ fun p bs hb => finish_fixed d1.sited d1.atEnd (f1 p bs hb).left h2, ?_⟩
  have hin := (f1 _ _ (d.here.append (K := []) (by simp))).inside
  exact hin.trans (finish_outside d1.sited d1.atEnd h2).1

end

end MuF
