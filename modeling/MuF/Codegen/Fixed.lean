import MuF.Codegen.Sites

/-!
# Bytes that stay

* `Fixed s H l p bs`: the bytes `bs` are in the output at `p`, apart from all holes and sites;
* `emits_fixed`: a sequence of events keeps them;
* `finish_fixed`: `Finish` keeps them;
* `Keeping s H l code`: code in which everything fixed so far is still there.
-/

set_option linter.unusedVariables false

namespace MuF

open Bytes Exec Layout

/-- bytes of the output that nothing is filled into -/
structure Fixed (s : Codegen) (H : Holes) (l : List Event) (p : Nat) (bs : List UInt8) : Prop where
  sits : Sits s.ostr.buf p bs
  inside : p + bs.length ≤ s.ostr.buf.length
  holes : ∀ h ∈ H, Apart (p, bs.length) h
  regions : ∀ r ∈ l.filterMap Event.region, Apart (p, bs.length) r

section
variable {s s' t : Codegen} {H H' : Holes} {l l' m : List Event} {p : Nat} {bs cs : List UInt8}

/-- bytes at the end of the output -/
theorem Sited.fixed (hi : Sited s H l) (he : s.AtEnd) (bs : List UInt8) :
    Fixed { s with ostr := s.ostr.write bs } H l s.ostr.pos bs := by
  have he' : s.ostr.pos = s.ostr.buf.length := he
  refine ⟨?_, ?_, fun h hh => ?_, fun r hr => ?_⟩
  · show Sits (s.ostr.write bs).buf s.ostr.pos bs
    rw [write_end _ he, he']
    exact sits_end _ _
  · show _ ≤ (s.ostr.write bs).buf.length
    rw [length_write he, he']
  · have := (hi.holes h hh).1
    exact Or.inr (by dsimp only; omega)
  · have := hi.inside r hr
    exact Or.inr (by dsimp only; omega)

/-- more bytes at the end -/
theorem Fixed.write (hf : Fixed s H l p bs) (he : s.AtEnd) (ho : t.ostr = s.ostr.write cs) :
    Fixed t H l p bs := by
  have hb : t.ostr.buf = s.ostr.buf ++ cs := by rw [ho, write_end _ he]
  have hin := hf.inside
  refine ⟨?_, ?_, hf.holes, hf.regions⟩
  · rw [hb]
    exact sits_append_left hf.sits cs
  · rw [hb, List.length_append]
    omega

/-- an event with bytes behind them -/
theorem Fixed.event (hf : Fixed s H (l ++ m) p bs) {e : Event} {r : Nat × Nat}
    (hr : e.region = some r) (hp : p + bs.length ≤ r.1) : Fixed s H (l ++ e :: m) p bs := by
  refine ⟨hf.sits, hf.inside, hf.holes, fun r' hm => ?_⟩
  have hreg : (l ++ e :: m).filterMap Event.region =
      l.filterMap Event.region ++ r :: m.filterMap Event.region := by
    rw [List.filterMap_append, List.filterMap_cons, hr]
  have hold := hf.regions r'
  rw [List.filterMap_append] at hold
  rw [hreg] at hm
  rcases List.mem_append.1 hm with hm | hm
  · exact hold (List.mem_append_left _ hm)
  · rcases List.mem_cons.1 hm with rfl | hm
    · exact Or.inl hp
    · exact hold (List.mem_append_right _ hm)

/-- an event with bytes at the end -/
theorem Fixed.emit (hf : Fixed s H l p bs) (he : s.AtEnd) (ho : t.ostr = s.ostr.write cs)
    {e : Event} (hr : e.region = some (s.ostr.pos, cs.length)) : Fixed t H (l ++ [e]) p bs := by
  have he' : s.ostr.pos = s.ostr.buf.length := he
  have hin := hf.inside
  rw [← List.append_nil l] at hf
  exact (hf.event hr (by dsimp only; omega)).write he ho

/-- the same output with events that have no bytes of their own -/
theorem Fixed.same (hf : Fixed s H l p bs) (hb : t.ostr.buf = s.ostr.buf)
    (hm : l'.filterMap Event.region = []) : Fixed t H (l ++ l') p bs := by
  refine ⟨hb ▸ hf.sits, hb ▸ hf.inside, hf.holes, fun r hr => hf.regions r ?_⟩
  rwa [List.filterMap_append, hm, List.append_nil] at hr

/-- **A sequence of events keeps fixed bytes.** -/
theorem emits_fixed (h : Emits s H l' s' H') : ∀ l, Sited s H l → Fixed s H l p bs →
    Fixed s' H' (l ++ l') p bs := by
  induction h with
  | @const s s' H val he h =>
    intro l hi hf
    rw [run_putConstRef val he] at h
    cases h
    exact hf.emit (e := .const s.ostr.pos val) he rfl rfl
  | @call s H name func framesize he hr hs =>
    intro l hi hf
    refine hf.emit (e := .call s.ostr.pos s.curscope name func framesize) he rfl ?_
    rw [length_callCode]
    rfl
  | @func s t H H' l' scope name func framesize numArgs he hs hr h ht hz ih =>
    intro l hi hf
    have ht' : t.ostr.pos = t.ostr.buf.length := ht
    have hi1 := hi.setAddr func.scopedName (Int64.ofNat s.ostr.pos)
    have hf1 := ih l hi1 ⟨hf.sits, hf.inside, hf.holes, hf.regions⟩
    have hin := hf1.inside
    have hf2 := hf1.event
      (e := .func s.ostr.pos t.ostr.pos scope name func framesize numArgs) rfl
      (by dsimp only; omega)
    exact hf2.write ht rfl
  | var key addr => exact fun l hi hf => hf.same rfl rfl
  | label name he => exact fun l hi hf => hf.same rfl rfl
  | @goto s H name he =>
    intro l hi hf
    refine hf.emit (e := .goto s.ostr.pos s.curscope name) he rfl ?_
    rw [length_jumpCode]
    rfl
  | @code s H he cs =>
    intro l hi hf
    rw [List.append_nil]
    exact hf.write he rfl
  | @hole s H he as cs ds =>
    intro l hi hf
    have he' : s.ostr.pos = s.ostr.buf.length := he
    have hin := hf.inside
    have hw := hf.write (t := { s with ostr := s.ostr.write (as ++ cs ++ ds) }) he rfl
    rw [List.append_nil]
    refine ⟨hw.sits, hw.inside, ?_, hw.regions⟩
    refine List.forall_mem_cons.2 ⟨?_, hw.holes⟩
    exact Or.inl (by dsimp only; omega)
  | @fill s H q cs hq =>
    intro l hi hf
    obtain ⟨h1, h2⟩ := hi.holes _ hq
    have hlen := length_fill s.ostr.buf h1
    have ha := hf.holes _ hq
    unfold Apart at ha
    rw [List.append_nil]
    refine ⟨sits_write_outside hf.sits h1 ha, ?_, hf.holes, hf.regions⟩
    show _ ≤ (OStr.write _ _).buf.length
    rw [hlen]
    exact hf.inside
  | other h =>
    intro l hi hf
    exact hf.same h.buf rfl
  | trans h h' ih1 ih2 =>
    intro l hi hf
    rw [← List.append_assoc]
    exact ih2 _ (emits_sited h l hi) (ih1 l hi hf)

/-! ## the end -/

/-- filling in a constant -/
theorem forM_consts {xs : List (Nat × Int)} {base : Nat} {a : Unit}
    (hl : ∀ x ∈ xs, x.1 + 4 ≤ s.ostr.buf.length)
    (h : (xs.forM fun (addrPos, constAddr) => patch addrPos (Int32.ofInt (constAddr + base))).run s
      = .ok a s') :
    s' = { s with ostr := s'.ostr } ∧ s'.ostr.buf.length = s.ostr.buf.length ∧
      ∀ i, (∀ x ∈ xs, i < x.1 ∨ x.1 + 4 ≤ i) → s'.ostr.buf[i]? = s.ostr.buf[i]? := by
  obtain ⟨h1, h2, h3, -⟩ := forM_patches Prod.fst (fun _ _ => True)
    (fun x _ t u t' _ hr => ⟨_, trivial, (EStateM.Result.ok.inj hr).2.symm⟩) hl h
  exact ⟨h1, h2, h3⟩

/-- the bytes of an event that an address of four bytes belongs to -/
def InRegion (l : List Event) (q : Nat) : Prop :=
  ∃ r ∈ l.filterMap Event.region, r.1 ≤ q ∧ q + 4 ≤ r.1 + r.2

theorem Sited.const_region (hi : Sited s H l) : ∀ x ∈ s.constAddrs, InRegion l x.1 := by
  have hsite : ∀ site ∈ l.filterMap Event.site, InRegion l (site.1 + 2) := by
    intro site hm
    obtain ⟨e, hm, hs⟩ := List.mem_filterMap.1 hm
    cases e <;> simp [Event.site] at hs
    rw [← hs]
    exact ⟨_, List.mem_filterMap.2 ⟨_, hm, rfl⟩, by dsimp only; omega, by dsimp only; omega⟩
  have hr := hi.refs
  revert hsite
  generalize l.filterMap Event.site = sites at hr
  generalize s.constAddrs = xs at hr
  intro hsite
  induction hr with
  | nil => simp
  | @cons x site xs sites hx _ ih =>
    obtain ⟨h1, h2⟩ := List.forall_mem_cons.1 hsite
    refine List.forall_mem_cons.2 ⟨?_, ih h2⟩
    rw [hx.1]
    exact h1

theorem Sited.call_region (hi : Sited s H l) : ∀ call ∈ s.funcComefroms, InRegion l call.pos := by
  intro call hm
  rw [hi.calls] at hm
  obtain ⟨e, hm, hs⟩ := List.mem_filterMap.1 hm
  cases e <;> simp [Event.comefrom] at hs
  rw [← hs]
  exact ⟨_, List.mem_filterMap.2 ⟨_, hm, rfl⟩, by dsimp only; omega, by dsimp only; omega⟩

theorem Sited.goto_region (hi : Sited s H l) : ∀ x ∈ s.gotoComefroms, InRegion l x.2 := by
  intro x hm
  rw [hi.gotos] at hm
  obtain ⟨e, hm, hs⟩ := List.mem_filterMap.1 hm
  cases e <;> simp [Event.gotoAt] at hs
  rw [← hs]
  exact ⟨_, List.mem_filterMap.2 ⟨_, hm, rfl⟩, by dsimp only; omega, by dsimp only; omega⟩

/-- **`Finish`** adds to the output, and changes the bytes of events only. -/
theorem finish_outside {n : Nat} (hi : Sited s H l) (he : s.AtEnd)
    (h : finish.run s = .ok n s') :
    s.ostr.buf.length ≤ s'.ostr.buf.length ∧
      ∀ i < s.ostr.buf.length, (∀ r ∈ l.filterMap Event.region, i < r.1 ∨ r.1 + r.2 ≤ i) →
        s'.ostr.buf[i]? = s.ostr.buf[i]? := by
  obtain ⟨cs, h⟩ := finish_head he h
  have hi1 := hi.write he cs
  have hb1 : ({ s with ostr := s.ostr.write cs } : Codegen).ostr.buf = s.ostr.buf ++ cs := by
    dsimp only
    rw [write_end _ he]
  have t1 := atEnd_write he cs
  generalize ({ s with ostr := s.ostr.write cs } : Codegen) = s1 at h hi1 hb1 t1
  obtain ⟨_, s5, h5, h⟩ := bind_eq_ok.1 h
  obtain ⟨base, s2, hp, h5⟩ := bind_eq_ok.1 h5
  cases hp
  rw [run_get_bind] at h5
  obtain ⟨_, s3, h3, h5⟩ := bind_eq_ok.1 h5
  cases h3
  have hb3 : (s1.ostr.write s1.consttab.ostr).buf = s.ostr.buf ++ (cs ++ s1.consttab.ostr) := by
    rw [write_end _ t1, hb1, List.append_assoc]
  have hlen : s1.ostr.buf.length ≤ (s1.ostr.write s1.consttab.ostr).buf.length := by
    rw [length_write t1]
    omega
  have hin (q : Nat) (hq : InRegion l q) : q + 4 ≤ s1.ostr.buf.length := by
    obtain ⟨r, hr, -, h2⟩ := hq
    have := hi1.inside r hr
    omega
  -- the addresses of constants, calls and labels
  obtain ⟨e5, n5, f5⟩ := forM_consts (fun x hx => by
    have := hin _ (hi1.const_region x hx)
    exact this.trans hlen) h5
  rw [run_get_bind] at h
  obtain ⟨_, s6, h6, h⟩ := bind_eq_ok.1 h
  have hc5 : s5.funcComefroms = s1.funcComefroms := by rw [e5]
  obtain ⟨e6, n6, f6, -⟩ := forM_patches FuncComefrom.pos (fun _ _ => True)
    (fun call _ t u t' _ hr => by
      obtain ⟨addr, -, e⟩ := finishCall_patch hr
      exact ⟨_, trivial, e⟩)
    (fun call hm => by
      have := hin _ (hi1.call_region call (hc5 ▸ hm))
      exact (this.trans hlen).trans_eq n5.symm) h6
  rw [run_get_bind] at h
  obtain ⟨_, s7, h7, h⟩ := bind_eq_ok.1 h
  have hg6 : s6.gotoComefroms = s1.gotoComefroms := by rw [e6, e5]
  obtain ⟨-, n7, f7, -⟩ := forM_patches (fun x : Str × Nat => x.2) (fun _ _ => True)
    (fun x _ t u t' _ hr => by
      obtain ⟨target, -, e⟩ := finishGoto_patch hr
      exact ⟨_, trivial, e⟩)
    (fun x hm => by
      have := hin _ (hi1.goto_region x (hg6 ▸ hm))
      exact (this.trans hlen).trans_eq (n6.trans n5).symm) h7
  cases h
  constructor
  · show _ ≤ s7.ostr.buf.length
    rw [n7, n6, n5]
    dsimp only
    rw [hb3, List.length_append]
    omega
  · intro i hlt hout
    have hout' (q : Nat) (hq : InRegion l q) : i < q ∨ q + 4 ≤ i := by
      obtain ⟨r, hr, h3, h4⟩ := hq
      have := hout r hr
      omega
    show s7.ostr.buf[i]? = _
    rw [f7 i fun x hx => hout' _ (hi1.goto_region x (hg6 ▸ hx)),
      f6 i fun x hx => hout' _ (hi1.call_region x (hc5 ▸ hx)),
      f5 i fun x hx => hout' _ (hi1.const_region x hx)]
    dsimp only
    rw [hb3, List.getElem?_append_left hlt]

/-- **`Finish` keeps fixed bytes.** -/
theorem finish_fixed {n : Nat} (hi : Sited s H l) (he : s.AtEnd) (hf : Fixed s H l p bs)
    (h : finish.run s = .ok n s') : Sits s'.ostr.buf p bs := by
  refine hf.sits.congr fun i h1 h2 => (finish_outside hi he h).2 i ?_ fun r hr => ?_
  · have := hf.inside
    omega
  · have := hf.regions r hr
    unfold Apart at this
    dsimp only at this
    omega

/-! ## code with everything fixed so far -/

/-- code in which everything fixed so far is still there -/
def Keeping (s : Codegen) (H : Holes) (l : List Event) (code : List UInt8) : Prop :=
  ∀ p bs, Fixed s H l p bs → Sits code p bs

theorem Keeping.before {code : List UInt8} (hk : Keeping s' H' (l ++ l') code)
    (h : Emits s H l' s' H') (hi : Sited s H l) : Keeping s H l code :=
  fun p bs hf => hk p bs (emits_fixed h l hi hf)

theorem finish_keeping {n : Nat} (hi : Sited s H l) (he : s.AtEnd)
    (h : finish.run s = .ok n s') : Keeping s H l s'.ostr.buf :=
  fun p bs hf => finish_fixed hi he hf h

end

end MuF
