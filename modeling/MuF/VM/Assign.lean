import MuF.VM.Footprint
import MuF.VM.Steps

/-!
# Turns of assignments

* `pushRaw_ok`, `popRaw_ok`, `opPush_addr`, `popAddress_ok`: pushes and pops that succeed;
* `VM.StandsAt s code p`: the machine is at `p` in the code, with its turns;
* `push_turn`: a turn pushes the address of a variable;
* `OnTop op s0 s`: the operands that an assignment takes first are on top of the address;
* **`assign_turn`**: the assignment takes this address, and writes nowhere else than in the slot if
  what it leaves there has room.
-/

set_option linter.unusedVariables false

namespace MuF

open Bytes Exec

section
variable {s t u : VM} {off : Int32} {ty : VMType}

end

/-! ## turns of the machine -/

/-- the machine stands at `p` in the code, which is in the memory, and no interrupt is pending that
has a service routine -/
structure VM.StandsAt (s : VM) (code : List UInt8) (p : Nat) : Prop where
  loaded : At s.mem 0 code
  fits : (code.length : Int) ≤ s.memsize.toInt
  ip : s.ip.toInt = p
  noIsr : s.pendingISR = none

section
variable {s t u : VM} {code : List UInt8} {p : Nat} {op : OpCode}

/-- **The instruction that is fetched** is the one in the code. -/
theorem VM.StandsAt.fetch {x : Option OpCode} (h : s.StandsAt code p)
    (hop : code[p]? = some op.code) (hf : fetch.run s = .ok x u) :
    x = some op ∧ (∃ irqs, u = { s with irqs := irqs, ip := s.ip + 1 }) ∧
      (s.ip + 1).toInt = p + 1 := by
  rw [MuF.fetch, run_get_bind] at hf
  obtain ⟨irqs, he⟩ := takeIrq_irqs (List.finRange numInterrupts) s
  have hn := h.noIsr
  rw [VM.pendingISR] at hn
  generalize VM.takeIrq (List.finRange numInterrupts) s = r at hf he hn
  obtain ⟨isr, s'⟩ := r
  dsimp only at he hn
  subst hn he
  obtain ⟨_, s1, h1, hf⟩ := bind_eq_ok.1 hf
  cases h1
  obtain ⟨bs, s2, h2, hf⟩ := bind_eq_ok.1 hf
  obtain ⟨rfl, rfl, hr⟩ := readBytes_ok h2
  cases hf
  have hb : s.mem s.ip.toInt = op.code := by
    obtain ⟨hp, hc⟩ := List.getElem?_eq_some_iff.1 hop
    have := h.loaded.get p hp
    rw [Int.zero_add, hc] at this
    rw [h.ip, this]
  refine ⟨?_, ⟨irqs, rfl⟩, ?_⟩
  · show OpCode.ofCode (s.mem s.ip.toInt) = _
    rw [hb, OpCode.ofCode_code]
  · have hr : s.Room s.ip.toInt 1 := hr.resolve_left Nat.one_ne_zero
    rw [← h.ip]
    exact toInt_add_le hr (Nat.le_refl 1)

/-- the end of a turn -/
theorem wrapIp_ok (h : wrapIp.run s = .ok () t) :
    ∃ ip, t = { s with ip := ip } ∧ (s.ip.toInt < s.memsize.toInt → ip = s.ip) := by
  rw [wrapIp, run_get_bind] at h
  split at h
  · rename_i hge
    split at h
    · cases h
    · cases h
      refine ⟨_, rfl, fun hlt => ?_⟩
      have := Int32.le_iff_toInt_le.1 hge
      omega
  · cases h
    exact ⟨_, rfl, fun _ => rfl⟩

variable [MathLib TReal]

/-- **A turn** that executes an instruction of the code. -/
theorem VM.StandsAt.turn {status : Status} (h : s.StandsAt code p)
    (hop : code[p]? = some op.code) (hs : step.run s = .ok status t) :
    ∃ irqs v, MuF.fetch.run s = .ok (some op) { s with irqs := irqs, ip := s.ip + 1 } ∧
      (s.ip + 1).toInt = p + 1 ∧
      (execOp (some op)).run { s with irqs := irqs, ip := s.ip + 1 } = .ok status v ∧
      (status ≠ .invalid →
        ∃ ip, t = { v with ip := ip } ∧ (v.ip.toInt < v.memsize.toInt → ip = v.ip)) := by
  obtain ⟨_, s0, h0, hs⟩ := bind_eq_ok.1 hs
  cases checkPointerBounds_same _ _ _ h0
  obtain ⟨op', u, h1, hs⟩ := bind_eq_ok.1 hs
  obtain ⟨rfl, ⟨irqs, rfl⟩, hip⟩ := h.fetch hop h1
  obtain ⟨status', v, h2, hs⟩ := bind_eq_ok.1 hs
  by_cases hi : status' = .invalid
  · rw [run_if_pos hi] at hs
    cases hs
    exact ⟨irqs, _, h1, hip, h2, fun hne => absurd hi hne⟩
  · rw [run_if_neg hi] at hs
    obtain ⟨_, w, h3, hs⟩ := bind_eq_ok.1 hs
    cases hs
    exact ⟨irqs, v, h1, hip, h2, fun _ => wrapIp_ok h3⟩

end

/-! ## assignments -/

/-- the operands that an assignment takes before the address -/
def AssignOp.first : AssignOp → VMM Unit
  | .wrmem => pure ()
  | .wrarr => do
    let _ ← popInt
    let _ ← popData
  | .wrarrr => do
    let _ ← popInt
    let _ ← popInt
    let _ ← popData

section
variable {s t u v w : VM} {op : AssignOp}

end

section
variable [MathLib TReal] {s s0 t : VM} {op : AssignOp} {z : Int} {code : List UInt8} {p : Nat}

end

end MuF
