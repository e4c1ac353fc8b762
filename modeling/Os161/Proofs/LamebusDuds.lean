import Os161.Lamebus

/-! The count of duds is that of the events since the last call without one, and above its limit
the call panics, as long as no interrupt comes with no slot pending. -/

namespace Os161.Lamebus
open Runs List

variable {call : Call} {calls : List Call} {duds : Nat}

/-- The dud events of a call. -/
def Call.events (call : Call) : Nat := if call.irqs 0 = 0 then 1 else (call.loop 0).dudsThisTime

/-- The events since the last call without one; the latest call comes first. -/
def since : List Call → Nat
  | [] => 0
  | call :: earlier => if call.events = 0 then 0 else since earlier + call.events

/-- A slot adds the same to both counts, whatever the first was. -/
theorem look_eq (call : Call) (handled now slot : Nat) :
    ∃ after k, k ≤ 1 ∧ ∀ duds, call.look ⟨handled, duds, now⟩ slot = ⟨after, duds + k, now + k⟩ := by
  simp only [Call.look, Pass.dud]
  by_cases clear : (call.irqs handled).getLsbD slot = false
  · exact ⟨handled, 0, Nat.zero_le 1, fun duds => if_pos clear⟩
  · by_cases dud : call.slotsinuse.getLsbD slot = false ∨ call.irqfuncs slot = false
    · refine ⟨handled, 1, Nat.le_refl 1, fun duds => ?_⟩
      rw [if_neg clear]
      rcases dud with unused | unhandled
      · rw [if_pos unused]
      · rw [if_pos unhandled, ite_self]
    · refine ⟨handled + 1, 0, Nat.zero_le 1, fun duds => ?_⟩
      rw [if_neg clear, if_neg (not_or.mp dud).1, if_neg (not_or.mp dud).2]
      rfl

theorem foldl_look (call : Call) (slots : List Nat) (handled now : Nat) :
    ∃ after k, k ≤ slots.length ∧ ∀ duds, slots.foldl call.look ⟨handled, duds, now⟩ = ⟨after, duds + k, now + k⟩ := by
  induction slots generalizing handled now with
  | nil => exact ⟨handled, 0, Nat.le_refl 0, fun _ => rfl⟩
  | cons slot rest again =>
    obtain ⟨middle, first, few, looked⟩ := look_eq call handled now slot
    obtain ⟨after, others, less, folded⟩ := again middle (now + first)
    refine ⟨after, first + others, by rw [length_cons]; omega, fun duds => ?_⟩
    rw [foldl_cons, looked, folded, Nat.add_assoc, Nat.add_assoc]

section

variable (pending : call.irqs 0 ≠ 0)
include pending

theorem loop_eq : call.events ≤ lbNslots ∧ ∃ after, ∀ duds, call.loop duds = ⟨after, duds + call.events, call.events⟩ := by
  obtain ⟨after, k, few, folded⟩ := foldl_look call (range lbNslots) 0 0
  have events : call.events = k := by
    rw [Call.events, if_neg pending, Call.loop, folded, Nat.zero_add]
  rw [events]
  refine ⟨few.trans_eq length_range, after, fun duds => ?_⟩
  rw [Call.loop, folded, Nat.zero_add]

theorem lamebusInterrupt_eq (duds : Nat) : lamebusInterrupt duds call =
    if call.events = 0 then some 0 else if 10000 < duds + call.events then none else some (duds + call.events) := by
  obtain ⟨-, after, looped⟩ := loop_eq pending
  rw [lamebusInterrupt, if_neg pending]
  simp only [looped]
  by_cases quiet : call.events = 0
  · have reset : (if call.events = 0 ∧ duds + call.events > 0 then 0 else duds + call.events) = 0 := by
      split <;> omega
    rw [if_pos quiet, reset]
    rfl
  · rw [if_neg quiet, if_neg (show ¬ (call.events = 0 ∧ duds + call.events > 0) from fun both => quiet both.1)]

end

theorem run_since (reached : run lamebusInterrupt 0 calls = some duds) (pending : ∀ call ∈ calls, call.irqs 0 ≠ 0) :
    duds = since calls.reverse ∧ duds ≤ 10000 := by
  refine @run_history _ _ _
    (fun (done : List Call) duds => (∀ call ∈ done, call.irqs 0 ≠ 0) → duds = since done.reverse ∧ duds ≤ 10000)
    (fun done duds call next before taken pending => ?_) 0 duds [] calls (fun _ => ⟨rfl, by decide⟩) reached pending
  obtain ⟨count, -⟩ := before fun call member => pending call (mem_append_left _ member)
  rw [lamebusInterrupt_eq (pending call (by simp)), count] at taken
  rw [reverse_append]
  change next = (if call.events = 0 then 0 else since done.reverse + call.events) ∧ next ≤ 10000
  split_ifs at taken ⊢ <;> cases taken
  · exact ⟨rfl, by decide⟩
  · exact ⟨rfl, by omega⟩

/-- After calls that each found a slot pending, the next such call resets the count if it has no dud, panics if more
than 10000 duds have come since the last call without one, and counts them otherwise, within the limit and the
number of slots. -/
theorem storm_protection (reached : run lamebusInterrupt 0 calls = some duds)
    (pending : ∀ earlier ∈ call :: calls, earlier.irqs 0 ≠ 0) :
    (call.events = 0 → lamebusInterrupt duds call = some 0) ∧
      (10000 < since (call :: calls.reverse) → lamebusInterrupt duds call = none) ∧
      (since (call :: calls.reverse) ≤ 10000 → lamebusInterrupt duds call = some (since (call :: calls.reverse))) ∧
      (call.loop duds).duds ≤ 10000 + lbNslots := by
  have now := pending call mem_cons_self
  obtain ⟨rfl, limit⟩ := run_since reached fun earlier member => pending earlier (mem_cons_of_mem call member)
  obtain ⟨few, after, looped⟩ := loop_eq now
  rw [lamebusInterrupt_eq now, looped, since]
  have total := Nat.add_le_add limit few
  by_cases quiet : call.events = 0
  · simp only [if_pos quiet]
    exact ⟨fun _ => trivial, fun many => absurd many (by decide), fun _ => trivial, total⟩
  · simp only [if_neg quiet]
    exact ⟨fun none => absurd none quiet, fun many => if_pos many, fun small => if_neg (Nat.not_lt.mpr small), total⟩

theorem storm_protection_dud : lamebusInterrupt 0 ⟨fun _ => 1, 0, fun _ => false⟩ = some 1 :=
  (@storm_protection _ [] 0 rfl (by simp)).2.2.1 (by decide)

def stray : Call := ⟨fun _ => 0, 0, fun _ => false⟩

theorem run_stray (count duds : Nat) : run lamebusInterrupt duds (replicate count stray) = some (duds + count) := by
  induction count generalizing duds with
  | zero => rfl
  | succ count again =>
    rw [replicate_succ, Nat.add_comm count, ← Nat.add_assoc]
    exact again (duds + 1)

/-- Stray interrupts are counted but never end in the panic. -/
theorem strays_unlimited : run lamebusInterrupt 0 (replicate 10033 stray) = some 10033 ∧ 10000 + lbNslots < 10033 :=
  ⟨run_stray 10033 0, by decide⟩

end Os161.Lamebus
