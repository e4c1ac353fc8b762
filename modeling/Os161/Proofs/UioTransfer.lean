import Os161.SfsIo

/-! What one call of `uiomove` transfers. -/

namespace Os161
open Routine List

structure Uio.Moves (uio next : Uio) (data : List UInt8) : Prop where
  moved : next.moved = uio.moved ++ data
  rest : next.rest = uio.rest.drop data.length
  resid : next.resid = sizeSub uio.resid data.length
  offset : next.offset = offT (uio.offset + data.length)
  rw : next.rw = uio.rw
  segflg : next.segflg = uio.segflg

structure Uio.Stays (uio next : Uio) : Prop where
  moved : next.moved = uio.moved
  length : next.rest.length = uio.rest.length
  resid : next.resid = uio.resid
  offset : next.offset = uio.offset
  rw : next.rw = uio.rw
  segflg : next.segflg = uio.segflg

theorem Uio.Stays.refl (uio : Uio) : uio.Stays uio := ⟨rfl, rfl, rfl, rfl, rfl, rfl⟩

/-- What the copy of `size` bytes carries, seen from the side it comes from. -/
def Uio.payload (uio : Uio) (buffer : List UInt8) : List UInt8 :=
  match uio.rw with
  | .read => buffer
  | .write => uio.rest.take buffer.length

variable {buffer : List UInt8}

theorem Uio.payload_length {uio : Uio} (enough : buffer.length ≤ uio.rest.length) :
    (uio.payload buffer).length = buffer.length := by
  unfold Uio.payload
  cases uio.rw with
  | read => rfl
  | write => rw [length_take, Nat.min_eq_left enough]

theorem overlay_length {bytes region} (fits : bytes.length ≤ region.length) :
    (overlay bytes region).length = region.length := by
  simp only [overlay, length_append, length_drop]
  omega

private theorem uioCopy_ensures (uio : Uio) (enough : buffer.length ≤ uio.rest.length) :
    (uioCopy buffer buffer.length).Ensures uio fun result next =>
      (result = .error .efault ∧ uio.segflg ≠ .sysspace ∧ uio.Stays next) ∨
      (result = .ok (uio.payload buffer) ∧ uio.Moves (next.advance buffer.length) (uio.payload buffer)) := by
  unfold uioCopy
  simp only [ensures_bind, ensures_get, after_ok, ensures_modify]
  cases direction : uio.rw with
  | read =>
    by_cases kernel : uio.segflg = .sysspace
    · simp only [kernel, ite_true, direction, ensures_bind, ensures_modify, after_ok, ensures_pure]
      refine Or.inr ⟨by simp [Uio.payload, direction], ?_⟩
      constructor <;> simp [Uio.advance, overlay, Uio.payload, direction, kernel]
    · cases fault : uio.faults 0 with
      | none =>
        simp only [kernel, ite_false, ensures_bind, ensures_modify, after_ok, ensures_pure]
        refine Or.inr ⟨by simp [Uio.payload, direction], ?_⟩
        constructor <;> simp [Uio.advance, overlay, Uio.payload, direction]
      | some stored =>
        simp only [kernel, ite_false, ensures_bind, ensures_modify, after_ok, ensures_fail]
        refine Or.inl ⟨trivial, kernel, ?_⟩
        constructor <;> simp only
        · exact overlay_length (by simp only [length_take]; omega)
        · exact direction.symm
  | write =>
    by_cases kernel : uio.segflg = .sysspace
    · simp only [kernel, ite_true, ensures_pure]
      refine Or.inr ⟨by simp [Uio.payload, direction, overlay, enough], ?_⟩
      constructor <;> simp [Uio.advance, Uio.payload, direction, enough]
    · cases fault : uio.faults 0 with
      | none =>
        simp only [kernel, ite_false, ensures_pure]
        refine Or.inr ⟨by simp [Uio.payload, direction, overlay, enough], ?_⟩
        constructor <;> simp [Uio.advance, Uio.payload, direction, enough]
      | some stored =>
        simp only [kernel, ite_false, ensures_fail]
        exact Or.inl ⟨trivial, kernel, by constructor <;> first | rfl | exact direction.symm⟩

/-- A transfer that the uio has room for is complete, or a user address faulted. -/
theorem uiomove_ensures (uio : Uio) (nonempty : 0 < buffer.length)
    (enough : buffer.length ≤ uio.rest.length) (asked : uio.resid ≠ 0) : (uiomove buffer).Ensures uio fun result next =>
      (result = .error .efault ∧ uio.segflg ≠ .sysspace ∧ uio.Stays next) ∨
      (result = .ok (uio.payload buffer) ∧ uio.Moves next (uio.payload buffer)) := by
  obtain ⟨count, size⟩ := Nat.exists_eq_add_of_lt nonempty
  have length := uio.payload_length enough
  have whole : min uio.iovLen buffer.length = buffer.length := Nat.min_eq_right enough
  have busy : ¬ (buffer.length = 0 ∨ uio.resid = 0) := by omega
  have finished (fuel : Nat) (next : Uio) (post : Except Errno (List UInt8) → Uio → Prop)
      (holds : post (.ok []) next) : (uiomoveLoop fuel []).Ensures next post := by
    cases fuel <;> simpa [uiomoveLoop] using holds
  have unfolded : uiomove buffer = uiomoveLoop (count + 1) buffer := by
    unfold uiomove
    congr
    omega
  rw [unfolded, uiomoveLoop]
  simp only [ensures_bind, ensures_get, after_ok, if_neg busy, whole, ensures_require]
  refine ⟨by omega, (uioCopy_ensures uio enough).mono ?_⟩
  intro result next outcome
  rcases outcome with ⟨rfl, user, stays⟩ | ⟨rfl, moves⟩
  · exact Or.inl ⟨rfl, user, stays⟩
  · simp only [after_ok, ensures_bind, ensures_modify]
    rw [drop_of_length_le (by omega), take_of_length_le (by omega)]
    apply finished
    simpa using moves

end Os161
