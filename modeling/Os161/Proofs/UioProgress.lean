import Os161.Proofs.BlockTransfer

/-! How far a transfer has come, for uios whose position and residue do not overflow. -/

namespace Os161
open Routine List

/-- A position that fits into an `off_t`, and a residue that the buffer covers. -/
structure Uio.Fits (uio : Uio) : Prop where
  low : 0 ≤ uio.offset
  high : uio.offset < 2 ^ 31
  buffer : uio.resid ≤ uio.rest.length
  size : uio.resid < 2 ^ 32

/-- `data` was transferred. What the rest of the buffer holds is left open. -/
structure Uio.Carries (uio next : Uio) (data : List UInt8) : Prop where
  moved : next.moved = uio.moved ++ data
  resid : next.resid + data.length = uio.resid
  offset : next.offset = uio.offset + data.length
  length : next.rest.length + data.length = uio.rest.length
  rw : next.rw = uio.rw
  segflg : next.segflg = uio.segflg

def Uio.position (uio : Uio) : Nat := uio.offset.toNat

namespace Uio

variable {uio next last : Uio} {data more : List UInt8}

theorem Stays.carries (stays : uio.Stays next) : uio.Carries next [] where
  moved := by rw [stays.moved, append_nil]
  resid := stays.resid
  offset := by rw [stays.offset]; exact (Int.add_zero _).symm
  length := stays.length
  rw := stays.rw
  segflg := stays.segflg

theorem Carries.refl (uio : Uio) : uio.Carries uio [] := (Stays.refl uio).carries

theorem Moves.carries (moves : uio.Moves next data) (fits : uio.Fits) (within : data.length ≤ uio.resid)
    (room : uio.offset + data.length < 2 ^ 31) : uio.Carries next data := by
  have low := fits.low
  have buffer := fits.buffer
  have size := fits.size
  constructor
  · exact moves.moved
  · rw [moves.resid, sizeSub]
    omega
  · rw [moves.offset, offT, Int.bmod]
    split <;> omega
  · rw [moves.rest, length_drop]
    omega
  · exact moves.rw
  · exact moves.segflg

theorem Carries.trans (first : uio.Carries next data) (second : next.Carries last more) :
    uio.Carries last (data ++ more) where
  moved := by rw [second.moved, first.moved, append_assoc]
  resid := by rw [length_append, ← first.resid, ← second.resid]; omega
  offset := by rw [second.offset, first.offset, length_append]; push_cast; omega
  length := by rw [length_append, ← first.length, ← second.length]; omega
  rw := second.rw.trans first.rw
  segflg := second.segflg.trans first.segflg

theorem Carries.fits (carries : uio.Carries next data) (fits : uio.Fits) (room : next.offset < 2 ^ 31) : next.Fits where
  low := by rw [carries.offset]; exact Int.add_nonneg fits.low (Int.natCast_nonneg _)
  high := room
  buffer := by have := carries.resid; have := carries.length; have := fits.buffer; omega
  size := by have := carries.resid; have := fits.size; omega

theorem Fits.position_eq (fits : uio.Fits) : (uio.position : Int) = uio.offset := Int.toNat_of_nonneg fits.low

theorem Fits.fileblock (fits : uio.Fits) : (u32 (uio.offset.tdiv 512)).toNat = uio.position / 512 := by
  have low := fits.low
  have high := fits.high
  rw [Int.tdiv_eq_ediv_of_nonneg low, u32, UInt32.toNat_ofNat', position]
  omega

theorem Fits.blkoff (fits : uio.Fits) : (u32 (uio.offset.tmod 512)).toNat = uio.position % 512 := by
  have low := fits.low
  rw [Int.tmod_eq_emod_of_nonneg low, u32, UInt32.toNat_ofNat', position]
  omega

theorem Carries.position (carries : uio.Carries next data) (fits : uio.Fits) :
    next.position = uio.position + data.length := by
  have low := fits.low
  rw [Uio.position, carries.offset, Uio.position]
  omega

end Uio

section Uiomove

variable {uio : Uio}

theorem uiomove_nil (uio : Uio) : uiomove [] uio = some (.ok [], uio) := rfl

/-- A transfer that is asked for is complete, or a user address faulted. -/
theorem uiomove_carries (fits : uio.Fits) (buffer : List UInt8) (within : buffer.length ≤ uio.resid)
    (room : uio.offset + buffer.length < 2 ^ 31) :
    (uiomove buffer).Ensures uio fun result next =>
      (result = .error .efault ∧ uio.segflg ≠ .sysspace ∧ uio.Carries next []) ∨
      (result = .ok (uio.payload buffer) ∧ uio.Carries next (uio.payload buffer) ∧
        next.rest = uio.rest.drop buffer.length) := by
  have enough : buffer.length ≤ uio.rest.length := Nat.le_trans within fits.buffer
  have length := uio.payload_length enough
  cases buffer with
  | nil =>
    have nothing : uio.payload [] = [] := eq_nil_of_length_eq_zero length
    refine .of_eq (uiomove_nil uio) (Or.inr ?_)
    rw [nothing]
    exact ⟨rfl, Uio.Carries.refl uio, rfl⟩
  | cons byte rest =>
    have nonempty : 0 < (byte :: rest).length := Nat.zero_lt_succ _
    apply (uiomove_ensures uio nonempty enough (by omega)).mono
    intro result next outcome
    rcases outcome with ⟨rfl, user, stays⟩ | ⟨rfl, moves⟩
    · exact Or.inl ⟨rfl, user, stays.carries⟩
    · refine Or.inr ⟨rfl, moves.carries fits (by omega) (by omega), ?_⟩
      rw [moves.rest, length]

private theorem uiomovezerosLoop_carries (fuel n : Nat) (fits : uio.Fits) (enough : n ≤ fuel) (within : n ≤ uio.resid)
    (room : uio.offset + n < 2 ^ 31) (direction : uio.rw = .read) :
    (uiomovezerosLoop fuel n).Ensures uio fun result next =>
      next.rw = .read ∧ ((∃ code, result = .error code ∧ uio.segflg ≠ .sysspace) ∨
        (result = .ok () ∧ uio.Carries next (List.replicate n 0))) := by
  induction fuel generalizing uio n with
  | zero =>
    cases Nat.le_zero.mp enough
    rw [uiomovezerosLoop, ensures_pure]
    exact ⟨direction, Or.inr ⟨rfl, Uio.Carries.refl uio⟩⟩
  | succ fuel again =>
    rw [uiomovezerosLoop]
    split
    · next done =>
      subst done
      rw [ensures_pure]
      exact ⟨direction, Or.inr ⟨rfl, Uio.Carries.refl uio⟩⟩
    · next more =>
      have piece : (List.replicate (min 16 n) (0 : UInt8)).length = min 16 n := length_replicate
      have least := Nat.min_le_right 16 n
      rw [ensures_bind]
      apply (uiomove_carries fits (List.replicate (min 16 n) 0) (by omega) (by omega)).mono
      intro result next outcome
      rcases outcome with ⟨rfl, user, carries⟩ | ⟨rfl, carries, _⟩
      · exact ⟨carries.rw.trans direction, Or.inl ⟨_, rfl, user⟩⟩
      · have zeros : uio.payload (List.replicate (min 16 n) 0) = List.replicate (min 16 n) 0 := by
          simp only [Uio.payload, direction]
        rw [zeros] at carries
        have offset := carries.offset
        have resid := carries.resid
        apply (again (n - min 16 n) (carries.fits fits (by omega)) (by omega) (by omega) (by omega)
          (carries.rw.trans direction)).mono
        rintro result last ⟨still, ⟨code, failed, user⟩ | ⟨rfl, rest⟩⟩
        · exact ⟨still, Or.inl ⟨code, failed, carries.segflg ▸ user⟩⟩
        · refine ⟨still, Or.inr ⟨rfl, ?_⟩⟩
          have whole := carries.trans rest
          rwa [← replicate_add, Nat.add_sub_cancel' least] at whole

theorem uiomovezeros_carries (fits : uio.Fits) {n} (within : n ≤ uio.resid) (room : uio.offset + n < 2 ^ 31)
    (direction : uio.rw = .read) :
    (uiomovezeros n).Ensures uio fun result next =>
      next.rw = .read ∧ ((∃ code, result = .error code ∧ uio.segflg ≠ .sysspace) ∨
        (result = .ok () ∧ uio.Carries next (List.replicate n 0))) := by
  unfold uiomovezeros
  simp only [ensures_bind, ensures_get, after_ok, ensures_require]
  exact ⟨direction, uiomovezerosLoop_carries n n fits (Nat.le_refl n) within room direction⟩

end Uiomove

end Os161
