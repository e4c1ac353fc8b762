import Os161.Proofs.BlockTransfer

/-! The retries of `sfs_rwblock`. A write that fails has consumed the uio, so the next attempt transfers nothing and
succeeds. -/

namespace Os161
open Routine

section Retry

variable {lh next : Lhd} {uio advanced : Uio} {again : Routine Errno (Lhd × Uio) Unit}

theorem pass_halts (computed : lhdIo (lh, uio) = some (.error .einval, (next, advanced))) :
    sfsAttempt again (lh, uio) = none := bind_ok (attempt_eq computed)

theorem pass_done (computed : lhdIo (lh, uio) = some (.ok (), (next, advanced))) :
    sfsAttempt again (lh, uio) = some (.ok (), (next, advanced)) := bind_ok (attempt_eq computed)

theorem pass_again (computed : lhdIo (lh, uio) = some (.error .eio, (next, advanced))) :
    sfsAttempt again (lh, uio) = again (next, advanced) := bind_ok (attempt_eq computed)

end Retry

def Lhd.skip (lh : Lhd) (count : Nat) : Lhd := { lh with outcomes := fun n => lh.outcomes (n + count) }

theorem Lhd.skip_tick (lh : Lhd) (count : Nat) : lh.tick.skip count = lh.skip (count + 1) := rfl

def Lhd.FirstSuccess (lh : Lhd) (k : Nat) : Prop := (∀ m < k, lh.outcomes m = false) ∧ lh.outcomes k = true

theorem Lhd.FirstSuccess.unique {lh : Lhd} {k m} (first : lh.FirstSuccess k) (second : lh.FirstSuccess m) :
    k = m := by
  rcases Nat.lt_trichotomy k m with earlier | same | later
  · cases (second.1 k earlier).symm.trans first.2
  · exact same
  · cases (first.1 m later).symm.trans second.2

/-- A read that fails leaves the uio as it was, so every attempt asks for the same sector. -/
theorem retry_read (left : Nat) {lh uio} (direction : uio.rw = .read) (kernel : uio.segflg = .sysspace)
    (one : uio.OneSector) (inside : uio.sector < lh.dBlocks) :
    (sfsRetry left).Ensures (lh, uio) fun result next =>
      ((∀ i ≤ left, lh.outcomes i = false) ∧ result = .error .eio) ∨
      (∃ k ≤ left, lh.FirstSuccess k ∧ next.1 = lh.skip (k + 1)) ∧ result = .ok () ∧
        uio.Moves next.2 (lh.sectors uio.sector).toList := by
  induction left generalizing lh with
  | zero =>
    obtain ⟨result, ⟨disk, next⟩, computed, outcome⟩ := lhdIo_read direction one inside
    rcases outcome with ⟨_, _, user, _⟩ | ⟨failed, rfl, _⟩ | ⟨succeeded, rfl, same, moves⟩
    · exact absurd kernel user
    · refine .of_eq (pass_again computed) (Or.inl ⟨?_, rfl⟩)
      intro i first
      rwa [Nat.le_zero.mp first]
    · exact .of_eq (pass_done computed) (Or.inr ⟨⟨0, Nat.le_refl 0, ⟨nofun, succeeded⟩, same⟩, rfl, moves⟩)
  | succ left again =>
    obtain ⟨result, ⟨disk, next⟩, computed, outcome⟩ := lhdIo_read direction one inside
    rcases outcome with ⟨_, _, user, _⟩ | ⟨failed, rfl, same⟩ | ⟨succeeded, rfl, same, moves⟩
    · exact absurd kernel user
    · cases same
      unfold Ensures sfsRetry
      rw [pass_again computed]
      apply Ensures.mono (@again lh.tick inside)
      intro result next outcome
      rcases outcome with ⟨failing, rfl⟩ | ⟨⟨k, early, ⟨failing, succeeded⟩, same⟩, rfl, moves⟩
      · refine Or.inl ⟨?_, rfl⟩
        intro i early
        cases i with
        | zero => exact failed
        | succ i => exact failing i (by omega)
      · refine Or.inr ⟨⟨k + 1, by omega, ⟨fun m before => ?_, succeeded⟩, same⟩, rfl, moves⟩
        cases m with
        | zero => exact failed
        | succ m => exact failing m (by omega)
    · exact .of_eq (pass_done computed) (Or.inr ⟨⟨0, by omega, ⟨nofun, succeeded⟩, same⟩, rfl, moves⟩)

/-- The sector the device is asked for. It is the block number unless the byte
offset overflows an `off_t`. -/
def sfsSector (block : UInt32) : UInt32 := u32 ((offT (block.toNat * 512)).tdiv 512)

def sfsNextSector (block : UInt32) : UInt32 := u32 ((offT (offT (block.toNat * 512) + 512)).tdiv 512)

theorem offT_aligned {value} (aligned : (512 : Int) ∣ value) : u32 ((offT value).tmod 512) = 0 := by
  have kept : (512 : Int) ∣ offT value := by
    unfold offT Int.bmod
    simp only [Nat.reducePow]
    split <;> omega
  rw [Int.tmod_eq_zero_of_dvd kept]
  rfl

section

variable (data : Block) (block : UInt32) (rw : UioRw)
include data block rw

theorem sfsuio_rest : (sfsuio data block rw).rest = data.toList := rfl

theorem sfsuio_segflg : (sfsuio data block rw).segflg = .sysspace := by
  rw [sfsuio, mkKuio]

theorem sfsuio_offset : (sfsuio data block rw).offset = offT (block.toNat * 512) := by
  rw [sfsuio, mkKuio]

theorem sfsuio_sector : (sfsuio data block rw).sector = sfsSector block := by
  rw [Uio.sector, sfsuio_offset, sfsSector]

theorem sfsuio_oneSector : (sfsuio data block rw).OneSector := by
  have full : (sfsuio data block rw).rest.length = 512 := by rw [sfsuio_rest, Block.length_toList]
  refine ⟨?_, full, Nat.le_of_eq full.symm⟩
  rw [sfsuio_offset]
  exact offT_aligned (Int.dvd_mul_left _ _)

private theorem sfsuio_take : Block.ofList ((sfsuio data block rw).rest.take 512) = data := by
  have full := Block.length_toList data
  rw [sfsuio_rest, List.take_of_length_le (Nat.le_of_eq full), Block.ofList_toList]

end

theorem rwblock_halts {lh data block rw}
    (outside : lh.dBlocks ≤ sfsSector block) : sfsRwblock (lh, sfsuio data block rw) = none := by
  rw [← sfsuio_sector data block rw] at outside
  obtain ⟨result, next, computed, refused⟩ := lhdIo_refused rfl (sfsuio_oneSector data block rw) outside
  rw [refused] at computed
  exact pass_halts computed

section Write

variable {lh : Lhd} {data : Block} {block : UInt32}

theorem sfsWblock_eq_none (halts : sfsRwblock (lh, sfsuio data block .write) = none) :
    sfsWblock data block lh = none := bind_halts (withLocal_halts halts)

theorem sfsWblock_eq_some {uio next result}
    (computed : sfsRwblock (lh, sfsuio data block .write) = some (result, (next, uio))) :
    sfsWblock data block lh = some (result, next) := bind_ok (withLocal_eq computed)

theorem sfsWblock_stores (inside : sfsSector block < lh.dBlocks) (succeeds : lh.outcomes 0 = true) :
    sfsWblock data block lh = some (.ok (), lh.tick.store (sfsSector block) data) := by
  rw [← sfsuio_sector data block .write] at inside ⊢
  obtain ⟨result, ⟨disk, uio⟩, computed, outcome⟩ := lhdIo_write rfl (sfsuio_oneSector data block .write) inside
  rcases outcome with ⟨_, user, _⟩ | ⟨failed, _⟩ | ⟨_, rfl, rfl, _⟩
  · exact absurd (sfsuio_segflg data block .write) user
  · cases succeeds.symm.trans failed
  · rw [sfsuio_take] at computed
    exact sfsWblock_eq_some (pass_done computed)

/-- The retry after a failed write is positioned behind the block and has nothing left to write. -/
theorem sfsWblock_loses (inside : sfsSector block < lh.dBlocks) (fails : lh.outcomes 0 = false) :
    sfsWblock data block lh = if lh.dBlocks < sfsNextSector block then none else some (.ok (), lh.tick) := by
  have one := sfsuio_oneSector data block .write
  rw [← sfsuio_sector data block .write] at inside
  obtain ⟨result, ⟨disk, uio⟩, computed, outcome⟩ := lhdIo_write rfl one inside
  rcases outcome with ⟨_, user, _⟩ | ⟨_, rfl, rfl, moves⟩ | ⟨succeeded, _⟩
  · exact absurd (sfsuio_segflg data block .write) user
  · have length : ((sfsuio data block .write).rest.take 512).length = 512 := by
      rw [List.length_take, Nat.min_eq_left one.enough]
    have finished : uio.resid = 0 := by rw [moves.resid, one.resid, length, show sizeSub 512 512 = 0 by decide]
    have position : uio.offset = offT (offT (block.toNat * 512) + 512) := by
      rw [moves.offset, length, sfsuio_offset]
      rfl
    have aligned : u32 (uio.offset.tmod 512) = 0 := by
      rw [position]
      apply offT_aligned
      unfold offT Int.bmod
      simp only [Nat.reducePow]
      split <;> omega
    have empty : lhdIo (lh.tick, uio) = some (if lh.dBlocks < uio.sector then _ else _, (lh.tick, uio)) :=
      lhdIo_empty aligned finished
    have sector : uio.sector = sfsNextSector block := by rw [Uio.sector, position, sfsNextSector]
    rw [sector] at empty
    have first : sfsRetry 10 _ = sfsRetry 9 _ := pass_again computed
    split
    · next beyond =>
      rw [if_pos beyond] at empty
      exact sfsWblock_eq_none (first.trans (pass_halts empty))
    · next within =>
      rw [if_neg within] at empty
      exact sfsWblock_eq_some (first.trans (pass_done empty))
  · cases fails.symm.trans succeeded

end Write

section Read

variable {lh : Lhd} {data : Block} {block : UInt32}

theorem sfsRblock_halts (outside : lh.dBlocks ≤ sfsSector block) : sfsRblock data block lh = none :=
  bind_halts (withLocal_halts (rwblock_halts outside))

theorem sfsRblock_reads (inside : sfsSector block < lh.dBlocks) :
    (sfsRblock data block).Ensures lh fun result after =>
      ((∀ i ≤ 10, lh.outcomes i = false) ∧ result = .error .eio) ∨
      (∃ k ≤ 10, lh.FirstSuccess k ∧ after = lh.skip (k + 1)) ∧ result = .ok (lh.sectors (sfsSector block)) := by
  rw [← sfsuio_sector data block .read] at inside ⊢
  unfold sfsRblock
  simp only [ensures_bind, ensures_withLocal, after_ok, ensures_finish]
  apply (retry_read 10 rfl rfl (sfsuio_oneSector data block .read) inside).mono
  intro result next outcome
  rcases outcome with ⟨failing, rfl⟩ | ⟨succeeding, rfl, moves⟩
  · exact Or.inl ⟨failing, rfl⟩
  · refine Or.inr ⟨succeeding, ?_⟩
    have full := Block.length_toList (lh.sectors (sfsuio data block .read).sector)
    have nothing : next.2.rest = [] := by
      rw [moves.rest]
      apply List.drop_of_length_le
      exact Nat.le_of_eq (by rw [sfsuio_rest, Block.length_toList, full])
    have filled : next.2.moved = (lh.sectors (sfsuio data block .read).sector).toList := moves.moved
    rw [nothing, filled, List.append_nil, Block.ofList_toList]
    rfl

end Read

section Faithful

variable (lh : Lhd) (data : Block) (block : UInt32)

/-- A write that returns 0 put the data on its sector and touched no other. -/
def WriteFaithful : Prop :=
  ∀ after, sfsWblock data block lh = some (.ok (), after) →
    after.sectors block = data ∧ ∀ other, other ≠ block → after.sectors other = lh.sectors other

/-- A read that returns 0 filled the buffer from its sector. -/
def ReadFaithful : Prop :=
  ∀ buffer after, sfsRblock data block lh = some (.ok buffer, after) → buffer = lh.sectors block

/-- The first attempt reaches the sector, or the loss cannot be seen: the driver halts, or the sectors hold the data
already. -/
def WriteSafe : Prop :=
  lh.dBlocks ≤ sfsSector block ∨
  lh.outcomes 0 = true ∧ (sfsSector block = block ∨ lh.sectors block = data ∧ lh.sectors (sfsSector block) = data) ∨
  lh.outcomes 0 = false ∧ (lh.dBlocks < sfsNextSector block ∨ lh.sectors block = data)

def ReadSafe : Prop :=
  lh.dBlocks ≤ sfsSector block ∨ (∀ i ≤ 10, lh.outcomes i = false) ∨
  sfsSector block = block ∨ lh.sectors (sfsSector block) = lh.sectors block

variable {lh data block}

private theorem write_faithful_of_eq {result} (computed : sfsWblock data block lh = some (.ok (), result)) :
    WriteFaithful lh data block ↔
      result.sectors block = data ∧ ∀ other, other ≠ block → result.sectors other = lh.sectors other := by
  constructor
  · exact fun faithful => faithful result computed
  · intro holds after found
    rw [computed] at found
    cases found
    exact holds

private theorem write_faithful_iff : WriteFaithful lh data block ↔ WriteSafe lh data block := by
  unfold WriteSafe
  by_cases outside : lh.dBlocks ≤ sfsSector block
  · have halts : sfsWblock data block lh = none := sfsWblock_eq_none (rwblock_halts outside)
    simp [WriteFaithful, halts, outside]
  have inside : sfsSector block < lh.dBlocks := UInt32.not_le.mp outside
  cases outcome : lh.outcomes 0 with
  | true =>
    rw [write_faithful_of_eq (sfsWblock_stores inside outcome)]
    by_cases addressed : sfsSector block = block
    · simp +contextual [Lhd.store, Lhd.tick, addressed]
    · constructor
      · intro ⟨stored, others⟩
        have aliased := others (sfsSector block) addressed
        simp only [Lhd.store, Lhd.tick, Ne.symm addressed, if_true, if_false] at stored aliased
        exact Or.inr (Or.inl ⟨rfl, Or.inr ⟨stored, aliased.symm⟩⟩)
      · intro safe
        simp only [outside, addressed, true_and, false_or, Bool.true_eq_false, false_and, or_false] at safe
        refine ⟨?_, ?_⟩
        · simpa only [Lhd.store, Lhd.tick, Ne.symm addressed, if_false] using safe.1
        · intro other different
          by_cases aliased : other = sfsSector block
          · simp only [Lhd.store, aliased, if_true, safe.2]
          · simp only [Lhd.store, Lhd.tick, aliased, if_false]
  | false =>
    by_cases beyond : lh.dBlocks < sfsNextSector block
    · have halts : sfsWblock data block lh = none := by rw [sfsWblock_loses inside outcome, if_pos beyond]
      simp [WriteFaithful, halts, beyond]
    · have loses : sfsWblock data block lh = some (.ok (), lh.tick) := by
        rw [sfsWblock_loses inside outcome, if_neg beyond]
      rw [write_faithful_of_eq loses]
      simp [outside, beyond, Lhd.tick]

private theorem read_faithful_iff : ReadFaithful lh data block ↔ ReadSafe lh block := by
  unfold ReadSafe
  by_cases outside : lh.dBlocks ≤ sfsSector block
  · simp [ReadFaithful, sfsRblock_halts outside, outside]
  obtain ⟨result, after, computed, outcome⟩ := @sfsRblock_reads lh data block (UInt32.not_le.mp outside)
  rcases outcome with ⟨failing, rfl⟩ | ⟨⟨i, early, ⟨_, succeeded⟩, _⟩, rfl⟩
  · constructor
    · exact fun _ => Or.inr (Or.inl failing)
    · intro _ buffer after found
      rw [computed] at found
      cases found
  · constructor
    · exact fun faithful => Or.inr (Or.inr (Or.inr (faithful _ after computed)))
    · intro safe buffer final found
      rw [computed] at found
      cases found
      rcases safe with halts | failing | addressed | same
      · exact absurd halts outside
      · cases (failing i early).symm.trans succeeded
      · rw [addressed]
      · exact same

end Faithful

/-- Exactly when the two block transfers keep the promise of their return value. -/
theorem block_transfer_faithful_iff (lh : Lhd) (data : Block) (block : UInt32) :
    (WriteFaithful lh data block ↔ WriteSafe lh data block) ∧ (ReadFaithful lh data block ↔ ReadSafe lh block) :=
  ⟨write_faithful_iff, read_faithful_iff⟩

/-- A blank disk of two sectors whose first sector operation ends in a media error. -/
def failsOnce : Lhd where
  dBlocks := 2
  sectors := fun _ => Block.zeros
  outcomes := fun n => n ≠ 0

theorem retried_write_lost :
    sfsWblock (fun _ => 1) 0 failsOnce = some (.ok (), failsOnce.tick) ∧
      failsOnce.tick.sectors 0 ≠ (fun _ => 1) ∧ ¬ WriteFaithful failsOnce (fun _ => 1) 0 := by
  have lost : sfsWblock (fun _ => 1) 0 failsOnce = some (.ok (), failsOnce.tick) := sfsWblock_loses (by decide) rfl
  have differs : failsOnce.tick.sectors 0 ≠ (fun _ => 1) := by
    intro same
    cases congrFun same 0
  exact ⟨lost, differs, fun faithful => differs (faithful _ lost).1⟩

end Os161
