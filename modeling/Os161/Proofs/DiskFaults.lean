import Os161.Proofs.SfsPrimitives

/-! Block I/O on a disk that may fail. A write never returns an error: its data is stored or silently lost. -/

namespace Os161
open Routine

structure Lhd.Passed (lh after : Lhd) : Prop where
  dBlocks : after.dBlocks = lh.dBlocks
  sectors : after.sectors = lh.sectors

theorem Lhd.Passed.refl (lh : Lhd) : lh.Passed lh := ⟨rfl, rfl⟩

theorem Lhd.passed_tick {lh after : Lhd} (passed : lh.tick.Passed after) : lh.Passed after := ⟨passed.dBlocks, passed.sectors⟩

private theorem retry_passes (left : Nat) {lh uio} (direction : uio.rw = .read)
    (kernel : uio.segflg = .sysspace) (one : uio.OneSector) (inside : uio.sector < lh.dBlocks) :
    (sfsRetry left).Allows (lh, uio) fun _ next => lh.Passed next.1 := by
  induction left generalizing lh with
  | zero =>
    obtain ⟨result, ⟨disk, next⟩, computed, outcome⟩ := lhdIo_read direction one inside
    intro final after done
    rcases outcome with ⟨_, _, user, _⟩ | ⟨_, rfl, same⟩ | ⟨_, rfl, same, _⟩
    · exact absurd kernel user
    · cases same
      cases (pass_again computed).symm.trans done
      exact ⟨rfl, rfl⟩
    · cases same
      cases (pass_done computed).symm.trans done
      exact ⟨rfl, rfl⟩
  | succ left again =>
    obtain ⟨result, ⟨disk, next⟩, computed, outcome⟩ := lhdIo_read direction one inside
    intro final after done
    rcases outcome with ⟨_, _, user, _⟩ | ⟨_, rfl, same⟩ | ⟨_, rfl, same, _⟩
    · exact absurd kernel user
    · cases same
      exact Lhd.passed_tick (@again lh.tick inside final after ((pass_again computed).symm.trans done))
    · cases same
      cases (pass_done computed).symm.trans done
      exact ⟨rfl, rfl⟩

variable {lh : Lhd} {data : Block} {block : UInt32}

theorem sfsRblock_allows : (sfsRblock data block).Allows lh fun result after => lh.Passed after ∧
    ((result = .error .eio ∧ ∀ i ≤ 10, lh.outcomes i = false) ∨ result = .ok (lh.sectors (sfsSector block))) := by
  intro result after computed
  by_cases outside : lh.dBlocks ≤ sfsSector block
  · rw [sfsRblock_halts outside] at computed
    cases computed
  · have inside : sfsSector block < lh.dBlocks := UInt32.not_le.mp outside
    constructor
    · rw [← sfsuio_sector data block .read] at inside
      have tried : sfsRwblock.Allows (lh, sfsuio data block .read) fun _ next => lh.Passed next.1 :=
        retry_passes 10 rfl (sfsuio_segflg data block .read) (sfsuio_oneSector data block .read) inside
      have passes : (sfsRblock data block).Allows lh fun _ next => lh.Passed next := by
        unfold sfsRblock
        simp only [allows_bind, allows_withLocal, andThenAllows_ok]
        refine tried.mono ?_
        intro outcome next passed final later done
        cases done
        exact passed
      exact passes result after computed
    · rcases (sfsRblock_reads inside).elim computed with ⟨failing, failed⟩ | ⟨_, read⟩
      · exact Or.inl ⟨failed, failing⟩
      · exact Or.inr read

theorem sfsWblock_allows : (sfsWblock data block).Allows lh fun result after => result = .ok () ∧
    (lh.outcomes 0 = true ∧ after = lh.tick.store (sfsSector block) data ∨ lh.outcomes 0 = false ∧ after = lh.tick) := by
  intro result after computed
  by_cases outside : lh.dBlocks ≤ sfsSector block
  · rw [sfsWblock_eq_none (rwblock_halts outside)] at computed
    cases computed
  · have inside : sfsSector block < lh.dBlocks := UInt32.not_le.mp outside
    cases succeeds : lh.outcomes 0 with
    | true =>
      cases (sfsWblock_stores inside succeeds).symm.trans computed
      exact ⟨rfl, Or.inl ⟨rfl, rfl⟩⟩
    | false =>
      rw [sfsWblock_loses inside succeeds] at computed
      split at computed
      · cases computed
      · cases computed
        exact ⟨rfl, Or.inr ⟨rfl, rfl⟩⟩

end Os161
