import Os161.Proofs.DiskFaults
import Os161.Proofs.SfsVolume

/-! What a mount that succeeds says about the free map of an arbitrary disk. -/

namespace Os161
open Routine List

def spNblocks (disk : Lhd) : UInt32 := Words.ofBlock (disk.sectors sfsSbLocation) 1

def mapBytes (disk : Lhd) (left j : Nat) : List UInt8 :=
  (List.range' j left).flatMap fun k => (disk.sectors (sfsMapLocation + UInt32.ofNat k)).toList

/-- The free map has a bit for every block, holds what the bitmap on disk holds, and every block is a sector of the
device. -/
structure Sfs.UsableMap (disk : Lhd) (s : Sfs) : Prop where
  bits : spNblocks disk ≤ s.freemap.nbits
  indexed : ∀ block < spNblocks disk, block.toNat / 8 < s.freemap.v.length
  whole : s.freemap.nbits.toNat = 8 * s.freemap.v.length
  read : s.freemap.v = mapBytes disk (sfsBitblocks (spNblocks disk)).toNat 0
  sectors : ∀ block < spNblocks disk, block < disk.dBlocks

section Reads

variable {disk : Lhd}

theorem mapBytes_congr {other} (same : other.sectors = disk.sectors) (left j : Nat) :
    mapBytes other left j = mapBytes disk left j := by
  unfold mapBytes
  rw [same]

theorem length_mapBytes (left j : Nat) : (mapBytes disk left j).length = left * 512 := by
  unfold mapBytes
  rw [length_flatMap]
  simp only [Block.length_toList, map_const', length_range', sum_replicate_nat]

/-- `sfs_mapio` returns 0 only if it has read all of the bitmap, however often it had to try. -/
theorem sfsMapioRead_allows {left j} (small : j + left < 4194302) {bitdata}
    (length : bitdata.length = (j + left) * 512) :
    (sfsMapioRead left j bitdata).Allows disk fun result after => disk.Passed after ∧
      ∀ v, result = .ok v → v = bitdata.take (j * 512) ++ mapBytes disk left j := by
  induction left generalizing j bitdata disk with
  | zero =>
    rw [sfsMapioRead, allows_pure]
    refine ⟨.refl disk, fun v same => ?_⟩
    cases same
    rw [Nat.add_zero] at length
    rw [take_of_length_le (Nat.le_of_eq length)]
    exact (append_nil _).symm
  | succ left ih =>
    have place := @mapBlock_toNat j (by omega)
    have sector := @sfsSector_eq (sfsMapLocation + UInt32.ofNat j) (by omega)
    rw [sfsMapioRead, allows_bind]
    refine sfsRblock_allows.mono ?_
    rintro result middle ⟨passed, ⟨rfl, -⟩ | rfl⟩
    · exact ⟨passed, by rintro _ ⟨⟩⟩
    · rw [sector, andThenAllows_ok]
      have front : (bitdata.take (j * 512) ++ (disk.sectors (sfsMapLocation + UInt32.ofNat j)).toList).length =
          (j + 1) * 512 := by
        rw [length_append, length_take, Block.length_toList, length]
        omega
      have sum : j + 1 + left = j + (left + 1) := by omega
      refine (ih (by omega) (by rw [length_append, front, length_drop, length, sum]; omega)).mono ?_
      rintro result after ⟨later, whole⟩
      refine ⟨⟨later.dBlocks.trans passed.dBlocks, later.sectors.trans passed.sectors⟩, fun v same => ?_⟩
      rw [whole v same, take_left' front, mapBytes_congr passed.sectors, append_assoc]
      rfl

end Reads

/-- What a successful mount has set up, on any disk. -/
theorem sfsDomount_allows (nospace heap : Nat → Bool) (disk : Lhd) :
    (sfsDomount nospace heap).Allows disk fun result _ => ∀ s, result = .ok s →
      s.freemap = ⟨sfsBitmapsize (spNblocks disk), mapBytes disk (sfsBitblocks (spNblocks disk)).toNat 0⟩ ∧
        disk.Passed s.device ∧ s.vnodes = [] ∧ s.freemapdirty = false := by
  unfold sfsDomount
  split
  · exact nofun
  · rw [allows_bind]
    refine sfsRblock_allows.mono ?_
    rintro result middle ⟨passed, ⟨rfl, -⟩ | rfl⟩
    · exact nofun
    · have size := bitmapsize_eq (spNblocks disk)
      have bound := (sfsBitmapsize (spNblocks disk)).toNat_lt
      have created := @bitmapCreate_whole (sfsBitmapsize (spNblocks disk)) (by omega) (by omega)
      have length : (List.replicate ((sfsBitmapsize (spNblocks disk)).toNat / 8) (0 : UInt8)).length =
          (0 + (sfsBitblocks (spNblocks disk)).toNat) * 512 := by
        rw [length_replicate]
        omega
      rw [andThenAllows_ok, show sfsSector sfsSbLocation = sfsSbLocation by decide]
      dsimp only
      rw [show Words.ofBlock (disk.sectors sfsSbLocation) 1 = spNblocks disk from rfl, created]
      split
      · exact nofun
      · split
        · exact nofun
        · rw [allows_bind]
          refine (sfsMapioRead_allows (by omega) length).mono ?_
          rintro result final ⟨later, whole⟩
          cases result with
          | error code => exact nofun
          | ok v =>
            rw [andThenAllows_ok, allows_bind, allows_get, andThenAllows_ok, allows_pure]
            intro s same
            cases same
            refine ⟨?_, ⟨later.dBlocks.trans passed.dBlocks, later.sectors.trans passed.sectors⟩, rfl, rfl⟩
            rw [whole v rfl, mapBytes_congr passed.sectors, Nat.zero_mul, take_zero, nil_append]

def tinyDisk (nblocks : UInt32) : Lhd where
  dBlocks := 3
  sectors := fun sector => if sector = sfsSbLocation then superBlock ⟨[118], letter_ends⟩ nblocks else Block.zeros
  outcomes := fun _ => true

def tinyMount (nblocks : UInt32) : Option (Except Errno Sfs × Lhd) :=
  sfsDomount (fun _ => false) (fun _ => true) (tinyDisk nblocks)

theorem tinyMount_succeeds {nblocks} (succeeds : ((tinyMount nblocks).bind (·.1.toOption)).isSome = true) :
    ∃ s after, tinyMount nblocks = some (.ok s, after) := by
  obtain ⟨s, found⟩ := Option.isSome_iff_exists.mp succeeds
  exact ⟨s, Routine.ok_of_toOption found⟩

end Os161
