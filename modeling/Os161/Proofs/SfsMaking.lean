import Os161.Proofs.SfsPrimitives
import Os161.SfsMount

/-! The volume that `mksfs` writes, and the state in which `sfs_domount` finds it. -/

namespace Os161
open Routine List

/-- The bits of the buffer in which `mksfs` prepares the bitmap. -/
def bitOf (bytes : List UInt8) (bit : Nat) : Bool := (bytes.getD (bit / 8) 0).toNat.testBit (bit % 8)

section Bits

variable {bitbuf next : List UInt8}

theorem doallocbit_bits {bit} (inside : bit / 8 < bitbuf.length) (done : doallocbit bitbuf bit = some next) :
    next.length = bitbuf.length ∧ ∀ other, bitOf next other = true ↔ bitOf bitbuf other = true ∨ other = bit := by
  rw [doallocbit] at done
  split at done
  next clear =>
    cases done
    refine ⟨length_set, fun other => ?_⟩
    by_cases word : bit / 8 = other / 8
    · rw [bitOf, ← word, getD_eq_getElem?_getD, List.getElem?_set_self inside, Option.getD_some,
        testBit_or_mask (Nat.mod_lt _ (by decide)), bitOf, ← word, Bool.or_eq_true, decide_eq_true_iff]
      have place : bit % 8 = other % 8 ↔ other = bit := by omega
      rw [place]
    · rw [bitOf, bitOf, getD_eq_getElem?_getD, List.getElem?_set_ne word, ← getD_eq_getElem?_getD]
      have other_ne : other ≠ bit := fun same => word (by rw [same])
      simp [other_ne]
  next => cases done

theorem doallocbits_bits {left bit} (inside : bit + left ≤ 8 * bitbuf.length)
    (done : doallocbits left bit bitbuf = some next) :
    next.length = bitbuf.length ∧
      ∀ other, bitOf next other = true ↔ bitOf bitbuf other = true ∨ bit ≤ other ∧ other < bit + left := by
  induction left generalizing bit bitbuf with
  | zero =>
    cases done
    refine ⟨rfl, fun other => ?_⟩
    have never : ¬ (bit ≤ other ∧ other < bit + 0) := by omega
    exact ⟨.inl, fun either => either.resolve_right never⟩
  | succ left ih =>
    obtain ⟨middle, first, done⟩ := Option.bind_eq_some_iff.mp done
    obtain ⟨length, marked⟩ := doallocbit_bits (by omega) first
    obtain ⟨lengths, marks⟩ := ih (by omega) done
    refine ⟨lengths.trans length, fun other => ?_⟩
    rw [marks, marked, or_assoc]
    have range : (other = bit ∨ bit + 1 ≤ other ∧ other < bit + 1 + left) ↔ bit ≤ other ∧ other < bit + (left + 1) := by
      omega
    rw [range]

end Bits

section Sizes

variable {nblocks : UInt32}

def Roundable (nblocks : UInt32) : Prop := nblocks.toNat + 4095 < 2 ^ 32

theorem small_roundable : Roundable 4096 := by
  change 4096 + 4095 < 2 ^ 32
  decide

theorem toNat_bitmapsize (roundable : Roundable nblocks) :
    (sfsBitmapsize nblocks).toNat = (nblocks.toNat + 4095) / 4096 * 4096 := by
  unfold Roundable at roundable
  have sum : (nblocks + 4096 - 1).toNat = nblocks.toNat + 4095 := by
    rw [UInt32.toNat_sub, UInt32.toNat_add]
    simp only [UInt32.reduceToNat]
    omega
  rw [sfsBitmapsize, UInt32.toNat_mul, UInt32.toNat_div, sum]
  simp only [UInt32.reduceToNat]
  omega

theorem toNat_bitblocks (roundable : Roundable nblocks) :
    (sfsBitblocks nblocks).toNat = (nblocks.toNat + 4095) / 4096 := by
  rw [sfsBitblocks, UInt32.toNat_div, toNat_bitmapsize roundable]
  simp only [UInt32.reduceToNat]
  omega

theorem bitmapsize_wraps (large : ¬ Roundable nblocks) : sfsBitmapsize nblocks = 0 ∧ sfsBitblocks nblocks = 0 := by
  unfold Roundable at large
  have bound := nblocks.toNat_lt
  have sum : (nblocks + 4096 - 1).toNat < 4096 := by
    rw [UInt32.toNat_sub, UInt32.toNat_add]
    simp only [UInt32.reduceToNat]
    omega
  have quotient : (nblocks + 4096 - 1) / 4096 = 0 := by
    apply UInt32.toNat_inj.mp
    rw [UInt32.toNat_div]
    simp only [UInt32.reduceToNat]
    omega
  have size : sfsBitmapsize nblocks = 0 := by
    rw [sfsBitmapsize, quotient]
    rfl
  refine ⟨size, ?_⟩
  rw [sfsBitblocks, size]
  rfl

/-- How many bits the bitmap has, also on the largest disks. -/
theorem bitmapsize_eq (nblocks : UInt32) : (sfsBitmapsize nblocks).toNat = 4096 * (sfsBitblocks nblocks).toNat := by
  by_cases roundable : Roundable nblocks
  · rw [toNat_bitmapsize roundable, toNat_bitblocks roundable, Nat.mul_comm]
  · obtain ⟨size, blocks⟩ := bitmapsize_wraps roundable
    rw [size, blocks]
    rfl

end Sizes

/-- The blocks never free: the superblock, the root directory, the bitmap and what is beyond the disk. -/
def Reserved (nblocks block : UInt32) : Prop :=
  block.toNat = 0 ∨ block.toNat = 1 ∨ (2 ≤ block.toNat ∧ block.toNat < 2 + (sfsBitblocks nblocks).toNat) ∨
    (nblocks.toNat ≤ block.toNat ∧ block.toNat < (sfsBitmapsize nblocks).toNat)

theorem bitOf_zeros (n bit : Nat) : bitOf (List.replicate n 0) bit = false := by
  have zero : (List.replicate n (0 : UInt8)).getD (bit / 8) 0 = 0 := by
    rw [getD_eq_getElem?_getD, List.getElem?_replicate]
    split <;> rfl
  rw [bitOf, zero]
  exact Nat.zero_testBit _

theorem freshBitbuf_bits {fsblocks} (roundable : Roundable fsblocks)
    (few : (sfsBitblocks fsblocks).toNat ≤ 32) {bitbuf} (made : freshBitbuf fsblocks = some bitbuf) :
    bitbuf.length = 16384 ∧ ∀ block : UInt32, bitOf bitbuf block.toNat = true ↔ Reserved fsblocks block := by
  simp only [freshBitbuf, Option.bind_eq_bind, Option.bind_eq_some_iff] at made
  obtain ⟨first, marked0, second, marked1, third, marked2, marked3⟩ := made
  have size := toNat_bitmapsize roundable
  have blocks := toNat_bitblocks roundable
  have empty : (List.replicate (32 * 512) (0 : UInt8)).length = 16384 := length_replicate
  obtain ⟨length0, bits0⟩ := doallocbit_bits (by rw [empty]; decide) marked0
  rw [empty] at length0
  obtain ⟨length1, bits1⟩ := doallocbit_bits (by rw [length0]; decide) marked1
  rw [length0] at length1
  have map : sfsMapLocation.toNat = 2 := rfl
  obtain ⟨length2, bits2⟩ := doallocbits_bits (by rw [length1, map]; omega) marked2
  rw [length1] at length2
  obtain ⟨length3, bits3⟩ := doallocbits_bits (by rw [length2]; omega) marked3
  refine ⟨by rw [length3, length2], fun block => ?_⟩
  have super : sfsSbLocation.toNat = 0 := rfl
  have root : sfsRootLocation.toNat = 1 := rfl
  rw [bits3, bits2, bits1, bits0, bitOf_zeros, Reserved, super, root, map]
  have above : fsblocks.toNat ≤ (sfsBitmapsize fsblocks).toNat := by omega
  simp only [Bool.false_eq_true, false_or, Nat.add_sub_of_le above, or_assoc]

section Writing

variable {disk made : Lhd}

theorem diskwrite_ok {data block} (done : diskwrite data block disk = some (.ok (), made)) :
    block < disk.dBlocks ∧ made = disk.store block data := by
  rw [diskwrite, bind_ok rfl] at done
  split at done
  next inside =>
    cases done
    exact ⟨inside, rfl⟩
  next => cases done

theorem mapBlock_toNat {k} (small : k < 4294967294) : (sfsMapLocation + UInt32.ofNat k).toNat = 2 + k := by
  change (2 + k % 2 ^ 32) % 2 ^ 32 = 2 + k
  omega

theorem writebitblocks_ok {bitbuf left i} (small : i + left ≤ 32)
    (done : writebitblocks bitbuf left i disk = some (.ok (), made)) :
    (made.dBlocks = disk.dBlocks ∧ made.outcomes = disk.outcomes) ∧
      (∀ sector : UInt32, sector.toNat < 2 + i → made.sectors sector = disk.sectors sector) ∧
      ∀ k, i ≤ k → k < i + left → 2 + k < disk.dBlocks.toNat ∧
        made.sectors (sfsMapLocation + UInt32.ofNat k) = Block.ofList (bitbuf.drop (k * 512)) := by
  induction left generalizing i disk with
  | zero =>
    cases done
    exact ⟨⟨rfl, rfl⟩, fun _ _ => rfl, fun k low high => absurd high (by omega)⟩
  | succ left ih =>
    obtain ⟨value, middle, wrote, done⟩ := bind_passed done
    obtain ⟨inside, rfl⟩ := diskwrite_ok wrote
    have place := @mapBlock_toNat i (by omega)
    obtain ⟨⟨size, outcomes⟩, before, after⟩ := ih (by omega) done
    refine ⟨⟨size, outcomes⟩, fun sector low => ?_, fun k low high => ?_⟩
    · rw [before sector (by omega)]
      apply if_neg
      rintro rfl
      omega
    · rcases Nat.eq_or_lt_of_le low with rfl | later
      · rw [UInt32.lt_iff_toNat_lt, place] at inside
        refine ⟨inside, ?_⟩
        rw [before _ (by omega)]
        exact if_pos rfl
      · exact after k later (by omega)

structure FreshVolume (made : Lhd) : Prop where
  large : 2 ≤ made.dBlocks.toNat
  super : Words.ofBlock (made.sectors sfsSbLocation) 0 = sfsMagic ∧
    Words.ofBlock (made.sectors sfsSbLocation) 1 = made.dBlocks
  root : made.sectors sfsRootLocation = rootInode.toBlock
  few : (sfsBitblocks made.dBlocks).toNat ≤ 32
  bitmap : ∃ bitbuf, freshBitbuf made.dBlocks = some bitbuf ∧
    ∀ k < (sfsBitblocks made.dBlocks).toNat, 2 + k < made.dBlocks.toNat ∧
      made.sectors (sfsMapLocation + UInt32.ofNat k) = Block.ofList (bitbuf.drop (k * 512))

theorem superBlock_words (volname : CString) (nblocks : UInt32) :
    Words.ofBlock (superBlock volname nblocks) 0 = sfsMagic ∧ Words.ofBlock (superBlock volname nblocks) 1 = nblocks :=
  ⟨wordOf_byteOf sfsMagic, wordOf_byteOf nblocks⟩

theorem mksfs_ok {volname} (done : mksfs volname disk = some (.ok (), made)) :
    made.dBlocks = disk.dBlocks ∧ made.outcomes = disk.outcomes ∧ FreshVolume made := by
  cases checked : checkVolname volname with
  | none =>
    simp only [mksfs, checked] at done
    cases done
  | some name =>
  simp only [mksfs, checked] at done
  rw [bind_ok rfl] at done
  obtain ⟨_, disk1, supered, done⟩ := bind_passed done
  obtain ⟨_, disk2, rooted, mapped⟩ := bind_passed done
  rw [writesuper] at supered
  split at supered
  · cases supered
  obtain ⟨inside0, rfl⟩ := diskwrite_ok supered
  obtain ⟨inside1, rfl⟩ := diskwrite_ok rooted
  rw [writebitmap] at mapped
  split at mapped
  · cases mapped
  next few =>
  rw [UInt32.not_lt, UInt32.le_iff_toNat_le] at few
  cases fresh : freshBitbuf disk.dBlocks with
  | none =>
    rw [fresh] at mapped
    cases mapped
  | some bitbuf =>
  rw [fresh] at mapped
  obtain ⟨⟨size, outcomes⟩, before, written⟩ := writebitblocks_ok (by rw [Nat.zero_add]; exact few) mapped
  have sector0 := before sfsSbLocation (by decide)
  have sector1 := before sfsRootLocation (by decide)
  refine ⟨size, outcomes, ?_, ?_, ?_, ?_, ?_⟩
  · rw [size]
    exact inside1
  · rw [sector0, size]
    exact superBlock_words name disk.dBlocks
  · rw [sector1]
    rfl
  · rw [size]
    exact few
  · refine ⟨bitbuf, by rw [size]; exact fresh, fun k below => ?_⟩
    rw [size] at below ⊢
    exact written k (Nat.zero_le k) (by rw [Nat.zero_add]; exact below)

end Writing

section Reading

theorem Block.toList_ofList_take {bytes} (full : 512 ≤ bytes.length) :
    (Block.ofList bytes).toList = bytes.take 512 := by
  have same : Block.ofList bytes = Block.ofList (bytes.take 512) := by
    funext i
    simp only [Block.ofList, getD_eq_getElem?_getD, List.getElem?_take_of_lt i.isLt]
  rw [same, Block.toList_ofList (by rw [length_take]; omega)]

variable {disk : Lhd}

theorem sfsRblock_works (works : disk.outcomes = fun _ => true) {block} (small : block.toNat < 131072)
    (inside : block < disk.dBlocks) (data : Block) :
    sfsRblock data block disk = some (.ok (disk.sectors block), disk) := by
  have sector := sfsSector_eq (Nat.lt_trans small (by decide))
  rw [sfsRblock_first (by rw [sector]; exact inside) (by rw [works]), Lhd.tick_eq works, sector]

/-- `sfs_mapio` reads back what `mksfs` wrote. -/
theorem sfsMapioRead_eq (works : disk.outcomes = fun _ => true) {bitbuf : List UInt8} {left j}
    (small : j + left ≤ 32) (full : (j + left) * 512 ≤ bitbuf.length)
    (written : ∀ k < j + left, 2 + k < disk.dBlocks.toNat ∧
      disk.sectors (sfsMapLocation + UInt32.ofNat k) = Block.ofList (bitbuf.drop (k * 512)))
    {bitdata} (length : bitdata.length = (j + left) * 512)
    (read : bitdata.take (j * 512) = bitbuf.take (j * 512)) :
    sfsMapioRead left j bitdata disk = some (.ok (bitbuf.take ((j + left) * 512)), disk) := by
  induction left generalizing j bitdata with
  | zero =>
    have whole : bitdata = bitbuf.take ((j + 0) * 512) := by
      rw [Nat.add_zero] at length ⊢
      rw [← read, take_of_length_le (Nat.le_of_eq length)]
    rw [sfsMapioRead, whole]
    rfl
  | succ left ih =>
    obtain ⟨inside, stored⟩ := written j (by omega)
    have place := @mapBlock_toNat j (by omega)
    have rest : 512 ≤ (bitbuf.drop (j * 512)).length := by
      rw [length_drop]
      omega
    have block := sfsRblock_works works (by rw [place]; omega) (by rw [UInt32.lt_iff_toNat_lt, place]; exact inside)
      (Block.ofList (bitdata.drop (j * 512)))
    rw [stored] at block
    rw [sfsMapioRead, bind_ok block, Block.toList_ofList_take rest]
    have front : bitdata.take (j * 512) ++ (bitbuf.drop (j * 512)).take 512 = bitbuf.take ((j + 1) * 512) := by
      rw [read, Nat.add_mul, Nat.one_mul, take_add]
    have frontLength : (bitbuf.take ((j + 1) * 512)).length = (j + 1) * 512 := by
      rw [length_take]
      omega
    rw [front]
    have sum : j + 1 + left = j + (left + 1) := by omega
    have again := @ih (j + 1) (by omega) (by rw [sum]; exact full) (fun k below => written k (by omega))
      (bitbuf.take ((j + 1) * 512) ++ bitdata.drop ((j + 1) * 512)) (by
        rw [length_append, frontLength, length_drop, length]
        omega) (by rw [take_left' frontLength])
    rw [sum] at again
    exact again

theorem bitmapCreate_whole {nbits} (whole : nbits.toNat % 8 = 0) (small : nbits.toNat < 4294967288) :
    bitmapCreate nbits = ⟨nbits, List.replicate (nbits.toNat / 8) 0⟩ := by
  have words : (nbits.toNat + 7) / 8 = nbits.toNat / 8 := by omega
  rw [bitmapCreate_eq (by omega), words, modify_eq_self (Nat.le_of_eq length_replicate)]

theorem FreshVolume.mounted {nospace heap : Nat → Bool} (fresh : FreshVolume disk)
    (works : disk.outcomes = fun _ => true) {s after}
    (mounted : sfsDomount nospace heap disk = some (.ok s, after)) {bitbuf}
    (made : freshBitbuf disk.dBlocks = some bitbuf) :
    s = { nblocks := disk.dBlocks, device := disk, vnodes := [],
          freemap := ⟨sfsBitmapsize disk.dBlocks, bitbuf.take ((sfsBitblocks disk.dBlocks).toNat * 512)⟩,
          freemapdirty := false, nospace, heap := fun n => heap (n + 3) } := by
  have sizes := bitmapsize_eq disk.dBlocks
  have few := fresh.few
  have large := fresh.large
  obtain ⟨magic, count⟩ := fresh.super
  obtain ⟨other, same, written⟩ := fresh.bitmap
  cases made.symm.trans same
  have full : (0 + (sfsBitblocks disk.dBlocks).toNat) * 512 ≤ bitbuf.length := by
    by_cases roundable : Roundable disk.dBlocks
    · rw [(freshBitbuf_bits roundable few made).1]
      omega
    · rw [(bitmapsize_wraps roundable).2]
      exact Nat.zero_le _
  have super := @sfsRblock_works disk works sfsSbLocation (by decide)
    (by rw [UInt32.lt_iff_toNat_lt]; exact Nat.lt_of_lt_of_le (by decide) large) Block.zeros
  rw [sfsDomount] at mounted
  split at mounted
  · cases mounted
  rw [bind_ok super] at mounted
  simp only [magic, count, ne_eq, not_true_eq_false, if_false] at mounted
  split at mounted
  · cases mounted
  have created := @bitmapCreate_whole (sfsBitmapsize disk.dBlocks) (by omega) (by omega)
  have map := @sfsMapioRead_eq disk works bitbuf (sfsBitblocks disk.dBlocks).toNat 0 (by rw [Nat.zero_add]; exact few)
    full (by simpa only [Nat.zero_add] using written) (List.replicate ((sfsBitmapsize disk.dBlocks).toNat / 8) 0) (by
      rw [length_replicate]
      omega) (by simp)
  rw [Nat.zero_add] at map
  rw [created, bind_ok map, bind_ok rfl] at mounted
  cases mounted
  rfl

end Reading

section Fresh

variable {disk : Lhd} {s : Sfs}

/-- On a disk whose size can be rounded up, the kernel finds the reserved blocks marked and no others. -/
theorem FreshVolume.marked (fresh : FreshVolume disk) (roundable : Roundable disk.dBlocks) {bitbuf}
    (made : freshBitbuf disk.dBlocks = some bitbuf)
    (freemap : s.freemap = ⟨sfsBitmapsize disk.dBlocks, bitbuf.take ((sfsBitblocks disk.dBlocks).toNat * 512)⟩)
    (block : UInt32) : s.Marked block ↔ Reserved disk.dBlocks block := by
  obtain ⟨length, bits⟩ := freshBitbuf_bits roundable fresh.few made
  have sizes := bitmapsize_eq disk.dBlocks
  have enough : disk.dBlocks.toNat ≤ (sfsBitmapsize disk.dBlocks).toNat := by
    rw [toNat_bitmapsize roundable]
    omega
  rw [Sfs.Marked, Bitmap.isset_iff, freemap, ← bits]
  change ((bitbuf.take _).getD (block.toNat / 8) 0).toNat.testBit (block.toNat % 8) = true ↔ _
  by_cases inside : block.toNat / 8 < (sfsBitblocks disk.dBlocks).toNat * 512
  · rw [getD_eq_getElem?_getD, List.getElem?_take_of_lt inside, ← getD_eq_getElem?_getD]
    rfl
  · have large := fresh.large
    refine iff_of_false ?_ fun set => ?_
    · have outside : (bitbuf.take ((sfsBitblocks disk.dBlocks).toNat * 512)).length ≤ block.toNat / 8 := by
        rw [length_take]
        omega
      rw [getD_eq_getElem?_getD, List.getElem?_eq_none outside]
      simp
    · rw [bits, Reserved] at set
      omega

end Fresh

end Os161
