import Os161.Lib.Runs
import Os161.Proofs.SfsMaking

/-! The allocator of the kernel on a volume that `mksfs` has just made. -/

namespace Os161
open Routine Runs List

structure Allocation where
  sfs : Sfs
  handed : List UInt32

inductive BlockCall where
  | balloc
  | bfree (block : UInt32)
  deriving DecidableEq

/-- `none` is a panic, or a block that is freed without having been obtained. -/
def blockStep (a : Allocation) : BlockCall → Option Allocation
  | .balloc => (sfsBalloc a.sfs).map fun (result, sfs) =>
    match result with
    | .ok block => ⟨sfs, block :: a.handed⟩
    | .error _ => ⟨sfs, a.handed⟩
  | .bfree block =>
    if block ∈ a.handed then (sfsBfree block a.sfs).map fun (_, sfs) => ⟨sfs, a.handed.erase block⟩ else none

/-- The next call: `sfs_balloc` does not panic, fails exactly if no block is left, and returns a free one;
`sfs_bfree` takes any block handed out. -/
def Allocates (a : Allocation) : Prop :=
  (∃ result sfs, sfsBalloc a.sfs = some (result, sfs) ∧
    (result = .error .enospc ↔ ∀ block < a.sfs.nblocks, Reserved a.sfs.nblocks block ∨ block ∈ a.handed) ∧
    ∀ block, result = .ok block → block < a.sfs.nblocks ∧ ¬ Reserved a.sfs.nblocks block ∧ block ∉ a.handed) ∧
  ∀ block ∈ a.handed, (sfsBfree block a.sfs).isSome = true

structure Tracks (nblocks : UInt32) (a : Allocation) : Prop where
  geometry : a.sfs.Geometry
  size : a.sfs.nblocks = nblocks
  bits : a.sfs.freemap.nbits = sfsBitmapsize nblocks
  unforced : a.sfs.nospace = fun _ => false
  marked : ∀ block, a.sfs.Marked block ↔ Reserved nblocks block ∨ block ∈ a.handed
  distinct : a.handed.Nodup
  free : ∀ block ∈ a.handed, block < nblocks ∧ ¬ Reserved nblocks block

section Tracks

variable {nblocks : UInt32} {a next : Allocation}

variable (tracks : Tracks nblocks a)
include tracks

theorem Tracks.spare : a.sfs.Spare := by
  intro block beyond inside
  rw [tracks.size, UInt32.le_iff_toNat_le] at beyond
  rw [tracks.bits, UInt32.lt_iff_toNat_lt] at inside
  exact (tracks.marked block).mpr (.inl (.inr (.inr (.inr ⟨beyond, inside⟩))))

theorem Tracks.allocates : Allocates a := by
  obtain ⟨result, sfs, computed, outcome⟩ := sfsBalloc_ensures tracks.geometry tracks.spare
  refine ⟨⟨result, sfs, computed, ?_, ?_⟩, fun block member => ?_⟩
  · rw [tracks.size]
    rcases outcome with ⟨rfl, -, reason⟩ | ⟨block, rfl, inside, free, -⟩
    · refine iff_of_true rfl fun block inside => (tracks.marked block).mp ?_
      rw [tracks.unforced] at reason
      have within := UInt32.lt_of_lt_of_le (tracks.size ▸ inside) tracks.geometry.bits
      exact (reason.resolve_left Bool.false_ne_true) block within
    · refine iff_of_false nofun fun all => free ((tracks.marked block).mpr (all block ?_))
      rw [← tracks.size]
      exact inside
  · rintro block rfl
    rcases outcome with ⟨failed, -⟩ | ⟨same, done, inside, free, -⟩
    · cases failed
    · cases done
      rw [tracks.marked, not_or] at free
      rw [← tracks.size] at free
      exact ⟨inside, free⟩
  · rw [sfsBfree_eq tracks.geometry ((tracks.marked block).mpr (.inr member))]
    rfl

theorem Tracks.grab {block} (inside : block < a.sfs.nblocks)
    (unmarked : ¬ a.sfs.Marked block) : Tracks nblocks ⟨a.sfs.grab block, block :: a.handed⟩ := by
  have fresh := unmarked
  rw [tracks.marked, not_or] at fresh
  refine ⟨tracks.geometry.grab block, tracks.size, tracks.bits, ?_, fun other => ?_, ?_, ?_⟩
  · change (fun n => a.sfs.nospace (n + 1)) = _
    rw [tracks.unforced]
  · rw [marked_grab tracks.geometry inside, tracks.marked, mem_cons, or_assoc, or_comm (a := other = block)]
  · exact nodup_cons.mpr ⟨fresh.2, tracks.distinct⟩
  · intro other member
    rcases mem_cons.mp member with rfl | member
    · exact ⟨tracks.size ▸ inside, fresh.1⟩
    · exact tracks.free other member

theorem Tracks.release {block} (member : block ∈ a.handed) :
    Tracks nblocks ⟨a.sfs.release block, a.handed.erase block⟩ := by
  obtain ⟨inside, unreserved⟩ := tracks.free block member
  refine ⟨tracks.geometry.release block, tracks.size, tracks.bits, tracks.unforced, fun other => ?_,
    tracks.distinct.erase block, fun other here => tracks.free other (mem_of_mem_erase here)⟩
  rw [marked_release tracks.geometry (by rw [tracks.size]; exact inside), tracks.marked, tracks.distinct.mem_erase_iff]
  constructor
  · rintro ⟨reserved | handed, apart⟩
    · exact .inl reserved
    · exact .inr ⟨apart, handed⟩
  · rintro (reserved | ⟨apart, handed⟩)
    · refine ⟨.inl reserved, ?_⟩
      rintro rfl
      exact unreserved reserved
    · exact ⟨.inr handed, apart⟩

theorem Tracks.step {call} (taken : blockStep a call = some next) : Tracks nblocks next := by
  cases call with
  | balloc =>
    obtain ⟨⟨result, sfs⟩, computed, rfl⟩ := Option.map_eq_some_iff.mp taken
    have outcome := (sfsBalloc_ensures tracks.geometry tracks.spare).elim computed
    rcases outcome with ⟨rfl, rfl, -⟩ | ⟨block, rfl, inside, free, rfl⟩
    · refine ⟨⟨tracks.geometry.works, tracks.geometry.disk, tracks.geometry.sized, tracks.geometry.bits⟩, tracks.size,
        tracks.bits, ?_, tracks.marked, tracks.distinct, tracks.free⟩
      change (fun n => a.sfs.nospace (n + 1)) = _
      rw [tracks.unforced]
    · exact tracks.grab inside free
  | bfree block =>
    rw [blockStep] at taken
    split at taken
    next member =>
      obtain ⟨⟨result, sfs⟩, computed, rfl⟩ := Option.map_eq_some_iff.mp taken
      rw [sfsBfree_eq tracks.geometry ((tracks.marked block).mpr (.inr member))] at computed
      cases computed
      exact tracks.release member
    next => cases taken

end Tracks

theorem FreshVolume.tracks {disk} (fresh : FreshVolume disk) (works : disk.outcomes = fun _ => true)
    (roundable : Roundable disk.dBlocks) {heap s after}
    (mounted : sfsDomount (fun _ => false) heap disk = some (.ok s, after)) : Tracks disk.dBlocks ⟨s, []⟩ := by
  obtain ⟨bitbuf, made, -⟩ := fresh.bitmap
  have state := fresh.mounted works mounted made
  have length := (freshBitbuf_bits roundable fresh.few made).1
  have few := fresh.few
  have size := bitmapsize_eq disk.dBlocks
  have rounded := toNat_bitmapsize roundable
  have marked := @FreshVolume.marked disk s fresh roundable bitbuf made (by rw [state])
  refine ⟨⟨?_, ?_, ⟨?_, ?_⟩, ?_⟩, ?_, ?_, ?_, ?_, nodup_nil, nofun⟩
  · rw [state]
    exact works
  · rw [state]
    exact UInt32.le_refl _
  · rw [state]
    change (sfsBitmapsize disk.dBlocks).toNat = 8 * (bitbuf.take _).length
    rw [length_take, length]
    omega
  · rw [state]
    change (sfsBitmapsize disk.dBlocks).toNat ≤ 131072
    omega
  · rw [state, UInt32.le_iff_toNat_le]
    change disk.dBlocks.toNat ≤ (sfsBitmapsize disk.dBlocks).toNat
    omega
  · rw [state]
  · rw [state]
  · rw [state]
  · intro block
    rw [marked]
    exact ⟨.inl, fun either => either.resolve_right nofun⟩

/-- On every disk on which `mksfs` succeeds: exactly the reserved blocks are marked and the others allocated, each
once, exactly if the size can be rounded up to whole bitmap blocks. -/
theorem freemap_agrees_iff (volname : CString) (disk made : Lhd) (done : mksfs volname disk = some (.ok (), made))
    (works : disk.outcomes = fun _ => true) (heap : Nat → Bool) (s : Sfs) (after : Lhd)
    (mounted : sfsDomount (fun _ => false) heap made = some (.ok s, after)) :
    ((∀ block, s.Marked block ↔ Reserved disk.dBlocks block) ∧ ∀ calls, Always blockStep Allocates ⟨s, []⟩ calls) ↔
      Roundable disk.dBlocks := by
  obtain ⟨size, outcomes, fresh⟩ := mksfs_ok done
  rw [works] at outcomes
  rw [← size]
  constructor
  · rintro ⟨marked, -⟩
    by_contra large
    obtain ⟨bitbuf, prepared, -⟩ := fresh.bitmap
    have state := fresh.mounted outcomes mounted prepared
    have super : s.Marked 0 := (marked 0).mpr (.inl rfl)
    rw [state, (bitmapsize_wraps large).2, UInt32.toNat_zero, Nat.zero_mul, take_zero] at super
    simp [Sfs.Marked, Bitmap.isset, Bitmap.word] at super
  · intro roundable
    have tracks := fresh.tracks outcomes roundable mounted
    refine ⟨fun block => ?_, fun calls => ?_⟩
    · rw [tracks.marked]
      exact ⟨fun either => either.resolve_right not_mem_nil, .inl⟩
    · exact (always_of_invariant (fun _ _ _ tracks taken => tracks.step taken) tracks calls).mono
        fun _ tracks => tracks.allocates

def blankDisk (dBlocks : UInt32) : Lhd := ⟨dBlocks, fun _ => Block.zeros, fun _ => true⟩

def freshMount (dBlocks : UInt32) : Option Sfs :=
  match mksfs ⟨[118], letter_ends⟩ (blankDisk dBlocks) with
  | some (.ok (), made) =>
    match sfsDomount (fun _ => false) (fun _ => true) made with
    | some (.ok s, _) => some s
    | _ => none
  | _ => none

theorem freshMount_some {dBlocks s} (computed : freshMount dBlocks = some s) :
    ∃ made after, mksfs ⟨[118], letter_ends⟩ (blankDisk dBlocks) = some (.ok (), made) ∧
      sfsDomount (fun _ => false) (fun _ => true) made = some (.ok s, after) := by
  unfold freshMount at computed
  split at computed
  next made done =>
    split at computed
    next mounted after here =>
      cases computed
      exact ⟨made, after, done, here⟩
    next => cases computed
  next => cases computed

theorem freemap_agrees_one_bitmap_block : ∃ s, freshMount 4096 = some s ∧
    ∀ calls, Always blockStep Allocates ⟨s, []⟩ calls := by
  have computed : (freshMount 4096).isSome = true := by decide +kernel
  obtain ⟨s, found⟩ := Option.isSome_iff_exists.mp computed
  obtain ⟨made, after, done, mounted⟩ := freshMount_some found
  exact ⟨s, found, ((freemap_agrees_iff _ _ _ done rfl _ s after mounted).mpr (by change 4096 + 4095 < 2 ^ 32; decide)).2⟩

/-- The rounded size of the largest disk is 0: there is no bitmap, and no block can be had. -/
theorem largest_disk_has_no_bitmap : ∃ s, freshMount 0xffffffff = some s ∧
    ¬ s.Marked sfsSbLocation ∧ (sfsBalloc s).map Prod.fst = some (.error .enospc) := by
  have computed : (freshMount 0xffffffff).map (fun s => (s.freemap.isset sfsSbLocation,
      (sfsBalloc s).map fun (result, _) => match result with | .ok _ => none | .error code => some code)) =
      some (false, some (some .enospc)) := by decide +kernel
  obtain ⟨s, found, seen⟩ := Option.map_eq_some_iff.mp computed
  obtain ⟨unmarked, refused⟩ := Prod.mk.inj seen
  refine ⟨s, found, Bool.not_eq_true _ ▸ unmarked, ?_⟩
  obtain ⟨⟨result, after⟩, failed, code⟩ := Option.map_eq_some_iff.mp refused
  rw [failed]
  cases result with
  | ok block => cases code
  | error reason =>
    cases code
    rfl

end Os161
