import Os161.Proofs.SfsMaking
import Os161.Proofs.SfsOperations

/-! A volume that was made by `mksfs` and mounted. -/

namespace Os161
open Routine

structure MountedFresh (nblocks : UInt32) (nospace heap : Nat → Bool) (s : Sfs) : Prop where
  made : ∃ volname disk made after, disk.dBlocks = nblocks ∧ disk.outcomes = (fun _ => true) ∧
    mksfs volname disk = some (.ok (), made) ∧ sfsDomount nospace heap made = some (.ok s, after)

def BeyondDisk (nblocks block : UInt32) : Prop := nblocks ≤ block ∧ block < sfsBitmapsize nblocks

section Fresh

variable {nblocks : UInt32} {nospace heap : Nat → Bool} {s : Sfs}

variable (mounted : MountedFresh nblocks nospace heap s)
include mounted

theorem MountedFresh.state : ∃ disk bitbuf, FreshVolume disk ∧
    freshBitbuf nblocks = some bitbuf ∧ disk.dBlocks = nblocks ∧ disk.outcomes = (fun _ => true) ∧
    s = { nblocks, device := disk, vnodes := [],
          freemap := ⟨sfsBitmapsize nblocks, bitbuf.take ((sfsBitblocks nblocks).toNat * 512)⟩,
          freemapdirty := false, nospace, heap := fun n => heap (n + 3) } := by
  obtain ⟨volname, disk, made, after, rfl, works, done, mounted⟩ := mounted.made
  obtain ⟨size, outcomes, fresh⟩ := mksfs_ok done
  obtain ⟨bitbuf, prepared, _⟩ := fresh.bitmap
  have works' := outcomes.trans works
  have state := fresh.mounted works' mounted prepared
  rw [size] at prepared state
  exact ⟨made, bitbuf, fresh, prepared, size, works', state⟩

theorem MountedFresh.unloaded (i : UInt32) : s.vnode? i = none := by
  obtain ⟨_, _, _, _, _, _, rfl⟩ := mounted.state
  rfl

theorem MountedFresh.size : s.nblocks = nblocks := by
  obtain ⟨_, _, _, _, _, _, rfl⟩ := mounted.state
  rfl

theorem MountedFresh.heap_eq : s.heap = fun n => heap (n + 3) := by
  obtain ⟨_, _, _, _, _, _, rfl⟩ := mounted.state
  rfl

theorem MountedFresh.nbits : s.freemap.nbits = sfsBitmapsize nblocks := by
  obtain ⟨_, _, _, _, _, _, rfl⟩ := mounted.state
  rfl

theorem MountedFresh.root : s.inodeOf sfsRootLocation = rootInode := by
  obtain ⟨disk, _, fresh, _, _, _, rfl⟩ := mounted.state
  change SfsInode.ofBlock (disk.sectors sfsRootLocation) = rootInode
  rw [fresh.root, SfsInode.ofBlock_toBlock]

theorem MountedFresh.nentries : s.nentries = 0 := by
  unfold Sfs.nentries
  rw [mounted.root]
  rfl

theorem MountedFresh.table (slot : Nat) : s.table slot = none := by
  apply table_bounded s
  rw [mounted.nentries]
  exact Nat.zero_le slot

theorem MountedFresh.live_iff (i : UInt32) : s.Live i ↔ i = sfsRootLocation := by
  apply or_iff_left
  rintro (⟨vnode, loaded⟩ | ⟨name, slot, here⟩)
  · cases loaded.symm.trans (mounted.unloaded i)
  · cases here.symm.trans (mounted.table slot)

theorem MountedFresh.opens : s.opens = fun _ => 0 := by
  funext i
  rw [Sfs.opens, mounted.unloaded]
  rfl

theorem MountedFresh.geometry (roundable : Roundable nblocks) : s.Geometry := by
  obtain ⟨disk, bitbuf, fresh, prepared, rfl, works, rfl⟩ := mounted.state
  have length := (freshBitbuf_bits roundable fresh.few prepared).1
  have few := fresh.few
  have size := bitmapsize_eq disk.dBlocks
  have rounded := toNat_bitmapsize roundable
  refine ⟨works, UInt32.le_refl _, ⟨?_, ?_⟩, ?_⟩
  · change (sfsBitmapsize disk.dBlocks).toNat = 8 * (bitbuf.take _).length
    rw [List.length_take, length]
    omega
  · change (sfsBitmapsize disk.dBlocks).toNat ≤ 131072
    omega
  · change disk.dBlocks.toNat ≤ (sfsBitmapsize disk.dBlocks).toNat
    omega

theorem MountedFresh.marked (roundable : Roundable nblocks)
    (block : UInt32) : s.Marked block ↔ Reserved nblocks block := by
  obtain ⟨disk, bitbuf, fresh, prepared, rfl, _, rfl⟩ := mounted.state
  exact fresh.marked roundable prepared rfl block

theorem MountedFresh.owns_iff (owner : Owner) (block : UInt32) :
    s.Owns s.Live owner block ↔ (owner = .super ∧ block.toNat = 0) ∨ (owner = .inode sfsRootLocation ∧ block.toNat = 1) ∨
      ∃ k < (sfsBitblocks nblocks).toNat, owner = .map k ∧ block.toNat = 2 + k := by
  have root := mounted.root
  have few : (sfsBitblocks nblocks).toNat ≤ 32 := by
    obtain ⟨_, _, fresh, _, rfl, _, _⟩ := mounted.state
    exact fresh.few
  cases owner with
  | super => simp [Sfs.Owns, ← UInt32.toNat_inj, sfsSbLocation]
  | map j =>
    simp only [Sfs.Owns, mounted.size, reduceCtorEq, false_and, false_or, Owner.map.injEq]
    constructor
    · rintro ⟨small, rfl⟩
      exact ⟨j, small, rfl, mapBlock_toNat (by omega)⟩
    · rintro ⟨k, small, rfl, place⟩
      refine ⟨small, UInt32.toNat_inj.mp ?_⟩
      rw [place, mapBlock_toNat (by omega)]
  | inode i =>
    simp only [Sfs.Owns, mounted.live_iff, reduceCtorEq, false_and, false_or, Owner.inode.injEq, and_false, exists_false,
      or_false]
    apply and_congr_right
    rintro rfl
    rw [← UInt32.toNat_inj]
    rfl
  | indirect i =>
    simp only [Sfs.Owns, mounted.live_iff, reduceCtorEq, false_and, and_false, exists_false, or_false, iff_false]
    rintro ⟨rfl, present, given⟩
    rw [root] at given
    exact present given
  | data i p =>
    simp only [Sfs.Owns, mounted.live_iff, reduceCtorEq, false_and, and_false, exists_false, or_false, iff_false]
    rintro ⟨rfl, present, given⟩
    apply present
    rw [given]
    unfold Sfs.slot Sfs.listed
    rw [root]
    split
    · rfl
    · split <;> rfl

theorem MountedFresh.ledger (roundable : Roundable nblocks) : Ledger (s.Owns s.Live) (BeyondDisk nblocks) s.Marked := by
  obtain ⟨disk, _, fresh, _, size, _, _⟩ := mounted.state
  have large := fresh.large
  have inside : ∀ k < (sfsBitblocks nblocks).toNat, 2 + k < nblocks.toNat := by
    obtain ⟨bitbuf, _, written⟩ := fresh.bitmap
    rw [size] at written
    exact fun k small => (written k small).1
  rw [size] at large
  refine ⟨fun {first second block} one other => ?_, fun {owner block} had => ?_, fun block => ?_⟩
  · rw [mounted.owns_iff] at one other
    rcases one with ⟨rfl, place⟩ | ⟨rfl, place⟩ | ⟨k, _, rfl, place⟩ <;>
      rcases other with ⟨rfl, place'⟩ | ⟨rfl, place'⟩ | ⟨k', _, rfl, place'⟩ <;>
      first
        | rfl
        | omega
        | (congr 1; omega)
  · rw [mounted.owns_iff] at had
    rintro ⟨beyond, _⟩
    rw [UInt32.le_iff_toNat_le] at beyond
    rcases had with ⟨_, place⟩ | ⟨_, place⟩ | ⟨k, small, _, place⟩
    · omega
    · omega
    · have := inside k small
      omega
  · rw [mounted.marked roundable, Reserved, BeyondDisk, UInt32.le_iff_toNat_le, UInt32.lt_iff_toNat_lt]
    simp only [mounted.owns_iff]
    constructor
    · rintro (super | root | ⟨low, high⟩ | beyond)
      · exact Or.inl ⟨.super, Or.inl ⟨rfl, super⟩⟩
      · exact Or.inl ⟨.inode sfsRootLocation, Or.inr (Or.inl ⟨rfl, root⟩)⟩
      · exact Or.inl ⟨.map (block.toNat - 2), Or.inr (Or.inr ⟨block.toNat - 2, by omega, rfl, by omega⟩)⟩
      · exact Or.inr beyond
    · rintro (⟨owner, ⟨_, super⟩ | ⟨_, root⟩ | ⟨k, small, _, place⟩⟩ | beyond)
      · exact Or.inl super
      · exact Or.inr (Or.inl root)
      · exact Or.inr (Or.inr (Or.inl (by omega)))
      · exact Or.inr (Or.inr (Or.inr beyond))

theorem MountedFresh.healthy (roundable : Roundable nblocks) : s.Healthy (BeyondDisk nblocks) := by
  have vnodes : s.vnodes = [] := by
    obtain ⟨_, _, _, _, _, _, rfl⟩ := mounted.state
    rfl
  have root := mounted.root
  refine ⟨⟨mounted.geometry roundable, mounted.ledger roundable, ?_, live_root s, ?_, ?_, ?_⟩, ⟨?_, ?_, ?_, ?_⟩, ?_, ?_⟩
  · intro block beyond range
    rw [mounted.size] at beyond
    rw [mounted.nbits] at range
    exact ⟨beyond, range⟩
  · rw [vnodes]
    exact nofun
  · rw [vnodes]
    exact List.nodup_nil
  · rw [vnodes]
    exact nofun
  · rw [root]
    rfl
  · rw [root]
    rfl
  · rw [mounted.nentries]
    exact Nat.zero_le _
  · intro first second name value other here
    cases here.symm.trans (mounted.table first)
  · intro i isLive other
    exact absurd ((mounted.live_iff i).mp isLive) other
  · intro i isLive
    obtain rfl := (mounted.live_iff i).mp isLive
    have none : s.links sfsRootLocation = 0 := by
      have few : s.links sfsRootLocation ≤ s.nentries := Slots.count_le _
      rw [mounted.nentries] at few
      omega
    rw [root, none, if_pos rfl]
    rfl

end Fresh

section Unusable

variable {s : Sfs} {i : UInt32}

theorem theVnode_halts (absent : s.vnode? i = none) : theVnode i s = none := by
  unfold theVnode
  rw [bind_ok rfl, absent]
  rfl

theorem sfsGetroot_halts (vnodes : s.vnodes = []) (unmarked : ¬ s.Marked sfsRootLocation) : sfsGetroot s = none := by
  have used : ∀ t : Sfs, t.freemap = s.freemap → sfsBused sfsRootLocation t = none ∨
      sfsBused sfsRootLocation t = some (.ok false, t) := by
    intro t same
    unfold sfsBused
    rw [bind_ok rfl]
    by_cases inside : sfsRootLocation < t.nblocks
    · right
      rw [bind_ok (require_pos inside), same, Bool.eq_false_of_not_eq_true unmarked]
      rfl
    · exact Or.inl (bind_halts (require_neg inside))
  have loading : ∀ next, sfsLoadvnode sfsRootLocation sfsTypeInval s = some next → ∃ code, next.1 = .error code := by
    intro next computed
    unfold sfsLoadvnode at computed
    rw [bind_ok rfl, vnodes, bind_ok rfl, if_neg Bool.false_ne_true] at computed
    rcases kmalloc_cases s with ⟨done, _⟩ | ⟨failed, _⟩
    · rcases used (s.retable s.vnodes fun n => s.heap (n + 1)) rfl with halts | clear
      · rw [bind_halts] at computed
        · cases computed
        · unfold readVnode
          rw [bind_ok done]
          exact bind_halts halts
      · rw [bind_halts] at computed
        · cases computed
        · unfold readVnode
          rw [bind_ok done, bind_ok clear]
          exact bind_halts (require_neg Bool.false_ne_true)
    · have error : readVnode sfsRootLocation sfsTypeInval s =
          some (.error .enomem, s.retable s.vnodes fun n => s.heap (n + 1)) := by
        exact bind_error failed
      rw [bind_error error] at computed
      cases computed
      exact ⟨_, rfl⟩
  unfold sfsGetroot
  cases computed : sfsLoadvnode sfsRootLocation sfsTypeInval s with
  | none => exact bind_halts (attempt_halts computed)
  | some next =>
    obtain ⟨result, after⟩ := next
    obtain ⟨code, rfl⟩ := loading _ computed
    rw [bind_ok (attempt_eq computed)]
    rfl

/-- A volume whose root is not marked cannot be used: the root cannot be loaded. -/
theorem perform_halts (vnodes : s.vnodes = []) (unmarked : ¬ s.Marked sfsRootLocation) (call : SfsCall) :
    call.perform s = none := by
  have absent : ∀ i, s.vnode? i = none := by
    intro i
    rw [Sfs.vnode?, vnodes]
    rfl
  have stops : ∀ i, theVnode i s = none := fun i => theVnode_halts (absent i)
  have transfer : ∀ (uio : Uio) (v : UInt32), onSfs (theVnode v) (s, uio) = none := by
    intro uio v
    unfold onSfs zoom
    rw [stops]
    rfl
  cases call with
  | getroot =>
    exact bind_halts (sfsGetroot_halts vnodes unmarked)
  | lookup dir name =>
    exact bind_halts (bind_halts (stops dir))
  | creat dir name excl =>
    exact bind_halts (bind_halts (stops dir))
  | link dir name file =>
    exact bind_halts (bind_halts (stops dir))
  | remove dir name =>
    exact bind_halts (bind_halts (stops dir))
  | rename d1 n1 d2 n2 =>
    exact bind_halts (bind_halts (stops d1))
  | read v request =>
    rw [SfsCall.perform, replyTransfer, vopRead]
    refine bind_halts (withLocal_halts ?_)
    rw [bind_ok rfl]
    exact bind_halts (transfer _ v)
  | write v request =>
    rw [SfsCall.perform, replyTransfer, vopWrite]
    refine bind_halts (withLocal_halts ?_)
    rw [bind_ok rfl]
    exact bind_halts (transfer _ v)
  | truncate v len =>
    exact bind_halts (bind_halts (stops v))
  | fsync v =>
    exact bind_halts (bind_halts (stops v))
  | incref v =>
    exact bind_halts (bind_halts (stops v))
  | decref v =>
    exact bind_halts (bind_halts (stops v))

end Unusable

end Os161
