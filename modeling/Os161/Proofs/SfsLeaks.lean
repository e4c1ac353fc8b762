import Os161.Proofs.SfsFaultyReads
import Os161.Proofs.SfsRuns

/-! Blocks that a failed call has allocated. -/

namespace Os161
open Routine Runs Contents Option

namespace Sfs

def faulty (s : Sfs) (outcomes heap : Nat → Bool) : Sfs := { s.withOutcomes outcomes with heap }

def layout (s : Sfs) : UInt32 × (UInt32 → Block) × List SfsVnode × Bitmap :=
  (s.nblocks, s.device.sectors, s.vnodes, s.freemap)

/-- A marked block has an owner, unless it was marked without one before. -/
def Leakless (s after : Sfs) : Prop :=
  ∀ block, after.Marked block → (s.Marked block → ∃ owner, s.Owns s.Live owner block) →
    ∃ owner, after.Owns after.Live owner block

/-- Wherever a transfer or an allocation fails, a call that returns an error leaks no block. -/
def NoLeak (s : Sfs) (routine : Routine Errno Sfs α) : Prop :=
  ∀ outcomes heap code after, routine (s.faulty outcomes heap) = some (.error code, after) → s.Leakless after

/-- The next allocation of a block fails. -/
def Refused (s : Sfs) : Prop := s.nospace 0 = true ∨ ∀ block < s.freemap.nbits, s.Marked block

end Sfs

section Layout

variable {s t : Sfs}

theorem owns_of_layout (same : t.layout = s.layout) : t.Marked = s.Marked ∧ t.Owns t.Live = s.Owns s.Live := by
  obtain ⟨nblocks, ⟨dBlocks, sectors, outcomes⟩, vnodes, freemap, freemapdirty, nospace, heap⟩ := s
  obtain ⟨rfl, rfl, rfl, rfl⟩ := same
  exact ⟨rfl, rfl⟩

theorem leakless_of_layout (same : t.layout = s.layout) : s.Leakless t := by
  obtain ⟨marked, owns⟩ := owns_of_layout same
  intro block isMarked owned
  rw [marked] at isMarked
  rw [owns]
  exact owned isMarked

theorem layout_of_mended (same : t.mended = s.mended) : t.layout = s.layout := by
  have kept : t.mended.layout = s.mended.layout := congrArg Sfs.layout same
  exact kept

theorem leakless_congr {after} (same : t.layout = s.layout) : t.Leakless after ↔ s.Leakless after := by
  obtain ⟨marked, owns⟩ := owns_of_layout same
  unfold Sfs.Leakless
  rw [marked, owns]

end Layout

section Grown

variable {held : UInt32 → Prop} {fresh : UInt32} {s t : Sfs}

structure Sfs.Grown (s t : Sfs) (fresh : UInt32) : Prop where
  nblocks : t.nblocks = s.nblocks
  sectors : ∀ block, block ≠ fresh → t.device.sectors block = s.device.sectors block
  loaded : ∀ j, (s.vnode? j).isSome → (t.vnode? j).isSome
  direct : ∀ j, s.Live j → (t.inodeOf j).direct = (s.inodeOf j).direct
  size : (t.inodeOf sfsRootLocation).size = (s.inodeOf sfsRootLocation).size
  indirect : ∀ j, s.Live j → (s.inodeOf j).indirect ≠ 0 → (t.inodeOf j).indirect = (s.inodeOf j).indirect

variable (before : s.Consistent s.Live held) (free : ¬ s.Marked fresh) (grown : s.Grown t fresh)
include before free grown

theorem Sfs.Grown.slot {j} (isLive : s.Live j) {p} (present : s.slot j p ≠ 0) : t.slot j p = s.slot j p := by
  rcases slot_cases p with ⟨d, rfl⟩ | ⟨k, rfl⟩ | beyond
  · rw [Sfs.slot_direct, Sfs.slot_direct, grown.direct j isLive]
  · rw [Sfs.slot_listed] at present
    have listing : (s.inodeOf j).indirect ≠ 0 := by
      intro missing
      rw [Sfs.listed, if_pos missing] at present
      exact present rfl
    have owns : s.Owns s.Live (.indirect j) (s.inodeOf j).indirect := ⟨isLive, listing, rfl⟩
    have same := grown.indirect j isLive listing
    rw [Sfs.slot_listed, Sfs.slot_listed, Sfs.listed, Sfs.listed, same, if_neg listing, if_neg listing,
      grown.sectors _ (before.free owns free)]
  · exact absurd (Sfs.slot_beyond beyond) present

theorem Sfs.Grown.entry {k} (present : s.slot sfsRootLocation (k * 64 / 512) ≠ 0) : t.entry k = s.entry k := by
  have isLive := live_root s
  have owns : s.Owns s.Live (.data sfsRootLocation (k * 64 / 512)) (s.slot sfsRootLocation (k * 64 / 512)) :=
    ⟨isLive, present, rfl⟩
  have sector := grown.sectors _ (before.free owns free)
  have bytes : window (t.byte sfsRootLocation) (k * 64) 64 = window (s.byte sfsRootLocation) (k * 64) 64 := by
    apply List.map_congr_left
    intro r member
    rw [List.mem_range] at member
    have block : (k * 64 + r) / 512 = k * 64 / 512 := by omega
    simp only [Sfs.byte, block, grown.slot before free isLive present, sector]
  unfold Sfs.entry
  rw [bytes]

theorem Sfs.Grown.table {k name i} (here : s.table k = some (name, i)) :
    t.table k = some (name, i) := by
  obtain ⟨inside, number, cname, used⟩ := table_eq_some here
  have present : s.slot sfsRootLocation (k * 64 / 512) ≠ 0 := by
    intro hole
    exact used (number.symm.trans (entry_hole hole))
  have entry := grown.entry before free present
  have room : k < t.nentries := by
    unfold Sfs.nentries
    rw [grown.size]
    exact inside
  have there := table_used room (by rw [entry, number]; exact used)
  rw [there, entry, number, cname]

theorem Sfs.Grown.live {j} (isLive : s.Live j) : t.Live j := by
  rcases isLive with root | ⟨vnode, loaded⟩ | ⟨name, slot, here⟩
  · exact .inl root
  · exact .inr (.inl (isSome_iff_exists.mp (grown.loaded j (by rw [loaded]; rfl))))
  · exact .inr (.inr ⟨name, slot, grown.table before free here⟩)

theorem Sfs.Grown.owns {owner block} (owns : s.Owns s.Live owner block) : t.Owns t.Live owner block := by
  cases owner with
  | super => exact owns
  | map j =>
    rw [Sfs.Owns, grown.nblocks]
    exact owns
  | inode j => exact ⟨grown.live before free owns.1, owns.2⟩
  | indirect j =>
    obtain ⟨isLive, nonzero, rfl⟩ := owns
    exact ⟨grown.live before free isLive, nonzero, (grown.indirect j isLive nonzero).symm⟩
  | data j p =>
    obtain ⟨isLive, nonzero, rfl⟩ := owns
    exact ⟨grown.live before free isLive, nonzero, (grown.slot before free isLive nonzero).symm⟩

end Grown

section Failing

theorem theVnode_follows (sv : UInt32) : (theVnode sv).Follows (Same Sfs.layout) := by
  refine follows_get_bind fun s => ?_
  cases s.vnode? sv with
  | none => exact follows_halt
  | some vnode => exact follows_pure vnode

variable {sv : UInt32} {after : Sfs}

theorem theVnode_found {s vnode} (found : theVnode sv s = some (.ok vnode, after)) :
    after = s ∧ s.vnode? sv = some vnode := by
  unfold theVnode at found
  rw [bind_ok rfl] at found
  cases loaded : s.vnode? sv with
  | none =>
    rw [loaded] at found
    cases found
  | some other =>
    rw [loaded] at found
    cases found
    exact ⟨rfl, rfl⟩

theorem sfsBused_follows (block : UInt32) : (sfsBused block).Follows (Same Sfs.layout) :=
  follows_get_bind fun _ => (follows_require _).bind fun _ => follows_pure _

theorem rblock_follows (data : Block) (block : UInt32) : (onDevice (sfsRblock data block)).Follows (Same Sfs.layout) := by
  intro s
  unfold onDevice
  rw [allows_zoom]
  refine sfsRblock_allows.mono ?_
  rintro result after ⟨passed, _⟩
  unfold Same Sfs.layout
  rw [passed.sectors]

theorem kmalloc_follows : kmalloc.Follows (Same Sfs.layout) := by
  refine follows_get_bind fun s => Follows.bind (follows_modify fun _ => rfl) fun _ => ?_
  split
  · exact follows_pure ()
  · exact follows_fail _

theorem loadedVnode_follows (ino : UInt32) (vnodes : List SfsVnode) : (loadedVnode ino vnodes).Follows (Same Sfs.layout) := by
  induction vnodes with
  | nil => exact follows_pure false
  | cons vnode rest again =>
    refine (sfsBused_follows _).bind fun _ => (follows_require _).bind fun _ => ?_
    split
    · exact follows_pure true
    · exact again

theorem forceType_follows (inode : SfsInode) (type : UInt16) : (forceType inode type).Follows (Same Sfs.layout) := by
  unfold forceType
  split
  · exact (follows_require _).bind fun _ => follows_pure _
  · exact follows_pure _

theorem wblock_unfailing (data : Block) (block : UInt32) : (onDevice (sfsWblock data block)).Unfailing := by
  have stores (s : Sfs) : (onDevice (sfsWblock data block)).Allows s fun result _ => result = .ok () := by
    unfold onDevice
    rw [allows_zoom]
    exact sfsWblock_allows.mono fun _ _ outcome => outcome.1
  intro s code after computed
  cases stores s _ _ computed

theorem theVnode_unfailing (sv : UInt32) : (theVnode sv).Unfailing := by
  refine unfailing_get_bind fun s => ?_
  cases s.vnode? sv with
  | none => exact nofun
  | some vnode => exact unfailing_pure vnode

theorem sfsBused_unfailing (block : UInt32) : (sfsBused block).Unfailing := by
  refine unfailing_get_bind fun s => ?_
  exact (unfailing_require _).bind fun _ => unfailing_pure _

theorem bmapResult_unfailing (block : UInt32) : (bmapResult block).Unfailing := by
  unfold bmapResult
  split
  · exact (sfsBused_unfailing block).bind fun _ => (unfailing_require _).bind fun _ => unfailing_pure _
  · exact unfailing_pure _

theorem bitmapAllocLoop_reverts (left ix : Nat) : (bitmapAllocLoop left ix).Reverts id := by
  induction left generalizing ix with
  | zero => exact reverts_fail _
  | succ left again =>
    refine reverts_get_bind fun b => ?_
    split
    · split
      · exact Unfailing.reverts (by rintro _ _ _ ⟨⟩)
      · exact ((unfailing_modify _).bind fun _ => (unfailing_require _).bind fun _ => unfailing_pure _).reverts
    · exact again (ix + 1)

/-- What is allocated is lost only behind the allocation itself. -/
theorem sfsBalloc_reverts : sfsBalloc.Reverts Sfs.layout := by
  have bits : bitmapAlloc.Reverts id := reverts_get_bind fun b => bitmapAllocLoop_reverts _ 0
  have search : sfsBitmapAlloc.Reverts Sfs.layout := by
    refine reverts_get_bind fun s => Follows.reverts_bind (follows_modify fun _ => rfl) fun _ => ?_
    split
    · exact reverts_fail _
    · refine bits.zoom fun after s same => ?_
      rw [id, id] at same
      rw [same]
  refine search.bind_unfailing fun block => ?_
  refine (unfailing_modify _).bind fun _ => unfailing_get_bind fun _ => (unfailing_require _).bind fun _ => ?_
  exact (wblock_unfailing _ _).bind fun _ => unfailing_pure block

theorem readVnode_reverts (ino : UInt32) (type : UInt16) : (readVnode ino type).Reverts Sfs.layout := by
  refine kmalloc_follows.reverts_bind fun _ => (sfsBused_follows ino).reverts_bind fun _ => ?_
  refine (follows_require _).reverts_bind fun _ => (rblock_follows _ ino).reverts_bind fun data => ?_
  refine (forceType_follows _ type).reverts_bind fun typed => (follows_require _).reverts_bind fun _ => ?_
  refine kmalloc_follows.reverts_bind fun _ => kmalloc_follows.reverts_bind fun _ => ?_
  exact (unfailing_modify _).reverts

theorem sfsLoadvnode_reverts (ino : UInt32) (type : UInt16) : (sfsLoadvnode ino type).Reverts Sfs.layout := by
  refine reverts_get_bind fun s => (loadedVnode_follows ino _).reverts_bind fun loaded => ?_
  split
  · refine (follows_require _).reverts_bind fun _ => Unfailing.reverts ?_
    exact ((theVnode_unfailing ino).bind fun _ => unfailing_modify _).bind fun _ => unfailing_pure ino
  · exact (readVnode_reverts ino type).bind_unfailing fun _ => unfailing_pure ino

theorem bmapDirect_reverts (sv : UInt32) (fileblock : Fin 15) : (bmapDirect sv fileblock true).Reverts Sfs.layout := by
  refine (theVnode_follows sv).reverts_bind fun vnode => ?_
  split
  · refine sfsBalloc_reverts.bind_unfailing fun block => ?_
    exact (unfailing_modify _).bind fun _ => bmapResult_unfailing block
  · exact (bmapResult_unfailing _).reverts

theorem bmapIndirectBlock_reverts (sv idblock : UInt32) : (bmapIndirectBlock sv idblock).Reverts Sfs.layout := by
  unfold bmapIndirectBlock
  split
  · refine sfsBalloc_reverts.bind_unfailing fun fresh => ?_
    exact (unfailing_modify _).bind fun _ => unfailing_pure _
  · exact (rblock_follows _ _).reverts_bind fun data => (unfailing_pure _).reverts

/-- The indirect block is there, or a new one is linked. -/
theorem bmapIndirectBlock_passed {idblock s listed}
    (computed : bmapIndirectBlock sv idblock s = some (.ok listed, after)) :
    after.layout = s.layout ∨ idblock = 0 ∧ ∃ fresh middle, sfsBalloc s = some (.ok fresh, middle) ∧
      after = middle.setInode sv fun inode => { inode with indirect := fresh } := by
  unfold bmapIndirectBlock at computed
  split at computed
  next missing =>
    obtain ⟨fresh, middle, taken, computed⟩ := bind_passed computed
    cases computed
    exact .inr ⟨missing, fresh, middle, taken, rfl⟩
  next =>
    obtain ⟨data, middle, read, computed⟩ := bind_passed computed
    cases computed
    exact .inl (rblock_follows _ _ s _ _ read)

/-- A new indirect block is linked before the block that it is to list is allocated. -/
theorem bmapIndirect_fails {idoff s code}
    (computed : bmapIndirect sv idoff true s = some (.error code, after)) :
    after.layout = s.layout ∨ ∃ vnode fresh middle, s.vnode? sv = some vnode ∧ vnode.inode.indirect = 0 ∧
      sfsBalloc s = some (.ok fresh, middle) ∧
      after.layout = (middle.setInode sv fun inode => { inode with indirect := fresh }).layout := by
  rcases bind_failed computed with failed | ⟨vnode, _, found, rest⟩
  · exact absurd failed (theVnode_unfailing sv _ _ _)
  obtain ⟨rfl, loaded⟩ := theVnode_found found
  rw [if_neg (fun both => Bool.false_ne_true both.2.symm)] at rest
  rcases bind_failed rest with failed | ⟨⟨idblock, idbuf⟩, linked, listed, rest⟩
  · exact .inl (bmapIndirectBlock_reverts sv _ _ _ _ failed)
  have last : after.layout = linked.layout := by
    dsimp only at rest
    split at rest
    · rcases bind_failed rest with failed | ⟨block, _, _, rest⟩
      · exact sfsBalloc_reverts _ _ _ failed
      · exact absurd rest (((wblock_unfailing _ _).bind fun _ => bmapResult_unfailing block) _ _ _)
    · exact absurd rest (bmapResult_unfailing _ _ _ _)
  rcases bmapIndirectBlock_passed listed with same | ⟨missing, fresh, middle, taken, rfl⟩
  · exact .inl (last.trans same)
  · exact .inr ⟨vnode, fresh, middle, loaded, missing, taken, last⟩

structure Sfs.Takes (s t : Sfs) (fresh : UInt32) : Prop where
  free : ¬ s.Marked fresh
  nblocks : t.nblocks = s.nblocks
  vnodes : t.vnodes = s.vnodes
  sectors : ∀ block, block ≠ fresh → t.device.sectors block = s.device.sectors block
  marked : ∀ block, t.Marked block ↔ s.Marked block ∨ block = fresh

theorem sfsBalloc_takes {s fresh} (geometry : s.mended.Geometry)
    (computed : sfsBalloc s = some (.ok fresh, after)) : s.Takes after fresh ∧ ¬ s.Refused := by
  have takes : sfsBalloc.Allows s fun result after => ∀ fresh, result = .ok fresh → s.Takes after fresh ∧ ¬ s.Refused := by
    unfold sfsBalloc sfsBitmapAlloc
    simp only [allows_bind, allows_get, andThenAllows_ok, allows_modify]
    split
    · exact (allows_fail _ _ _).mpr (by rintro _ ⟨⟩)
    next granted =>
      unfold onFreemap
      rw [allows_zoom]
      intro result bits searched
      rcases (bitmapAlloc_ensures geometry.sized.padded).elim searched with ⟨rfl, -⟩ | ⟨block, rfl, range, clear, rfl, -⟩
      · rintro _ ⟨⟩
      · simp only [andThenAllows_ok, allows_bind, allows_modify, allows_get, allows_require]
        intro inside
        unfold sfsClearblock onDevice
        rw [allows_zoom]
        refine sfsWblock_allows.mono ?_
        rintro _ disk ⟨rfl, outcome⟩
        have marks := Bitmap.isset_mark (geometry.word inside)
        refine (allows_pure _ _ _).mpr fun fresh same => ?_
        cases same
        have free : ¬ s.Marked block := fun marked => Bool.false_ne_true (clear.symm.trans marked)
        refine ⟨⟨free, rfl, rfl, fun other apart => ?_, marks⟩, ?_⟩
        · rcases outcome with ⟨_, rfl⟩ | ⟨_, rfl⟩
          · rw [(geometry.sector inside).1]
            exact if_neg apart
          · rfl
        · rintro (forced | full)
          · exact granted forced
          · exact free (full block range)
  exact takes _ _ computed fresh rfl

end Failing

section Calls

variable {held : UInt32 → Prop} {s : Sfs} {vnode : SfsVnode}

theorem mended_faulty (geometry : s.Geometry) (outcomes heap : Nat → Bool) :
    (s.faulty outcomes heap).mended = s.retable s.vnodes heap :=
  congrArg (fun s : Sfs => { s with heap }) (withOutcomes_works geometry)

theorem Sfs.Healthy.faulty (healthy : s.Healthy held) (outcomes heap : Nat → Bool) :
    (s.faulty outcomes heap).mended.Healthy held := by
  rw [mended_faulty healthy.consistent.geometry]
  exact healthy.reheap heap

variable {middle after : Sfs} {heap : Nat → Bool}

theorem Sfs.Takes.inodeOf {fresh j} (takes : s.Takes middle fresh) (before : s.Consistent s.Live held)
    (isLive : s.Live j) : middle.inodeOf j = s.inodeOf j := by
  have owns : s.Owns s.Live (.inode j) j := ⟨isLive, rfl⟩
  have sector := takes.sectors j (before.free owns takes.free)
  unfold Sfs.inodeOf Sfs.vnode?
  rw [takes.vnodes, sector]

/-- The new indirect block belongs to the file, even where its old contents are still on the disk. -/
theorem linked_leakless (healthy : s.Healthy held) {sv fresh} (takes : s.Takes middle fresh)
    (loaded : s.vnode? sv = some vnode) (missing : vnode.inode.indirect = 0)
    (same : after.layout = (middle.setInode sv fun inode => { inode with indirect := fresh }).layout) : s.Leakless after := by
  have before := healthy.consistent
  obtain ⟨marked, owns⟩ := owns_of_layout same
  have step : FileStep s.Live sv middle (middle.setInode sv fun inode => { inode with indirect := fresh }) := step_setInode _
  have present : middle.vnode? sv = some vnode := by
    rw [Sfs.vnode?, takes.vnodes]
    exact loaded
  have own := inodeOf_setInode present fun inode => { inode with indirect := fresh }
  have bits : (middle.setInode sv fun inode => { inode with indirect := fresh }).Marked = middle.Marked := rfl
  have sectors : (middle.setInode sv fun inode => { inode with indirect := fresh }).device = middle.device := rfl
  have size : (middle.setInode sv fun inode => { inode with indirect := fresh }).nblocks = middle.nblocks := rfl
  generalize (middle.setInode sv fun inode => { inode with indirect := fresh }) = linked at marked owns step own bits sectors size
  have inodes (j : UInt32) (isLive : s.Live j) : (linked.inodeOf j).direct = (s.inodeOf j).direct ∧
      (linked.inodeOf j).size = (s.inodeOf j).size ∧
      ((s.inodeOf j).indirect ≠ 0 → (linked.inodeOf j).indirect = (s.inodeOf j).indirect) := by
    have unchanged := takes.inodeOf before isLive
    by_cases other : j = sv
    · subst other
      rw [own, unchanged]
      refine ⟨rfl, rfl, fun listing => ?_⟩
      rw [Sfs.inodeOf_loaded loaded] at listing
      exact absurd missing listing
    · rw [step.inodeOf isLive other, unchanged]
      exact ⟨rfl, rfl, fun _ => rfl⟩
  have grown : s.Grown linked fresh := by
    refine ⟨size.trans takes.nblocks, fun block apart => ?_, fun j isLoaded => ?_, fun j isLive => (inodes j isLive).1,
      (inodes _ (live_root s)).2.1, fun j isLive => (inodes j isLive).2.2⟩
    · rw [sectors]
      exact takes.sectors block apart
    · rw [isSome_iff_exists, step.loaded_iff j, ← isSome_iff_exists, Sfs.vnode?, takes.vnodes]
      exact isLoaded
  intro block isMarked owned
  rw [marked, bits, takes.marked] at isMarked
  rw [owns]
  rcases isMarked with earlier | rfl
  · obtain ⟨owner, had⟩ := owned earlier
    exact ⟨owner, grown.owns before takes.free had⟩
  · have isLive := live_loaded loaded
    refine ⟨.indirect sv, grown.live before takes.free isLive, fun zero => ?_, by rw [own]⟩
    have super : s.Owns s.Live .super sfsSbLocation := rfl
    exact before.free super takes.free zero.symm

/-- The call is over at the allocation of a block or before, and has changed nothing. -/
theorem failed_leakless {outcomes} (reached : middle.layout = (s.faulty outcomes heap).layout)
    (same : after.layout = middle.layout) : s.Leakless after := leakless_of_layout (same.trans reached)

/-- A block that `sfs_bmap` has allocated belongs to the file by the time the call can fail. -/
theorem sfsBmap_noLeak (healthy : s.Healthy held) (sv fileblock : UInt32) : s.NoLeak (sfsBmap sv fileblock true) := by
  intro outcomes heap code after computed
  have geometry := (healthy.faulty outcomes heap).consistent.geometry
  unfold sfsBmap at computed
  split at computed
  · exact failed_leakless rfl (bmapDirect_reverts sv _ _ _ _ computed)
  · dsimp only at computed
    split at computed
    · cases computed
      exact leakless_of_layout rfl
    · rcases bmapIndirect_fails computed with same | ⟨vnode, fresh, middle, loaded, missing, taken, same⟩
      · exact failed_leakless rfl same
      · have takes := (sfsBalloc_takes geometry taken).1
        have takes' : s.Takes middle fresh := ⟨takes.free, takes.nblocks, takes.vnodes, takes.sectors, takes.marked⟩
        exact linked_leakless healthy takes' loaded missing same

/-- The block of the new object stays marked when there is no memory for the vnode. -/
theorem sfsMakeobj_leaks (healthy : s.Healthy held) (granted : ¬ s.Refused) (empty : s.heap 0 = false) (type : UInt16) :
    ∃ after, sfsMakeobj type s = some (.error .enomem, after) ∧ ¬ s.Leakless after := by
  have before := healthy.consistent
  obtain ⟨result, after, taken, ⟨_, _, refused⟩ | ⟨fresh, rfl, inside, free, rfl⟩⟩ :=
    sfsBalloc_ensures before.geometry before.reserved
  · exact absurd refused granted
  obtain ⟨grabbed, _⟩ := grab_held healthy inside free
  have absent : (s.grab fresh).vnodes.any (·.ino = fresh) = false := by
    rw [any_ino]
    change (s.vnode? fresh).isSome = false
    cases found : s.vnode? fresh with
    | none => rfl
    | some vnode => exact absurd (live_loaded found) (before.not_live free)
  obtain ⟨last, lacking, same⟩ : ∃ last, kmalloc (s.grab fresh) = some (.error .enomem, last) ∧
      last.layout = (s.grab fresh).layout := by
    rcases kmalloc_cases (s.grab fresh) with ⟨_, full⟩ | ⟨failed, _⟩
    · cases empty.symm.trans full
    · exact ⟨_, failed, rfl⟩
  refine ⟨last, ?_, fun leakless => ?_⟩
  · unfold sfsMakeobj sfsLoadvnode
    rw [bind_ok taken, bind_ok rfl, bind_ok (grabbed.loadedVnode_eq fresh fun _ member => member), absent]
    exact bind_error (bind_error lacking)
  · obtain ⟨marks, owners⟩ := owns_of_layout same
    have marked : last.Marked fresh := by
      rw [marks, marked_grab before.geometry inside]
      exact .inr rfl
    obtain ⟨owner, owns⟩ := leakless fresh marked fun earlier => absurd earlier free
    rw [owners] at owns
    exact grabbed.consistent.ledger.apart owns (.inr rfl)

theorem faulty_works (geometry : s.Geometry) (heap : Nat → Bool) : s.faulty (fun _ => true) heap = s.retable s.vnodes heap :=
  congrArg (fun s : Sfs => { s with heap }) (withOutcomes_works geometry)

/-- On a disk that works, an error of the call is one of those that memory alone can cause. -/
theorem Sfs.NoLeak.elim {routine : Routine Errno Sfs α} (noLeak : s.NoLeak routine) (geometry : s.Geometry)
    {code} (computed : routine (s.retable s.vnodes heap) = some (.error code, after)) :
    (s.retable s.vnodes heap).Leakless after := by
  exact (leakless_congr rfl).mpr (noLeak _ _ _ _ computed)

section

variable (healthy : s.Healthy held)
include healthy

theorem sfsMakeobj_noLeak_iff (type : UInt16) : s.NoLeak (sfsMakeobj type) ↔ s.Refused := by
  constructor
  · intro noLeak
    by_contra granted
    obtain ⟨after, computed, leaks⟩ := sfsMakeobj_leaks (healthy.reheap fun _ => false) granted rfl type
    exact leaks (noLeak.elim healthy.consistent.geometry computed)
  · intro refused outcomes heap code after computed
    have geometry := (healthy.faulty outcomes heap).consistent.geometry
    rcases bind_failed computed with failed | ⟨fresh, middle, taken, _⟩
    · exact failed_leakless rfl (sfsBalloc_reverts _ _ _ failed)
    · exact absurd refused (sfsBalloc_takes geometry taken).2

theorem sfsCreat_leaks (loaded : s.vnode? sfsRootLocation = some vnode) {name}
    (absent : s.directory name = none) (granted : ¬ s.Refused) (empty : s.heap 0 = false) (excl : Bool) :
    ∃ after, sfsCreat sfsRootLocation name excl s = some (.error .enomem, after) ∧ ¬ s.Leakless after := by
  obtain ⟨found, searched, covers⟩ := sfsDirFindname_finds healthy.consistent healthy.rooted loaded name
  obtain ⟨after, failed, leaks⟩ := sfsMakeobj_leaks healthy granted empty sfsTypeFile
  have missing : found.entry = none := by
    have report := covers.directory healthy.rooted
    rw [absent] at report
    exact map_eq_none_iff.mp report.symm
  refine ⟨after, ?_, leaks⟩
  unfold sfsCreat
  rw [bind_ok searched, missing]
  exact bind_error failed

/-- A name that is in the directory is found, or the call fails before it allocates anything. -/
theorem sfsCreat_noLeak_iff (loaded : s.vnode? sfsRootLocation = some vnode) (name : CString)
    (excl : Bool) : s.NoLeak (sfsCreat sfsRootLocation name excl) ↔ s.directory name ≠ none ∨ s.Refused := by
  constructor
  · intro noLeak
    by_contra neither
    obtain ⟨absent, granted⟩ := not_or.mp neither
    have without := healthy.reheap fun _ => false
    obtain ⟨after, failed, leaks⟩ := sfsCreat_leaks without loaded (not_not.mp absent) granted rfl excl
    exact leaks (noLeak.elim healthy.consistent.geometry failed)
  · intro either outcomes heap code after computed
    have mended := healthy.faulty outcomes heap
    have looks := sfsDirFindname_looks sfsRootLocation name (s.faulty outcomes heap) trivial
    rcases bind_failed computed with failed | ⟨found, middle, passed, rest⟩
    · obtain ⟨same, _⟩ := looks _ _ failed
      exact failed_leakless (layout_of_mended same) rfl
    obtain ⟨same, _, reads⟩ := looks _ _ passed
    have reached : middle.layout = (s.faulty outcomes heap).layout := layout_of_mended same
    cases entry : found.entry with
    | some pair =>
      rw [entry] at rest
      dsimp only at rest
      split at rest
      · cases rest
        exact leakless_of_layout reached
      · exact failed_leakless reached (sfsLoadvnode_reverts _ _ _ _ _ rest)
    | none =>
      obtain ⟨other, searched, covers⟩ := sfsDirFindname_finds mended.consistent mended.rooted loaded name
      have report := Option.some.inj ((reads found rfl).symm.trans searched)
      cases Except.ok.inj (Prod.mk.inj report).1
      have absent := covers.directory mended.rooted
      rw [entry] at absent
      have refused : s.Refused := either.resolve_left (not_not.mpr absent)
      have denied (fresh : UInt32) (last : Sfs) : sfsBalloc middle ≠ some (.ok fresh, last) := by
        intro taken
        have geometry : middle.mended.Geometry := same ▸ mended.consistent.geometry
        have still : middle.mended.Refused := by
          rw [same]
          exact refused
        exact (sfsBalloc_takes geometry taken).2 still
      rw [entry] at rest
      rcases bind_failed rest with failed | ⟨newguy, _, made, _⟩
      · rcases bind_failed failed with failed | ⟨fresh, last, taken, _⟩
        · exact failed_leakless reached (sfsBalloc_reverts _ _ _ failed)
        · exact absurd taken (denied fresh last)
      · obtain ⟨fresh, last, taken, _⟩ := bind_passed made
        exact absurd taken (denied fresh last)

end

theorem emptyVolume : ∃ s s1 vnode, freshMount 4096 = some s ∧ run sfsStep s [.getroot] = some s1 ∧
    (∃ held, s1.Healthy held) ∧ s1.vnode? sfsRootLocation = some vnode ∧ s1.directory ⟨[102], by decide⟩ = none ∧
    ¬ s1.Refused := by
  have computed : ((freshMount 4096).bind fun s => (run sfsStep s [.getroot]).map fun s1 =>
      ((s1.vnode? sfsRootLocation).isSome, s1.directory ⟨[102], by decide⟩, s1.nospace 0, s1.freemap.isset 3,
        decide (3 < s1.freemap.nbits))) = some (true, none, false, false, true) := by decide +kernel
  obtain ⟨s, mounted, computed⟩ := bind_eq_some_iff.mp computed
  obtain ⟨s1, reached, computed⟩ := map_eq_some_iff.mp computed
  simp only [Prod.mk.injEq] at computed
  obtain ⟨loaded, absent, allowed, free, inside⟩ := computed
  obtain ⟨vnode, loaded⟩ := isSome_iff_exists.mp loaded
  have sound : s1.Sound := run_preserves (fun _ _ _ sound taken => Sfs.Sound.step sound taken)
    ((freshMount_mounted mounted).sound small_roundable) reached
  obtain ⟨held, healthy, _⟩ := sound
  refine ⟨s, s1, vnode, mounted, reached, ⟨held, healthy⟩, loaded, absent, ?_⟩
  rintro (forced | full)
  · cases allowed.symm.trans forced
  · cases free.symm.trans (full 3 (of_decide_eq_true inside))

end Calls

end Os161
