import Os161.Lib.Writes
import Os161.SfsSync
import Os161.Proofs.SfsMountMap
import Os161.Proofs.SfsTruncateFaults

/-! A sync that returns 0 takes for written whatever the disk has lost of its writes. -/

namespace Os161
open Routine Writes List

namespace SfsFs

def inodeItems (vnodes : List SfsVnode) : List (UInt32 × Block) :=
  vnodes.map fun vnode => (vnode.ino, vnode.inode.toBlock)

def mapItems (bitdata : List UInt8) (left j : Nat) : List (UInt32 × Block) :=
  (List.range' j left).map fun k => (sfsMapLocation + UInt32.ofNat k, Block.ofList (bitdata.drop (k * 512)))

def bitmapItems (fs : SfsFs) : List (UInt32 × Block) :=
  mapItems fs.sfs.freemap.v (sfsBitblocks fs.sfs.nblocks).toNat 0

def items (fs : SfsFs) : List (UInt32 × Block) :=
  inodeItems fs.sfs.vnodes ++ (fs.bitmapItems ++ [(sfsSbLocation, fs.super)])

def syncWrites (fs : SfsFs) : List (UInt32 × Block) :=
  inodeItems (fs.sfs.vnodes.filter (·.dirty)) ++
    ((if fs.sfs.freemapdirty then fs.bitmapItems else []) ++ if fs.superdirty then [(sfsSbLocation, fs.super)] else [])

/-- No vnode is dirty, and the inodes, the bitmap and the superblock on disk are those in memory. -/
structure Complete (fs : SfsFs) : Prop where
  clean : ∀ vnode ∈ fs.sfs.vnodes, vnode.dirty = false
  inodes : ∀ vnode ∈ fs.sfs.vnodes, fs.sfs.device.sectors vnode.ino = vnode.inode.toBlock
  bitmap : ∀ j < (sfsBitblocks fs.sfs.nblocks).toNat,
    fs.sfs.device.sectors (sfsMapLocation + UInt32.ofNat j) = Block.ofList (fs.sfs.freemap.v.drop (j * 512))
  super : fs.sfs.device.sectors sfsSbLocation = fs.super

structure Apart (fs : SfsFs) : Prop where
  distinct : (fs.items.map Prod.fst).Nodup
  small : ∀ item ∈ fs.items, item.1.toNat < 4194304

end SfsFs

def targets (writes : List (UInt32 × Block)) : List (UInt32 × Block) :=
  writes.map fun write => (sfsSector write.1, write.2)

/-- The disk once the writes have been tried one after the other. -/
structure Lhd.Tried (writes : List (UInt32 × Block)) (lh after : Lhd) : Prop where
  sectors : after.sectors = landed lh.outcomes (targets writes) lh.sectors
  outcomes : after.outcomes = fun n => lh.outcomes (n + writes.length)

section Disk

variable {lh middle after : Lhd} {writes second : List (UInt32 × Block)}

theorem Lhd.Tried.nil (lh : Lhd) : lh.Tried [] lh := ⟨rfl, rfl⟩

theorem Lhd.Tried.append (first : lh.Tried writes middle) (rest : middle.Tried second after) :
    lh.Tried (writes ++ second) after where
  sectors := by
    rw [rest.sectors, first.sectors, first.outcomes, targets, targets, targets, map_append, landed_append,
      length_map]
  outcomes := by
    rw [rest.outcomes, first.outcomes, length_append]
    funext n
    change lh.outcomes (n + second.length + writes.length) = _
    rw [Nat.add_assoc, Nat.add_comm second.length]

theorem sfsWblock_tried (data : Block) (block : UInt32) :
    (sfsWblock data block).Allows lh fun result after => result = .ok () ∧ lh.Tried [(block, data)] after := by
  refine sfsWblock_allows.mono ?_
  rintro result after ⟨rfl, ⟨succeeds, rfl⟩ | ⟨fails, rfl⟩⟩
  · refine ⟨rfl, ?_, rfl⟩
    simp only [targets, map_cons, map_nil, landed, succeeds, if_true]
    rfl
  · refine ⟨rfl, ?_, rfl⟩
    simp only [targets, map_cons, map_nil, landed, fails]
    rfl

theorem sfsMapioWrite_tried (bitdata : List UInt8) (left j : Nat) :
    (sfsMapioWrite bitdata left j).Allows lh fun result after =>
      result = .ok () ∧ lh.Tried (SfsFs.mapItems bitdata left j) after := by
  induction left generalizing j lh with
  | zero =>
    rw [sfsMapioWrite, allows_pure]
    exact ⟨rfl, .nil lh⟩
  | succ left ih =>
    rw [sfsMapioWrite, allows_bind]
    refine (sfsWblock_tried _ _).mono ?_
    rintro result middle ⟨rfl, first⟩
    refine (ih (j + 1)).mono ?_
    rintro result after ⟨rfl, rest⟩
    exact ⟨rfl, first.append rest⟩

end Disk

section Volume

variable {s : Sfs}

def SfsVnode.cleaned (vnode : SfsVnode) : SfsVnode := { vnode with dirty := false }

variable {front rest : List SfsVnode} {vnode : SfsVnode}

theorem ino_apart {other}
    (distinct : ((front ++ vnode :: rest).map (·.ino)).Nodup) (member : other ∈ front ++ rest) : other.ino ≠ vnode.ino := by
  rw [map_append, map_cons, nodup_middle, ← map_append, nodup_cons] at distinct
  intro same
  exact distinct.1 (same ▸ mem_map_of_mem member)

section

variable (vnodes : s.vnodes = front ++ vnode :: rest) (distinct : (s.vnodes.map (·.ino)).Nodup)
include vnodes distinct

theorem setVnode_middle (f : SfsVnode → SfsVnode) :
    s.setVnode vnode.ino f = { s with vnodes := front ++ f vnode :: rest } := by
  rw [vnodes] at distinct
  have kept (others : List SfsVnode) (subset : others ⊆ front ++ rest) :
      others.map (fun other => if other.ino = vnode.ino then f other else other) = others := by
    refine (map_congr_left fun other member => ?_).trans (map_id others)
    exact if_neg (ino_apart distinct (subset member))
  rw [Sfs.setVnode, vnodes, map_append, map_cons, kept front (subset_append_left ..),
    kept rest (subset_append_right ..), if_pos rfl]

theorem sfsSyncInode_tried : (sfsSyncInode vnode.ino).Allows s fun result after => result = .ok () ∧
      s.device.Tried (SfsFs.inodeItems ([vnode].filter (·.dirty))) after.device ∧
      after = { s with vnodes := front ++ vnode.cleaned :: rest, device := after.device } := by
  have found : s.vnode? vnode.ino = some vnode :=
    vnode?_of_mem distinct (by rw [vnodes]; exact mem_append_right _ (mem_cons_self ..))
  unfold sfsSyncInode
  rw [allows_bind]
  apply theVnode_loaded found
  rw [andThenAllows_ok]
  split
  next dirty =>
    unfold onDevice
    rw [allows_bind, allows_zoom]
    refine (sfsWblock_tried _ _).mono ?_
    rintro result device ⟨rfl, tried⟩
    rw [andThenAllows_ok, changeVnode, allows_modify, setVnode_middle (s := { s with device }) vnodes distinct]
    refine ⟨rfl, ?_, rfl⟩
    rw [filter_singleton, dirty]
    exact tried
  next clean =>
    rw [allows_pure]
    have same : vnode.cleaned = vnode := by rw [SfsVnode.cleaned, ← Bool.eq_false_iff.mpr clean]
    refine ⟨rfl, ?_, ?_⟩
    · rw [filter_singleton, Bool.eq_false_iff.mpr clean]
      exact .nil _
    · rw [same, ← vnodes]

end

theorem syncVnodes_tried (rest : List SfsVnode) (vnodes : s.vnodes = front ++ rest)
    (distinct : (s.vnodes.map (·.ino)).Nodup) :
    (syncVnodes (rest.map (·.ino))).Allows s fun result after => result = .ok () ∧
      s.device.Tried (SfsFs.inodeItems (rest.filter (·.dirty))) after.device ∧
      after = { s with vnodes := front ++ rest.map SfsVnode.cleaned, device := after.device } := by
  induction rest generalizing front s with
  | nil =>
    rw [map_nil, syncVnodes, allows_pure]
    exact ⟨rfl, .nil _, by rw [map_nil, ← vnodes]⟩
  | cons vnode rest ih =>
    rw [map_cons, syncVnodes, allows_bind, allows_attempt]
    refine (sfsSyncInode_tried vnodes distinct).mono ?_
    rintro result middle ⟨rfl, first, state⟩
    have moved : middle.vnodes = (front ++ [vnode.cleaned]) ++ rest := by
      rw [state, append_assoc]
      rfl
    have inos : (middle.vnodes.map (·.ino)).Nodup := by
      rw [vnodes, map_append] at distinct
      rw [state, map_append]
      exact distinct
    refine (ih moved inos).mono ?_
    rintro result after ⟨rfl, later, final⟩
    refine ⟨rfl, ?_, ?_⟩
    · have joined := first.append later
      rwa [SfsFs.inodeItems, SfsFs.inodeItems, ← map_append, ← filter_append] at joined
    · rw [final, state, append_assoc]
      rfl

theorem syncFreemap_tried : syncFreemap.Allows s fun result after => result = .ok () ∧
    s.device.Tried (if s.freemapdirty then SfsFs.mapItems s.freemap.v (sfsBitblocks s.nblocks).toNat 0 else [])
      after.device ∧
    after = { s with freemapdirty := false, device := after.device } := by
  unfold syncFreemap
  rw [allows_bind, allows_get, andThenAllows_ok]
  split
  next dirty =>
    unfold onDevice
    rw [allows_bind, allows_zoom]
    refine (sfsMapioWrite_tried _ _ _).mono ?_
    rintro result device ⟨rfl, tried⟩
    rw [andThenAllows_ok, allows_modify]
    exact ⟨rfl, tried, rfl⟩
  next clean =>
    rw [allows_pure, ← Bool.eq_false_iff.mpr clean]
    exact ⟨rfl, .nil _, rfl⟩

end Volume

section Sync

variable {fs : SfsFs}

theorem syncSuper_tried : syncSuper.Allows fs fun result after => result = .ok () ∧
    fs.sfs.device.Tried (if fs.superdirty then [(sfsSbLocation, fs.super)] else []) after.sfs.device ∧
    after = { fs with superdirty := false, sfs := { fs.sfs with device := after.sfs.device } } := by
  unfold syncSuper
  rw [allows_bind, allows_get, andThenAllows_ok]
  split
  next dirty =>
    unfold onVolume onDevice
    rw [allows_bind, allows_zoom, allows_zoom]
    refine (sfsWblock_tried _ _).mono ?_
    rintro result device ⟨rfl, tried⟩
    rw [andThenAllows_ok, allows_modify]
    exact ⟨rfl, tried, rfl⟩
  next clean =>
    rw [allows_pure, ← Bool.eq_false_iff.mpr clean]
    exact ⟨rfl, .nil _, rfl⟩

/-- A sync has tried its writes and taken all of them for done. -/
theorem sfsSync_tried (distinct : (fs.sfs.vnodes.map (·.ino)).Nodup) : sfsSync.Allows fs fun result after =>
    result = .ok () ∧ fs.sfs.device.Tried fs.syncWrites after.sfs.device ∧
      after = { fs with
        superdirty := false
        sfs := { fs.sfs with
          vnodes := fs.sfs.vnodes.map SfsVnode.cleaned
          freemapdirty := false
          device := after.sfs.device } } := by
  unfold sfsSync onVolume
  rw [allows_bind, allows_get, andThenAllows_ok, allows_bind, allows_zoom]
  refine (@syncVnodes_tried _ [] fs.sfs.vnodes rfl distinct).mono ?_
  rintro result synced ⟨rfl, inodes, cleaned⟩
  rw [andThenAllows_ok, allows_bind, allows_zoom]
  refine syncFreemap_tried.mono ?_
  rintro result mapped ⟨rfl, bitmap, unchanged⟩
  refine syncSuper_tried.mono ?_
  rintro result after ⟨rfl, super, final⟩
  refine ⟨rfl, ?_, ?_⟩
  · rw [cleaned] at bitmap
    exact inodes.append (bitmap.append super)
  · rw [final, unchanged, cleaned]
    rfl

def SfsFs.synced (fs : SfsFs) : UInt32 → Block :=
  landed fs.sfs.device.outcomes (targets fs.syncWrites) fs.sfs.device.sectors

theorem SfsFs.complete_iff (clean : ∀ vnode ∈ fs.sfs.vnodes, vnode.dirty = false) :
    fs.Complete ↔ ∀ item ∈ fs.items, fs.sfs.device.sectors item.1 = item.2 := by
  constructor
  · intro complete item member
    rcases mem_append.mp member with inode | rest
    · obtain ⟨vnode, loaded, rfl⟩ := mem_map.mp inode
      exact complete.inodes vnode loaded
    rcases mem_append.mp rest with block | last
    · obtain ⟨j, range, rfl⟩ := mem_map.mp block
      exact complete.bitmap j (by simpa using range)
    · rw [mem_singleton.mp last]
      exact complete.super
  · intro stored
    refine ⟨clean, fun vnode loaded => ?_, fun j inside => ?_, ?_⟩
    · exact stored _ (mem_append_left _ (mem_map_of_mem loaded))
    · apply stored _ (mem_append_right _ (mem_append_left _ (mem_map.mpr ⟨j, ?_, rfl⟩)))
      simpa using inside
    · exact stored _ (mem_append_right _ (mem_append_right _ (mem_singleton_self _)))

theorem SfsFs.syncWrites_sublist (fs : SfsFs) : fs.syncWrites.Sublist fs.items := by
  refine .append (filter_sublist.map _) (.append ?_ ?_)
  · split
    · exact .refl _
    · exact nil_sublist _
  · split
    · exact .refl _
    · exact nil_sublist _

/-- Where nothing shares a block, each thing gets to the disk by its own write or not at all. -/
theorem SfsFs.Apart.synced_iff (apart : fs.Apart) {item} (member : item ∈ fs.items) :
    fs.synced item.1 = item.2 ↔ fs.sfs.device.sectors item.1 = item.2 ∨
      ∃ k, fs.syncWrites[k]? = some item ∧ fs.sfs.device.outcomes k = true := by
  have same : targets fs.syncWrites = fs.syncWrites := by
    refine (map_congr_left fun write written => ?_).trans (map_id _)
    rw [sfsSector_eq (apart.small write (fs.syncWrites_sublist.subset written))]
    rfl
  have distinct : (fs.syncWrites.map Prod.fst).Nodup := apart.distinct.sublist (fs.syncWrites_sublist.map _)
  unfold SfsFs.synced
  rw [same]
  by_cases written : item ∈ fs.syncWrites
  · obtain ⟨k, found⟩ := List.getElem?_of_mem written
    constructor
    · intro stored
      rw [landed_written distinct found] at stored
      by_cases succeeds : fs.sfs.device.outcomes k = true
      · exact Or.inr ⟨k, found, succeeds⟩
      · rw [if_neg succeeds] at stored
        exact Or.inl stored
    · rintro (there | ⟨m, here, succeeds⟩)
      · rw [landed_written distinct found]
        split
        · rfl
        · exact there
      · rw [landed_written distinct here, if_pos succeeds]
  · have elsewhere : item.1 ∉ fs.syncWrites.map Prod.fst := by
      intro target
      obtain ⟨write, listed, place⟩ := mem_map.mp target
      have equal := inj_on_of_nodup_map apart.distinct (fs.syncWrites_sublist.subset listed) member place
      exact written (equal ▸ listed)
    rw [landed_other elsewhere]
    constructor
    · exact Or.inl
    · rintro (there | ⟨k, here, -⟩)
      · exact there
      · exact absurd (mem_of_getElem? here) written

theorem sfsSync_clean {fs : SfsFs} (distinct : (fs.sfs.vnodes.map (·.ino)).Nodup)
    (clean : ∀ vnode ∈ fs.sfs.vnodes, vnode.dirty = false) (bitmap : fs.sfs.freemapdirty = false)
    (super : fs.superdirty = false) : sfsSync fs = some (.ok (), fs) := by
  have loop {rest : List SfsVnode} (loaded : rest ⊆ fs.sfs.vnodes) :
      syncVnodes (rest.map (·.ino)) fs.sfs = some (.ok (), fs.sfs) := by
    induction rest with
    | nil => rfl
    | cons vnode rest ih =>
      obtain ⟨here, later⟩ := cons_subset.mp loaded
      have nothing : sfsSyncInode vnode.ino fs.sfs = some (.ok (), fs.sfs) := by
        rw [sfsSyncInode, bind_ok (theVnode_eq (vnode?_of_mem distinct here)), clean vnode here]
        rfl
      rw [map_cons, syncVnodes, bind_ok (attempt_eq nothing)]
      exact ih later
  have vnodes : onVolume (syncVnodes (fs.sfs.vnodes.map (·.ino))) fs = some (.ok (), fs) := by
    rw [onVolume, zoom, loop (Subset.refl _)]
    rfl
  have freemap : onVolume syncFreemap fs = some (.ok (), fs) := by
    rw [onVolume, zoom, syncFreemap, bind_ok rfl, bitmap]
    rfl
  rw [sfsSync, bind_ok rfl, bind_ok vnodes, bind_ok freemap, syncSuper, bind_ok rfl, super]
  rfl

end Sync

/-- A sync that returns 0 is complete exactly if the writes not lost have brought everything there; where nothing
shares a block: each thing was on disk already or its own write succeeded. -/
theorem sync_complete_iff (fs after : SfsFs) (loadedOnce : (fs.sfs.vnodes.map (·.ino)).Nodup)
    (done : sfsSync fs = some (.ok (), after)) :
    (after.Complete ↔ ∀ item ∈ fs.items, fs.synced item.1 = item.2) ∧
      (fs.Apart → ∀ item ∈ fs.items, (fs.synced item.1 = item.2 ↔ fs.sfs.device.sectors item.1 = item.2 ∨
        ∃ k, fs.syncWrites[k]? = some item ∧ fs.sfs.device.outcomes k = true)) := by
  obtain ⟨-, tried, final⟩ := sfsSync_tried loadedOnce _ _ done
  refine ⟨?_, fun apart item member => apart.synced_iff member⟩
  have clean : ∀ vnode ∈ after.sfs.vnodes, vnode.dirty = false := by
    rw [final]
    intro vnode member
    obtain ⟨old, -, rfl⟩ := mem_map.mp member
    rfl
  have items : after.items = fs.items := by
    rw [final, SfsFs.items, SfsFs.items, SfsFs.inodeItems, map_map]
    rfl
  rw [SfsFs.complete_iff clean, items, tried.sectors]
  rfl

/-- A volume name without an end in its 32 bytes: the superblock in memory differs from the mount on, and a sync
with nothing to write leaves it so. -/
theorem open_name_never_written {nospace heap disk after s}
    (mounted : sfsDomount nospace heap disk = some (.ok s, after)) (open_ : disk.sectors sfsSbLocation 39 ≠ 0) :
    sfsSync (mountedFs disk s) = some (.ok (), mountedFs disk s) ∧ ¬ (mountedFs disk s).Complete := by
  obtain ⟨-, passed, vnodes, clean⟩ := sfsDomount_allows nospace heap disk _ _ mounted s rfl
  constructor
  · apply sfsSync_clean <;> simp [mountedFs, vnodes, clean]
  · intro complete
    have same : s.device.sectors sfsSbLocation = Function.update (disk.sectors sfsSbLocation) 39 0 := complete.super
    have byte := congrFun same 39
    rw [passed.sectors, Function.update_self] at byte
    exact open_ byte

def oneDirtyInode (outcomes : Nat → Bool) : SfsFs where
  sfs := {
    nblocks := 4096
    device := {
      dBlocks := 4096
      sectors := fun sector =>
        if sector = sfsSbLocation then superBlock ⟨[118], letter_ends⟩ 4096
        else if sector = sfsMapLocation then Block.ofList (7 :: 1 :: List.replicate 510 0)
        else Block.zeros
      outcomes }
    vnodes := [⟨8, ⟨64, sfsTypeFile, 1, fun _ => 0, 0, fun _ => 0⟩, true, 1, 1⟩]
    freemap := ⟨4096, 7 :: 1 :: List.replicate 510 0⟩
    freemapdirty := false
    nospace := fun _ => false
    heap := fun _ => true }
  super := superBlock ⟨[118], letter_ends⟩ 4096
  superdirty := false

theorem oneDirtyInode_items (outcomes : Nat → Bool) : (oneDirtyInode outcomes).items =
    [(8, (SfsInode.mk 64 sfsTypeFile 1 (fun _ => 0) 0 fun _ => 0).toBlock),
      (2, Block.ofList (7 :: 1 :: List.replicate 510 0)), (0, superBlock ⟨[118], letter_ends⟩ 4096)] := by
  have count : (sfsBitblocks 4096).toNat = 1 := by decide
  rw [SfsFs.items, SfsFs.bitmapItems, show (oneDirtyInode outcomes).sfs.nblocks = 4096 from rfl, count]
  rfl

theorem oneDirtyInode_syncs {outcomes}
    (succeeds : ((sfsSync (oneDirtyInode outcomes)).bind (·.1.toOption)).isSome = true) :
    ∃ after, sfsSync (oneDirtyInode outcomes) = some (.ok (), after) := by
  obtain ⟨_, found⟩ := Option.isSome_iff_exists.mp succeeds
  exact Routine.ok_of_toOption found

theorem sync_complete_one_inode : ∃ after, sfsSync (oneDirtyInode fun _ => true) = some (.ok (), after) ∧
    after.Complete := by
  obtain ⟨after, done⟩ := @oneDirtyInode_syncs (fun _ => true) (by decide +kernel)
  have complete := sync_complete_iff (oneDirtyInode fun _ => true) after (nodup_singleton 8) done
  refine ⟨after, done, complete.1.mpr ?_⟩
  rw [oneDirtyInode_items]
  simp only [forall_mem_cons]
  exact ⟨rfl, rfl, rfl, nofun⟩

/-- After one media error the sync reports success while the old inode is still on disk. -/
theorem sync_loses_inode : ∃ after, sfsSync (oneDirtyInode (· ≠ 0)) = some (.ok (), after) ∧ ¬ after.Complete := by
  obtain ⟨after, done⟩ := @oneDirtyInode_syncs (· ≠ 0) (by decide +kernel)
  obtain ⟨-, tried, final⟩ := @sfsSync_tried (oneDirtyInode (· ≠ 0)) (nodup_singleton 8) _ _ done
  refine ⟨after, done, fun complete => ?_⟩
  have stored := complete.inodes
  rw [final] at stored
  have inode := stored _ (mem_singleton_self _)
  rw [tried.sectors] at inode
  have byte := congrFun inode 3
  have differs : (0 : UInt8) = 64 := byte
  cases differs

/-- What a sync has lost stays lost: once it has returned 0, another one touches neither memory nor the disk. -/
theorem sync_again_writes_nothing (fs after : SfsFs) (loadedOnce : (fs.sfs.vnodes.map (·.ino)).Nodup)
    (done : sfsSync fs = some (.ok (), after)) : sfsSync after = some (.ok (), after) := by
  obtain ⟨-, -, final⟩ := sfsSync_tried loadedOnce _ _ done
  apply sfsSync_clean <;> rw [final]
  · rw [map_map]
    exact loadedOnce
  · intro vnode member
    obtain ⟨old, -, rfl⟩ := mem_map.mp member
    rfl

theorem sync_again_one_inode : ∃ after, sfsSync (oneDirtyInode (· ≠ 0)) = some (.ok (), after) ∧
    sfsSync after = some (.ok (), after) := by
  obtain ⟨after, done⟩ := @oneDirtyInode_syncs (· ≠ 0) (by decide +kernel)
  exact ⟨after, done, sync_again_writes_nothing (oneDirtyInode (· ≠ 0)) after (nodup_singleton 8) done⟩

end Os161
