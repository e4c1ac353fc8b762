import Os161.Proofs.DiskFaults
import Os161.Proofs.SfsBookkeeping

/-! A truncation that fails: only the read of the indirect block can, after the direct blocks beyond the new end
were given back. -/

namespace Os161
open Routine

def blocklenOf (len : Int) : UInt32 := u32 ((offT (len + 512 - 1)).tdiv 512)

structure Intact (sv : UInt32) (s after : Sfs) : Prop where
  size : (after.inodeOf sv).size = (s.inodeOf sv).size
  direct : (after.inodeOf sv).direct = (s.inodeOf sv).direct
  indirect : (after.inodeOf sv).indirect = (s.inodeOf sv).indirect
  disk : after.device.sectors = s.device.sectors
  freemap : after.freemap = s.freemap
  marked : ∀ p, s.Marked (s.slot sv p) → after.Marked (after.slot sv p)

/-- The direct blocks among `indices` that are beyond the new end are gone. -/
structure DirectCut (sv blocklen : UInt32) (indices : List (Fin 15)) (s after : Sfs) : Prop where
  device : after.device = s.device
  loaded : ∃ vnode, after.vnode? sv = some vnode
  size : (after.inodeOf sv).size = (s.inodeOf sv).size
  indirect : (after.inodeOf sv).indirect = (s.inodeOf sv).indirect
  direct : ∀ i, i ∈ indices → blocklen.toNat ≤ i → (after.inodeOf sv).direct i = 0
  gone : ∀ i, (s.inodeOf sv).direct i = 0 → (after.inodeOf sv).direct i = 0
  nothing : (∀ i ∈ indices, blocklen.toNat ≤ i → (s.inodeOf sv).direct i = 0) → after = s

section Direct

variable {s : Sfs} {sv blocklen : UInt32} {vnode : SfsVnode}

theorem theVnode_loaded (loaded : s.vnode? sv = some vnode) (post : Except Errno SfsVnode → Sfs → Prop)
    (holds : post (.ok vnode) s) : (theVnode sv).Allows s post := by
  intro result after computed
  cases (theVnode_eq loaded).symm.trans computed
  exact holds

theorem sfsBfree_allows (block : UInt32) : (sfsBfree block).Allows s fun result after =>
    result = .ok () ∧ after.device = s.device ∧ after.vnodes = s.vnodes := by
  unfold sfsBfree onFreemap bitmapUnmark
  simp only [allows_bind, allows_zoom, allows_get, andThenAllows_ok, allows_require, allows_modify, and_self,
    implies_true]

theorem theVnode_missing (missing : s.vnode? sv = none) (post : Except Errno SfsVnode → Sfs → Prop) :
    (theVnode sv).Allows s post := by
  unfold theVnode
  rw [allows_bind, allows_get, andThenAllows_ok, missing]
  exact allows_halt s post

theorem inodeOf_of_vnodes {s' : Sfs} (device : s'.device = s.device) (vnodes : s'.vnodes = s.vnodes) (i : UInt32) :
    s'.inodeOf i = s.inodeOf i := by
  unfold Sfs.inodeOf Sfs.vnode?
  rw [vnodes, device]

theorem truncateDirect_allows (indices : List (Fin 15)) (loaded : s.vnode? sv = some vnode) :
    (truncateDirect sv blocklen indices).Allows s fun result after =>
      result = .ok () ∧ DirectCut sv blocklen indices s after := by
  induction indices generalizing s vnode with
  | nil =>
    simp only [truncateDirect, allows_pure]
    exact ⟨trivial, rfl, ⟨vnode, loaded⟩, rfl, rfl, (by rintro _ ⟨⟩), fun _ => id, fun _ => rfl⟩
  | cons i rest ih =>
    unfold truncateDirect
    rw [allows_bind]
    apply theVnode_loaded loaded
    rw [andThenAllows_ok]
    have here := Sfs.inodeOf_loaded loaded
    dsimp only
    split
    next freed =>
      rw [allows_bind]
      refine (sfsBfree_allows _).mono ?_
      rintro result next ⟨rfl, device, vnodes⟩
      have same := inodeOf_of_vnodes device vnodes sv
      have still : next.vnode? sv = some vnode := by rw [Sfs.vnode?, vnodes]; exact loaded
      have cleared := inodeOf_setInode still (·.setDirect i 0)
      have found := vnode?_setInode (s := next) (i := sv) (·.setDirect i 0) sv
      rw [still, Option.map_some] at found
      refine (ih found).mono ?_
      rintro result after ⟨rfl, cut⟩
      refine ⟨rfl, cut.device.trans device, cut.loaded, ?_, ?_, ?_, ?_, ?_⟩
      · rw [cut.size, cleared, same]
        rfl
      · rw [cut.indirect, cleared, same]
        rfl
      · intro q member beyond
        rcases List.mem_cons.mp member with rfl | later
        · apply cut.gone
          rw [cleared]
          exact Function.update_self _ _ _
        · exact cut.direct q later beyond
      · intro q zero
        apply cut.gone
        rw [cleared, same]
        change Function.update (s.inodeOf sv).direct i 0 q = 0
        by_cases hit : q = i
        · rw [hit, Function.update_self]
        · rw [Function.update_of_ne hit, zero]
      · intro clear
        have zero := clear i (List.mem_cons_self ..) freed.1
        rw [here] at zero
        exact absurd zero freed.2
    next kept =>
      refine (ih loaded).mono ?_
      rintro result after ⟨rfl, cut⟩
      refine ⟨rfl, cut.device, cut.loaded, cut.size, cut.indirect, ?_, cut.gone, ?_⟩
      · intro q member beyond
        rcases List.mem_cons.mp member with rfl | later
        · apply cut.gone
          by_contra nonzero
          rw [here] at nonzero
          exact kept ⟨beyond, nonzero⟩
        · exact cut.direct q later beyond
      · exact fun clear => cut.nothing fun q later => clear q (List.mem_cons_of_mem i later)

end Direct

section Indirect

variable {s : Sfs} {sv blocklen : UInt32} {vnode : SfsVnode}

theorem truncateListed_allows (indices : List (Fin 128)) (idbuf : Words) (iddirty : Bool) :
    (truncateListed blocklen indices idbuf iddirty).Allows s fun result _ => ∃ left, result = .ok left := by
  induction indices generalizing s idbuf iddirty with
  | nil =>
    simp only [truncateListed, allows_pure]
    exact ⟨_, rfl⟩
  | cons j rest ih =>
    unfold truncateListed
    split
    · rw [allows_bind]
      refine (sfsBfree_allows _).mono ?_
      rintro result next ⟨rfl, -, -⟩
      exact ih _ _
    · exact ih _ _

/-- If the part of a truncation behind the direct blocks fails, all it has done is to try to read. -/
theorem truncateIndirect_allows (loaded : s.vnode? sv = some vnode) :
    (truncateIndirect sv blocklen).Allows s fun result after => ∀ code, result = .error code →
      s.device.Passed after.device ∧ after.vnodes = s.vnodes ∧ after.freemap = s.freemap := by
  unfold truncateIndirect
  rw [allows_bind]
  apply theVnode_loaded loaded
  rw [andThenAllows_ok]
  dsimp only
  split
  · unfold onDevice
    rw [allows_bind, allows_zoom]
    refine sfsRblock_allows.mono ?_
    rintro result after ⟨passed, ⟨rfl, -⟩ | rfl⟩
    · exact fun _ _ => ⟨passed, rfl, rfl⟩
    · rw [andThenAllows_ok, allows_bind]
      refine (truncateListed_allows _ _ _).mono ?_
      rintro result next ⟨⟨idbuf, iddirty⟩, rfl⟩
      rw [andThenAllows_ok]
      split
      · rw [allows_bind]
        refine (sfsBfree_allows _).mono ?_
        rintro result freed ⟨rfl, -, -⟩
        exact nofun
      · split
        · rw [allows_zoom]
          refine sfsWblock_allows.mono ?_
          rintro result written ⟨rfl, -⟩
          exact nofun
        · exact nofun
  · exact nofun

theorem sfsTruncate_allows (len : Int) : (sfsTruncate sv len).Allows s fun result after => ∀ code, result = .error code →
    ∃ middle, DirectCut sv (blocklenOf len) (List.finRange 15) s middle ∧ middle.device.Passed after.device ∧
      after.vnodes = middle.vnodes ∧ after.freemap = middle.freemap := by
  unfold sfsTruncate
  rw [allows_bind]
  cases found : s.vnode? sv with
  | none =>
    rw [List.finRange_succ, truncateDirect, allows_bind]
    exact theVnode_missing found _
  | some vnode =>
    refine (truncateDirect_allows _ found).mono ?_
    rintro result middle ⟨rfl, cut⟩
    obtain ⟨vnode, loaded⟩ := cut.loaded
    rw [andThenAllows_ok, allows_bind]
    refine (truncateIndirect_allows loaded).mono ?_
    intro result after outcome
    cases result with
    | error code =>
      obtain ⟨passed, vnodes, freemap⟩ := outcome code rfl
      exact fun _ _ => ⟨middle, cut, passed, vnodes, freemap⟩
    | ok value =>
      exact nofun

end Indirect

/-- A failed truncation has left the file as it was exactly if there was no direct block beyond
the new end. -/
theorem failed_truncation_intact_iff (s after : Sfs) (sv : UInt32) (len : Int) (code : Errno)
    (failed : sfsTruncate sv len s = some (.error code, after)) :
    Intact sv s after ↔ ∀ i : Fin 15, (blocklenOf len).toNat ≤ i → (s.inodeOf sv).direct i = 0 := by
  obtain ⟨middle, cut, passed, vnodes, freemap⟩ := sfsTruncate_allows len _ _ failed code rfl
  have inode : after.inodeOf sv = middle.inodeOf sv := by
    obtain ⟨vnode, loaded⟩ := cut.loaded
    have still : after.vnode? sv = some vnode := by rw [Sfs.vnode?, vnodes]; exact loaded
    rw [Sfs.inodeOf_loaded loaded, Sfs.inodeOf_loaded still]
  constructor
  · intro intact i beyond
    rw [← intact.direct, inode]
    exact cut.direct i (List.mem_finRange i) beyond
  · intro clear
    have same : middle = s := cut.nothing fun i _ => clear i
    rw [same] at inode vnodes freemap passed
    have disk := passed.sectors
    have listed : after.listed sv = s.listed sv := by rw [Sfs.listed, Sfs.listed, inode, disk]
    refine ⟨by rw [inode], by rw [inode], by rw [inode], disk, freemap, fun p marked => ?_⟩
    rw [Sfs.slot_congr (by rw [inode]) listed, Sfs.Marked, freemap]
    exact marked

/-- A file of 16 blocks on a disk of 32 sectors, all of them in use, that has stopped working. -/
def fileOnBadDisk (direct : Fin 15 → UInt32) : Sfs where
  nblocks := 32
  device := ⟨32, fun _ => Block.zeros, fun _ => false⟩
  vnodes := [⟨8, ⟨8192, sfsTypeFile, 1, direct, 24, fun _ => 0⟩, false, 1, 1⟩]
  freemap := ⟨4096, List.replicate 512 0xff⟩
  freemapdirty := false
  nospace := fun _ => false
  heap := fun _ => true

def failureOf {α : Type} (observe : Sfs → α) : Except Errno Unit × Sfs → Option (Errno × α)
  | (.ok _, _) => none
  | (.error code, after) => some (code, observe after)

theorem failureOf_eq_some {α : Type} {observe outcome code}
    {value : α} (seen : outcome.bind (failureOf observe) = some (code, value)) :
    ∃ after, outcome = some (.error code, after) ∧ observe after = value := by
  obtain ⟨⟨result, after⟩, rfl, found⟩ := Option.bind_eq_some_iff.mp seen
  cases result with
  | ok _ => cases found
  | error reason =>
    cases found
    exact ⟨after, rfl, rfl⟩

/-- Where the first 15 blocks are holes, the file keeps what it has. -/
theorem failed_truncation_intact_sparse : ∃ after,
    sfsTruncate 8 0 (fileOnBadDisk fun _ => 0) = some (.error .eio, after) ∧
      Intact 8 (fileOnBadDisk fun _ => 0) after := by
  have computed : (sfsTruncate 8 0 (fileOnBadDisk fun _ => 0)).bind (failureOf fun _ => ()) = some (.eio, ()) := by
    decide +kernel
  obtain ⟨after, failed, -⟩ := failureOf_eq_some computed
  exact ⟨after, failed, (failed_truncation_intact_iff _ after 8 0 .eio failed).mpr fun _ _ => rfl⟩

/-- Cut to nothing, a file without holes has lost its direct blocks and still has its length. -/
theorem failed_truncation_drops_blocks : ∃ after,
    sfsTruncate 8 0 (fileOnBadDisk fun i => UInt32.ofNat (9 + i)) = some (.error .eio, after) ∧
      ¬ Intact 8 (fileOnBadDisk fun i => UInt32.ofNat (9 + i)) after := by
  have computed : (sfsTruncate 8 0 (fileOnBadDisk fun i => UInt32.ofNat (9 + i))).bind
      (failureOf fun after => after.freemap.isset 9) = some (.eio, false) := by decide +kernel
  obtain ⟨after, failed, unmarked⟩ := failureOf_eq_some computed
  refine ⟨after, failed, fun intact => ?_⟩
  rw [intact.freemap] at unmarked
  have marked : (fileOnBadDisk fun i => UInt32.ofNat (9 + i)).freemap.isset 9 = true := by decide +kernel
  cases marked.symm.trans unmarked

end Os161
