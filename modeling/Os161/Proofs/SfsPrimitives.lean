import Os161.SfsVnode
import Os161.Proofs.BitmapBits
import Os161.Proofs.DiskRetry
import Mathlib.Data.List.Nodup

/-! The primitives on a volume whose device does not fail: each is one explicit change of the state. -/

namespace Os161
open Routine List

variable {value : Int} {lh : Lhd}

theorem offT_small (low : -2 ^ 31 ≤ value) (high : value < 2 ^ 31) : offT value = value := by
  unfold offT Int.bmod
  simp only [Nat.reducePow]
  split <;> omega

theorem u32_small (low : 0 ≤ value) (high : value < 2 ^ 32) : (u32 value).toNat = value.toNat := by
  unfold u32
  rw [UInt32.toNat_ofNat', Int.emod_eq_of_lt low high, Nat.mod_eq_of_lt]
  omega

theorem u32_natCast (value : UInt32) : u32 value.toNat = value := by
  apply UInt32.toNat_inj.mp
  have bound := value.toNat_lt
  rw [u32_small (by omega) (by omega), Int.toNat_natCast]

theorem sfsSector_eq {block} (small : block.toNat < 4194304) : sfsSector block = block := by
  have exact_ : offT (block.toNat * 512) = block.toNat * 512 := offT_small (by omega) (by omega)
  rw [sfsSector, exact_, Int.mul_tdiv_cancel _ (by decide), u32_natCast]

theorem Lhd.tick_eq (works : lh.outcomes = fun _ => true) : lh.tick = lh := by
  obtain ⟨dBlocks, sectors, outcomes⟩ := lh
  subst works
  rfl

theorem sfsRblock_first {data block} (inside : sfsSector block < lh.dBlocks)
    (succeeds : lh.outcomes 0 = true) : sfsRblock data block lh = some (.ok (lh.sectors (sfsSector block)), lh.tick) := by
  rw [← sfsuio_sector data block .read] at inside ⊢
  obtain ⟨result, ⟨disk, uio⟩, computed, outcome⟩ := lhdIo_read rfl (sfsuio_oneSector data block .read) inside
  rcases outcome with ⟨_, _, user, _⟩ | ⟨failed, _⟩ | ⟨_, rfl, rfl, moves⟩
  · exact absurd (sfsuio_segflg data block .read) user
  · cases succeeds.symm.trans failed
  · have full := Block.length_toList (lh.sectors (sfsuio data block .read).sector)
    have nothing : uio.rest = [] := by
      rw [moves.rest]
      apply drop_of_length_le
      rw [sfsuio_rest, Block.length_toList, full]
    have filled : uio.moved = (lh.sectors (sfsuio data block .read).sector).toList := moves.moved
    have transferred : sfsRwblock (lh, sfsuio data block .read) = some (.ok (), (lh.tick, uio)) := pass_done computed
    unfold sfsRblock
    rw [bind_ok (withLocal_eq transferred)]
    change some (Except.ok (Block.ofList (uio.moved ++ uio.rest)), lh.tick) = _
    rw [nothing, filled, append_nil, Block.ofList_toList]

namespace Sfs

/-- The device works and has all the blocks of the volume, and the bitmap has a bit for each. -/
structure Geometry (s : Sfs) : Prop where
  works : s.device.outcomes = fun _ => true
  disk : s.nblocks ≤ s.device.dBlocks
  sized : s.freemap.Sized
  bits : s.nblocks ≤ s.freemap.nbits

def Marked (s : Sfs) (block : UInt32) : Prop := s.freemap.isset block = true

def store (s : Sfs) (block : UInt32) (data : Block) : Sfs := { s with device := s.device.store block data }

def refuse (s : Sfs) : Sfs := { s with nospace := fun n => s.nospace (n + 1) }

def grab (s : Sfs) (block : UInt32) : Sfs :=
  { s with
    nospace := fun n => s.nospace (n + 1)
    freemap := s.freemap.mark block
    freemapdirty := true
    device := s.device.store block Block.zeros }

def release (s : Sfs) (block : UInt32) : Sfs := { s with freemap := s.freemap.unmark block, freemapdirty := true }

def setInode (s : Sfs) (sv : UInt32) (f : SfsInode → SfsInode) : Sfs :=
  s.setVnode sv fun vnode => { vnode with inode := f vnode.inode, dirty := true }

end Sfs

section Vnodes

variable {s : Sfs} {i : UInt32} {vnode : SfsVnode} {f : SfsVnode → SfsVnode}

theorem theVnode_eq (loaded : s.vnode? i = some vnode) : theVnode i s = some (.ok vnode, s) := by
  unfold theVnode
  rw [bind_ok rfl, loaded]
  rfl

theorem vnode?_ino (loaded : s.vnode? i = some vnode) : vnode.ino = i := by
  have found := List.find?_some loaded
  exact of_decide_eq_true found

theorem vnode?_mem (loaded : s.vnode? i = some vnode) : vnode ∈ s.vnodes :=
  mem_of_find?_eq_some loaded

theorem vnode?_of_mem (distinct : (s.vnodes.map (·.ino)).Nodup) (member : vnode ∈ s.vnodes) :
    s.vnode? vnode.ino = some vnode := by
  cases found : s.vnode? vnode.ino with
  | none =>
    have missing := List.find?_eq_none.mp found vnode member
    exact absurd (decide_eq_true rfl) missing
  | some other =>
    have same := inj_on_of_nodup_map distinct (vnode?_mem found) member (vnode?_ino found)
    rw [same]

theorem vnode?_eq_none : s.vnode? i = none ↔ i ∉ s.vnodes.map (·.ino) := by
  rw [Sfs.vnode?, List.find?_eq_none]
  simp only [decide_eq_true_iff, mem_map, not_exists, not_and]

theorem vnode?_setVnode (keeps : ∀ vnode, (f vnode).ino = vnode.ino) (j : UInt32) :
    (s.setVnode i f).vnode? j = (s.vnode? j).map fun vnode => if j = i then f vnode else vnode := by
  unfold Sfs.vnode? Sfs.setVnode
  rw [List.find?_map]
  have same : ((fun vnode : SfsVnode => decide (vnode.ino = j)) ∘ fun vnode => if vnode.ino = i then f vnode else vnode) =
      fun vnode => decide (vnode.ino = j) := by
    funext vnode
    simp only [Function.comp]
    split <;> simp only [keeps]
  rw [same]
  cases found : s.vnodes.find? (fun vnode => decide (vnode.ino = j)) with
  | none => rfl
  | some vnode =>
    have ino : vnode.ino = j := vnode?_ino found
    simp only [Option.map_some, ino]

theorem inos_setVnode (keeps : ∀ vnode, (f vnode).ino = vnode.ino) :
    (s.setVnode i f).vnodes.map (·.ino) = s.vnodes.map (·.ino) := by
  unfold Sfs.setVnode
  rw [map_map]
  apply map_congr_left
  intro vnode _
  simp only [Function.comp]
  split <;> simp only [keeps]

theorem vnode?_setInode (f : SfsInode → SfsInode) (j : UInt32) :
    (s.setInode i f).vnode? j =
      (s.vnode? j).map fun vnode => if j = i then { vnode with inode := f vnode.inode, dirty := true } else vnode :=
  vnode?_setVnode (f := fun vnode => { vnode with inode := f vnode.inode, dirty := true }) (fun _ => rfl) j

theorem changeInode_eq (f : SfsInode → SfsInode) : changeInode i f s = some (.ok (), s.setInode i f) := rfl

theorem changeVnode_eq (f : SfsVnode → SfsVnode) : changeVnode i f s = some (.ok (), s.setVnode i f) := rfl

end Vnodes

section Geometry

variable {s : Sfs} {block : UInt32}

section

variable (geometry : s.Geometry)
include geometry

section

variable (inside : block < s.nblocks)
include inside

theorem Sfs.Geometry.small : block.toNat < 131072 := by
  have bits := geometry.bits
  have bound := geometry.sized.small
  rw [UInt32.lt_iff_toNat_lt] at inside
  rw [UInt32.le_iff_toNat_le] at bits
  omega

theorem Sfs.Geometry.sector : sfsSector block = block ∧ sfsSector block < s.device.dBlocks := by
  have small := geometry.small inside
  have same := sfsSector_eq (Nat.lt_trans small (by decide))
  refine ⟨same, ?_⟩
  rw [same]
  exact UInt32.lt_of_lt_of_le inside geometry.disk

theorem Sfs.Geometry.word : block.toNat / 8 < s.freemap.v.length :=
  geometry.sized.padded.inside (UInt32.lt_of_lt_of_le inside geometry.bits)

theorem rblock_eq (data : Block) : onDevice (sfsRblock data block) s = some (.ok (s.device.sectors block), s) := by
  obtain ⟨same, range⟩ := geometry.sector inside
  unfold onDevice zoom
  rw [sfsRblock_first range (by rw [geometry.works]), Lhd.tick_eq geometry.works, same]
  rfl

theorem wblock_eq (data : Block) : onDevice (sfsWblock data block) s = some (.ok (), s.store block data) := by
  obtain ⟨same, range⟩ := geometry.sector inside
  unfold onDevice zoom
  rw [sfsWblock_stores range (by rw [geometry.works]), Lhd.tick_eq geometry.works, same]
  rfl

end

theorem Sfs.Geometry.store (block : UInt32) (data : Block) : (s.store block data).Geometry :=
  ⟨geometry.works, geometry.disk, geometry.sized, geometry.bits⟩

theorem Sfs.Geometry.grab (block : UInt32) : (s.grab block).Geometry :=
  ⟨geometry.works, geometry.disk, geometry.sized.setWord _ _, geometry.bits⟩

theorem Sfs.Geometry.release (block : UInt32) : (s.release block).Geometry :=
  ⟨geometry.works, geometry.disk, geometry.sized.setWord _ _, geometry.bits⟩

theorem marked_grab (inside : block < s.nblocks) (other : UInt32) :
    (s.grab block).Marked other ↔ s.Marked other ∨ other = block :=
  Bitmap.isset_mark (geometry.word inside) other

theorem marked_release (inside : block < s.nblocks) (other : UInt32) :
    (s.release block).Marked other ↔ s.Marked other ∧ other ≠ block :=
  Bitmap.isset_unmark (geometry.word inside) other

end

theorem sfsBused_eq (inside : block < s.nblocks) (marked : s.Marked block) :
    sfsBused block s = some (.ok true, s) := by
  unfold sfsBused
  rw [bind_ok rfl, bind_ok (require_pos inside), marked]
  rfl

theorem sfsBfree_eq (geometry : s.Geometry) (marked : s.Marked block) :
    sfsBfree block s = some (.ok (), s.release block) := by
  unfold sfsBfree onFreemap
  have freed : (bitmapUnmark block).zoom Sfs.freemap (fun freemap sfs => { sfs with freemap }) s =
      some (.ok (), { s with freemap := s.freemap.unmark block }) := by
    unfold zoom
    rw [bitmapUnmark_eq (geometry.sized.isset_range marked) marked]
    rfl
  rw [bind_ok freed]
  rfl

/-- The blocks beyond the end of the volume are never handed out. -/
def Sfs.Spare (s : Sfs) : Prop := ∀ block, s.nblocks ≤ block → block < s.freemap.nbits → s.Marked block

theorem sfsBalloc_ensures (geometry : s.Geometry) (spare : s.Spare) :
    sfsBalloc.Ensures s fun result after =>
      (result = .error .enospc ∧ after = s.refuse ∧
        (s.nospace 0 = true ∨ ∀ block < s.freemap.nbits, s.Marked block)) ∨
      ∃ block, result = .ok block ∧ block < s.nblocks ∧ ¬ s.Marked block ∧ after = s.grab block := by
  unfold sfsBalloc sfsBitmapAlloc
  simp only [ensures_bind, ensures_get, after_ok, ensures_modify]
  split
  next forced =>
    simp only [ensures_fail, after_error]
    exact Or.inl ⟨trivial, rfl, Or.inl forced⟩
  · unfold onFreemap
    rw [ensures_zoom]
    apply (bitmapAlloc_ensures geometry.sized.padded).mono
    intro result after outcome
    rcases outcome with ⟨rfl, rfl, full⟩ | ⟨block, rfl, range, clear, rfl, -⟩
    · exact Or.inl ⟨rfl, rfl, Or.inr fun block range => full block range (Nat.zero_le _)⟩
    · have free : ¬ s.Marked block := by
        rw [Sfs.Marked, clear]
        exact Bool.false_ne_true
      have inside : block < s.nblocks := by
        by_contra beyond
        exact free (spare block (UInt32.not_lt.mp beyond) range)
      simp only [after_ok, ensures_bind, ensures_modify, ensures_get, ensures_require]
      refine ⟨inside, ?_⟩
      have marked : Sfs.Geometry { s with
          nospace := fun n => s.nospace (n + 1), freemap := s.freemap.mark block, freemapdirty := true } :=
        ⟨geometry.works, geometry.disk, geometry.sized.setWord _ _, geometry.bits⟩
      refine .of_eq (wblock_eq marked inside Block.zeros) ?_
      simp only [after_ok, ensures_pure]
      exact Or.inr ⟨block, rfl, inside, free, rfl⟩

end Geometry

end Os161
