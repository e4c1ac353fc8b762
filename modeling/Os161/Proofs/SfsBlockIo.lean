import Os161.Proofs.SfsFileIo
import Mathlib.Data.List.OfFn

/-! The two transfers of `sfs_io` that touch one block. -/

namespace Os161
open Routine Contents List

section Zoom

variable {α : Type} {s : Sfs} {uio : Uio} {post : Except Errno α → Sfs × Uio → Prop}

theorem ensures_onSfs {routine} :
    (onSfs routine).Ensures (s, uio) post ↔ routine.Ensures s fun result after => post result (after, uio) :=
  ensures_zoom _ _ _ _ _

theorem ensures_onUio {routine} :
    (onUio routine).Ensures (s, uio) post ↔ routine.Ensures uio fun result after => post result (s, after) :=
  ensures_zoom _ _ _ _ _

end Zoom

theorem Block.toList_zeros : Block.zeros.toList = List.replicate 512 0 := by
  rw [Block.toList_eq]
  exact ofFn_const 512 0

theorem written_part {live held : UInt32 → Prop} {i s vnode p k data}
    (before : s.Consistent live held) (loaded : s.vnode? i = some vnode) (present : s.slot i p ≠ 0)
    (within : k + data.length ≤ 512) :
    Written live held i (p * 512 + k) data s
      (s.store (s.slot i p)
        (Block.ofList ((s.fileBlock i p).toList.take k ++ data ++ (s.fileBlock i p).toList.drop (k + data.length)))) := by
  have stored := written_store before loaded present
    (Block.ofList ((s.fileBlock i p).toList.take k ++ data ++ (s.fileBlock i p).toList.drop (k + data.length)))
  refine ⟨stored.step, stored.consistent, stored.filled, ?_, stored.size, stored.type, stored.linkcount⟩
  rw [stored.bytes, Block.toList_ofList, fileBlock_toList, patch_refill within]
  simp only [length_append, length_take, length_drop, Block.length_toList]
  omega

section Partial

variable {live held : UInt32 → Prop} {i : UInt32} {s : Sfs} {vnode : SfsVnode} {uio : Uio} {skip len : UInt32}

theorem fileBlock_part (inside : uio.position % 512 = skip.toNat) (within : skip.toNat + len.toNat ≤ 512) :
    ((s.fileBlock i (uio.position / 512)).toList.drop skip.toNat).take len.toNat =
      window (s.byte i) uio.position len.toNat := by
  have position : uio.position / 512 * 512 + skip.toNat = uio.position := by omega
  rw [fileBlock_toList, window_drop (by omega), window_take (by omega), position]

theorem part_fits (within : skip.toNat + len.toNat ≤ 512) : skip + len ≤ 512 := by
  have bound : (512 : UInt32).toNat = 512 := rfl
  rw [UInt32.le_iff_toNat_le, UInt32.toNat_add, bound]
  omega

variable (before : s.Consistent live held) (loaded : s.vnode? i = some vnode) (fits : uio.Fits)
  (inside : uio.position % 512 = skip.toNat) (within : skip.toNat + len.toNat ≤ 512) (asked : len.toNat ≤ uio.resid)
include before loaded fits inside within asked

theorem sfsPartialio_read (direction : uio.rw = .read) :
    (sfsPartialio i skip len).Ensures (s, uio) (Gets i s uio len.toNat) := by
  have isLive := before.isLive loaded
  have position := fits.position_eq
  unfold sfsPartialio
  simp only [ensures_bind, ensures_get, after_ok, ensures_require, direction, ensures_onSfs, reduceCtorEq, decide_false]
  refine ⟨part_fits within, .of_eq (sfsBmap_read before loaded _) ?_⟩
  rw [fits.fileblock]
  split
  · next small =>
    rw [after_ok, ensures_bind, ensures_onSfs]
    refine .of_eq (partialBuffer_eq before isLive .read fun _ => rfl) ?_
    rw [after_ok, ensures_bind, ensures_onUio, fileBlock_part inside within]
    apply (uiomove_carries fits _ (by rw [window_length]; exact asked) (by rw [window_length]; omega)).mono
    intro result next outcome
    rcases outcome with ⟨rfl, user, carries⟩ | ⟨rfl, carries, _⟩
    · exact ⟨rfl, carries.rw.trans direction, Or.inl ⟨_, rfl, Or.inl user⟩⟩
    · rw [after_ok]
      simp only [ensures_pure]
      have delivered : uio.payload (window (s.byte i) uio.position len.toNat) = window (s.byte i) uio.position len.toNat := by
        simp only [Uio.payload, direction]
      rw [delivered] at carries
      have offset := carries.offset
      rw [window_length] at offset
      exact ⟨rfl, carries.rw.trans direction, Or.inr ⟨rfl, carries, carries.fits fits (by omega), Or.inr (by omega)⟩⟩
  next far => exact ⟨rfl, direction, Or.inl ⟨_, rfl, Or.inr (Or.inl (by omega))⟩⟩

theorem sfsPartialio_write (direction : uio.rw = .write) :
    (sfsPartialio i skip len).Ensures (s, uio) (Puts live held i s uio len.toNat) := by
  have isLive := before.isLive loaded
  have position := fits.position_eq
  unfold sfsPartialio
  simp only [ensures_bind, ensures_get, after_ok, ensures_require, direction, ensures_onSfs, decide_true]
  refine ⟨part_fits within, (sfsBmap_alloc before loaded _).mono ?_⟩
  rw [fits.fileblock]
  rintro result s' (⟨far, rfl, rfl⟩ | ⟨small, kept, ⟨rfl, hole⟩ | ⟨block, rfl, present, slot⟩⟩)
  · exact puts_nothing (Kept.refl before) (Uio.Carries.refl uio) fits .einval (Or.inl (Or.inr (Or.inl far)))
  · exact puts_nothing kept (Uio.Carries.refl uio) fits .enospc (Or.inr ⟨_, hole, Or.inl rfl⟩)
  · obtain ⟨vnode', still⟩ := kept.step.loaded loaded
    subst slot
    rw [after_ok, ensures_bind, ensures_onSfs]
    refine .of_eq (partialBuffer_eq kept.consistent isLive .write (fun hole => absurd hole present)) ?_
    rw [after_ok, ensures_bind, ensures_onUio, fileBlock_part inside within]
    apply (uiomove_carries fits _ (by rw [window_length]; exact asked) (by rw [window_length]; omega)).mono
    intro result next outcome
    rcases outcome with ⟨rfl, user, carries⟩ | ⟨rfl, carries, rest⟩
    · exact puts_nothing kept carries fits .efault (Or.inl (Or.inl user))
    · have enough : (window (s'.byte i) uio.position len.toNat).length ≤ uio.rest.length := by
        rw [window_length]
        exact Nat.le_trans asked fits.buffer
      have length := uio.payload_length enough
      have taken : uio.payload (window (s'.byte i) uio.position len.toNat) = uio.rest.take len.toNat := by
        simp only [Uio.payload, direction, window_length]
      rw [window_length] at length rest
      rw [taken] at length carries ⊢
      have offset := carries.offset
      simp only [after_ok, ensures_onSfs]
      have owns : s'.Owns live (.data i (uio.position / 512)) (s'.slot i (uio.position / 512)) := ⟨isLive, present, rfl⟩
      refine .of_eq (wblock_eq kept.consistent.geometry (kept.consistent.inside owns) _) ?_
      refine ⟨uio.rest.take len.toNat, by rw [length], carries, carries.fits fits (by omega), Or.inr (by omega), ?_, length,
        rest⟩
      have position : uio.position = uio.position / 512 * 512 + skip.toNat := by omega
      have stored := @written_part _ _ _ _ _ _ skip.toNat (uio.rest.take len.toNat) kept.consistent still present (by omega)
      rw [length, ← position] at stored
      exact kept.andWritten stored

end Partial

def Uio.aim (uio : Uio) (diskoff : Int) : Uio := { uio with offset := diskoff, resid := sfsBlocksize }

/-- The uio with its own position and residue, updated by the amount of I/O done. -/
def Uio.restore (uio : Uio) (diskoff saveoff : Int) (saveres : Nat) : Uio :=
  { uio with
    offset := offT (offT (uio.offset - diskoff) + saveoff)
    resid := (sizeSub uio.resid sfsBlocksize + saveres) % 2 ^ 32 }

section Restore

variable {uio after : Uio} {diskoff : Int} (fits : uio.Fits)
include fits

theorem restore_stays (stays : (uio.aim diskoff).Stays after) :
    uio.Carries (after.restore diskoff uio.offset uio.resid) [] := by
  have first := fits.low
  have last := fits.high
  have size := fits.size
  have offset : after.offset = diskoff := stays.offset
  have resid : after.resid = 512 := stays.resid
  constructor
  · rw [append_nil]
    exact stays.moved
  · simp only [Uio.restore, resid, sizeSub, sfsBlocksize, length_nil]
    omega
  · have done : offT (diskoff - diskoff) = 0 := by rw [Int.sub_self]; rfl
    simp only [Uio.restore, offset, done, length_nil]
    rw [offT_small (by omega) (by omega)]
    omega
  · exact stays.length
  · exact stays.rw
  · exact stays.segflg

theorem restore_moves {data} (low : 0 ≤ diskoff) (high : diskoff < 2 ^ 30) (full : data.length = 512) (asked : 512 ≤ uio.resid)
    (room : uio.offset + 512 < 2 ^ 31) (moves : (uio.aim diskoff).Moves after data) :
    uio.Carries (after.restore diskoff uio.offset uio.resid) data := by
  have first := fits.low
  have size := fits.size
  have buffer := fits.buffer
  have offset : after.offset = offT (diskoff + data.length) := moves.offset
  have resid : after.resid = sizeSub 512 data.length := moves.resid
  have rest : after.rest = uio.rest.drop data.length := moves.rest
  constructor
  · exact moves.moved
  · simp only [Uio.restore, resid, sizeSub, sfsBlocksize, full]
    omega
  · rw [offT_small (by omega) (by omega)] at offset
    have done : offT (after.offset - diskoff) = 512 := by
      rw [offset, offT_small (by omega) (by omega)]
      omega
    simp only [Uio.restore, done, full]
    rw [offT_small (by omega) (by omega)]
    omega
  · simp only [Uio.restore, rest, length_drop, full]
    omega
  · exact moves.rw
  · exact moves.segflg

end Restore

section Aim

variable {s : Sfs} {block : UInt32} {uio : Uio}

theorem aim_offset (geometry : s.Geometry) (inside : block < s.nblocks) :
    offT (block * 512).toNat = block.toNat * 512 := by
  have small := geometry.small inside
  have product : (block * 512).toNat = block.toNat * 512 := by
    have factor : (512 : UInt32).toNat = 512 := rfl
    rw [UInt32.toNat_mul, factor, Nat.mod_eq_of_lt (by omega)]
  rw [product, offT_small (by omega) (by omega)]
  rfl

theorem aim_sector : (uio.aim (block.toNat * 512)).sector = block := by
  have offset : (uio.aim (block.toNat * 512)).offset = block.toNat * 512 := rfl
  rw [Uio.sector, offset, Int.mul_tdiv_cancel _ (by decide), u32_natCast]

theorem aim_oneSector (enough : 512 ≤ uio.rest.length) : (uio.aim (block.toNat * 512)).OneSector := by
  refine ⟨?_, rfl, enough⟩
  have offset : (uio.aim (block.toNat * 512)).offset = block.toNat * 512 := rfl
  rw [offset, Int.mul_tmod_left]
  rfl

variable (geometry : s.Geometry) (inside : block < s.nblocks) (one : uio.OneSector) (sector : uio.sector = block)
include geometry inside one sector

theorem rwblock_write (direction : uio.rw = .write) :
    (onTransfer sfsRwblock).Ensures (s, uio) fun result next =>
      (result = .error .efault ∧ uio.segflg ≠ .sysspace ∧ next.1 = s ∧ uio.Stays next.2) ∨
      (result = .ok () ∧ next.1 = s.store block (Block.ofList (uio.rest.take 512)) ∧
        uio.Moves next.2 (uio.rest.take 512)) := by
  have range : uio.sector < s.device.dBlocks := by
    rw [sector]
    exact UInt32.lt_of_lt_of_le inside geometry.disk
  have tick := Lhd.tick_eq geometry.works
  unfold onTransfer
  rw [ensures_zoom]
  obtain ⟨result, ⟨disk, after⟩, computed, outcome⟩ := lhdIo_write direction one range
  rcases outcome with ⟨rfl, user, rfl, stays⟩ | ⟨failed, _⟩ | ⟨_, rfl, rfl, moves⟩
  · exact .of_eq (bind_ok (attempt_eq computed)) (Or.inl ⟨rfl, user, rfl, stays⟩)
  · rw [geometry.works] at failed
    cases failed
  · rw [tick, sector] at computed
    exact .of_eq (pass_done computed) (Or.inr ⟨rfl, rfl, moves⟩)

theorem rwblock_read (direction : uio.rw = .read) :
    (onTransfer sfsRwblock).Ensures (s, uio) fun result next =>
      next.1 = s ∧ ((result = .error .efault ∧ uio.segflg ≠ .sysspace ∧ uio.Stays next.2) ∨
        (result = .ok () ∧ uio.Moves next.2 (s.device.sectors block).toList)) := by
  have range : uio.sector < s.device.dBlocks := by
    rw [sector]
    exact UInt32.lt_of_lt_of_le inside geometry.disk
  have tick := Lhd.tick_eq geometry.works
  unfold onTransfer
  rw [ensures_zoom]
  obtain ⟨result, ⟨disk, after⟩, computed, outcome⟩ := lhdIo_read direction one range
  rw [tick, sector] at outcome
  rcases outcome with ⟨_, rfl, user, rfl, stays⟩ | ⟨failed, _⟩ | ⟨_, rfl, rfl, moves⟩
  · exact .of_eq (bind_ok (attempt_eq computed)) ⟨rfl, Or.inl ⟨rfl, user, stays⟩⟩
  · rw [geometry.works] at failed
    cases failed
  · exact .of_eq (pass_done computed) ⟨rfl, Or.inr ⟨rfl, moves⟩⟩

end Aim

section Block

variable {live held : UInt32 → Prop} {i : UInt32} {s : Sfs} {vnode : SfsVnode} {uio : Uio}
  (before : s.Consistent live held) (loaded : s.vnode? i = some vnode) (fits : uio.Fits)
  (aligned : uio.position % 512 = 0) (asked : 512 ≤ uio.resid)
include before loaded fits aligned asked

theorem sfsBlockio_read (direction : uio.rw = .read) : (sfsBlockio i).Ensures (s, uio) (Gets i s uio 512) := by
  have isLive := before.isLive loaded
  have position := fits.position_eq
  have start : uio.position / 512 * 512 = uio.position := by omega
  have enough := Nat.le_trans asked fits.buffer
  unfold sfsBlockio
  simp only [ensures_bind, ensures_get, after_ok, direction, ensures_onSfs, reduceCtorEq, decide_false]
  refine .of_eq (sfsBmap_read before loaded _) ?_
  rw [fits.fileblock]
  split
  · next small =>
    rw [after_ok]
    split
    · next hole =>
      simp only [ensures_bind, ensures_require, after_ok, ensures_onUio]
      refine ⟨direction, (uiomovezeros_carries fits asked (by omega) direction).mono ?_⟩
      rintro result next ⟨still, ⟨code, failed, user⟩ | ⟨rfl, carries⟩⟩
      · exact ⟨rfl, still, Or.inl ⟨code, failed, Or.inl user⟩⟩
      · have zeros : List.replicate 512 0 = window (s.byte i) uio.position 512 := by
          rw [← start, ← fileBlock_toList, fileBlock_hole hole, Block.toList_zeros]
        rw [zeros] at carries
        have offset := carries.offset
        rw [window_length] at offset
        exact ⟨rfl, still, Or.inr ⟨rfl, carries, carries.fits fits (by omega), Or.inr (by omega)⟩⟩
    · next present =>
      have owns : s.Owns live (.data i (uio.position / 512)) (s.slot i (uio.position / 512)) := ⟨isLive, present, rfl⟩
      have range := before.inside owns
      have bound := before.geometry.small range
      rw [aim_offset before.geometry range]
      simp only [ensures_bind, ensures_require, after_ok, ensures_onUio, ensures_modify, ensures_attempt]
      refine ⟨asked, (rwblock_read before.geometry range (aim_oneSector enough) aim_sector direction).mono ?_⟩
      rintro result ⟨s', after⟩ ⟨rfl, ⟨rfl, user, stays⟩ | ⟨rfl, moves⟩⟩
      · simp only [ensures_onUio, ensures_modify, after_ok, ensures_finish]
        exact ⟨rfl, stays.rw.trans direction, Or.inl ⟨_, rfl, Or.inl user⟩⟩
      · simp only [ensures_onUio, ensures_modify, after_ok, ensures_finish]
        have carries := restore_moves fits (by omega) (by omega) (Block.length_toList _) asked (by omega) moves
        rw [fileBlock_present present, fileBlock_toList, start] at carries
        have offset := carries.offset
        rw [window_length] at offset
        exact ⟨rfl, carries.rw.trans direction, Or.inr ⟨rfl, carries, carries.fits fits (by omega), Or.inr (by omega)⟩⟩
  next far => exact ⟨rfl, direction, Or.inl ⟨_, rfl, Or.inr (Or.inl (by omega))⟩⟩

theorem sfsBlockio_write (direction : uio.rw = .write) :
    (sfsBlockio i).Ensures (s, uio) (Puts live held i s uio 512) := by
  have isLive := before.isLive loaded
  have position := fits.position_eq
  have start : uio.position / 512 * 512 = uio.position := by omega
  have enough := Nat.le_trans asked fits.buffer
  unfold sfsBlockio
  simp only [ensures_bind, ensures_get, after_ok, direction, ensures_onSfs, decide_true]
  refine (sfsBmap_alloc before loaded _).mono ?_
  rw [fits.fileblock]
  rintro result s' (⟨far, rfl, rfl⟩ | ⟨small, kept, ⟨rfl, hole⟩ | ⟨block, rfl, present, slot⟩⟩)
  · exact puts_nothing (Kept.refl before) (Uio.Carries.refl uio) fits .einval (Or.inl (Or.inr (Or.inl far)))
  · exact puts_nothing kept (Uio.Carries.refl uio) fits .enospc (Or.inr ⟨_, hole, Or.inl rfl⟩)
  · obtain ⟨vnode', still⟩ := kept.step.loaded loaded
    subst slot
    have owns : s'.Owns live (.data i (uio.position / 512)) (s'.slot i (uio.position / 512)) := ⟨isLive, present, rfl⟩
    have range := kept.consistent.inside owns
    have bound := kept.consistent.geometry.small range
    rw [after_ok, if_neg present, aim_offset kept.consistent.geometry range]
    simp only [ensures_bind, ensures_require, after_ok, ensures_onUio, ensures_modify, ensures_attempt]
    refine ⟨asked, (rwblock_write kept.consistent.geometry range (aim_oneSector enough) aim_sector direction).mono ?_⟩
    rintro result ⟨s'', after⟩ (⟨rfl, user, rfl, stays⟩ | ⟨rfl, same, moves⟩)
    · simp only [ensures_onUio, ensures_modify, after_ok, ensures_finish]
      exact puts_nothing kept (restore_stays fits stays) fits .efault (Or.inl (Or.inl user))
    · simp only [ensures_onUio, ensures_modify, after_ok, ensures_finish]
      have full : (uio.rest.take 512).length = 512 := by rw [length_take, Nat.min_eq_left enough]
      have carries := restore_moves fits (by omega) (by omega) full asked (by omega) moves
      have offset := carries.offset
      have rest : after.rest = uio.rest.drop (uio.rest.take 512).length := moves.rest
      rw [full] at rest
      have stored := written_store kept.consistent still present (Block.ofList (uio.rest.take 512))
      rw [Block.toList_ofList full, start] at stored
      refine ⟨uio.rest.take 512, by rw [full], carries, carries.fits fits (by omega), Or.inr (by omega), ?_, full, rest⟩
      subst same
      exact kept.andWritten stored

end Block

end Os161
