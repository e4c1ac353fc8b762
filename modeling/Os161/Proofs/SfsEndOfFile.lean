import Os161.Proofs.SfsByteFile
import Os161.Proofs.UioSegments

/-! Where a file ends: which blocks a truncation gives up, what an empty write changes, where a read stops. -/

namespace Os161
open Routine Runs Contents Option

section Truncation

variable {live held : UInt32 → Prop} {i : UInt32} {s s' : Sfs} {vnode : SfsVnode} {b : Nat}

/-- Exactly the blocks from index `b` on are given up. Freeing a free block would halt. -/
structure CutExactly (i : UInt32) (b len : Nat) (s s' : Sfs) : Prop where
  unmapped : ∀ q, b ≤ q → s'.slot i q = 0
  kept : ∀ q, q < b → s'.slot i q = s.slot i q
  emptied : (∀ q, 15 ≤ q → s'.slot i q = 0) → (s'.inodeOf i).indirect = 0
  listed : (∃ q, 15 ≤ q ∧ s'.slot i q ≠ 0) → (s'.inodeOf i).indirect = (s.inodeOf i).indirect
  bits : ∀ block, s'.Marked block ↔ s.Marked block ∧
    ¬ ((∃ q, b ≤ q ∧ block ≠ 0 ∧ block = s.slot i q) ∨
      (s'.inodeOf i).indirect = 0 ∧ block ≠ 0 ∧ block = (s.inodeOf i).indirect)
  size : (s'.inodeOf i).size.toNat = len

/-- The indirect block cannot be read, and the truncation fails. Or: no block is mapped at the cut behind the direct
blocks, a file of 142 blocks or more has no empty indirect block, and it is not lost on its way to the disk. -/
def Sfs.CutsExactly (s : Sfs) (i : UInt32) (b : Nat) : Prop :=
  s.ListUnread i b s.device.outcomes ∨
  (15 ≤ b → s.slot i b = 0) ∧
  (142 ≤ b → (s.inodeOf i).indirect ≠ 0 → ∃ q, 15 ≤ q ∧ s.slot i q ≠ 0) ∧
  ¬ s.LosesList i b s.device.outcomes

variable {len : Nat} {pos : Fin (2 ^ 31)} {byte : UInt8}

theorem truncateBlocks_cases (bound : len < 2 ^ 31) :
    truncateBlocks len = (len + 511) / 512 ∨ 143 ≤ (len + 511) / 512 ∧ 143 ≤ truncateBlocks len := by
  have sum : (len : Int) + 512 - 1 = ((len + 511 : Nat) : Int) := by omega
  unfold truncateBlocks
  rw [sum]
  by_cases small : len + 511 < 2 ^ 31
  · left
    rw [offT_small (by omega) (by omega), Int.tdiv_eq_ediv_of_nonneg (by omega), u32_small (by omega) (by omega)]
    omega
  · right
    have low : offT ((len + 511 : Nat) : Int) = -(2 ^ 32 - (len + 511 : Nat)) := by
      unfold offT Int.bmod
      simp only [Nat.reducePow]
      split <;> omega
    rw [low, Int.neg_tdiv, Int.tdiv_eq_ediv_of_nonneg (by omega), u32, UInt32.toNat_ofNat']
    omega

/-- The truncation depends on the number of blocks only up to the size of the largest file. -/
theorem Truncated.of_large {b' : Nat} (truncated : Truncated live held i b s s') (large : 143 ≤ b) (large' : 143 ≤ b') :
    Truncated live held i b' s s' := by
  obtain ⟨step, consistent, type, linkcount, slots, freed, stays, sectors⟩ := truncated
  refine ⟨step, consistent, type, linkcount, fun q => ?_, fun low => absurd low (by omega),
    fun _ => stays (.inl (by omega)), sectors⟩
  rw [slots, if_neg (by omega), if_neg (by omega)]

/-- The outcome of a truncation in terms of the exact number of blocks. -/
theorem sfsTruncate_cases (outcomes : Nat → Bool) (bound : len < 2 ^ 31) (before : s.Consistent live held)
    (loaded : s.vnode? i = some vnode) (exact_ : b = (len + 511) / 512) :
    (sfsTruncate i len).Ensures (s.withOutcomes outcomes) fun result after =>
      (s.ListUnread i b outcomes ∧ result = .error .eio) ∨ ¬ s.ListUnread i b outcomes ∧ result = .ok () ∧
        ∃ final count, after = final.withOutcomes (fun n => outcomes (n + count)) ∧ (final.inodeOf i).size.toNat = len ∧
          (¬ s.LosesList i b outcomes ∧ Truncated live held i b s final ∨
            s.LosesList i b outcomes ∧ ∀ q, 15 ≤ q → final.slot i q = s.slot i q) := by
  have size : (u32 len).toNat = len := by
    rw [u32_small (by omega) (by omega), Int.toNat_natCast]
  have outcome := sfsTruncate_outcomes len outcomes before loaded
  rcases truncateBlocks_cases bound with same | ⟨large, large'⟩
  · rw [same, ← exact_] at outcome
    apply outcome.mono
    rintro result after (unread | ⟨read, done, final, count, rfl, sized, rest⟩)
    · exact .inl unread
    · exact .inr ⟨read, done, final, count, rfl, by rw [sized, size], rest⟩
  · rw [← exact_] at large
    apply outcome.mono
    rintro result after (⟨⟨low, _⟩, _⟩ | ⟨_, done, final, count, rfl, sized, ⟨_, truncated⟩ | ⟨⟨⟨low, _⟩, _⟩, _⟩⟩)
    · omega
    · refine .inr ⟨fun unread => ?_, done, final, count, rfl, by rw [sized, size], .inl ⟨fun loses => ?_, ?_⟩⟩
      · exact absurd unread.1 (by omega)
      · exact absurd loses.1.1 (by omega)
      · exact truncated.of_large large' large
    · omega

theorem sfsTruncate_blocks (bound : len < 2 ^ 31) (before : s.Consistent live held)
    (loaded : s.vnode? i = some vnode) (exact_ : b = (len + 511) / 512) :
    (sfsTruncate i len).Ensures s fun result after =>
      result = .ok () ∧ (after.inodeOf i).size.toNat = len ∧ Truncated live held i b s after := by
  have works := sfsTruncate_cases (fun _ => true) bound before loaded exact_
  rw [withOutcomes_works before.geometry] at works
  apply works.mono
  rintro result after (⟨⟨_, _, failing⟩, _⟩ |
    ⟨_, rfl, final, count, rfl, size, ⟨_, truncated⟩ | ⟨⟨_, _, _, _, fails⟩, _⟩⟩)
  · cases failing 0 (by decide)
  · rw [withOutcomes_works truncated.consistent.geometry]
    exact ⟨rfl, size, truncated⟩
  · cases fails

theorem Truncated.cutExactly (truncated : Truncated live held i b s s') (before : s.Consistent live held)
    (isLive : live i) (size : (s'.inodeOf i).size.toNat = len) : CutExactly i b len s s' ↔ (15 ≤ b → s.slot i b = 0) ∧
      (142 ≤ b → (s.inodeOf i).indirect ≠ 0 → ∃ q, 15 ≤ q ∧ s.slot i q ≠ 0) := by
  have slots := truncated.slots
  constructor
  · intro exactly
    refine ⟨fun listed => ?_, fun high present => ?_⟩
    · have gone := exactly.unmapped b (Nat.le_refl b)
      rwa [slots, if_neg (by omega)] at gone
    · by_contra none
      have empty : ∀ q, 15 ≤ q → s'.slot i q = 0 := by
        intro q listed
        rw [slots]
        split
        · rfl
        · by_contra filled
          exact none ⟨q, listed, filled⟩
      rw [← truncated.stays (.inl high)] at present
      exact present (exactly.emptied empty)
  · rintro ⟨cut, lists⟩
    have unmapped : ∀ q, b ≤ q → s'.slot i q = 0 := by
      intro q beyond
      rw [slots]
      split
      · rfl
      next stays =>
        by_cases here : q = b
        · subst here
          exact cut (by omega)
        · exact Sfs.slot_beyond (by omega)
    have kept : ∀ q, q < b → s'.slot i q = s.slot i q := by
      intro q inside
      rw [slots, if_neg (by omega)]
    have emptied : (∀ q, 15 ≤ q → s'.slot i q = 0) → (s'.inodeOf i).indirect = 0 := by
      intro empty
      by_cases low : b < 142
      · exact truncated.freed low empty
      · rw [truncated.stays (.inl (by omega))]
        by_contra present
        obtain ⟨q, listed, filled⟩ := lists (by omega) present
        have gone := empty q listed
        rw [slots, if_neg] at gone
        · exact filled gone
        · omega
    have listed : (∃ q, 15 ≤ q ∧ s'.slot i q ≠ 0) → (s'.inodeOf i).indirect = (s.inodeOf i).indirect :=
      fun filled => truncated.stays (.inr filled)
    refine ⟨unmapped, kept, emptied, listed, fun block => ?_, size⟩
    have bits := truncated.step.marked_drop before truncated.consistent (fun q => b ≤ q) ((s'.inodeOf i).indirect = 0)
    simp only [Sfs.Owns, isLive, true_and] at bits
    refine bits ?_ (fun q => ?_) block
    · split
      next gone => exact gone
      next stays =>
        by_contra changed
        refine stays (emptied fun q high => ?_)
        by_contra filled
        exact changed (listed ⟨q, high, filled⟩)
    · split
      next beyond => exact unmapped q beyond
      next inside => exact kept q (by omega)

/-- Exactly when a truncation that returns 0 has discarded the blocks past the new end and nothing else. -/
theorem truncation_exact_iff (len : Nat) (bound : len < 2 ^ 31)
    (healthy : (s.withOutcomes fun _ => true).Consistent live held) (loaded : s.vnode? i = some vnode) :
    (∀ s', sfsTruncate i len s = some (.ok (), s') → CutExactly i ((len + 511) / 512) len s s') ↔
      s.CutsExactly i ((len + 511) / 512) := by
  obtain ⟨result, after, computed, outcome⟩ := sfsTruncate_cases s.device.outcomes bound healthy loaded rfl
  rcases outcome with ⟨unread, rfl⟩ | ⟨read, rfl, final, count, rfl, size, ⟨keeps, truncated⟩ | ⟨loses, same⟩⟩
  · refine iff_of_true (fun s' done => ?_) (.inl unread)
    cases computed.symm.trans done
  · have exactly := truncated.cutExactly healthy (healthy.isLive loaded) size
    constructor
    · intro property
      obtain ⟨unmapped, kept, emptied, listed, bits, sized⟩ := property _ computed
      obtain ⟨cut, lists⟩ := exactly.mp ⟨unmapped, kept, emptied, listed, bits, sized⟩
      exact .inr ⟨cut, lists, keeps⟩
    · rintro (unread | ⟨cut, lists, _⟩) s' done
      · exact absurd unread read
      · cases computed.symm.trans done
        obtain ⟨unmapped, kept, emptied, listed, bits, sized⟩ := exactly.mpr ⟨cut, lists⟩
        exact ⟨unmapped, kept, emptied, listed, bits, sized⟩
  · refine iff_of_false (fun property => ?_) ?_
    · obtain ⟨⟨_, ⟨q, high, beyond, present⟩, _⟩, _⟩ := loses
      have gone : final.slot i q = 0 := (property _ computed).unmapped q (Nat.le_of_lt beyond)
      rw [same q high] at gone
      exact present gone
    · rintro (unread | ⟨_, _, keeps⟩)
      · exact read unread
      · exact keeps loses

def byteAt (pos : Fin (2 ^ 31)) (byte : UInt8) : IoRequest where
  uio := ⟨[], [byte], pos, 1, .sysspace, .write, fun _ => none⟩
  seekable := Int.natCast_nonneg _
  position := Int.ofNat_lt.mpr pos.isLt
  buffer := Nat.le_refl 1
  size := Nat.one_lt_two_pow (by decide)

def newFile : List SfsCall := [.getroot, .creat sfsRootLocation ⟨[102], by decide⟩ true]

def oneByteFile (pos : Fin (2 ^ 31)) (byte : UInt8) : List SfsCall := newFile ++ [.write 3 (byteAt pos byte)]

theorem byteAt_written {f : UInt32} {uio : Uio} (healthy : s.Healthy held) (other : f ≠ sfsRootLocation)
    (done : (SfsCall.write f (byteAt pos byte)).perform s = some (.ok (.transfer (.ok ()) uio), s')) :
    s'.byte f pos = byte := by
  obtain ⟨vnode, loaded⟩ := transfer_loaded (.inr done)
  obtain ⟨inner, final, computed, same⟩ := transfer_done done
  cases same
  obtain ⟨data, taken, _, _, wrote, length⟩ := (vopWrite_ensures healthy loaded other (byteAt pos byte) rfl).elim computed
  have whole : data = [byte] := by
    rw [taken, length]
    rfl
  have position : (byteAt pos byte).uio.position = pos.val := rfl
  rw [wrote.bytes, whole, position, patch, if_pos (Nat.le_refl _), Nat.sub_self]
  rfl

theorem slot_of_byte {f : UInt32} {pos : Nat} (filled : s.byte f pos ≠ 0) : s.slot f (pos / 512) ≠ 0 := by
  intro hole
  apply filled
  rw [Sfs.byte, if_pos hole]

theorem oneByteFile_reached {size : UInt32}
    (computed : ((freshMount 4096).bind fun s => (run sfsStep s newFile).bind fun s1 =>
      ((SfsCall.write 3 (byteAt pos byte)).perform s1).map fun (wrote, s2) =>
        ((transferred wrote).isSome, (s2.vnode? 3).map fun vnode => vnode.inode.size)) = some (true, some size)) :
    ∃ s s1 vnode, freshMount 4096 = some s ∧ run sfsStep s (oneByteFile pos byte) = some s1 ∧ s1.Sound ∧
      s1.vnode? 3 = some vnode ∧ vnode.inode.size = size ∧ s1.byte 3 pos = byte := by
  obtain ⟨s, mounted, computed⟩ := bind_eq_some_iff.mp computed
  obtain ⟨s1, reached, computed⟩ := bind_eq_some_iff.mp computed
  obtain ⟨⟨wrote, s2⟩, done, computed⟩ := map_eq_some_iff.mp computed
  simp only [Prod.mk.injEq] at computed
  obtain ⟨returned, present⟩ := computed
  obtain ⟨vnode, loaded, sized⟩ := map_eq_some_iff.mp present
  have sound : s1.Sound := run_preserves (fun _ _ _ sound taken => Sfs.Sound.step sound taken)
    ((freshMount_mounted mounted).sound small_roundable) reached
  have taken : sfsStep s1 (.write 3 (byteAt pos byte)) = some s2 := by rw [sfsStep, done, map_some]
  refine ⟨s, s2, vnode, mounted, ?_, sound.step taken, loaded, sized, ?_⟩
  · rw [oneByteFile, run_append, reached, bind_some, run, taken]
    rfl
  · obtain ⟨held, healthy, _⟩ := sound
    obtain ⟨uio, whole⟩ := isSome_iff_exists.mp returned
    rw [transferred_some whole] at done
    exact byteAt_written healthy (by decide) done

theorem indirectFile_reached : ∃ s s1 vnode, freshMount 4096 = some s ∧ run sfsStep s (oneByteFile 7680 1) = some s1 ∧
    s1.Sound ∧ s1.vnode? 3 = some vnode ∧ s1.slot 3 15 ≠ 0 := by
  obtain ⟨s, s1, vnode, mounted, reached, sound, loaded, _, written⟩ :=
    @oneByteFile_reached 7680 1 7681 (by decide +kernel)
  have filled : s1.byte 3 7680 ≠ 0 := by
    intro zero
    cases zero.symm.trans written
  exact ⟨s, s1, vnode, mounted, reached, sound, loaded, slot_of_byte filled⟩

theorem truncation_exact_to_nothing : ∃ s s1, freshMount 4096 = some s ∧ run sfsStep s (oneByteFile 7680 1) = some s1 ∧
    s1.slot 3 15 ≠ 0 ∧ ∀ s', sfsTruncate 3 (0 : Nat) s1 = some (.ok (), s') → CutExactly 3 0 0 s1 s' := by
  obtain ⟨s, s1, vnode, mounted, reached, ⟨held, healthy, _⟩, loaded, mapped⟩ := indirectFile_reached
  have consistent := healthy.consistent
  rw [← withOutcomes_works consistent.geometry] at consistent
  refine ⟨s, s1, mounted, reached, mapped, (truncation_exact_iff 0 (by decide) consistent loaded).mpr ?_⟩
  refine .inr ⟨by omega, by omega, ?_⟩
  rintro ⟨⟨_, _, q, listed, low, _⟩, _⟩
  omega

/-- The block at the cut stays mapped. -/
theorem truncation_keeps_block_at_cut : ∃ s s1 s2, freshMount 4096 = some s ∧
    run sfsStep s (oneByteFile 7680 1) = some s1 ∧ sfsTruncate 3 7680 s1 = some (.ok (), s2) ∧
    s2.slot 3 15 ≠ 0 ∧ ¬ CutExactly 3 15 7680 s1 s2 := by
  obtain ⟨s, s1, vnode, mounted, reached, ⟨held, healthy, _⟩, loaded, mapped⟩ := indirectFile_reached
  have small : 7680 < 2 ^ 31 := by decide
  obtain ⟨result, s2, done, rfl, _, truncated⟩ := sfsTruncate_blocks small healthy.consistent loaded rfl
  have stays : s2.slot 3 15 ≠ 0 := by
    rw [truncated.slots]
    exact mapped
  exact ⟨s, s1, s2, mounted, reached, done, stays, fun exactly => stays (exactly.unmapped 15 (Nat.le_refl 15))⟩

end Truncation

section Regrowth

variable {live held : UInt32 → Prop} {f : UInt32} {s s1 s2 : Sfs} {vnode : SfsVnode} {b : Nat}

theorem Truncated.byte (truncated : Truncated live held f b s s1) (before : s.Consistent live held) (isLive : live f)
    (pos : Nat) :
    s1.byte f pos = if b ≤ pos / 512 ∧ (pos / 512 < 15 ∨ b < pos / 512 ∧ b < 142) then 0 else s.byte f pos := by
  unfold Sfs.byte
  rw [truncated.slots]
  split
  · rw [if_pos rfl]
  · split
    · rfl
    next present =>
      rw [truncated.sectors]
      intro same
      have data : s.Owns live (.data f (pos / 512)) (s.slot f (pos / 512)) := ⟨isLive, present, rfl⟩
      have indirect : s.Owns live (.indirect f) (s.slot f (pos / 512)) := ⟨isLive, present, same⟩
      cases before.ledger.unique data indirect

def ReadsZeros (f : UInt32) (len p : Nat) (s : Sfs) : Prop :=
  ∀ request : IoRequest, request.uio.rw = .read → request.uio.segflg = .sysspace → request.uio.position = len →
    request.uio.resid = p - len →
    ∃ uio, (SfsCall.read f request).perform s = some (.ok (.transfer (.ok ()) uio), s) ∧
      uio.moved = request.uio.moved ++ List.replicate (p - len) 0

/-- The bytes from `len` up to `p` that a truncation leaves on the disk are 0 already: in the last block kept and,
behind the direct blocks, in the block at the cut. -/
def Sfs.TailClear (s : Sfs) (f : UInt32) (len p : Nat) : Prop :=
  ∀ pos, len ≤ pos → pos < p →
    (pos / 512 < (len + 511) / 512 ∨ 15 ≤ (len + 511) / 512 ∧ pos / 512 = (len + 511) / 512) → s.byte f pos = 0

theorem perform_read {request : IoRequest} {uio : Uio} {result : Except Errno Unit}
    (computed : vopRead f (s, request.uio) = some (result, (s1, uio))) :
    (SfsCall.read f request).perform s = some (.ok (.transfer result uio), s1) := by
  rw [SfsCall.perform, replyTransfer, bind_ok (withLocal_eq computed)]
  rfl

section

variable (healthy : s.Healthy held) (loaded : s.vnode? f = some vnode) (other : f ≠ sfsRootLocation)
include healthy loaded other

theorem read_before_end
    (request : IoRequest) (direction : request.uio.rw = .read) (kernel : request.uio.segflg = .sysspace)
    (small : (s.inodeOf f).size.toNat < 2 ^ 31) (before : request.uio.position + request.uio.resid ≤ (s.inodeOf f).size.toNat)
    (inside : request.uio.position < 143 * 512) (fits : request.uio.position + request.uio.resid ≤ 143 * 512) :
    ∃ uio, (SfsCall.read f request).perform s = some (.ok (.transfer (.ok ()) uio), s) ∧
      uio.moved = request.uio.moved ++ window (s.byte f) request.uio.position request.uio.resid := by
  have position := request.fits.position_eq
  have amount := readable_eq request.fits small (by omega)
  rw [Nat.min_eq_left (by omega)] at amount
  obtain ⟨result, ⟨after, uio⟩, computed, same, outcome⟩ := vopRead_ensures healthy loaded other request direction
  subst same
  rw [amount] at outcome
  rcases outcome with ⟨code, _, user | far | far⟩ | ⟨rfl, carries, _⟩
  · exact absurd kernel user
  · omega
  · omega
  · exact ⟨uio, perform_read computed, carries.moved⟩

def readAt (pos : Fin (2 ^ 31)) (n : Fin (2 ^ 32)) : IoRequest where
  uio := ⟨[], List.replicate n 0, pos, n, .sysspace, .read, fun _ => none⟩
  seekable := Int.natCast_nonneg _
  position := Int.ofNat_lt.mpr pos.isLt
  buffer := by rw [List.length_replicate]
  size := n.isLt

theorem readsZeros_iff
    {len p : Nat} (low : len ≤ p) (size : p ≤ (s.inodeOf f).size.toNat) (small : (s.inodeOf f).size.toNat < 2 ^ 31)
    (inside : p < 143 * 512) : ReadsZeros f len p s ↔ ∀ pos, len ≤ pos → pos < p → s.byte f pos = 0 := by
  have zeros : (∀ pos, len ≤ pos → pos < p → s.byte f pos = 0) ↔
      window (s.byte f) len (p - len) = List.replicate (p - len) 0 := by
    rw [window_eq_replicate, Nat.add_sub_cancel' low]
  have reads := read_before_end healthy loaded other
  rw [zeros]
  constructor
  · intro reading
    obtain ⟨uio, done, moved⟩ := reads (readAt ⟨len, by omega⟩ ⟨p - len, by omega⟩) rfl rfl small
      (show len + (p - len) ≤ _ by omega) (show len < _ by omega) (show len + (p - len) ≤ _ by omega)
    obtain ⟨uio', done', moved'⟩ := reading (readAt ⟨len, by omega⟩ ⟨p - len, by omega⟩) rfl rfl rfl rfl
    cases done.symm.trans done'
    exact List.append_cancel_left (moved.symm.trans moved')
  · intro same request direction kernel position resid
    obtain ⟨uio, done, moved⟩ := reads request direction kernel small (by omega) (by omega) (by omega)
    rw [position, resid, same] at moved
    exact ⟨uio, done, moved⟩

end

theorem truncate_performed {len : Nat} (sound : s.Sound) (small : len < 2 ^ 31)
    (cut : (SfsCall.truncate f len).perform s = some (.ok .nothing, s1)) :
    f ≠ sfsRootLocation ∧ s1.Sound ∧ (s1.inodeOf f).size.toNat = len ∧ ∀ pos, s1.byte f pos =
      if (len + 511) / 512 ≤ pos / 512 ∧ (pos / 512 < 15 ∨ (len + 511) / 512 < pos / 512 ∧ (len + 511) / 512 < 142) then 0
      else s.byte f pos := by
  have after := (sound.performed cut).1
  obtain ⟨held, healthy, _⟩ := sound
  obtain ⟨code, failed, _⟩ | ⟨value, _, computed⟩ := reply_done cut
  · cases failed
  rcases fileOnly_cases healthy f (sfsTruncate f len) with ⟨halts, _⟩ | ⟨vnode, other, loaded, same⟩ | ⟨_, refused⟩
  · cases halts.symm.trans computed
  · obtain ⟨_, size, truncated⟩ :=
      (sfsTruncate_blocks small healthy.consistent loaded rfl).elim (same.symm.trans computed)
    exact ⟨other, after, size, truncated.byte healthy.consistent (healthy.consistent.isLive loaded)⟩
  · cases refused.symm.trans computed

/-- Exactly when what was cut off stays away: the file is truncated to `len`, at least one byte is written behind
that, and the bytes between are read. -/
theorem truncated_bytes_gone_iff {len : Nat} {request : IoRequest} {result : Except Errno Unit} {uio : Uio}
    (sound : s.Sound) (small : len < 2 ^ 31) (cut : (SfsCall.truncate f len).perform s = some (.ok .nothing, s1))
    (beyond : len ≤ request.uio.position)
    (wrote : (SfsCall.write f request).perform s1 = some (.ok (.transfer result uio), s2))
    (moved : uio.resid < request.uio.resid) :
    ReadsZeros f len request.uio.position s2 ↔ s.TailClear f len request.uio.position := by
  obtain ⟨other, sound1, size, kept⟩ := truncate_performed sound small cut
  obtain ⟨held2, healthy2, _⟩ := (sound1.performed wrote).1
  obtain ⟨held1, healthy1, _⟩ := sound1
  obtain ⟨vnode, loaded⟩ := transfer_loaded (.inr wrote)
  obtain ⟨inner, final, computed, same⟩ := transfer_done wrote
  cases same
  by_cases direction : request.uio.rw = .write
  · obtain ⟨data, _, carries, inside, written, _⟩ :=
      (vopWrite_ensures healthy1 loaded other request direction).elim computed
    obtain ⟨vnode', loaded'⟩ := written.step.loaded loaded
    have resid : uio.resid + data.length = request.uio.resid := carries.resid
    have within : request.uio.position + data.length ≤ 143 * 512 := inside.resolve_left (by omega)
    have longer : (s2.inodeOf f).size.toNat = request.uio.position + data.length := by
      rw [written.size, grown_small (by omega) (by omega)]
      omega
    rw [readsZeros_iff healthy2 loaded' other beyond (by omega) (by omega) (by omega), written.bytes]
    refine forall_congr' fun pos => forall_congr' fun low => forall_congr' fun high => ?_
    rw [patch_outside (.inl high), kept]
    split
    next dropped => exact iff_of_true rfl fun stays => by omega
    next stays => exact ⟨fun zero _ => zero, fun zero => zero (by omega)⟩
  · rw [(vop_direction healthy1 loaded other).2 direction] at computed
    cases computed

theorem regrown_reached {len : Nat} {bytes : List UInt8}
    (computed : ((freshMount 4096).bind fun s => (run sfsStep s (oneByteFile 1 2)).bind fun s1 =>
      ((SfsCall.truncate 3 len).perform s1).bind fun (cut, s2) =>
        ((SfsCall.write 3 (byteAt 2 9)).perform s2).bind fun (wrote, s3) =>
          ((SfsCall.read 3 (readAt 1 1)).perform s3).map fun (read, _) =>
            ((match cut with | .ok .nothing => true | _ => false),
              (match wrote with | .ok (.transfer (.ok ()) uio) => uio.resid | _ => 1),
              (match read with | .ok (.transfer (.ok ()) uio) => uio.moved | _ => []))) = some (true, 0, bytes))
    (delivers : bytes ≠ []) :
    ∃ s s1 s2 s3 s4 uio read, freshMount 4096 = some s ∧ run sfsStep s (oneByteFile 1 2) = some s1 ∧
      (SfsCall.truncate 3 len).perform s1 = some (.ok .nothing, s2) ∧
      (SfsCall.write 3 (byteAt 2 9)).perform s2 = some (.ok (.transfer (.ok ()) uio), s3) ∧ uio.resid = 0 ∧
      (SfsCall.read 3 (readAt 1 1)).perform s3 = some (.ok (.transfer (.ok ()) read), s4) ∧ read.moved = bytes := by
  obtain ⟨s, mounted, computed⟩ := bind_eq_some_iff.mp computed
  obtain ⟨s1, reached, computed⟩ := bind_eq_some_iff.mp computed
  obtain ⟨⟨cut, s2⟩, truncated, computed⟩ := bind_eq_some_iff.mp computed
  obtain ⟨⟨wrote, s3⟩, written, computed⟩ := bind_eq_some_iff.mp computed
  obtain ⟨⟨read, s4⟩, delivered, computed⟩ := map_eq_some_iff.mp computed
  simp only [Prod.mk.injEq] at computed
  obtain ⟨isCut, isWritten, isRead⟩ := computed
  split at isCut
  · split at isWritten
    next uio =>
      split at isRead
      next got => exact ⟨s, s1, s2, s3, s4, uio, got, mounted, reached, truncated, written, isWritten, delivered, isRead⟩
      · exact absurd isRead.symm delivers
    · cases isWritten
  · cases isCut

theorem truncated_bytes_gone_all : ∃ s s1 s2 s3 uio, freshMount 4096 = some s ∧
    run sfsStep s (oneByteFile 1 2) = some s1 ∧ (SfsCall.truncate 3 (0 : Nat)).perform s1 = some (.ok .nothing, s2) ∧
    (SfsCall.write 3 (byteAt 2 9)).perform s2 = some (.ok (.transfer (.ok ()) uio), s3) ∧ ReadsZeros 3 0 2 s3 := by
  obtain ⟨s, s1, s2, s3, _, uio, _, mounted, reached, cut, wrote, moved, _⟩ :=
    @regrown_reached 0 [0] (by decide +kernel) (by decide)
  have sound : s1.Sound := run_preserves (fun _ _ _ sound taken => Sfs.Sound.step sound taken)
    ((freshMount_mounted mounted).sound small_roundable) reached
  refine ⟨s, s1, s2, s3, uio, mounted, reached, cut, wrote, ?_⟩
  refine (truncated_bytes_gone_iff sound (by decide) cut (Nat.zero_le _) wrote ?_).mpr fun pos _ _ stays => ?_
  · rw [moved]
    decide
  · omega

/-- The byte at position 1 is cut off and comes back. -/
theorem truncated_byte_returns : ∃ s s1 s2 s3 s4 uio read, freshMount 4096 = some s ∧
    run sfsStep s (oneByteFile 1 2) = some s1 ∧ (SfsCall.truncate 3 (1 : Nat)).perform s1 = some (.ok .nothing, s2) ∧
    (SfsCall.write 3 (byteAt 2 9)).perform s2 = some (.ok (.transfer (.ok ()) uio), s3) ∧
    (SfsCall.read 3 (readAt 1 1)).perform s3 = some (.ok (.transfer (.ok ()) read), s4) ∧ read.moved = [2] := by
  obtain ⟨s, s1, s2, s3, s4, uio, read, mounted, reached, cut, wrote, _, delivered, bytes⟩ :=
    @regrown_reached 1 [2] (by decide +kernel) (by decide)
  exact ⟨s, s1, s2, s3, s4, uio, read, mounted, reached, cut, wrote, delivered, bytes⟩

end Regrowth

section EmptyWrite

variable {held : UInt32 → Prop} {f : UInt32} {s s' : Sfs}

def Unchanged (f : UInt32) (s s' : Sfs) : Prop :=
  (s'.inodeOf f).size = (s.inodeOf f).size ∧ ∀ pos, pos < (s.inodeOf f).size.toNat → s'.byte f pos = s.byte f pos

/-- A write that moves no byte changes nothing exactly if it does not lie behind the end of the file. -/
theorem empty_write_iff {request : IoRequest} {result : Except Errno Unit} {uio : Uio} (sound : s.Sound)
    (other : f ≠ sfsRootLocation)
    (done : (SfsCall.write f request).perform s = some (.ok (.transfer result uio), s'))
    (nothing : uio.resid = request.uio.resid) :
    Unchanged f s s' ↔ request.uio.offset ≤ offT (s.inodeOf f).size.toNat := by
  obtain ⟨held, healthy, _⟩ := sound
  obtain ⟨vnode, loaded⟩ := transfer_loaded (.inr done)
  obtain ⟨inner, final, computed, same⟩ := transfer_done done
  cases same
  have position := request.fits.position_eq
  have high := request.fits.high
  by_cases direction : request.uio.rw = .write
  · obtain ⟨data, _, carries, _, wrote, _⟩ := (vopWrite_ensures healthy loaded other request direction).elim computed
    have resid : uio.resid + data.length = request.uio.resid := carries.resid
    have empty : data = [] := List.eq_nil_of_length_eq_zero (by omega)
    subst empty
    have bytes : s'.byte f = s.byte f := by rw [wrote.bytes, patch_nil]
    have size : (s'.inodeOf f).size = grown (s.inodeOf f).size request.uio.position := wrote.size
    unfold Unchanged
    rw [size, bytes, grown]
    split
    next longer =>
      refine iff_of_false (fun unchanged => ?_) (by omega)
      have value := congrArg UInt32.toNat unchanged.1
      rw [UInt32.toNat_ofNat'] at value
      rw [← value, offT_small (by omega) (by omega)] at longer
      omega
    next shorter => exact iff_of_true ⟨rfl, fun _ _ => rfl⟩ (by omega)
  · rw [(vop_direction healthy loaded other).2 direction] at computed
    cases computed

def emptyAt (pos : Fin (2 ^ 31)) : IoRequest where
  uio := ⟨[], [], pos, 0, .sysspace, .write, fun _ => none⟩
  seekable := Int.natCast_nonneg _
  position := Int.ofNat_lt.mpr pos.isLt
  buffer := Nat.le_of_eq rfl
  size := Nat.two_pow_pos 32

theorem emptyWrites_reached : ∃ s s1 s2 s3 first second uio uio' vnode vnode', freshMount 4096 = some s ∧
    run sfsStep s newFile = some s1 ∧
    (SfsCall.write 3 (emptyAt 0)).perform s1 = some (.ok (.transfer first uio), s2) ∧ uio.resid = 0 ∧
    (SfsCall.write 3 (emptyAt 5)).perform s1 = some (.ok (.transfer second uio'), s3) ∧
    s1.vnode? 3 = some vnode ∧ vnode.inode.size = 0 ∧ s3.vnode? 3 = some vnode' ∧ vnode'.inode.size = 5 := by
  have computed : ((freshMount 4096).bind fun s => (run sfsStep s newFile).bind fun s1 =>
      ((SfsCall.write 3 (emptyAt 0)).perform s1).bind fun (first, _) =>
        ((SfsCall.write 3 (emptyAt 5)).perform s1).bind fun (second, s3) => (s1.vnode? 3).bind fun vnode =>
          (s3.vnode? 3).map fun vnode' =>
            ((transferred first).map (·.resid), (transferred second).isSome, vnode.inode.size,
              vnode'.inode.size)) = some (some 0, true, 0, 5) := by decide +kernel
  obtain ⟨s, mounted, computed⟩ := bind_eq_some_iff.mp computed
  obtain ⟨s1, reached, computed⟩ := bind_eq_some_iff.mp computed
  obtain ⟨⟨first, s2⟩, done, computed⟩ := bind_eq_some_iff.mp computed
  obtain ⟨⟨second, s3⟩, done', computed⟩ := bind_eq_some_iff.mp computed
  obtain ⟨vnode, loaded, computed⟩ := bind_eq_some_iff.mp computed
  obtain ⟨vnode', loaded', computed⟩ := map_eq_some_iff.mp computed
  simp only [Prod.mk.injEq] at computed
  obtain ⟨moved, returned, size, size'⟩ := computed
  obtain ⟨uio, whole, rest⟩ := map_eq_some_iff.mp moved
  obtain ⟨uio', whole'⟩ := isSome_iff_exists.mp returned
  rw [transferred_some whole] at done
  rw [transferred_some whole'] at done'
  exact ⟨s, s1, s2, s3, _, _, uio, uio', vnode, vnode', mounted, reached, done, rest, done', loaded, size, loaded', size'⟩

theorem empty_write_at_end : ∃ s s1 s2 result uio, freshMount 4096 = some s ∧ run sfsStep s newFile = some s1 ∧
    (SfsCall.write 3 (emptyAt 0)).perform s1 = some (.ok (.transfer result uio), s2) ∧ Unchanged 3 s1 s2 := by
  obtain ⟨s, s1, s2, _, result, _, uio, _, vnode, _, mounted, reached, done, nothing, _, loaded, size, _⟩ :=
    emptyWrites_reached
  have sound : s1.Sound := run_preserves (fun _ _ _ sound taken => Sfs.Sound.step sound taken)
    ((freshMount_mounted mounted).sound small_roundable) reached
  refine ⟨s, s1, s2, result, uio, mounted, reached, done, (empty_write_iff sound (by decide) done nothing).mpr ?_⟩
  rw [Sfs.inodeOf_loaded loaded, size]
  decide

/-- Writing nothing at position 5 makes the file 5 bytes long. -/
theorem empty_write_grows : ∃ s s1 s2 result uio, freshMount 4096 = some s ∧ run sfsStep s newFile = some s1 ∧
    (SfsCall.write 3 (emptyAt 5)).perform s1 = some (.ok (.transfer result uio), s2) ∧
    (s1.inodeOf 3).size = 0 ∧ (s2.inodeOf 3).size = 5 ∧ ¬ Unchanged 3 s1 s2 := by
  obtain ⟨s, s1, _, s2, _, result, _, uio, vnode, vnode', mounted, reached, _, _, done, loaded, size, loaded', size'⟩ :=
    emptyWrites_reached
  have before : (s1.inodeOf 3).size = 0 := by rw [Sfs.inodeOf_loaded loaded, size]
  have after : (s2.inodeOf 3).size = 5 := by rw [Sfs.inodeOf_loaded loaded', size']
  refine ⟨s, s1, s2, result, uio, mounted, reached, done, before, after, fun unchanged => ?_⟩
  have same := unchanged.1
  rw [before, after] at same
  cases same

end EmptyWrite

section ReadEnd

variable {live held : UInt32 → Prop} {f : UInt32} {s : Sfs} {vnode : SfsVnode} {uio : Uio}

/-- The bytes a read should transfer, with the size taken as an `off_t`. -/
def Sfs.untilEnd (s : Sfs) (f : UInt32) (uio : Uio) : Nat :=
  min uio.resid (offT (s.inodeOf f).size.toNat - uio.offset).toNat

/-- The read returns 0 and transfers what is there up to the end of the file, and no more. -/
def StopsAtEnd (s : Sfs) (f : UInt32) (request : IoRequest) : Prop :=
  ∃ uio, (SfsCall.read f request).perform s = some (.ok (.transfer (.ok ()) uio), s) ∧
    uio.resid + s.untilEnd f request.uio = request.uio.resid ∧
    uio.moved = request.uio.moved ++ window (s.byte f) request.uio.position (s.untilEnd f request.uio)

/-- The read lies behind the end of the file, or within the largest file with an end that does not overflow. -/
def Sfs.EndInReach (s : Sfs) (f : UInt32) (uio : Uio) : Prop :=
  offT (s.inodeOf f).size.toNat ≤ uio.offset ∨
  uio.offset + uio.resid < 2 ^ 31 ∧
    (uio.position + s.untilEnd f uio ≤ 143 * 512 ∨ uio.resid = 0 ∧ uio.position % 512 = 0)

theorem sfsIo_behind (loaded : s.vnode? f = some vnode) (direction : uio.rw = .read)
    (behind : offT (s.inodeOf f).size.toNat ≤ uio.offset) : sfsIo f (s, uio) = some (.ok (), (s, uio)) := by
  rw [Sfs.inodeOf_loaded loaded] at behind
  unfold sfsIo
  rw [bind_ok rfl]
  dsimp only
  rw [bind_ok (onVnode_eq loaded), direction]
  rw [if_pos behind]
  rfl

section Nothing

variable (before : s.Consistent live held) (loaded : s.vnode? f = some vnode) (fits : uio.Fits)
  (direction : uio.rw = .read) (kernel : uio.segflg = .sysspace) (nothing : uio.resid = 0)
include before loaded fits direction kernel nothing

theorem sfsLeading_nothing :
    (sfsLeading f).Ensures (s, uio) fun result next => next.1 = s ∧ next.2.resid = 0 ∧
      (result = .ok () ↔ uio.position % 512 = 0 ∨ uio.position / 512 < 143) := by
  have blkoff := fits.blkoff
  unfold sfsLeading
  simp only [ensures_bind, ensures_get, after_ok]
  split
  next unaligned =>
    have offset : uio.position % 512 ≠ 0 := by
      intro zero
      rw [zero] at blkoff
      exact unaligned (UInt32.toNat_inj.mp blkoff)
    have room : uio.resid < (512 - u32 (uio.offset.tmod 512)).toNat := by
      have bound : u32 (uio.offset.tmod 512) ≤ 512 := by
        rw [UInt32.le_iff_toNat_le, blkoff]
        exact Nat.le_of_lt (Nat.mod_lt _ (by decide))
      have whole : (512 : UInt32).toNat = 512 := rfl
      rw [UInt32.toNat_sub_of_le _ _ bound]
      omega
    rw [if_pos room, nothing]
    have empty : (UInt32.ofNat 0).toNat = 0 := rfl
    by_cases far : 143 ≤ uio.position / 512
    · unfold sfsPartialio
      simp only [ensures_bind, ensures_get, after_ok, ensures_require, direction, ensures_onSfs, reduceCtorEq, decide_false]
      refine ⟨part_fits (by omega), .of_eq (sfsBmap_read before loaded _) ?_⟩
      rw [fits.fileblock, if_neg (by omega)]
      exact ⟨rfl, nothing, iff_of_false (by rintro ⟨⟩) (by omega)⟩
    · apply (sfsPartialio_read before loaded fits blkoff.symm (by omega) (by omega) direction).mono
      rintro result next ⟨same, _, ⟨code, _, user | away | away⟩ | ⟨rfl, carries, _⟩⟩
      · exact absurd kernel user
      · exact absurd away far
      · omega
      · have resid := carries.resid
        exact ⟨same, by omega, iff_of_true rfl (by omega)⟩
  next aligned =>
    have offset : uio.position % 512 = 0 := by
      rw [← blkoff, not_not.mp aligned]
      rfl
    rw [ensures_pure]
    exact ⟨rfl, nothing, iff_of_true rfl (.inl offset)⟩

theorem sfsMove_nothing :
    (do sfsLeading f; sfsAligned f : Routine Errno (Sfs × Uio) Unit).Ensures (s, uio) fun result next => next.1 = s ∧
      (result = .ok () ↔ uio.position % 512 = 0 ∨ uio.position / 512 < 143) := by
  rw [ensures_bind]
  apply (sfsLeading_nothing before loaded fits direction kernel nothing).mono
  intro result next outcome
  obtain ⟨same, resid, outcome⟩ := outcome
  cases result with
  | error code => exact ⟨same, outcome⟩
  | ok value =>
    unfold sfsAligned
    simp only [ensures_bind, ensures_get, after_ok]
    rw [if_pos resid, ensures_pure]
    exact ⟨same, outcome⟩

theorem sfsIo_nothing (inside : uio.offset < offT (s.inodeOf f).size.toNat) :
    (sfsIo f).Ensures (s, uio) fun result _ =>
      result = .ok () ↔ uio.position % 512 = 0 ∨ uio.position / 512 < 143 := by
  have low := fits.low
  have high := fits.high
  rw [Sfs.inodeOf_loaded loaded] at inside
  unfold sfsIo
  simp only [ensures_bind, ensures_get, after_ok, ensures_onSfs]
  refine .of_eq (theVnode_eq loaded) ?_
  have ending : offT (uio.offset + uio.resid) = uio.offset := by
    rw [offT_small (by omega) (by omega)]
    omega
  rw [after_ok, direction]
  rw [if_neg (by omega), if_neg (by omega)]
  unfold sfsTransfer
  rw [ensures_bind, ensures_attempt]
  apply (sfsMove_nothing before loaded fits direction kernel nothing).mono
  intro result next outcome
  obtain ⟨rfl, outcome⟩ := outcome
  rw [after_ok, ensures_bind]
  refine .of_eq (sfsExtend_eq loaded) ?_
  simp only [after_ok, ensures_bind, ensures_onUio, ensures_modify, ensures_finish]
  exact outcome

end Nothing

theorem vopRead_eq (healthy : s.Healthy held) (loaded : s.vnode? f = some vnode) (other : f ≠ sfsRootLocation)
    (direction : uio.rw = .read) : vopRead f (s, uio) = sfsIo f (s, uio) := by
  unfold vopRead
  rw [bind_ok rfl]
  dsimp only
  rw [bind_ok (onVnode_eq loaded), if_neg (mt (healthy.type_iff loaded).mp other), bind_ok (require_pos direction)]

theorem offT_high (value : Int) : offT value < 2 ^ 31 := by
  unfold offT Int.bmod
  simp only [Nat.reducePow]
  split <;> omega

/-- The number of bytes that `sfs_io` goes for: all of them if the end of the request overflows. -/
theorem readable_untilEnd (fits : uio.Fits) (inside : uio.offset < offT (s.inodeOf f).size.toNat) :
    readable (s.inodeOf f).size uio = if uio.offset + uio.resid < 2 ^ 31 then s.untilEnd f uio else uio.resid := by
  have low := fits.low
  have small := fits.size
  have size := offT_high (s.inodeOf f).size.toNat
  unfold readable Sfs.untilEnd
  rw [if_neg (by omega)]
  split
  next crossing =>
    have low' : 0 ≤ uio.offset + uio.resid := by omega
    rcases offT_le low' (by omega) with same | wraps
    · have bound := offT_high (uio.offset + uio.resid)
      rw [if_pos (by omega)]
      omega
    · omega
  next within =>
    split
    next room =>
      have ending : offT (uio.offset + uio.resid) = uio.offset + uio.resid := offT_small (by omega) (by omega)
      omega
    next => rfl

theorem untilEnd_eq_zero (inside : uio.offset < offT (s.inodeOf f).size.toNat) (zero : s.untilEnd f uio = 0) :
    uio.resid = 0 := by
  unfold Sfs.untilEnd at zero
  omega

theorem untilEnd_lt (inside : uio.offset < offT (s.inodeOf f).size.toNat) (wraps : 2 ^ 31 ≤ uio.offset + uio.resid) :
    s.untilEnd f uio < uio.resid := by
  have size := offT_high (s.inodeOf f).size.toNat
  unfold Sfs.untilEnd
  omega

theorem kernel_read_stops_iff (healthy : s.Healthy held) (loaded : s.vnode? f = some vnode) (other : f ≠ sfsRootLocation)
    (request : IoRequest) (direction : request.uio.rw = .read) (kernel : request.uio.segflg = .sysspace) :
    StopsAtEnd s f request ↔ s.EndInReach f request.uio := by
  have fits := request.fits
  have amount : s.untilEnd f request.uio =
      min request.uio.resid (offT (s.inodeOf f).size.toNat - request.uio.offset).toNat := rfl
  have same := vopRead_eq healthy loaded other direction
  unfold Sfs.EndInReach
  by_cases behind : offT (s.inodeOf f).size.toNat ≤ request.uio.offset
  · refine iff_of_true ⟨request.uio, perform_read (same.trans (sfsIo_behind loaded direction behind)), ?_, ?_⟩
      (.inl behind)
    · omega
    · have none : s.untilEnd f request.uio = 0 := by omega
      rw [none]
      exact (List.append_nil _).symm
  rw [or_iff_right behind]
  have inside : request.uio.offset < offT (s.inodeOf f).size.toNat := by omega
  have bytes := readable_untilEnd fits inside
  obtain ⟨result, ⟨after, uio⟩, computed, whole, outcome⟩ := vopRead_ensures healthy loaded other request direction
  subst whole
  rw [bytes] at outcome
  have empty (nothing : request.uio.resid = 0) :=
    (sfsIo_nothing healthy.consistent loaded fits direction kernel nothing inside).elim (same.symm.trans computed)
  constructor
  · rintro ⟨uio', done, count, _⟩
    cases (perform_read computed).symm.trans done
    rcases outcome with ⟨code, failed, _⟩ | ⟨_, carries, reach⟩
    · cases failed
    have resid := carries.resid
    rw [window_length] at resid
    by_cases room : request.uio.offset + request.uio.resid < 2 ^ 31
    · rw [if_pos room] at reach
      refine ⟨room, ?_⟩
      rcases reach with zero | reach
      · have nothing := untilEnd_eq_zero inside zero
        rcases (empty nothing).mp rfl with aligned | low
        · exact .inr ⟨nothing, aligned⟩
        · exact .inl (by omega)
      · exact .inl reach
    · have less := untilEnd_lt inside (Int.not_lt.mp room)
      rw [if_neg room] at resid
      dsimp only at resid
      clear bytes
      omega
  · rintro ⟨room, reach⟩
    rw [if_pos room] at outcome
    rcases outcome with ⟨code, rfl, beyond⟩ | ⟨rfl, carries, _⟩
    · exfalso
      have nothing : request.uio.resid = 0 ∧ request.uio.position % 512 = 0 := by
        rcases beyond with user | far | far
        · exact absurd kernel user
        · omega
        · omega
      cases (empty nothing.1).mpr (.inl nothing.2)
    · have resid := carries.resid
      rw [window_length] at resid
      exact ⟨uio, perform_read computed, resid, carries.moved⟩

def IoRequest.kernel (request : IoRequest) : IoRequest :=
  ⟨request.uio.kernel, request.seekable, request.position, request.buffer, request.size⟩

theorem stopsAtEnd_kernel {request : IoRequest} (noFaults : request.uio.NoFaults) :
    StopsAtEnd s f request.kernel ↔ StopsAtEnd s f request := by
  have domain : uioFaultless (s, request.uio) := noFaults
  constructor
  · rintro ⟨uio, done, count, moved⟩
    obtain ⟨inner, final, computed, same⟩ := transfer_done done
    cases same
    obtain ⟨⟨after, last⟩, found, whole⟩ := (vopRead_commutes f).back domain computed
    cases whole
    exact ⟨last, perform_read found, count, moved⟩
  · rintro ⟨uio, done, count, moved⟩
    obtain ⟨inner, final, computed, same⟩ := transfer_done done
    cases same
    exact ⟨uio.kernel, perform_read ((vopRead_commutes f).eq domain computed), count, moved⟩

/-- Exactly when a read into memory that can be written stops at the end of the file. -/
theorem read_stops_at_end_iff (sound : s.Sound) (loaded : s.vnode? f = some vnode) (other : f ≠ sfsRootLocation)
    (request : IoRequest) (direction : request.uio.rw = .read)
    (accessible : request.uio.segflg = .sysspace ∨ request.uio.NoFaults) :
    StopsAtEnd s f request ↔ s.EndInReach f request.uio := by
  obtain ⟨held, healthy, _⟩ := sound
  rcases accessible with kernel | noFaults
  · exact kernel_read_stops_iff healthy loaded other request direction kernel
  · rw [← stopsAtEnd_kernel noFaults]
    exact kernel_read_stops_iff healthy loaded other request.kernel direction rfl

theorem shortFile_reached : ∃ s s1 vnode, freshMount 4096 = some s ∧ run sfsStep s (oneByteFile 1 2) = some s1 ∧
    s1.Sound ∧ s1.vnode? 3 = some vnode ∧ offT (s1.inodeOf 3).size.toNat = 2 := by
  obtain ⟨s, s1, vnode, mounted, reached, sound, loaded, size, _⟩ := @oneByteFile_reached 1 2 2 (by decide +kernel)
  refine ⟨s, s1, vnode, mounted, reached, sound, loaded, ?_⟩
  rw [Sfs.inodeOf_loaded loaded, size]
  decide

theorem short_read_stops : ∃ s s1, freshMount 4096 = some s ∧ run sfsStep s (oneByteFile 1 2) = some s1 ∧
    StopsAtEnd s1 3 (readAt 0 10) := by
  obtain ⟨s, s1, vnode, mounted, reached, sound, loaded, size⟩ := shortFile_reached
  refine ⟨s, s1, mounted, reached, (read_stops_at_end_iff sound loaded (by decide) _ rfl (.inl rfl)).mpr ?_⟩
  refine .inr ⟨by decide, .inl ?_⟩
  have few : s1.untilEnd 3 (readAt 0 10).uio ≤ 10 := Nat.min_le_left _ _
  have start : (readAt 0 10).uio.position = 0 := rfl
  omega

/-- A request of 2^31 bytes is not cut at the end of the file. -/
theorem long_read_passes_end : ∃ s s1, freshMount 4096 = some s ∧ run sfsStep s (oneByteFile 1 2) = some s1 ∧
    offT (s1.inodeOf 3).size.toNat = 2 ∧ ¬ StopsAtEnd s1 3 (readAt 0 2147483648) := by
  obtain ⟨s, s1, vnode, mounted, reached, ⟨held, healthy, _⟩, loaded, size⟩ := shortFile_reached
  refine ⟨s, s1, mounted, reached, size, fun stops => ?_⟩
  rcases (kernel_read_stops_iff healthy loaded (by decide) _ rfl rfl).mp stops with behind | ⟨room, _⟩
  · rw [size] at behind
    exact absurd behind (by decide)
  · exact absurd room (by decide)

end ReadEnd

end Os161
