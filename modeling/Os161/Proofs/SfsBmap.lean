import Os161.Proofs.SfsBookkeeping

/-! Block mapping. Allocating a block leaves the contents of the file as they were, also when it stops half-way. -/

namespace Os161
open Routine Function

structure Kept (live held : UInt32 → Prop) (i : UInt32) (s s' : Sfs) : Prop where
  step : FileStep live i s s'
  consistent : s'.Consistent live held
  filled : ∀ p, s.slot i p ≠ 0 → s'.slot i p = s.slot i p
  bytes : ∀ pos, s'.byte i pos = s.byte i pos
  size : (s'.inodeOf i).size = (s.inodeOf i).size
  type : (s'.inodeOf i).type = (s.inodeOf i).type
  linkcount : (s'.inodeOf i).linkcount = (s.inodeOf i).linkcount

section Kept

variable {live held : UInt32 → Prop} {i : UInt32} {s s' s'' : Sfs}

theorem Kept.refl (before : s.Consistent live held) : Kept live held i s s :=
  ⟨FileStep.refl s, before, fun _ _ => rfl, fun _ => rfl, rfl, rfl, rfl⟩

theorem Kept.trans (first : Kept live held i s s') (second : Kept live held i s' s'') : Kept live held i s s'' where
  step := first.step.trans second.step
  consistent := second.consistent
  filled := by
    intro p present
    have same := first.filled p present
    rw [second.filled p (same ▸ present), same]
  bytes := fun pos => (second.bytes pos).trans (first.bytes pos)
  size := second.size.trans first.size
  type := second.type.trans first.type
  linkcount := second.linkcount.trans first.linkcount

theorem FileStep.loaded (step : FileStep live i s s') {j vnode} (loaded : s.vnode? j = some vnode) :
    ∃ vnode', s'.vnode? j = some vnode' := by
  cases found : s'.vnode? j with
  | some vnode' => exact ⟨vnode', rfl⟩
  | none =>
    rw [vnode?_eq_none, step.inos, ← vnode?_eq_none, loaded] at found
    cases found

theorem byte_attach {fresh p} (hole : s.slot i p = 0)
    (slots : ∀ q, s'.slot i q = if q = p then fresh else s.slot i q) (cleared : s'.device.sectors fresh = Block.zeros)
    (sectors : ∀ q, s.slot i q ≠ 0 → s'.device.sectors (s.slot i q) = s.device.sectors (s.slot i q)) (pos : Nat) :
    s'.byte i pos = s.byte i pos := by
  unfold Sfs.byte
  rw [slots]
  by_cases same : pos / 512 = p
  · rw [if_pos same, same, hole, cleared, if_pos rfl]
    exact ite_self 0
  · rw [if_neg same]
    split
    · rfl
    · next present => rw [sectors _ present]

theorem filled_attach {fresh p} (hole : s.slot i p = 0)
    (slots : ∀ q, s'.slot i q = if q = p then fresh else s.slot i q) (q : Nat) (present : s.slot i q ≠ 0) :
    s'.slot i q = s.slot i q := by
  rw [slots, if_neg]
  rintro rfl
  exact present hole

theorem slot_setDirect {p block} (inode : s'.inodeOf i = (s.inodeOf i).setDirect p block)
    (listed : s'.listed i = s.listed i) (q : Nat) : s'.slot i q = if q = p.val then block else s.slot i q := by
  rcases slot_cases q with ⟨d, rfl⟩ | ⟨j, rfl⟩ | beyond
  · rw [Sfs.slot_direct, Sfs.slot_direct, inode]
    simp only [SfsInode.setDirect, update_apply, Fin.ext_iff]
  · rw [Sfs.slot_listed, Sfs.slot_listed, listed, if_neg (by omega)]
  · rw [Sfs.slot_beyond beyond, Sfs.slot_beyond beyond, if_neg (by omega)]

end Kept

section Attach

variable {live held : UInt32 → Prop} {i : UInt32} {s : Sfs} {vnode : SfsVnode} {fresh : UInt32}
  (before : s.Consistent live held) (loaded : s.vnode? i = some vnode) (inside : fresh < s.nblocks)
  (free : ¬ s.Marked fresh)
include before

theorem Sfs.Consistent.fresh_ne_zero (free : ¬ s.Marked fresh) : fresh ≠ 0 := by
  rintro rfl
  have owns : s.Owns live .super 0 := rfl
  exact free (before.marked owns)

theorem Sfs.Consistent.sector_of_slot (isLive : live i) (free : ¬ s.Marked fresh) {q} (present : s.slot i q ≠ 0) :
    (s.grab fresh).device.sectors (s.slot i q) = s.device.sectors (s.slot i q) := by
  have owns : s.Owns live (.data i q) (s.slot i q) := ⟨isLive, present, rfl⟩
  exact if_neg (before.free owns free)

theorem Sfs.Consistent.listed_grab (isLive : live i) (free : ¬ s.Marked fresh) {s' : Sfs}
    (indirect : (s'.inodeOf i).indirect = (s.inodeOf i).indirect)
    (sectors : s'.device.sectors = (s.grab fresh).device.sectors) : s'.listed i = s.listed i := by
  unfold Sfs.listed
  rw [indirect, sectors]
  split
  · rfl
  · next present =>
    have owns : s.Owns live (.indirect i) (s.inodeOf i).indirect := ⟨isLive, present, rfl⟩
    have same : (s.grab fresh).device.sectors (s.inodeOf i).indirect = s.device.sectors (s.inodeOf i).indirect :=
      if_neg (before.free owns free)
    rw [same]

include loaded inside free

theorem attach_direct {p : Fin 15} (hole : (s.inodeOf i).direct p = 0) :
    Kept live held i s ((s.grab fresh).setInode i (·.setDirect p fresh)) ∧
      ((s.grab fresh).setInode i (·.setDirect p fresh)).slot i p = fresh := by
  have isLive := before.isLive loaded
  have step : FileStep live i s ((s.grab fresh).setInode i (·.setDirect p fresh)) :=
    (step_grab before isLive free).trans (step_setInode _)
  have present : (s.grab fresh).vnode? i = some vnode := loaded
  have inode : ((s.grab fresh).setInode i (·.setDirect p fresh)).inodeOf i = (s.inodeOf i).setDirect p fresh := by
    rw [inodeOf_setInode present, Sfs.inodeOf_loaded present, Sfs.inodeOf_loaded loaded]
  generalize target : (s.grab fresh).setInode i (·.setDirect p fresh) = s' at step inode ⊢
  have sectors : s'.device.sectors = (s.grab fresh).device.sectors := by rw [← target]; rfl
  have marked : ∀ block, s'.Marked block ↔ s.Marked block ∨ block = fresh := by
    rw [← target]
    exact marked_grab before.geometry inside
  have listed : s'.listed i = s.listed i := before.listed_grab isLive free (by rw [inode]; rfl) sectors
  have slots := slot_setDirect inode listed
  have empty : s.slot i p.val = 0 := by rw [Sfs.slot_direct, hole]
  have nonzero := before.fresh_ne_zero free
  refine ⟨⟨step, step.consistent before ?_, ?_, ?_, ?_, ?_, ?_⟩, ?_⟩
  · exact step.ledger_data before isLive free nonzero empty (by rw [inode]; rfl) slots marked
  · exact filled_attach empty slots
  · refine byte_attach empty slots ?_ fun q present => ?_
    · rw [sectors]
      exact if_pos rfl
    · rw [sectors, before.sector_of_slot isLive free present]
  · rw [inode]; rfl
  · rw [inode]; rfl
  · rw [inode]; rfl
  · rw [slots, if_pos rfl]

theorem attach_indirect (missing : (s.inodeOf i).indirect = 0) :
    Kept live held i s ((s.grab fresh).setInode i fun inode => { inode with indirect := fresh }) ∧
      (((s.grab fresh).setInode i fun inode => { inode with indirect := fresh }).inodeOf i).indirect = fresh ∧
      ((s.grab fresh).setInode i fun inode => { inode with indirect := fresh }).listed i = Words.zeros := by
  have isLive := before.isLive loaded
  have step : FileStep live i s ((s.grab fresh).setInode i fun inode => { inode with indirect := fresh }) :=
    (step_grab before isLive free).trans (step_setInode _)
  have present : (s.grab fresh).vnode? i = some vnode := loaded
  have inode : ((s.grab fresh).setInode i fun inode => { inode with indirect := fresh }).inodeOf i =
      { s.inodeOf i with indirect := fresh } := by
    rw [inodeOf_setInode present, Sfs.inodeOf_loaded present, Sfs.inodeOf_loaded loaded]
  generalize target : ((s.grab fresh).setInode i fun inode => { inode with indirect := fresh }) = s' at step inode ⊢
  have sectors : s'.device.sectors = (s.grab fresh).device.sectors := by rw [← target]; rfl
  have marked : ∀ block, s'.Marked block ↔ s.Marked block ∨ block = fresh := by
    rw [← target]
    exact marked_grab before.geometry inside
  have nonzero := before.fresh_ne_zero free
  have indirect : (s'.inodeOf i).indirect = fresh := by rw [inode]
  have empty : s'.listed i = Words.zeros := by
    have cleared : (s.grab fresh).device.sectors fresh = Block.zeros := if_pos rfl
    rw [Sfs.listed, indirect, if_neg nonzero, sectors, cleared, Words.ofBlock_zeros]
  have slots : ∀ q, s'.slot i q = s.slot i q := by
    apply Sfs.slot_congr
    · rw [inode]
    · rw [empty, Sfs.listed, if_pos missing]
  refine ⟨⟨step, step.consistent before ?_, fun p _ => slots p, ?_, ?_, ?_, ?_⟩, indirect, empty⟩
  · exact step.ledger_indirect before isLive free nonzero missing indirect slots marked
  · intro pos
    unfold Sfs.byte
    rw [slots]
    split
    · rfl
    · next present => rw [sectors, before.sector_of_slot isLive free present]
  · rw [inode]
  · rw [inode]
  · rw [inode]

theorem attach_listed {j} (present : (s.inodeOf i).indirect ≠ 0) (hole : s.listed i j = 0) :
    Kept live held i s
        ((s.grab fresh).store (s.inodeOf i).indirect (Words.toBlock (update (s.listed i) j fresh))) ∧
      ((s.grab fresh).store (s.inodeOf i).indirect (Words.toBlock (update (s.listed i) j fresh))).slot i
        (15 + j) = fresh := by
  have isLive := before.isLive loaded
  have owns : s.Owns live (.indirect i) (s.inodeOf i).indirect := ⟨isLive, present, rfl⟩
  generalize target :
    (s.grab fresh).store (s.inodeOf i).indirect (Words.toBlock (update (s.listed i) j fresh)) = s'
  have stored : s'.device.sectors (s.inodeOf i).indirect = Words.toBlock (update (s.listed i) j fresh) := by
    rw [← target]
    exact if_pos rfl
  have sectors : ∀ block, block ≠ (s.inodeOf i).indirect →
      s'.device.sectors block = (s.grab fresh).device.sectors block := by
    intro block other
    rw [← target]
    exact if_neg other
  have step : FileStep live i s s' := by
    refine step_device isLive ?_ ?_ ?_ ?_ ?_ ?_ ?_
    · rw [← target]
      exact fun geometry => (geometry.grab fresh).store _ _
    · rw [← target]; rfl
    · rw [← target]; rfl
    · rw [← target]; rfl
    · rw [← target]; exact nofun
    · rw [← target]; rfl
    · intro owner block outside owns'
      rw [sectors]
      · exact if_neg (before.free owns' free)
      · rintro rfl
        cases before.ledger.unique owns owns'
        cases outside rfl
  have inode : s'.inodeOf i = s.inodeOf i := by
    have still : s'.vnode? i = some vnode := by
      rw [← target]
      exact loaded
    rw [Sfs.inodeOf_loaded still, Sfs.inodeOf_loaded loaded]
  have marked : ∀ block, s'.Marked block ↔ s.Marked block ∨ block = fresh := by
    rw [← target]
    exact marked_grab before.geometry inside
  have listed : s'.listed i = update (s.listed i) j fresh := by
    rw [Sfs.listed, inode, if_neg present, stored, Words.ofBlock_toBlock]
  have slots : ∀ q, s'.slot i q = if q = 15 + j.val then fresh else s.slot i q := by
    intro q
    rcases slot_cases q with ⟨d, rfl⟩ | ⟨k, rfl⟩ | beyond
    · rw [Sfs.slot_direct, Sfs.slot_direct, inode, if_neg (by omega)]
    · rw [Sfs.slot_listed, Sfs.slot_listed, listed, update_apply]
      simp only [Fin.ext_iff, Nat.add_left_cancel_iff]
    · rw [Sfs.slot_beyond beyond, Sfs.slot_beyond beyond, if_neg (by omega)]
  have empty : s.slot i (15 + j.val) = 0 := by rw [Sfs.slot_listed, hole]
  have nonzero := before.fresh_ne_zero free
  refine ⟨⟨step, step.consistent before ?_, ?_, ?_, ?_, ?_, ?_⟩, ?_⟩
  · exact step.ledger_data before isLive free nonzero empty (by rw [inode]) slots marked
  · exact filled_attach empty slots
  · refine byte_attach empty slots ?_ fun q full => ?_
    · rw [sectors _ (before.free owns free).symm]
      exact if_pos rfl
    · rw [sectors, before.sector_of_slot isLive free full]
      intro same
      have data : s.Owns live (.data i q) (s.slot i q) := ⟨isLive, full, rfl⟩
      rw [same] at data
      cases before.ledger.unique data owns
  · rw [inode]
  · rw [inode]
  · rw [inode]
  · rw [slots, if_pos rfl]

end Attach

section Bmap

variable {live held : UInt32 → Prop} {i : UInt32} {s : Sfs} {vnode : SfsVnode}

theorem Sfs.Consistent.refuse (before : s.Consistent live held) (isLive : live i) : Kept live held i s s.refuse := by
  have step : FileStep live i s s.refuse := step_refuse isLive
  refine ⟨step, step.consistent before ?_, fun _ _ => rfl, fun _ => rfl, rfl, rfl, rfl⟩
  exact step.ledger_same before rfl (fun _ => rfl) fun _ => Iff.rfl

theorem bmapResult_eq (before : s.Consistent live held) (isLive : live i) (p : Nat) :
    bmapResult (s.slot i p) s = some (.ok (s.slot i p), s) := by
  unfold bmapResult
  split
  · next present =>
    have owns : s.Owns live (.data i p) (s.slot i p) := ⟨isLive, present, rfl⟩
    rw [bind_ok (sfsBused_eq (before.inside owns) (before.marked owns)), bind_ok (require_pos rfl)]
    rfl
  · rfl

/-- What `sfs_bmap` does for block `p` when it may allocate. -/
def Mapped (live held : UInt32 → Prop) (i : UInt32) (s : Sfs) (p : Nat) (result : Except Errno UInt32) (s' : Sfs) : Prop :=
  Kept live held i s s' ∧ (result = .error .enospc ∧ s.slot i p = 0 ∨
    ∃ block, result = .ok block ∧ block ≠ 0 ∧ s'.slot i p = block)

theorem mapped_result {s'} (kept : Kept live held i s s') (isLive : live i) {p block}
    (slot : s'.slot i p = block) (nonzero : block ≠ 0) :
    (bmapResult block).Ensures s' (Mapped live held i s p) := by
  refine .of_eq ?_ ⟨kept, Or.inr ⟨block, rfl, nonzero, slot⟩⟩
  rw [← slot]
  exact bmapResult_eq kept.consistent isLive p

variable (before : s.Consistent live held) (loaded : s.vnode? i = some vnode)
include before loaded

theorem bmapDirect_ensures (p : Fin 15) : (bmapDirect i p true).Ensures s (Mapped live held i s p) := by
  have isLive := before.isLive loaded
  have inode := Sfs.inodeOf_loaded loaded
  refine .step (theVnode_eq loaded) ?_
  rw [← inode]
  split
  · next missing =>
    rw [ensures_bind]
    apply (sfsBalloc_ensures before.geometry before.reserved).mono
    intro result after outcome
    rcases outcome with ⟨rfl, rfl, -⟩ | ⟨fresh, rfl, inside, free, rfl⟩
    · exact ⟨before.refuse isLive, Or.inl ⟨rfl, by rw [Sfs.slot_direct, missing.1]⟩⟩
    · obtain ⟨kept, slot⟩ := attach_direct before loaded inside free missing.1
      rw [after_ok, ensures_bind]
      refine .of_eq (changeInode_eq _) ?_
      exact mapped_result kept isLive slot (before.fresh_ne_zero free)
  · next present =>
    rw [← Sfs.slot_direct]
    rw [← Sfs.slot_direct] at present
    exact mapped_result (Kept.refl before) isLive rfl (by simpa using present)

theorem bmapIndirectBlock_ensures :
    (bmapIndirectBlock i (s.inodeOf i).indirect).Ensures s fun result after =>
      Kept live held i s after ∧ (result = .error .enospc ∧ s.listed i = Words.zeros ∨
        (after.inodeOf i).indirect ≠ 0 ∧ result = .ok ((after.inodeOf i).indirect, after.listed i)) := by
  have isLive := before.isLive loaded
  unfold bmapIndirectBlock
  split
  · next missing =>
    rw [ensures_bind]
    apply (sfsBalloc_ensures before.geometry before.reserved).mono
    intro result after outcome
    rcases outcome with ⟨rfl, rfl, -⟩ | ⟨fresh, rfl, inside, free, rfl⟩
    · exact ⟨before.refuse isLive, Or.inl ⟨rfl, by rw [Sfs.listed, if_pos missing]⟩⟩
    · obtain ⟨kept, indirect, empty⟩ := attach_indirect before loaded inside free missing
      refine .step (changeInode_eq _) ?_
      rw [ensures_pure]
      refine ⟨kept, Or.inr ?_⟩
      rw [indirect, empty]
      exact ⟨before.fresh_ne_zero free, rfl⟩
  · next present =>
    have owns : s.Owns live (.indirect i) (s.inodeOf i).indirect := ⟨isLive, present, rfl⟩
    refine .step (rblock_eq before.geometry (before.inside owns) _) ?_
    rw [ensures_pure]
    refine ⟨Kept.refl before, Or.inr ⟨present, ?_⟩⟩
    rw [Sfs.listed, if_neg present]

theorem bmapIndirect_ensures (j : Fin 128) : (bmapIndirect i j true).Ensures s (Mapped live held i s (15 + j)) := by
  have isLive := before.isLive loaded
  have inode := Sfs.inodeOf_loaded loaded
  refine .step (theVnode_eq loaded) ?_
  rw [← inode, if_neg (by simp), ensures_bind]
  apply (bmapIndirectBlock_ensures before loaded).mono
  intro result middle ⟨kept, outcome⟩
  rcases outcome with ⟨rfl, empty⟩ | ⟨present, rfl⟩
  · refine ⟨kept, Or.inl ⟨rfl, ?_⟩⟩
    rw [Sfs.slot_listed, empty]
    rfl
  · obtain ⟨vnode', still⟩ := kept.step.loaded loaded
    have owns : middle.Owns live (.indirect i) (middle.inodeOf i).indirect := ⟨isLive, present, rfl⟩
    rw [after_ok]
    simp only
    split
    · next missing =>
      rw [ensures_bind]
      apply (sfsBalloc_ensures kept.consistent.geometry kept.consistent.reserved).mono
      intro result after outcome
      rcases outcome with ⟨rfl, rfl, -⟩ | ⟨fresh, rfl, inside, free, rfl⟩
      · refine ⟨kept.trans (kept.consistent.refuse isLive), Or.inl ⟨rfl, ?_⟩⟩
        by_contra full
        have same := kept.filled _ full
        rw [Sfs.slot_listed, missing.1] at same
        exact full same.symm
      · obtain ⟨grown, slot⟩ := attach_listed kept.consistent still inside free present missing.1
        rw [after_ok, ensures_bind]
        have range := kept.consistent.inside owns
        refine .of_eq (wblock_eq (kept.consistent.geometry.grab fresh) range _) ?_
        exact mapped_result (kept.trans grown) isLive slot (kept.consistent.fresh_ne_zero free)
    · next full =>
      rw [← Sfs.slot_listed]
      rw [← Sfs.slot_listed] at full
      exact mapped_result kept isLive rfl (by simpa using full)

theorem sfsBmap_alloc (p : UInt32) :
    (sfsBmap i p true).Ensures s fun result after =>
      (143 ≤ p.toNat ∧ result = .error .einval ∧ after = s) ∨ p.toNat < 143 ∧ Mapped live held i s p.toNat result after := by
  unfold sfsBmap sfsNdirect sfsDbperidb
  split
  · next direct =>
    apply (bmapDirect_ensures before loaded ⟨p.toNat, direct⟩).mono
    exact fun _ _ mapped => Or.inr ⟨by omega, mapped⟩
  · next later =>
    simp only
    split
    · next beyond =>
      rw [ensures_fail]
      exact Or.inl ⟨by omega, rfl, rfl⟩
    · next listed =>
      apply (bmapIndirect_ensures before loaded ⟨(p.toNat - 15) % 128, Nat.mod_lt _ (by decide)⟩).mono
      intro result after mapped
      have index : 15 + (p.toNat - 15) % 128 = p.toNat := by omega
      rw [index] at mapped
      exact Or.inr ⟨by omega, mapped⟩

theorem sfsBmap_read (p : UInt32) :
    sfsBmap i p false s = some (if p.toNat < 143 then .ok (s.slot i p.toNat) else .error .einval, s) := by
  have isLive := before.isLive loaded
  have inode := Sfs.inodeOf_loaded loaded
  unfold sfsBmap sfsNdirect sfsDbperidb
  split
  · next direct =>
    have slot : s.slot i p.toNat = vnode.inode.direct ⟨p.toNat, direct⟩ := by
      rw [← inode]
      exact Sfs.slot_direct (⟨p.toNat, direct⟩ : Fin 15)
    unfold bmapDirect
    rw [bind_ok (theVnode_eq loaded), if_neg (by simp), if_pos (by omega), ← slot]
    exact bmapResult_eq before isLive _
  · next later =>
    simp only
    split
    · rw [if_neg (by omega)]
      rfl
    · next listed =>
      have index : 15 + (p.toNat - 15) % 128 = p.toNat := by omega
      have slot : s.slot i p.toNat = s.listed i ⟨(p.toNat - 15) % 128, Nat.mod_lt _ (by decide)⟩ := by
        rw [← Sfs.slot_listed, index]
      unfold bmapIndirect
      rw [bind_ok (theVnode_eq loaded), if_pos (show p.toNat < 143 by omega), ← inode]
      split
      · next missing =>
        rw [slot, Sfs.listed, if_pos missing.1]
        rfl
      · next present =>
        have nonzero : (s.inodeOf i).indirect ≠ 0 := by simpa using present
        have owns : s.Owns live (.indirect i) (s.inodeOf i).indirect := ⟨isLive, nonzero, rfl⟩
        have read : bmapIndirectBlock i (s.inodeOf i).indirect s =
            some (.ok ((s.inodeOf i).indirect, s.listed i), s) := by
          unfold bmapIndirectBlock
          rw [if_neg nonzero, bind_ok (rblock_eq before.geometry (before.inside owns) _), Sfs.listed, if_neg nonzero]
          rfl
        rw [bind_ok read]
        simp only [Bool.false_eq_true, and_false, if_false]
        rw [← slot]
        exact bmapResult_eq before isLive _

end Bmap

end Os161
