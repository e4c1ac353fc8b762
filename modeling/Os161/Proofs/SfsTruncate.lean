import Os161.Proofs.SfsReadWrite

/-! Truncation gives blocks back one by one; the bookkeeping is right again once the indirect block is written or
freed. -/

namespace Os161
open Routine Function List

structure Cut (live held : UInt32 → Prop) (i : UInt32) (s s' : Sfs) : Prop where
  step : FileStep live i s s'
  consistent : s'.Consistent live held
  size : (s'.inodeOf i).size = (s.inodeOf i).size
  type : (s'.inodeOf i).type = (s.inodeOf i).type
  linkcount : (s'.inodeOf i).linkcount = (s.inodeOf i).linkcount
  shrinks : ∀ q, s'.slot i q = s.slot i q ∨ s'.slot i q = 0

structure Trimmed (live held : UInt32 → Prop) (i : UInt32) (blocklen : Nat) (s s' : Sfs) : Prop where
  cut : Cut live held i s s'
  slots : ∀ q, s'.slot i q = if 15 ≤ q ∧ blocklen < q ∧ blocklen < 142 then 0 else s.slot i q
  freed : blocklen < 142 → (∀ q, 15 ≤ q → s'.slot i q = 0) → (s'.inodeOf i).indirect = 0
  stays : 142 ≤ blocklen ∨ (∃ q, 15 ≤ q ∧ s'.slot i q ≠ 0) → (s'.inodeOf i).indirect = (s.inodeOf i).indirect
  sectors : ∀ block, block ≠ (s.inodeOf i).indirect → s'.device.sectors block = s.device.sectors block

section Cut

variable {live held : UInt32 → Prop} {i : UInt32} {s s' s'' : Sfs} {vnode : SfsVnode}

theorem Cut.refl (before : s.Consistent live held) : Cut live held i s s :=
  ⟨FileStep.refl s, before, rfl, rfl, rfl, fun _ => .inl rfl⟩

theorem Cut.trans (first : Cut live held i s s') (second : Cut live held i s' s'') : Cut live held i s s'' where
  step := first.step.trans second.step
  consistent := second.consistent
  size := second.size.trans first.size
  type := second.type.trans first.type
  linkcount := second.linkcount.trans first.linkcount
  shrinks := by
    intro q
    rcases second.shrinks q with same | gone
    · rw [same]
      exact first.shrinks q
    · exact .inr gone

theorem Cut.gone (cut : Cut live held i s s') {q} (gone : s.slot i q = 0) : s'.slot i q = 0 := by
  rcases cut.shrinks q with same | gone'
  · rw [same, gone]
  · exact gone'

theorem cut_direct (before : s.Consistent live held) (loaded : s.vnode? i = some vnode) {p}
    (present : vnode.inode.direct p ≠ 0) :
    Cut live held i s ((s.release (vnode.inode.direct p)).setInode i (·.setDirect p 0)) ∧
      (∀ q, ((s.release (vnode.inode.direct p)).setInode i (·.setDirect p 0)).slot i q =
        if q = p.val then 0 else s.slot i q) ∧
      (((s.release (vnode.inode.direct p)).setInode i (·.setDirect p 0)).inodeOf i).indirect =
        (s.inodeOf i).indirect := by
  have isLive := before.isLive loaded
  have here : s.slot i p = vnode.inode.direct p := by rw [Sfs.slot_direct, Sfs.inodeOf_loaded loaded]
  have owns : s.Owns live (.data i p) (vnode.inode.direct p) := ⟨isLive, present, here.symm⟩
  have step : FileStep live i s ((s.release (vnode.inode.direct p)).setInode i (·.setDirect p 0)) :=
    (step_release isLive _).trans (step_setInode _)
  have still : (s.release (vnode.inode.direct p)).vnode? i = some vnode := loaded
  have inode : ((s.release (vnode.inode.direct p)).setInode i (·.setDirect p 0)).inodeOf i =
      (s.inodeOf i).setDirect p 0 := by
    rw [inodeOf_setInode still, Sfs.inodeOf_loaded still, Sfs.inodeOf_loaded loaded]
  generalize target : (s.release (vnode.inode.direct p)).setInode i (·.setDirect p 0) = s' at step inode ⊢
  have marked : ∀ block, s'.Marked block ↔ s.Marked block ∧ block ≠ vnode.inode.direct p := by
    rw [← target]
    exact marked_release before.geometry (before.inside owns)
  have listed : s'.listed i = s.listed i := by
    unfold Sfs.listed
    rw [inode, ← target]
    rfl
  have slots := slot_setDirect inode listed
  refine ⟨⟨step, step.consistent before ?_, ?_, ?_, ?_, ?_⟩, slots, ?_⟩
  · refine step.ledger_drop before (fun q => q = p.val) False ?_ slots ?_
    · rw [inode]
      rfl
    · intro block
      rw [marked]
      apply and_congr_right
      intro _
      apply not_congr
      constructor
      · rintro rfl
        exact .inl ⟨p, rfl, owns⟩
      · rintro (⟨q, rfl, _, _, same⟩ | ⟨impossible, _⟩)
        · rw [same, here]
        · exact impossible.elim
  · rw [inode]; rfl
  · rw [inode]; rfl
  · rw [inode]; rfl
  · intro q
    rw [slots]
    split
    · exact .inr rfl
    · exact .inl rfl
  · rw [inode]; rfl

theorem truncateDirect_ensures (blocklen : UInt32) (left : List (Fin 15)) (before : s.Consistent live held)
    (loaded : s.vnode? i = some vnode) :
    (truncateDirect i blocklen left).Ensures s fun result after =>
      result = .ok () ∧ Cut live held i s after ∧ (∀ p ∈ left, blocklen.toNat ≤ p → after.slot i p = 0) ∧
      (∀ q, q < blocklen.toNat ∨ 15 ≤ q → after.slot i q = s.slot i q) ∧
      (after.inodeOf i).indirect = (s.inodeOf i).indirect ∧ after.device = s.device := by
  induction left generalizing s vnode with
  | nil =>
    rw [truncateDirect, ensures_pure]
    exact ⟨rfl, Cut.refl before, nofun, fun _ _ => rfl, rfl, rfl⟩
  | cons p left again =>
    have here : s.slot i p = vnode.inode.direct p := by rw [Sfs.slot_direct, Sfs.inodeOf_loaded loaded]
    refine .step (theVnode_eq loaded) ?_
    dsimp only
    split
    next dropped =>
      obtain ⟨cut, slots, indirect⟩ := cut_direct before loaded dropped.2
      obtain ⟨vnode', still⟩ := cut.step.loaded loaded
      have owns : s.Owns live (.data i p) (vnode.inode.direct p) := ⟨before.isLive loaded, dropped.2, here.symm⟩
      refine .step (sfsBfree_eq before.geometry (before.marked owns)) ?_
      rw [ensures_bind]
      refine .of_eq (changeInode_eq _) ?_
      apply (again cut.consistent still).mono
      intro result after outcome
      obtain ⟨done, later, rest, kept, same, device⟩ := outcome
      refine ⟨done, cut.trans later, fun q member beyond => ?_, fun q spared => ?_, same.trans indirect, device⟩
      · rcases mem_cons.mp member with rfl | member
        · exact later.gone (by rw [slots, if_pos rfl])
        · exact rest q member beyond
      · rw [kept q spared, slots, if_neg (by omega)]
    next stays =>
      apply (again before loaded).mono
      intro result after outcome
      obtain ⟨done, later, rest, kept⟩ := outcome
      refine ⟨done, later, fun q member beyond => ?_, kept⟩
      rcases mem_cons.mp member with rfl | member
      · apply later.gone
        rw [here]
        by_contra present
        exact stays ⟨beyond, present⟩
      · exact rest q member beyond

end Cut

def Sfs.withOutcomes (s : Sfs) (outcomes : Nat → Bool) : Sfs := { s with device := { s.device with outcomes } }

/-- The indirect block is written back, because some of what it lists goes and some stays. -/
def Sfs.WritesBack (s : Sfs) (i : UInt32) (blocklen : Nat) : Prop :=
  blocklen < 142 ∧ (∃ q, 15 ≤ q ∧ blocklen < q ∧ s.slot i q ≠ 0) ∧ ∃ q, 15 ≤ q ∧ q ≤ blocklen ∧ s.slot i q ≠ 0

/-- The indirect block is needed, and all attempts to read it fail. -/
def Sfs.ListUnread (s : Sfs) (i : UInt32) (blocklen : Nat) (outcomes : Nat → Bool) : Prop :=
  blocklen < 142 ∧ (s.inodeOf i).indirect ≠ 0 ∧ ∀ k ≤ 10, outcomes k = false

/-- The indirect block is read, after which the attempt to write it back fails. -/
def Sfs.LosesList (s : Sfs) (i : UInt32) (blocklen : Nat) (outcomes : Nat → Bool) : Prop :=
  s.WritesBack i blocklen ∧
    ∃ k ≤ 10, (s.withOutcomes outcomes).device.FirstSuccess k ∧ outcomes (k + 1) = false

section Outcomes

variable {s : Sfs} {i block : UInt32} {outcomes : Nat → Bool}

theorem withOutcomes_works (geometry : s.Geometry) : s.withOutcomes (fun _ => true) = s := by
  rw [Sfs.withOutcomes, ← geometry.works]

theorem theVnode_commutes (i : UInt32) : (theVnode i).Commutes (fun _ => True) (·.withOutcomes outcomes) := by
  refine commutes_get_bind (fun _ _ => rfl) fun s _ => ?_
  cases s.vnode? i with
  | none => exact commutes_halt
  | some vnode => exact commutes_pure vnode

theorem sfsBfree_commutes (block : UInt32) :
    (sfsBfree block).Commutes (fun _ => True) (·.withOutcomes outcomes) := by
  refine Commutes.bind ?_ fun _ => commutes_modify (fun _ _ => rfl) fun _ _ => trivial
  exact commutes_id.zoom (fun _ => rfl) (fun _ _ => rfl) (fun _ _ => trivial) fun _ _ _ _ => trivial

theorem changeInode_commutes (f : SfsInode → SfsInode) : (changeInode i f).Commutes (fun _ => True) (·.withOutcomes outcomes) :=
  commutes_modify (fun _ _ => rfl) fun _ _ => trivial

theorem truncateDirect_commutes (blocklen : UInt32) (left : List (Fin 15)) :
    (truncateDirect i blocklen left).Commutes (fun _ => True) (·.withOutcomes outcomes) := by
  induction left with
  | nil => exact commutes_pure ()
  | cons p left again =>
    refine (theVnode_commutes i).bind fun vnode => ?_
    dsimp only
    split
    · exact (sfsBfree_commutes _).bind fun _ => (changeInode_commutes _).bind fun _ => again
    · exact again

theorem truncateListed_commutes (blocklen : UInt32) (left : List (Fin 128)) (idbuf : Words) (iddirty : Bool) :
    (truncateListed blocklen left idbuf iddirty).Commutes (fun _ => True) (·.withOutcomes outcomes) := by
  induction left generalizing idbuf iddirty with
  | nil => exact commutes_pure (idbuf, iddirty)
  | cons j left again =>
    unfold truncateListed
    split
    · exact (sfsBfree_commutes _).bind fun _ => again _ _
    · exact again _ _

theorem rblock_outcomes (geometry : s.Geometry) (inside : block < s.nblocks) (data : Block) :
    (onDevice (sfsRblock data block)).Ensures (s.withOutcomes outcomes) fun result after =>
      (∀ k ≤ 10, outcomes k = false) ∧ result = .error .eio ∨
      ∃ k ≤ 10, (s.withOutcomes outcomes).device.FirstSuccess k ∧ result = .ok (s.device.sectors block) ∧
        after = s.withOutcomes fun n => outcomes (n + (k + 1)) := by
  obtain ⟨same, range⟩ := geometry.sector inside
  have reads := @sfsRblock_reads (s.withOutcomes outcomes).device data block range
  unfold onDevice
  rw [ensures_zoom]
  apply reads.mono
  intro result after outcome
  rcases outcome with failing | ⟨⟨k, early, first, rfl⟩, rfl⟩
  · exact .inl failing
  · rw [same]
    exact .inr ⟨k, early, first, rfl, rfl⟩

/-- A write that fails is not noticed. -/
theorem wblock_outcomes (geometry : s.Geometry) (inside : block < s.nblocks) (data : Block) :
    onDevice (sfsWblock data block) (s.withOutcomes outcomes) =
      some (.ok (), (if outcomes 0 = true then s.store block data else s).withOutcomes fun n => outcomes (n + 1)) := by
  obtain ⟨same, range⟩ := geometry.sector inside
  have range' : sfsSector block < (s.withOutcomes outcomes).device.dBlocks := range
  unfold onDevice zoom
  split
  next succeeds =>
    have first : (s.withOutcomes outcomes).device.outcomes 0 = true := succeeds
    rw [sfsWblock_stores range' first, same]
    rfl
  next fails =>
    have first : (s.withOutcomes outcomes).device.outcomes 0 = false := Bool.eq_false_of_not_eq_true fails
    have small := geometry.small inside
    have next : (sfsNextSector block).toNat = block.toNat + 1 := by
      have position : offT (block.toNat * 512) = block.toNat * 512 := offT_small (by omega) (by omega)
      have behind : offT (block.toNat * 512 + 512) = (block.toNat + 1) * 512 := by
        rw [offT_small (by omega) (by omega)]
        omega
      rw [sfsNextSector, position, behind, Int.mul_tdiv_cancel _ (by decide), u32_small (by omega) (by omega)]
      omega
    have within : ¬ (s.withOutcomes outcomes).device.dBlocks < sfsNextSector block := by
      rw [same, UInt32.lt_iff_toNat_lt] at range'
      rw [UInt32.lt_iff_toNat_lt]
      omega
    rw [sfsWblock_loses range' first, if_neg within]
    rfl

end Outcomes

/-- While blocks of the indirect block are freed, the buffer has 0 for those gone, and the disk still lists all. -/
structure Freeing (i : UInt32) (s : Sfs) (idbuf : Words) (s' : Sfs) : Prop where
  geometry : s'.Geometry
  rest : s' = { s with freemap := s'.freemap, freemapdirty := s'.freemapdirty }
  nbits : s'.freemap.nbits = s.freemap.nbits
  clean : s'.freemapdirty = false → s.freemapdirty = false ∧ s'.freemap = s.freemap
  buffer : ∀ j, idbuf j = s.listed i j ∨ idbuf j = 0
  bits : ∀ block, s'.Marked block ↔ s.Marked block ∧ ¬ ∃ j, idbuf j = 0 ∧ block ≠ 0 ∧ block = s.listed i j

section Freeing

variable {live held : UInt32 → Prop} {i : UInt32} {s s' : Sfs} {vnode : SfsVnode} {idbuf : Words}

theorem Freeing.start (before : s.Consistent live held) : Freeing i s (s.listed i) s where
  geometry := before.geometry
  rest := rfl
  nbits := rfl
  clean := fun clean => ⟨clean, rfl⟩
  buffer := fun _ => .inl rfl
  bits := by
    intro block
    refine (and_iff_left ?_).symm
    rintro ⟨j, empty, present, same⟩
    exact present (same.trans empty)

variable {j : Fin 128} {blocklen : Nat}

theorem Sfs.Consistent.owns_listed (isLive : live i) (present : s.listed i j ≠ 0) :
    s.Owns live (.data i (15 + j)) (s.listed i j) := by
  refine ⟨isLive, present, ?_⟩
  rw [Sfs.slot_listed]

variable (before : s.Consistent live held) (isLive : live i)
include before isLive

theorem Freeing.marked (freeing : Freeing i s idbuf s') (present : idbuf j ≠ 0) : s'.Marked (idbuf j) := by
  have here := (freeing.buffer j).resolve_right present
  rw [here] at present ⊢
  have owns := Sfs.Consistent.owns_listed isLive present
  rw [freeing.bits]
  refine ⟨before.marked owns, ?_⟩
  rintro ⟨other, empty, _, same⟩
  have owns' : s.Owns live (.data i (15 + other)) (s.listed i other) :=
    Sfs.Consistent.owns_listed isLive (same ▸ present)
  rw [← same] at owns'
  have equal := before.ledger.unique owns owns'
  rw [Owner.data.injEq] at equal
  have index : j = other := Fin.ext (by omega)
  rw [← index] at empty
  exact present (here.symm.trans empty)

theorem Freeing.release (freeing : Freeing i s idbuf s') (present : idbuf j ≠ 0) :
    Freeing i s (update idbuf j 0) (s'.release (idbuf j)) := by
  have here := (freeing.buffer j).resolve_right present
  have nonzero : s.listed i j ≠ 0 := here ▸ present
  have inside : idbuf j < s'.nblocks := by
    have same : s'.nblocks = s.nblocks := by rw [freeing.rest]
    rw [same, here]
    exact before.inside (Sfs.Consistent.owns_listed isLive nonzero)
  refine ⟨freeing.geometry.release _, ?_, freeing.nbits, nofun, fun k => ?_, fun block => ?_⟩
  · rw [Sfs.release, freeing.rest]
  · rw [update_apply]
    split
    · exact .inr rfl
    · exact freeing.buffer k
  · rw [marked_release freeing.geometry inside, freeing.bits, and_assoc]
    apply and_congr_right
    intro _
    rw [← not_or, not_iff_not]
    constructor
    · rintro (⟨k, empty, there, same⟩ | rfl)
      · refine ⟨k, ?_, there, same⟩
        rw [update_apply]
        split
        · rfl
        · exact empty
      · exact ⟨j, update_self j 0 idbuf, present, here⟩
    · rintro ⟨k, empty, there, same⟩
      rw [update_apply] at empty
      split at empty
      next equal =>
        refine .inr ?_
        rw [same, here, equal]
      next => exact .inl ⟨k, empty, there, same⟩

theorem truncateListed_ensures (blocklen : UInt32) (left : List (Fin 128)) (iddirty : Bool)
    (freeing : Freeing i s idbuf s')
    (marks : iddirty = true ↔ ∃ j, idbuf j ≠ s.listed i j) :
    (truncateListed blocklen left idbuf iddirty).Ensures s' fun result after => ∃ buffer dirty,
      result = .ok (buffer, dirty) ∧ Freeing i s buffer after ∧ (dirty = true ↔ ∃ j, buffer j ≠ s.listed i j) ∧
      ∀ j, buffer j = if j ∈ left ∧ blocklen.toNat < 15 + j then 0 else idbuf j := by
  induction left generalizing idbuf s' iddirty with
  | nil =>
    rw [truncateListed, ensures_pure]
    refine ⟨idbuf, iddirty, rfl, freeing, marks, fun j => ?_⟩
    rw [if_neg fun member => not_mem_nil member.1]
  | cons j left again =>
    rw [truncateListed]
    split
    next dropped =>
      have here := (freeing.buffer j).resolve_right dropped.2
      have marked : true = true ↔ ∃ k, update idbuf j 0 k ≠ s.listed i k := by
        refine iff_of_true rfl ⟨j, ?_⟩
        rw [update_self, ← here]
        exact dropped.2.symm
      refine .step (sfsBfree_eq freeing.geometry (freeing.marked before isLive dropped.2)) ?_
      apply (again true (freeing.release before isLive dropped.2) marked).mono
      intro result after outcome
      obtain ⟨buffer, dirty, done, freed, changed, cells⟩ := outcome
      refine ⟨buffer, dirty, done, freed, changed, fun k => ?_⟩
      rw [cells, update_apply]
      by_cases same : k = j
      · subst same
        rw [if_pos rfl, ite_self, if_pos ⟨mem_cons_self, dropped.1⟩]
      · simp only [mem_cons, same, false_or, if_false]
    next stays =>
      apply (again iddirty freeing marks).mono
      intro result after outcome
      obtain ⟨buffer, dirty, done, freed, changed, cells⟩ := outcome
      refine ⟨buffer, dirty, done, freed, changed, fun k => ?_⟩
      rw [cells]
      by_cases same : k = j
      · subst same
        by_cases beyond : blocklen.toNat < 15 + k
        · have empty : idbuf k = 0 := by
            by_contra present
            exact stays ⟨beyond, present⟩
          rw [empty, ite_self, ite_self]
        · rw [if_neg fun both => beyond both.2, if_neg fun both => beyond both.2]
      · simp only [mem_cons, same, false_or]

omit before in
theorem Freeing.step (freeing : Freeing i s idbuf s') : FileStep live i s s' := by
  refine step_device isLive (fun _ => freeing.geometry) ?_ freeing.nbits ?_ freeing.clean ?_ fun _ _ _ _ => ?_
  · rw [freeing.rest]
  · rw [freeing.rest]
  · rw [freeing.rest]
  · rw [freeing.rest]

theorem Freeing.cut (freeing : Freeing i s idbuf s') {s''} (step : FileStep live i s s'')
    (inode : s''.inodeOf i = s.inodeOf i) (listed : s''.listed i = idbuf)
    (bits : ∀ block, s''.Marked block ↔ s'.Marked block) : Cut live held i s s'' := by
  have slots : ∀ q, s''.slot i q = if ∃ j : Fin 128, q = 15 + j ∧ idbuf j = 0 then 0 else s.slot i q := by
    intro q
    rcases slot_cases q with ⟨d, rfl⟩ | ⟨j, rfl⟩ | beyond
    · rw [Sfs.slot_direct, Sfs.slot_direct, inode, if_neg]
      rintro ⟨j, same, _⟩
      omega
    · rw [Sfs.slot_listed, Sfs.slot_listed, listed]
      split
      next gone =>
        obtain ⟨k, same, empty⟩ := gone
        have index : j = k := Fin.ext (by omega)
        rw [index, empty]
      next stays =>
        refine (freeing.buffer j).resolve_right fun empty => stays ⟨j, rfl, empty⟩
    · rw [Sfs.slot_beyond beyond, Sfs.slot_beyond beyond, ite_self]
  refine ⟨step, step.consistent before ?_, by rw [inode], by rw [inode], by rw [inode], fun q => ?_⟩
  · refine step.ledger_drop before (fun q => ∃ j : Fin 128, q = 15 + j ∧ idbuf j = 0) False ?_ slots fun block => ?_
    · rw [inode, if_neg not_false]
    · rw [bits, freeing.bits]
      apply and_congr_right
      intro _
      apply not_congr
      constructor
      · rintro ⟨j, empty, present, rfl⟩
        exact .inl ⟨15 + j, ⟨j, rfl, empty⟩, Sfs.Consistent.owns_listed isLive present⟩
      · rintro (⟨q, ⟨j, rfl, empty⟩, _, present, same⟩ | ⟨impossible, _⟩)
        · rw [Sfs.slot_listed] at same
          exact ⟨j, empty, present, same⟩
        · exact impossible.elim
  · rw [slots]
    split
    · exact .inr rfl
    · exact .inl rfl

theorem Freeing.cut_all (freeing : Freeing i s idbuf s') (loaded : s.vnode? i = some vnode)
    (present : (s.inodeOf i).indirect ≠ 0) (empty : ∀ j, idbuf j = 0) :
    s'.Marked (s.inodeOf i).indirect ∧
    Cut live held i s ((s'.release (s.inodeOf i).indirect).setInode i fun inode => { inode with indirect := 0 }) ∧
    (∀ q, ((s'.release (s.inodeOf i).indirect).setInode i fun inode => { inode with indirect := 0 }).slot i q =
      if 15 ≤ q then 0 else s.slot i q) ∧
    (((s'.release (s.inodeOf i).indirect).setInode i fun inode => { inode with indirect := 0 }).inodeOf i).indirect =
      0 := by
  have owns : s.Owns live (.indirect i) (s.inodeOf i).indirect := ⟨isLive, present, rfl⟩
  have step : FileStep live i s
      ((s'.release (s.inodeOf i).indirect).setInode i fun inode => { inode with indirect := 0 }) :=
    ((freeing.step isLive).trans (step_release isLive _)).trans (step_setInode _)
  have still : (s'.release (s.inodeOf i).indirect).vnode? i = some vnode := by
    rw [freeing.rest]
    exact loaded
  have inode := inodeOf_setInode still fun inode => { inode with indirect := 0 }
  rw [Sfs.inodeOf_loaded still, ← Sfs.inodeOf_loaded loaded] at inode
  have inside : (s.inodeOf i).indirect < s'.nblocks := by
    have same : s'.nblocks = s.nblocks := by rw [freeing.rest]
    rw [same]
    exact before.inside owns
  have marked : s'.Marked (s.inodeOf i).indirect := by
    rw [freeing.bits]
    refine ⟨before.marked owns, ?_⟩
    rintro ⟨j, _, there, same⟩
    have data := Sfs.Consistent.owns_listed isLive (same ▸ there)
    rw [← same] at data
    cases before.ledger.unique owns data
  refine ⟨marked, ?_⟩
  generalize target : (s'.release (s.inodeOf i).indirect).setInode i (fun inode => { inode with indirect := 0 }) = s''
    at step inode ⊢
  have bits : ∀ block, s''.Marked block ↔ s'.Marked block ∧ block ≠ (s.inodeOf i).indirect := by
    rw [← target]
    exact marked_release freeing.geometry inside
  have listed : s''.listed i = Words.zeros := by rw [Sfs.listed, inode, if_pos rfl]
  have slots : ∀ q, s''.slot i q = if 15 ≤ q then 0 else s.slot i q := by
    intro q
    rcases slot_cases q with ⟨d, rfl⟩ | ⟨j, rfl⟩ | beyond
    · rw [Sfs.slot_direct, Sfs.slot_direct, inode, if_neg (by omega)]
    · rw [Sfs.slot_listed, listed, if_pos (by omega)]
      rfl
    · rw [Sfs.slot_beyond beyond, if_pos (by omega)]
  refine ⟨⟨step, step.consistent before ?_, by rw [inode], by rw [inode], by rw [inode], fun q => ?_⟩, slots, by rw [inode]⟩
  · refine step.ledger_drop before (fun q => 15 ≤ q) True ?_ slots fun block => ?_
    · rw [inode, if_pos trivial]
    · rw [bits, freeing.bits, and_assoc]
      apply and_congr_right
      intro _
      rw [← not_or, not_iff_not]
      constructor
      · rintro (⟨j, _, there, rfl⟩ | rfl)
        · exact .inl ⟨15 + j, by omega, Sfs.Consistent.owns_listed isLive there⟩
        · exact .inr ⟨trivial, owns⟩
      · rintro (⟨q, high, _, there, same⟩ | ⟨_, _, _, same⟩)
        · rcases slot_cases q with ⟨d, rfl⟩ | ⟨j, rfl⟩ | beyond
          · omega
          · rw [Sfs.slot_listed] at same
            exact .inl ⟨j, empty j, there, same⟩
          · rw [Sfs.slot_beyond beyond] at same
            exact absurd same there
        · exact .inr same
  · rw [slots]
    split
    · exact .inr rfl
    · exact .inl rfl

omit before isLive in
theorem Sfs.slot_unlisted (missing : (s.inodeOf i).indirect = 0) {q} (high : 15 ≤ q) : s.slot i q = 0 := by
  rcases slot_cases q with ⟨d, rfl⟩ | ⟨j, rfl⟩ | beyond
  · omega
  · rw [Sfs.slot_listed, Sfs.listed, if_pos missing]
    rfl
  · exact Sfs.slot_beyond beyond

omit before isLive in
/-- The slots of a file whose indirect block lists what the loop left in its buffer. -/
theorem slots_trimmed (low : blocklen < 142) (direct : (s'.inodeOf i).direct = (s.inodeOf i).direct)
    (listed : s'.listed i = idbuf) (cells : ∀ j, idbuf j = if blocklen < 15 + j then 0 else s.listed i j) (q : Nat) :
    s'.slot i q = if 15 ≤ q ∧ blocklen < q ∧ blocklen < 142 then 0 else s.slot i q := by
  rcases slot_cases q with ⟨d, rfl⟩ | ⟨j, rfl⟩ | beyond
  · rw [Sfs.slot_direct, Sfs.slot_direct, direct, if_neg (by omega)]
  · rw [Sfs.slot_listed, Sfs.slot_listed, listed, cells]
    by_cases dropped : blocklen < 15 + j
    · rw [if_pos dropped, if_pos ⟨by omega, dropped, low⟩]
    · rw [if_neg dropped, if_neg (by omega)]
  · rw [Sfs.slot_beyond beyond, Sfs.slot_beyond beyond, ite_self]

omit before isLive in
/-- Whether the indirect block is written back can be seen from what the loop leaves. -/
theorem writesBack_iff (low : blocklen < 142) (cells : ∀ j, idbuf j = if blocklen < 15 + j then 0 else s.listed i j) :
    s.WritesBack i blocklen ↔ (∃ j, idbuf j ≠ s.listed i j) ∧ ∃ j, idbuf j ≠ 0 := by
  constructor
  · rintro ⟨_, ⟨q, high, dropped, present⟩, p, high', kept, present'⟩
    refine ⟨?_, ?_⟩
    · rcases slot_cases q with ⟨d, rfl⟩ | ⟨j, rfl⟩ | beyond
      · omega
      · rw [Sfs.slot_listed] at present
        refine ⟨j, ?_⟩
        rw [cells, if_pos dropped]
        exact present.symm
      · exact absurd (Sfs.slot_beyond beyond) present
    · rcases slot_cases p with ⟨d, rfl⟩ | ⟨j, rfl⟩ | beyond
      · omega
      · rw [Sfs.slot_listed] at present'
        refine ⟨j, ?_⟩
        rw [cells, if_neg (by omega)]
        exact present'
      · exact absurd (Sfs.slot_beyond beyond) present'
  · rintro ⟨⟨j, differs⟩, k, present⟩
    rw [cells] at differs present
    by_cases dropped : blocklen < 15 + j
    · by_cases gone : blocklen < 15 + k
      · exact absurd (if_pos gone) present
      · rw [if_pos dropped] at differs
        rw [if_neg gone] at present
        refine ⟨low, ⟨15 + j, by omega, dropped, ?_⟩, 15 + k, by omega, by omega, ?_⟩
        · rw [Sfs.slot_listed]
          exact differs.symm
        · rw [Sfs.slot_listed]
          exact present
    · exact absurd (if_neg dropped) differs

omit before isLive in
/-- A failed write of the indirect block is lost, and the file still lists what was freed. -/
theorem truncateIndirect_outcomes (blocklen : UInt32) (outcomes : Nat → Bool) (before : s.Consistent live held)
    (loaded : s.vnode? i = some vnode) :
    (truncateIndirect i blocklen).Ensures (s.withOutcomes outcomes) fun result after =>
      (s.ListUnread i blocklen.toNat outcomes ∧ result = .error .eio) ∨
      ¬ s.ListUnread i blocklen.toNat outcomes ∧ result = .ok () ∧ ∃ final count, after = final.withOutcomes (fun n => outcomes (n + count)) ∧
        (¬ s.LosesList i blocklen.toNat outcomes ∧ Trimmed live held i blocklen.toNat s final ∨
          s.LosesList i blocklen.toNat outcomes ∧ final.vnode? i = s.vnode? i ∧ final.listed i = s.listed i) := by
  have isLive := before.isLive loaded
  have inode := Sfs.inodeOf_loaded loaded
  have found : (s.withOutcomes outcomes).vnode? i = some vnode := loaded
  unfold truncateIndirect
  refine .step (theVnode_eq found) ?_
  dsimp only
  rw [← inode]
  split
  next needed =>
    have present := needed.2
    have low : blocklen.toNat < 142 := needed.1
    have owns : s.Owns live (.indirect i) (s.inodeOf i).indirect := ⟨isLive, present, rfl⟩
    have inside := before.inside owns
    have listed : Words.ofBlock (s.device.sectors (s.inodeOf i).indirect) = s.listed i := by
      rw [Sfs.listed, if_neg present]
    rw [ensures_bind]
    apply (rblock_outcomes before.geometry inside _).mono
    intro result after outcome
    rcases outcome with ⟨failing, rfl⟩ | ⟨k, early, first, rfl, rfl⟩
    · exact Or.inl ⟨⟨low, present, failing⟩, rfl⟩
    have read : ¬ s.ListUnread i blocklen.toNat outcomes := by
      rintro ⟨_, _, failing⟩
      cases (failing k early).symm.trans first.2
    rw [after_ok, listed, ensures_bind]
    have clean : false = true ↔ ∃ j, s.listed i j ≠ s.listed i j := by simp
    apply ((truncateListed_commutes blocklen (List.finRange 128) (s.listed i) false).ensures trivial
      (truncateListed_ensures before isLive blocklen _ false (Freeing.start before) clean)).mono
    rintro result after ⟨emptied, rfl, buffer, dirty, rfl, freed, changed, cells⟩
    simp only [mem_finRange, true_and] at cells
    have back := writesBack_iff low cells
    have still : emptied.vnode? i = some vnode := by
      rw [freed.rest]
      exact loaded
    have kept : emptied.inodeOf i = s.inodeOf i := by rw [Sfs.inodeOf_loaded still, inode]
    have sectors : emptied.device = s.device := by rw [freed.rest]
    have unchanged : emptied.listed i = s.listed i := by rw [Sfs.listed, kept, sectors, Sfs.listed]
    rw [after_ok]
    dsimp only
    split
    next empty =>
      have zero : ∀ j, buffer j = 0 := by
        intro j
        have none := any_eq_false.mp empty j (mem_finRange j)
        simpa using none
      obtain ⟨marked, cut, slots, gone⟩ := freed.cut_all before isLive loaded present zero
      refine .step ((sfsBfree_commutes _).eq trivial (sfsBfree_eq freed.geometry marked)) ?_
      refine .of_eq ((changeInode_commutes _).eq trivial (changeInode_eq _)) (Or.inr ⟨read, rfl, _, k + 1, rfl, Or.inl ⟨?_, cut, ?_, ?_, ?_, ?_⟩⟩)
      · rintro ⟨writes, _⟩
        obtain ⟨_, j, filled⟩ := back.mp writes
        exact filled (zero j)
      · intro q
        rw [slots]
        rcases slot_cases q with ⟨d, rfl⟩ | ⟨j, rfl⟩ | beyond
        · rw [if_neg (by omega), if_neg (by omega)]
        · have cell := cells j
          rw [zero] at cell
          rw [if_pos (by omega), Sfs.slot_listed]
          split
          · rfl
          next stays => rwa [if_neg (by omega)] at cell
        · rw [if_pos (by omega), Sfs.slot_beyond beyond, ite_self]
      · exact fun _ _ => gone
      · rintro (high | ⟨q, high, filled⟩)
        · omega
        · rw [slots, if_pos high] at filled
          exact absurd rfl filled
      · intro block _
        rw [← sectors]
        rfl
    next filled =>
      obtain ⟨j, -, filled⟩ : ∃ j ∈ List.finRange 128, buffer j ≠ 0 := by
        simpa using filled
      have nblocks : emptied.nblocks = s.nblocks := by rw [freed.rest]
      have trimmed {final : Sfs} (cut : Cut live held i s final) (same : final.inodeOf i = s.inodeOf i)
          (lists : final.listed i = buffer)
          (others : ∀ block, block ≠ (s.inodeOf i).indirect → final.device.sectors block = s.device.sectors block) :
          Trimmed live held i blocklen.toNat s final := by
        refine ⟨cut, slots_trimmed low (by rw [same]) lists cells, fun _ gone => ?_, fun _ => by rw [same], others⟩
        have slot := gone (15 + j) (by omega)
        rw [Sfs.slot_listed, lists] at slot
        exact absurd slot filled
      split
      next isDirty =>
        rw [← nblocks] at inside
        have count : (fun n => outcomes (n + 1 + (k + 1))) = fun n => outcomes (n + (1 + (k + 1))) := by
          funext n
          rw [Nat.add_assoc]
        refine .of_eq (wblock_outcomes freed.geometry inside _)
          (Or.inr ⟨read, rfl, _, 1 + (k + 1), congrArg (Sfs.withOutcomes _) count, ?_⟩)
        have writes := back.mpr ⟨changed.mp isDirty, j, filled⟩
        have shifted : (0 : Nat) + (k + 1) = k + 1 := Nat.zero_add (k + 1)
        rw [shifted]
        split
        next succeeds =>
          refine Or.inl ⟨?_, ?_⟩
          · rintro ⟨_, m, _, first', fails⟩
            rw [first'.unique first, succeeds] at fails
            cases fails
          · have there : (emptied.store (s.inodeOf i).indirect buffer.toBlock).vnode? i = some vnode := still
            have stored : (emptied.store (s.inodeOf i).indirect buffer.toBlock).inodeOf i = s.inodeOf i := by
              rw [Sfs.inodeOf_loaded there, inode]
            have lists : (emptied.store (s.inodeOf i).indirect buffer.toBlock).listed i = buffer := by
              have written : (emptied.store (s.inodeOf i).indirect buffer.toBlock).device.sectors
                  (s.inodeOf i).indirect = buffer.toBlock := if_pos rfl
              rw [Sfs.listed, stored, if_neg present, written, Words.ofBlock_toBlock]
            have others (block : UInt32) (other : block ≠ (s.inodeOf i).indirect) :
                (emptied.store (s.inodeOf i).indirect buffer.toBlock).device.sectors block =
                  s.device.sectors block := by
              rw [← sectors]
              exact if_neg other
            refine trimmed (freed.cut before isLive ?_ stored lists fun _ => Iff.rfl) stored lists others
            refine step_device isLive (fun _ => freed.geometry.store _ _) ?_ freed.nbits ?_ freed.clean ?_ ?_
            · rw [Sfs.store, nblocks]
            · rw [Sfs.store, freed.rest]
            · rw [Sfs.store, freed.rest]
            · intro owner block outside owns'
              apply others
              rintro rfl
              cases before.ledger.unique owns owns'
              cases outside rfl
        next fails =>
          refine Or.inr ⟨⟨writes, k, early, first, Bool.eq_false_of_not_eq_true fails⟩, ?_, unchanged⟩
          rw [still, loaded]
      next isClean =>
        rw [ensures_pure]
        have same : buffer = s.listed i := by
          funext m
          by_contra differs
          exact isClean (changed.mpr ⟨m, differs⟩)
        refine Or.inr ⟨read, rfl, emptied, k + 1, rfl, Or.inl ⟨?_, ?_⟩⟩
        · rintro ⟨writes, _⟩
          exact isClean (changed.mpr (back.mp writes).1)
        · have lists : emptied.listed i = buffer := by rw [unchanged, same]
          exact trimmed (freed.cut before isLive (freed.step isLive) kept lists fun _ => Iff.rfl) kept lists fun _ _ => by rw [sectors]
  next notNeeded =>
    rw [ensures_pure]
    have missing : blocklen.toNat < 142 → (s.inodeOf i).indirect = 0 := by
      intro low
      by_contra present
      exact notNeeded ⟨low, present⟩
    have read : ¬ s.ListUnread i blocklen.toNat outcomes := fun unread => notNeeded ⟨unread.1, unread.2.1⟩
    refine Or.inr ⟨read, rfl, s, 0, rfl, Or.inl ⟨?_, Cut.refl before, fun q => ?_, fun low _ => missing low, fun _ => rfl,
      fun _ _ => rfl⟩⟩
    · rintro ⟨⟨low, ⟨q, high, _, present⟩, _⟩, _⟩
      exact present (Sfs.slot_unlisted (missing low) high)
    · split
      next dropped => exact Sfs.slot_unlisted (missing dropped.2.2) dropped.1
      next => rfl

end Freeing

/-- The new length in blocks. The rounding wraps for the last lengths of an `off_t`. -/
def truncateBlocks (len : Int) : Nat := (u32 ((offT (len + 512 - 1)).tdiv 512)).toNat

structure Truncated (live held : UInt32 → Prop) (i : UInt32) (blocklen : Nat) (s s' : Sfs) : Prop where
  step : FileStep live i s s'
  consistent : s'.Consistent live held
  type : (s'.inodeOf i).type = (s.inodeOf i).type
  linkcount : (s'.inodeOf i).linkcount = (s.inodeOf i).linkcount
  slots : ∀ q, s'.slot i q = if blocklen ≤ q ∧ (q < 15 ∨ blocklen < q ∧ blocklen < 142) then 0 else s.slot i q
  freed : blocklen < 142 → (∀ q, 15 ≤ q → s'.slot i q = 0) → (s'.inodeOf i).indirect = 0
  stays : 142 ≤ blocklen ∨ (∃ q, 15 ≤ q ∧ s'.slot i q ≠ 0) → (s'.inodeOf i).indirect = (s.inodeOf i).indirect
  sectors : ∀ block, block ≠ (s.inodeOf i).indirect → s'.device.sectors block = s.device.sectors block

section Truncate

variable {live held : UInt32 → Prop} {i : UInt32} {s s' : Sfs} {vnode : SfsVnode}

theorem slot_setSize (loaded : s.vnode? i = some vnode) (size : UInt32) (q : Nat) :
    (s.setInode i fun inode => { inode with size }).slot i q = s.slot i q := by
  have inode := inodeOf_setInode loaded fun inode => { inode with size }
  apply Sfs.slot_congr
  · rw [inode]
  · unfold Sfs.listed
    rw [inode]
    rfl

theorem losesList_congr {blocklen outcomes} (same : ∀ q, 15 ≤ q → s'.slot i q = s.slot i q) :
    s'.LosesList i blocklen outcomes ↔ s.LosesList i blocklen outcomes := by
  have back : s'.WritesBack i blocklen ↔ s.WritesBack i blocklen := by
    have slots (q : Nat) (rest : Prop) : (15 ≤ q ∧ rest ∧ s'.slot i q ≠ 0) ↔ (15 ≤ q ∧ rest ∧ s.slot i q ≠ 0) := by
      apply and_congr_right
      intro high
      rw [same q high]
    simp only [Sfs.WritesBack, slots]
  unfold Sfs.LosesList
  rw [back]
  rfl

theorem Trimmed.truncated {blocklen middle final} (cut : Cut live held i s middle)
    (direct : ∀ p < 15, blocklen ≤ p → middle.slot i p = 0)
    (kept : ∀ q, q < blocklen ∨ 15 ≤ q → middle.slot i q = s.slot i q)
    (indirect : (middle.inodeOf i).indirect = (s.inodeOf i).indirect)
    (device : middle.device = s.device) (trimmed : Trimmed live held i blocklen middle final) (loaded : final.vnode? i = some vnode) (size : UInt32) :
    Truncated live held i blocklen s (final.setInode i fun inode => { inode with size }) := by
  have whole := cut.trans trimmed.cut
  have inode := inodeOf_setInode loaded fun inode => { inode with size }
  have attributes := kept_attributes (f := fun inode => { inode with size }) trimmed.cut.consistent loaded
    (fun _ => rfl) fun _ => rfl
  have slots := slot_setSize loaded size
  constructor
  · exact whole.step.trans (step_setInode _)
  · exact attributes.1
  · rw [inode]
    exact whole.type
  · rw [inode]
    exact whole.linkcount
  · intro q
    rw [slots, trimmed.slots]
    by_cases high : 15 ≤ q
    · rw [kept q (.inr high)]
      by_cases dropped : blocklen < q ∧ blocklen < 142
      · rw [if_pos ⟨high, dropped⟩, if_pos ⟨by omega, .inr dropped⟩]
      · rw [if_neg fun gone => dropped gone.2, if_neg (by omega)]
    · rw [if_neg fun gone => high gone.1]
      by_cases dropped : blocklen ≤ q
      · rw [direct q (by omega) dropped, if_pos ⟨dropped, by omega⟩]
      · rw [kept q (by omega), if_neg fun gone => dropped gone.1]
  · intro low gone
    rw [inode]
    apply trimmed.freed low
    intro q high
    rw [← slots]
    exact gone q high
  · intro filled
    rw [inode]
    refine (trimmed.stays ?_).trans indirect
    simpa only [slots] using filled
  · intro block other
    rw [← device]
    apply trimmed.sectors
    rw [indirect]
    exact other

theorem sfsTruncate_outcomes (len : Int) (outcomes : Nat → Bool) (before : s.Consistent live held)
    (loaded : s.vnode? i = some vnode) :
    (sfsTruncate i len).Ensures (s.withOutcomes outcomes) fun result after =>
      (s.ListUnread i (truncateBlocks len) outcomes ∧ result = .error .eio) ∨
      ¬ s.ListUnread i (truncateBlocks len) outcomes ∧ result = .ok () ∧ ∃ final count, after = final.withOutcomes (fun n => outcomes (n + count)) ∧
        (final.inodeOf i).size = u32 len ∧
        (¬ s.LosesList i (truncateBlocks len) outcomes ∧ Truncated live held i (truncateBlocks len) s final ∨
          s.LosesList i (truncateBlocks len) outcomes ∧ ∀ q, 15 ≤ q → final.slot i q = s.slot i q) := by
  unfold sfsTruncate
  rw [ensures_bind]
  apply ((truncateDirect_commutes _ (List.finRange 15)).ensures trivial (truncateDirect_ensures _ _ before loaded)).mono
  rintro result after ⟨middle, rfl, rfl, cut, direct, kept, indirect, device⟩
  obtain ⟨vnode', still⟩ := cut.step.loaded loaded
  have loses : middle.LosesList i (truncateBlocks len) outcomes ↔ s.LosesList i (truncateBlocks len) outcomes :=
    losesList_congr fun q high => kept q (.inr high)
  rw [after_ok, ensures_bind]
  apply (truncateIndirect_outcomes _ outcomes cut.consistent still).mono
  intro result after outcome
  have unread : middle.ListUnread i (truncateBlocks len) outcomes ↔ s.ListUnread i (truncateBlocks len) outcomes := by
    unfold Sfs.ListUnread
    rw [indirect]
  rcases outcome with ⟨failing, rfl⟩ | ⟨read, rfl, final, count, rfl, outcome⟩
  · exact .inl ⟨unread.mp failing, rfl⟩
  refine .of_eq ((changeInode_commutes _).eq trivial (changeInode_eq _)) (.inr ⟨mt unread.mpr read, rfl, _, count, rfl, ?_⟩)
  rcases outcome with ⟨written, trimmed⟩ | ⟨lost, same, listed⟩
  · obtain ⟨vnode'', there⟩ := trimmed.cut.step.loaded still
    refine ⟨by rw [inodeOf_setInode there], .inl ⟨fun lost => written (loses.mpr lost), ?_⟩⟩
    refine trimmed.truncated cut (fun p small beyond => ?_) kept indirect device there (u32 len)
    exact direct ⟨p, small⟩ (mem_finRange _) beyond
  · rw [still] at same
    refine ⟨by rw [inodeOf_setInode same], .inr ⟨loses.mp lost, fun q high => ?_⟩⟩
    rw [slot_setSize same, ← kept q (.inr high)]
    rcases slot_cases q with ⟨d, rfl⟩ | ⟨j, rfl⟩ | beyond
    · omega
    · rw [Sfs.slot_listed, Sfs.slot_listed, listed]
    · rw [Sfs.slot_beyond beyond, Sfs.slot_beyond beyond]

variable (len : Int) (before : s.Consistent live held) (loaded : s.vnode? i = some vnode)
include len before loaded

theorem sfsTruncate_works : (sfsTruncate i len).Ensures s fun result after =>
      result = .ok () ∧ (after.inodeOf i).size = u32 len ∧ Truncated live held i (truncateBlocks len) s after := by
  have works := sfsTruncate_outcomes len (fun _ => true) before loaded
  rw [withOutcomes_works before.geometry] at works
  apply works.mono
  intro result after outcome
  rcases outcome with ⟨⟨_, _, failing⟩, _⟩ |
    ⟨_, rfl, final, count, rfl, size, ⟨_, truncated⟩ | ⟨⟨_, _, _, _, fails⟩, _⟩⟩
  · cases failing 0 (by decide)
  · rw [withOutcomes_works truncated.consistent.geometry]
    exact ⟨rfl, size, truncated⟩
  · cases fails

/-- Truncation keeps the type and the links of a file; to length 0 it frees all of its blocks. -/
theorem sfsTruncate_ensures : (sfsTruncate i len).Ensures s fun result after =>
      result = .ok () ∧ FileStep live i s after ∧ after.Consistent live held ∧
      (after.inodeOf i).type = (s.inodeOf i).type ∧ (after.inodeOf i).linkcount = (s.inodeOf i).linkcount ∧
      (after.inodeOf i).size = u32 len ∧ (len = 0 → (∀ q, after.slot i q = 0) ∧ (after.inodeOf i).indirect = 0) := by
  apply (sfsTruncate_works len before loaded).mono
  intro result after outcome
  obtain ⟨rfl, size, truncated⟩ := outcome
  refine ⟨rfl, truncated.step, truncated.consistent, truncated.type, truncated.linkcount, size, ?_⟩
  rintro rfl
  have zero : truncateBlocks 0 = 0 := by decide
  have slots : ∀ q, after.slot i q = 0 := by
    intro q
    rw [truncated.slots, if_pos (by omega)]
  exact ⟨slots, truncated.freed (by decide) fun q _ => slots q⟩

end Truncate

end Os161
