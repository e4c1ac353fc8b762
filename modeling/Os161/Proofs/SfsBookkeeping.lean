import Os161.Proofs.SfsViews

/-! The elementary changes to one file, and the bookkeeping of blocks under them. -/

namespace Os161
open Routine

section Slots

variable {s : Sfs} {i : UInt32}

theorem Sfs.slot_direct (p : Fin 15) : s.slot i p = (s.inodeOf i).direct p := by
  rw [slot, dif_pos p.isLt]

theorem Sfs.slot_listed (j : Fin 128) : s.slot i (15 + j) = s.listed i j := by
  have listed : 15 + j.val - 15 < 128 := by omega
  rw [slot, dif_neg (by omega), dif_pos listed]
  congr
  omega

theorem Sfs.slot_beyond {p} (beyond : 143 ≤ p) : s.slot i p = 0 := by
  rw [slot, dif_neg (by omega), dif_neg (by omega)]

theorem slot_cases (p : Nat) : (∃ d : Fin 15, p = d) ∨ (∃ j : Fin 128, p = 15 + j) ∨ 143 ≤ p := by
  by_cases direct : p < 15
  · exact Or.inl ⟨⟨p, direct⟩, rfl⟩
  · by_cases listed : p < 143
    · exact Or.inr (Or.inl ⟨⟨p - 15, by omega⟩, by simp only; omega⟩)
    · exact Or.inr (Or.inr (by omega))

theorem Sfs.slot_congr {s' : Sfs} (direct : (s'.inodeOf i).direct = (s.inodeOf i).direct)
    (listed : s'.listed i = s.listed i) (p : Nat) : s'.slot i p = s.slot i p := by
  unfold slot
  rw [direct, listed]

end Slots

section Ledgers

variable {live held : UInt32 → Prop} {i : UInt32} {s s' : Sfs}

/-- Outside a file ownership is known from the step; the indirect block and the slots of the file are left. -/
theorem FileStep.owns_cases (step : FileStep live i s s') {relation : Owner → UInt32 → Prop}
    (outside : ∀ owner block, ¬ owner.Within i → (relation owner block ↔ s.Owns live owner block))
    (inode : ∀ block, relation (.inode i) block ↔ s.Owns live (.inode i) block)
    (indirect : ∀ block, s'.Owns live (.indirect i) block ↔ relation (.indirect i) block)
    (data : ∀ p block, s'.Owns live (.data i p) block ↔ relation (.data i p) block) (owner : Owner) (block : UInt32) :
    s'.Owns live owner block ↔ relation owner block := by
  by_cases within : owner.Within i
  · cases owner with
    | super => exact within.elim
    | map j => exact within.elim
    | inode j =>
      cases within
      exact (inode block).symm
    | indirect j =>
      cases within
      exact indirect block
    | data j p =>
      cases within
      exact data p block
  · rw [step.owns_iff within, outside owner block within]

variable (step : FileStep live i s s') (before : s.Consistent live held)
include step before

theorem FileStep.ledger_same (indirect : (s'.inodeOf i).indirect = (s.inodeOf i).indirect)
    (slots : ∀ p, s'.slot i p = s.slot i p) (bits : ∀ block, s'.Marked block ↔ s.Marked block) :
    Ledger (s'.Owns live) held s'.Marked := by
  refine before.ledger.congr (step.owns_cases ?_ ?_ ?_ ?_) bits
  · exact fun _ _ _ => Iff.rfl
  · exact fun _ => Iff.rfl
  · intro block
    simp only [Sfs.Owns, indirect]
  · intro p block
    simp only [Sfs.Owns, slots]

theorem FileStep.ledger_data (isLive : live i) {fresh p} (free : ¬ s.Marked fresh)
    (nonzero : fresh ≠ 0) (hole : s.slot i p = 0) (indirect : (s'.inodeOf i).indirect = (s.inodeOf i).indirect)
    (slots : ∀ q, s'.slot i q = if q = p then fresh else s.slot i q)
    (bits : ∀ block, s'.Marked block ↔ s.Marked block ∨ block = fresh) : Ledger (s'.Owns live) held s'.Marked := by
  refine before.ledger.attach (.data i p) free (step.owns_cases ?_ ?_ ?_ ?_) bits
  · intro owner block outside
    refine or_iff_left ?_
    rintro ⟨rfl, _⟩
    exact outside rfl
  · exact fun _ => or_iff_left nofun
  · intro block
    simp only [Sfs.Owns, indirect]
    exact (or_iff_left nofun).symm
  · intro q block
    simp only [Sfs.Owns, slots, Owner.data.injEq, true_and]
    by_cases same : q = p
    · subst same
      simp only [if_true, hole, true_and]
      constructor
      · exact fun ⟨_, _, given⟩ => Or.inr given
      · rintro (⟨_, present, absent⟩ | given)
        · exact absurd absent present
        · exact ⟨isLive, given ▸ nonzero, given⟩
    · simp only [same, if_false, false_and, or_false]

theorem FileStep.ledger_indirect (isLive : live i) {fresh} (free : ¬ s.Marked fresh) (nonzero : fresh ≠ 0)
    (missing : (s.inodeOf i).indirect = 0) (indirect : (s'.inodeOf i).indirect = fresh)
    (slots : ∀ q, s'.slot i q = s.slot i q) (bits : ∀ block, s'.Marked block ↔ s.Marked block ∨ block = fresh) :
    Ledger (s'.Owns live) held s'.Marked := by
  refine before.ledger.attach (.indirect i) free (step.owns_cases ?_ ?_ ?_ ?_) bits
  · intro owner block outside
    refine or_iff_left ?_
    rintro ⟨rfl, _⟩
    exact outside rfl
  · exact fun _ => or_iff_left nofun
  · intro block
    simp only [Sfs.Owns, indirect, missing, true_and]
    constructor
    · exact fun ⟨_, _, given⟩ => Or.inr given
    · rintro (⟨_, present, absent⟩ | given)
      · exact absurd absent present
      · exact ⟨isLive, given ▸ nonzero, given⟩
  · intro q block
    simp only [Sfs.Owns, slots]
    exact (or_iff_left nofun).symm

omit before in
theorem FileStep.owns_drop (drops : Nat → Prop) (all : Prop) [DecidablePred drops] [Decidable all]
    (indirect : (s'.inodeOf i).indirect = if all then 0 else (s.inodeOf i).indirect)
    (slots : ∀ q, s'.slot i q = if drops q then 0 else s.slot i q) (owner : Owner) (block : UInt32) :
    s'.Owns live owner block ↔
      s.Owns live owner block ∧ ¬ ((∃ q, drops q ∧ owner = .data i q) ∨ all ∧ owner = .indirect i) := by
  apply step.owns_cases
  · intro owner block outside
    refine and_iff_left ?_
    rintro (⟨q, _, rfl⟩ | ⟨_, rfl⟩)
    · exact outside rfl
    · exact outside rfl
  · intro block
    refine and_iff_left ?_
    rintro (⟨q, _, same⟩ | ⟨_, same⟩) <;> cases same
  · intro block
    simp only [Sfs.Owns, indirect, reduceCtorEq, and_false, exists_false, false_or, and_true]
    split
    · next gone =>
      simp only [gone, not_true_eq_false, and_false, iff_false, not_and]
      exact fun _ present absent => present absent
    · next stays => simp only [stays, not_false_eq_true, and_true]
  · intro p block
    simp only [Sfs.Owns, slots, reduceCtorEq, and_false, or_false, Owner.data.injEq, true_and, exists_eq_right']
    split
    · next gone =>
      simp only [gone, not_true_eq_false, and_false, iff_false, not_and]
      exact fun _ present absent => present absent
    · next stays => simp only [stays, not_false_eq_true, and_true]

omit step before in
theorem dropped_iff (drops : Nat → Prop) (all : Prop) (block : UInt32) :
    (∃ owner, s.Owns live owner block ∧ ((∃ q, drops q ∧ owner = .data i q) ∨ all ∧ owner = .indirect i)) ↔
      (∃ q, drops q ∧ s.Owns live (.data i q) block) ∨ all ∧ s.Owns live (.indirect i) block := by
  constructor
  · rintro ⟨owner, owns, ⟨q, dropped, rfl⟩ | ⟨whole, rfl⟩⟩
    · exact Or.inl ⟨q, dropped, owns⟩
    · exact Or.inr ⟨whole, owns⟩
  · rintro (⟨q, dropped, owns⟩ | ⟨whole, owns⟩)
    · exact ⟨.data i q, owns, Or.inl ⟨q, dropped, rfl⟩⟩
    · exact ⟨.indirect i, owns, Or.inr ⟨whole, rfl⟩⟩

theorem FileStep.ledger_drop (drops : Nat → Prop) (all : Prop) [DecidablePred drops] [Decidable all]
    (indirect : (s'.inodeOf i).indirect = if all then 0 else (s.inodeOf i).indirect)
    (slots : ∀ q, s'.slot i q = if drops q then 0 else s.slot i q)
    (bits : ∀ block, s'.Marked block ↔ s.Marked block ∧
      ¬ ((∃ q, drops q ∧ s.Owns live (.data i q) block) ∨ all ∧ s.Owns live (.indirect i) block)) :
    Ledger (s'.Owns live) held s'.Marked := by
  refine before.ledger.detach _ (step.owns_drop drops all indirect slots) fun block => ?_
  rw [bits, dropped_iff]

theorem FileStep.marked_drop (after : s'.Consistent live held) (drops : Nat → Prop) (all : Prop) [DecidablePred drops]
    [Decidable all] (indirect : (s'.inodeOf i).indirect = if all then 0 else (s.inodeOf i).indirect)
    (slots : ∀ q, s'.slot i q = if drops q then 0 else s.slot i q) (block : UInt32) :
    s'.Marked block ↔ s.Marked block ∧
      ¬ ((∃ q, drops q ∧ s.Owns live (.data i q) block) ∨ all ∧ s.Owns live (.indirect i) block) := by
  rw [before.ledger.marked_detached after.ledger _ (step.owns_drop drops all indirect slots), dropped_iff]

end Ledgers

section Changes

variable {live held : UInt32 → Prop} {i : UInt32} {s : Sfs}

theorem step_setVnode {f} (keeps : ∀ vnode, (f vnode).ino = vnode.ino)
    (counts : ∀ vnode, (f vnode).refcount = vnode.refcount ∧ (f vnode).opencount = vnode.opencount)
    (sound : ∀ vnode, s.vnode? i = some vnode → vnode.Sound s.device → (f vnode).Sound s.device) :
    FileStep live i s (s.setVnode i f) where
  geometry := fun geometry => ⟨geometry.works, geometry.disk, geometry.sized, geometry.bits⟩
  nblocks := rfl
  nbits := rfl
  heap := rfl
  clean := fun clean => ⟨clean, rfl⟩
  inos := inos_setVnode keeps
  others := by
    intro j other
    rw [vnode?_setVnode keeps]
    simp only [other, if_false, Option.map_id']
  own := by
    intro vnode loaded
    refine ⟨f vnode, ?_, (counts vnode).1, (counts vnode).2, sound vnode loaded⟩
    rw [vnode?_setVnode keeps, loaded]
    simp only [if_true, Option.map_some]
  sectors := fun _ _ _ _ => rfl

theorem step_setInode (f : SfsInode → SfsInode) : FileStep live i s (s.setInode i f) :=
  step_setVnode (fun _ => rfl) (fun _ => ⟨rfl, rfl⟩) fun _ _ sound => ⟨sound.referenced, sound.opened, nofun⟩

theorem inodeOf_setInode {vnode} (loaded : s.vnode? i = some vnode) (f : SfsInode → SfsInode) :
    (s.setInode i f).inodeOf i = f (s.inodeOf i) := by
  rw [Sfs.inodeOf, vnode?_setInode, loaded, Sfs.inodeOf_loaded loaded]
  simp only [if_true, Option.map_some]

/-- A change to the device and the bitmap that spares the inode of the file and
whatever belongs to others. -/
theorem step_device {s'} (isLive : live i) (geometry : s.Geometry → s'.Geometry) (nblocks : s'.nblocks = s.nblocks)
    (nbits : s'.freemap.nbits = s.freemap.nbits) (heap : s'.heap = s.heap)
    (clean : s'.freemapdirty = false → s.freemapdirty = false ∧ s'.freemap = s.freemap) (vnodes : s'.vnodes = s.vnodes)
    (sectors : ∀ owner block, (owner.Within i → owner = .inode i) → s.Owns live owner block →
      s'.device.sectors block = s.device.sectors block) : FileStep live i s s' where
  geometry := geometry
  nblocks := nblocks
  nbits := nbits
  heap := heap
  clean := clean
  inos := by rw [vnodes]
  others := fun j _ => by rw [Sfs.vnode?, vnodes, Sfs.vnode?]
  own := by
    intro vnode loaded
    refine ⟨vnode, ?_, rfl, rfl, ?_⟩
    · rw [Sfs.vnode?, vnodes]
      exact loaded
    · rintro ⟨referenced, opened, clean⟩
      refine ⟨referenced, opened, fun notDirty => ?_⟩
      rw [← clean notDirty, vnode?_ino loaded, sectors (.inode i) i (fun _ => rfl) ⟨isLive, rfl⟩]
  sectors := fun owner block outside owns => sectors owner block (fun within => absurd within outside) owns

theorem step_grab (before : s.Consistent live held) (isLive : live i) {fresh} (free : ¬ s.Marked fresh) :
    FileStep live i s (s.grab fresh) :=
  step_device isLive (fun geometry => geometry.grab fresh) rfl rfl rfl nofun rfl
    fun _ _ _ owns => if_neg (before.free owns free)

theorem step_refuse (isLive : live i) : FileStep live i s s.refuse :=
  step_device isLive (fun geometry => ⟨geometry.works, geometry.disk, geometry.sized, geometry.bits⟩) rfl rfl rfl
    (fun clean => ⟨clean, rfl⟩) rfl fun _ _ _ _ => rfl

theorem step_release (isLive : live i) (block : UInt32) : FileStep live i s (s.release block) :=
  step_device isLive (fun geometry => geometry.release block) rfl rfl rfl nofun rfl fun _ _ _ _ => rfl

theorem step_store (before : s.Consistent live held) (isLive : live i) {owner block}
    (within : owner.Within i) (notInode : owner ≠ .inode i) (owns : s.Owns live owner block) (data : Block) :
    FileStep live i s (s.store block data) := by
  refine step_device isLive (fun geometry => geometry.store block data) rfl rfl rfl (fun clean => ⟨clean, rfl⟩) rfl ?_
  intro other block' outside owns'
  refine if_neg ?_
  rintro rfl
  cases before.ledger.unique owns owns'
  exact notInode (outside within)

end Changes

end Os161
