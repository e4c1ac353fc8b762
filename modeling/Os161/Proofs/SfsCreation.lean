import Os161.Proofs.SfsLinks

/-! New objects: a block is allocated, and a vnode is made for it. -/

namespace Os161
open Routine List

section Grab

variable {held : UInt32 → Prop} {fresh : UInt32} {s t : Sfs}

structure Sfs.Beside (s t : Sfs) (fresh : UInt32) : Prop where
  sectors : t.device.sectors = (s.grab fresh).device.sectors
  vnodes : ∀ j, s.Live j → t.vnode? j = s.vnode? j
  nblocks : t.nblocks = s.nblocks

variable (before : s.Consistent s.Live held) (free : ¬ s.Marked fresh) (beside : s.Beside t fresh)
include before free

theorem Sfs.Consistent.not_live : ¬ s.Live fresh := by
  intro isLive
  have owns : s.Owns s.Live (.inode fresh) fresh := ⟨isLive, rfl⟩
  exact free (before.marked owns)

include beside

variable {j : UInt32}

theorem Sfs.Beside.inodeOf (isLive : s.Live j) : t.inodeOf j = s.inodeOf j := by
  have owns : s.Owns s.Live (.inode j) j := ⟨isLive, rfl⟩
  have sector : (s.grab fresh).device.sectors j = s.device.sectors j := if_neg (before.free owns free)
  unfold Sfs.inodeOf
  rw [beside.vnodes j isLive, beside.sectors, sector]

theorem Sfs.Beside.slot (isLive : s.Live j) (p : Nat) : t.slot j p = s.slot j p := by
  have inode := beside.inodeOf before free isLive
  apply Sfs.slot_congr
  · rw [inode]
  · exact before.listed_grab isLive free (by rw [inode]) beside.sectors

theorem Sfs.Beside.byte (isLive : s.Live j) : t.byte j = s.byte j := by
  funext pos
  unfold Sfs.byte
  rw [beside.slot before free isLive]
  split
  · rfl
  next present => rw [beside.sectors, before.sector_of_slot isLive free present]

theorem Sfs.Beside.owns (owner : Owner) (block : UInt32) : t.Owns s.Live owner block ↔ s.Owns s.Live owner block := by
  cases owner with
  | super => exact Iff.rfl
  | map j => rw [Sfs.Owns, beside.nblocks, Sfs.Owns]
  | inode j => exact Iff.rfl
  | indirect j =>
    apply and_congr_right
    intro isLive
    rw [beside.inodeOf before free isLive]
  | data j p =>
    apply and_congr_right
    intro isLive
    rw [beside.slot before free isLive]

theorem Sfs.Beside.table : t.table = s.table := by
  have isLive := live_root s
  refine table_congr (by rw [beside.inodeOf before free isLive]) fun slot => ?_
  unfold Sfs.entry
  rw [beside.byte before free isLive]

theorem Sfs.Beside.nentries : t.nentries = s.nentries := by
  unfold Sfs.nentries
  rw [beside.inodeOf before free (live_root s)]

end Grab

section Make

variable {held : UInt32 → Prop} {fresh : UInt32} {s : Sfs}

theorem Sfs.Evolves.grab (fresh : UInt32) (before : s.Consistent s.Live held) (free : ¬ s.Marked fresh)
    {vnodes heap} (memory : s.heap = (fun _ => true) → heap = fun _ => true) :
    s.Evolves ((s.grab fresh).retable vnodes heap) := by
  have owns : s.Owns s.Live .super sfsSbLocation := rfl
  have sector : ((s.grab fresh).retable vnodes heap).device.sectors sfsSbLocation = s.device.sectors sfsSbLocation :=
    if_neg (before.free owns free)
  refine ⟨rfl, memory, fun stored => ⟨?_, ?_, nofun⟩⟩
  · rw [sector]
    exact stored.magic
  · rw [sector]
    exact stored.nblocks

theorem grab_held (healthy : s.Healthy held) (inside : fresh < s.nblocks) (free : ¬ s.Marked fresh) :
    (s.grab fresh).Healthy (fun block => held block ∨ block = fresh) ∧
    Grows (fun block => held block ∨ block = fresh) s (s.grab fresh) ∧
    (s.grab fresh).table = s.table ∧ (s.grab fresh).nentries = s.nentries := by
  have before := healthy.consistent
  have beside : s.Beside (s.grab fresh) fresh := ⟨rfl, fun _ _ => rfl, rfl⟩
  have table := beside.table before free
  have root := beside.inodeOf before free (live_root s)
  have live : (s.grab fresh).Live = s.Live := by
    funext j
    unfold Sfs.Live
    rw [table]
    rfl
  have ledger := before.ledger.hold free (beside.owns before free) (marked_grab before.geometry inside)
  have grabbed : (s.grab fresh).Healthy fun block => held block ∨ block = fresh := by
    refine ⟨?_, healthy.rooted.congr table (by rw [root]) (by rw [root]), ?_, ?_⟩
    · rw [live]
      refine ⟨before.geometry.grab fresh, ledger, fun block beyond range => Or.inl (before.spare block beyond range),
        before.root, before.loaded, before.distinct, fun vnode member => ?_⟩
      have sound := before.sound vnode member
      have owns : s.Owns s.Live (.inode vnode.ino) vnode.ino := ⟨before.loaded vnode member, rfl⟩
      have sector : (s.grab fresh).device.sectors vnode.ino = s.device.sectors vnode.ino :=
        if_neg (before.free owns free)
      refine ⟨sound.referenced, sound.opened, fun clean => ?_⟩
      rw [sector]
      exact sound.clean clean
    · intro j isLive other
      rw [live] at isLive
      rw [beside.inodeOf before free isLive]
      exact healthy.files j isLive other
    · intro j isLive
      rw [live] at isLive
      rw [links_congr table (by rw [root]), beside.inodeOf before free isLive]
      exact healthy.links j isLive
  refine ⟨grabbed, ⟨grabbed, Sfs.Evolves.grab fresh before free id, rfl, fun j _ isLive => ⟨?_, ?_, ?_⟩⟩, table, ?_⟩
  · rw [live]
    exact isLive
  · rw [beside.inodeOf before free isLive]
  · exact beside.byte before free isLive
  · exact beside.nentries before free

def newInode : SfsInode := { SfsInode.ofBlock Block.zeros with type := sfsTypeFile }

theorem newInode_empty : newInode.size = 0 ∧ newInode.linkcount = 0 ∧ newInode.indirect = 0 ∧ ∀ p, newInode.direct p = 0 := by
  unfold newInode SfsInode.ofBlock
  rw [Words.ofBlock_zeros]
  exact ⟨rfl, rfl, rfl, fun _ => rfl⟩

structure Sfs.Blank (s : Sfs) (i : UInt32) : Prop where
  size : (s.inodeOf i).size = 0
  bytes : ∀ pos, s.byte i pos = 0

theorem grab_file (healthy : s.Healthy held) (inside : fresh < s.nblocks) (free : ¬ s.Marked fresh) {heap}
    (memory : s.heap = (fun _ => true) → heap = fun _ => true) {t}
    (made : t = (s.grab fresh).retable (s.vnodes ++ [⟨fresh, newInode, true, 1, 0⟩]) heap) :
    Grows held s t ∧ t.refs = Function.update s.refs fresh (s.refs fresh + 1) ∧ t.table = s.table ∧
    t.nentries = s.nentries ∧ t.vnode? fresh = some ⟨fresh, newInode, true, 1, 0⟩ ∧ t.Blank fresh := by
  have before := healthy.consistent
  have unknown := before.not_live free
  have absent : s.vnode? fresh = none := by
    cases found : s.vnode? fresh with
    | none => rfl
    | some vnode => exact absurd (live_loaded found) unknown
  have found : ∀ j, t.vnode? j = if j = fresh then some ⟨fresh, newInode, true, 1, 0⟩ else s.vnode? j := by
    intro j
    rw [made]
    exact @vnode?_append (s.grab fresh) _ heap ⟨fresh, newInode, true, 1, 0⟩ absent rfl j
  have apart : ∀ j, s.Live j → j ≠ fresh := by
    rintro j isLive rfl
    exact unknown isLive
  have beside : s.Beside t fresh := by
    refine ⟨by rw [made]; rfl, fun j isLive => ?_, by rw [made]; rfl⟩
    rw [found, if_neg (apart j isLive)]
  have table := beside.table before free
  have root := beside.inodeOf before free (live_root s)
  have new : t.inodeOf fresh = newInode := by rw [Sfs.inodeOf, found, if_pos rfl]
  obtain ⟨size, linkcount, indirect, direct⟩ := newInode_empty
  have slots : ∀ p, t.slot fresh p = 0 := by
    intro p
    unfold Sfs.slot Sfs.listed
    rw [new, if_pos indirect]
    split
    · exact direct _
    · split <;> rfl
  have live : ∀ j, t.Live j ↔ s.Live j ∨ j = fresh := by
    intro j
    unfold Sfs.Live
    rw [table, found]
    by_cases own : j = fresh
    · rw [if_pos own]
      exact ⟨fun _ => Or.inr own, fun _ => Or.inr (Or.inl ⟨_, rfl⟩)⟩
    · rw [if_neg own]
      exact (or_iff_left own).symm
  have owns : ∀ owner block, t.Owns t.Live owner block ↔
      s.Owns s.Live owner block ∨ owner = .inode fresh ∧ block = fresh := by
    intro owner block
    rw [← beside.owns before free]
    cases owner with
    | super => exact (or_iff_left (by rintro ⟨⟨⟩, _⟩)).symm
    | map j => exact (or_iff_left (by rintro ⟨⟨⟩, _⟩)).symm
    | inode j =>
      simp only [Sfs.Owns, live, Owner.inode.injEq]
      constructor
      · rintro ⟨isLive | own, rfl⟩
        · exact Or.inl ⟨isLive, rfl⟩
        · exact Or.inr ⟨own, own⟩
      · rintro (⟨isLive, rfl⟩ | ⟨own, rfl⟩)
        · exact ⟨Or.inl isLive, rfl⟩
        · exact ⟨Or.inr own, own.symm⟩
    | indirect j =>
      simp only [Sfs.Owns, live, reduceCtorEq, false_and, or_false]
      constructor
      · rintro ⟨isLive | rfl, present, given⟩
        · exact ⟨isLive, present, given⟩
        · rw [new, indirect] at given
          exact absurd given present
      · rintro ⟨isLive, rest⟩
        exact ⟨.inl isLive, rest⟩
    | data j p =>
      simp only [Sfs.Owns, live, reduceCtorEq, false_and, or_false]
      constructor
      · rintro ⟨isLive | rfl, present, given⟩
        · exact ⟨isLive, present, given⟩
        · rw [slots] at given
          exact absurd given present
      · rintro ⟨isLive, rest⟩
        exact ⟨.inl isLive, rest⟩
  have marked : ∀ block, t.Marked block ↔ s.Marked block ∨ block = fresh := by
    rw [made]
    exact marked_grab before.geometry inside
  have numbers : t.vnodes.map (·.ino) = s.vnodes.map (·.ino) ++ [fresh] := by
    rw [made]
    exact map_append
  have member : ∀ vnode ∈ t.vnodes, vnode ∈ s.vnodes ∨ vnode = ⟨fresh, newInode, true, 1, 0⟩ := by
    intro vnode member
    rw [made] at member
    rcases mem_append.mp member with member | member
    · exact Or.inl member
    · exact Or.inr (mem_singleton.mp member)
  have geometry := before.geometry.grab fresh
  have consistent : t.Consistent t.Live held := by
    refine ⟨?_, before.ledger.attach (.inode fresh) free owns marked, ?_, ?_, ?_, ?_, ?_⟩
    · rw [made]
      exact ⟨geometry.works, geometry.disk, geometry.sized, geometry.bits⟩
    · rw [made]
      exact before.spare
    · exact live_root t
    · intro vnode there
      rw [live]
      rcases member vnode there with old | rfl
      · exact Or.inl (before.loaded vnode old)
      · exact Or.inr rfl
    · rw [numbers, nodup_append]
      refine ⟨before.distinct, nodup_singleton _, ?_⟩
      rintro first old second last rfl
      rw [mem_singleton.mp last] at old
      exact vnode?_eq_none.mp absent old
    · intro vnode there
      rcases member vnode there with old | rfl
      · have sound := before.sound vnode old
        have owns : s.Owns s.Live (.inode vnode.ino) vnode.ino := ⟨before.loaded vnode old, rfl⟩
        have sector : (s.grab fresh).device.sectors vnode.ino = s.device.sectors vnode.ino :=
          if_neg (before.free owns free)
        refine ⟨sound.referenced, sound.opened, fun clean => ?_⟩
        rw [beside.sectors, sector]
        exact sound.clean clean
      · exact ⟨Nat.one_pos, Nat.zero_le 1, by rintro ⟨⟩⟩
  have unnamed : s.links fresh = 0 := by
    by_contra positive
    obtain ⟨name, named⟩ := (Slots.count_pos (table_bounded s)).mp (Nat.pos_of_ne_zero positive)
    exact unknown (live_named named)
  refine ⟨⟨⟨consistent, healthy.rooted.congr table (by rw [root]) (by rw [root]), ?_, ?_⟩, ?_, ?_, ?_⟩, ?_, table, ?_, ?_,
    ⟨?_, ?_⟩⟩
  · intro j isLive other
    rcases (live j).mp isLive with old | rfl
    · rw [beside.inodeOf before free old]
      exact healthy.files j old other
    · rw [new]
      rfl
  · intro j isLive
    rw [links_congr table (by rw [root])]
    rcases (live j).mp isLive with old | rfl
    · rw [beside.inodeOf before free old]
      exact healthy.links j old
    · rw [new, linkcount, unnamed, if_neg (apart _ (live_root s)).symm]
      rfl
  · rw [made]
    exact Sfs.Evolves.grab fresh before free memory
  · funext j
    rw [Sfs.opens, found]
    split
    next own => rw [own, Sfs.opens, absent]; rfl
    next => rfl
  · intro j _ isLive
    exact ⟨(live j).mpr (Or.inl isLive), by rw [beside.inodeOf before free isLive], beside.byte before free isLive⟩
  · funext j
    rw [Sfs.refs, found, Function.update_apply]
    split
    next own => rw [Sfs.refs, absent]; rfl
    next => rfl
  · exact beside.nentries before free
  · rw [found, if_pos rfl]
  · rw [new, size]
  · intro pos
    unfold Sfs.byte
    rw [if_pos (slots _)]

structure MadeFile (held : UInt32 → Prop) (s t : Sfs) (fresh : UInt32) : Prop where
  grows : Grows held s t
  unknown : ¬ s.Live fresh
  refs : t.refs = Function.update s.refs fresh (s.refs fresh + 1)
  table : t.table = s.table
  nentries : t.nentries = s.nentries
  vnode : t.vnode? fresh = some ⟨fresh, newInode, true, 1, 0⟩
  blank : t.Blank fresh

theorem readVnode_new (healthy : s.Healthy held) (inside : fresh < s.nblocks) :
    (readVnode fresh sfsTypeFile).Ensures (s.grab fresh) fun result after => ∃ heap, s.Later heap ∧
      ((result = .error .enomem ∧ s.heap ≠ (fun _ => true) ∧ after = (s.grab fresh).retable s.vnodes heap) ∨
        (result = .ok () ∧ after = (s.grab fresh).retable (s.vnodes ++ [⟨fresh, newInode, true, 1, 0⟩]) heap)) := by
  have geometry := healthy.consistent.geometry
  have marked : (s.grab fresh).Marked fresh := (marked_grab geometry inside fresh).mpr (Or.inr rfl)
  have cleared : (s.grab fresh).device.sectors fresh = Block.zeros := if_pos rfl
  have untyped : (SfsInode.ofBlock Block.zeros).type = sfsTypeInval := by
    rfl
  refine readVnode_reads (geometry.grab fresh) inside marked (Or.inl rfl) fun t => ?_
  rw [cleared, forceType, if_pos (by decide), bind_ok (require_pos untyped)]
  rfl

/-- The inode number of a new object is new. When memory runs out the block stays allocated. -/
theorem sfsMakeobj_ensures (healthy : s.Healthy held) :
    (sfsMakeobj sfsTypeFile).Ensures s fun result after =>
      (∃ code held', result = .error code ∧ (s.heap = (fun _ => true) → held' = held) ∧ Grows held' s after ∧
        after.refs = s.refs ∧ after.table = s.table ∧ after.nentries = s.nentries) ∨
      ∃ fresh, result = .ok fresh ∧ MadeFile held s after fresh := by
  have before := healthy.consistent
  unfold sfsMakeobj
  rw [ensures_bind]
  apply (sfsBalloc_ensures before.geometry before.reserved).mono
  intro result after outcome
  rcases outcome with ⟨rfl, rfl, _⟩ | ⟨fresh, rfl, inside, free, rfl⟩
  · refine Or.inl ⟨_, held, rfl, fun _ => rfl, ?_, rfl, rfl, rfl⟩
    have step : FileStep s.Live sfsRootLocation s s.refuse := step_refuse (live_root s)
    have ledger : Ledger (s.refuse.Owns s.Live) held s.refuse.Marked := before.ledger
    have still := healthy.keep step (step.consistent before ledger) rfl rfl rfl rfl
    exact ⟨still, step.evolves, rfl, fun j _ isLive => ⟨isLive, rfl, rfl⟩⟩
  · obtain ⟨grabbed, grows, table, nentries⟩ := grab_held healthy inside free
    have unknown := before.not_live free
    have absent : s.vnode? fresh = none := by
      cases found : s.vnode? fresh with
      | none => rfl
      | some vnode => exact absurd (live_loaded found) unknown
    rw [after_ok]
    unfold sfsLoadvnode
    rw [ensures_bind, ensures_get, after_ok, ensures_bind]
    refine .of_eq (grabbed.loadedVnode_eq fresh fun _ member => member) ?_
    have missing : (s.grab fresh).vnodes.any (·.ino = fresh) = false := by
      rw [any_ino]
      change (s.vnode? fresh).isSome = false
      rw [absent, Option.isSome_none]
    rw [after_ok, missing, if_neg Bool.false_ne_true, ensures_bind]
    apply (readVnode_new healthy inside).mono
    intro result after outcome
    obtain ⟨heap, later, ⟨rfl, lacking, rfl⟩ | ⟨rfl, made⟩⟩ := outcome
    · obtain ⟨quiet, refs⟩ := @quiet_heap _ _ heap grabbed later.memory
      refine Or.inl ⟨_, fun block => held block ∨ block = fresh, rfl, fun all => absurd all lacking, ?_, refs, ?_, ?_⟩
      · exact grows.trans (quiet.grows grabbed fun j => by rw [refs])
      · exact quiet.table.trans table
      · exact quiet.nentries.trans nentries
    · obtain ⟨grows', refs, table', nentries', vnode, blank⟩ := grab_file healthy inside free later.memory made
      rw [after_ok, ensures_pure]
      exact Or.inr ⟨fresh, rfl, grows', unknown, refs, table', nentries', vnode, blank⟩

end Make

end Os161
