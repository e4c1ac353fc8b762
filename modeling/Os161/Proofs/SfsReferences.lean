import Os161.Proofs.SfsHealth

/-! Loading vnodes, taking and dropping references, and what happens at the last one. -/

namespace Os161
open Routine Function List Option

/-- The names stay, and so do the attributes and the contents of every inode that is left. -/
structure Quiet (held : UInt32 → Prop) (s s' : Sfs) : Prop where
  healthy : s'.Healthy held
  evolves : s.Evolves s'
  table : s'.table = s.table
  nentries : s'.nentries = s.nentries
  opens : s'.opens = s.opens
  views : ∀ j, s'.Live j → s.Live j ∧ s'.inodeOf j = s.inodeOf j ∧ s'.byte j = s.byte j

section Quiet

variable {held : UInt32 → Prop} {s s' s'' : Sfs}

theorem Quiet.refl (healthy : s.Healthy held) : Quiet held s s :=
  ⟨healthy, Sfs.Evolves.refl s, rfl, rfl, rfl, fun _ isLive => ⟨isLive, rfl, rfl⟩⟩

theorem Quiet.trans (first : Quiet held s s') (second : Quiet held s' s'') : Quiet held s s'' where
  healthy := second.healthy
  evolves := first.evolves.trans second.evolves
  table := second.table.trans first.table
  nentries := second.nentries.trans first.nentries
  opens := second.opens.trans first.opens
  views := by
    intro j isLive
    obtain ⟨middle, inode, bytes⟩ := second.views j isLive
    obtain ⟨start, inode', bytes'⟩ := first.views j middle
    exact ⟨start, inode.trans inode', bytes.trans bytes'⟩

theorem Quiet.directory (quiet : Quiet held s s') : s'.directory = s.directory := by
  funext name
  unfold Sfs.directory
  rw [quiet.table, quiet.nentries]

theorem refs_loaded {i vnode} (loaded : s.vnode? i = some vnode) : s.refs i = vnode.refcount := by
  rw [Sfs.refs, loaded]
  rfl

theorem opens_loaded {i vnode} (loaded : s.vnode? i = some vnode) : s.opens i = vnode.opencount := by
  rw [Sfs.opens, loaded]
  rfl

theorem loaded_of_refs {i} (positive : 0 < s.refs i) : ∃ vnode, s.vnode? i = some vnode := by
  cases found : s.vnode? i with
  | none =>
    rw [Sfs.refs, found] at positive
    exact absurd positive (Nat.lt_irrefl 0)
  | some vnode => exact ⟨vnode, rfl⟩

theorem Sfs.Consistent.refs_pos {live : UInt32 → Prop} (consistent : s.Consistent live held) {i vnode} (loaded : s.vnode? i = some vnode) : 0 < s.refs i := by
  rw [refs_loaded loaded]
  exact (consistent.sound vnode (vnode?_mem loaded)).referenced

end Quiet

section Counts

variable {held : UInt32 → Prop} {i : UInt32} {s : Sfs} {vnode : SfsVnode} {f : SfsVnode → SfsVnode}

theorem quiet_recount (healthy : s.Healthy held) (ino : ∀ vnode, (f vnode).ino = vnode.ino)
    (inode : ∀ vnode, (f vnode).inode = vnode.inode) (opencount : ∀ vnode, (f vnode).opencount = vnode.opencount)
    (sound : ∀ vnode, s.vnode? i = some vnode → vnode.Sound s.device → (f vnode).Sound s.device) :
    Quiet held s (s.setVnode i f) := by
  have found := fun j => @vnode?_setVnode s i f ino j
  have inodes : ∀ j, (s.setVnode i f).inodeOf j = s.inodeOf j := by
    intro j
    unfold Sfs.inodeOf
    rw [found]
    cases s.vnode? j with
    | none => rfl
    | some vnode =>
      simp only [map_some]
      split
      · exact inode vnode
      · rfl
  have table : (s.setVnode i f).table = s.table := table_retable (inodes _)
  have live : (s.setVnode i f).Live = s.Live := by
    funext j
    unfold Sfs.Live
    rw [table, found]
    simp only [map_eq_some_iff]
    apply propext
    refine or_congr_right (or_congr_left ⟨fun ⟨_, vnode, there, _⟩ => ⟨vnode, there⟩, fun ⟨vnode, there⟩ => ?_⟩)
    exact ⟨_, vnode, there, rfl⟩
  have distinct : ((s.setVnode i f).vnodes.map (·.ino)).Nodup := by
    rw [inos_setVnode ino]
    exact healthy.consistent.distinct
  refine ⟨?_, evolves_retable id, table, ?_, ?_, fun j isLive => ⟨?_, inodes j, byte_retable (inodes j)⟩⟩
  · refine healthy.retable (fun j _ => inodes j) live distinct fun vnode member => ?_
    have there := vnode?_of_mem distinct member
    rw [found] at there
    obtain ⟨old, loaded, changed⟩ := map_eq_some_iff.mp there
    have good := healthy.consistent.sound old (vnode?_mem loaded)
    rw [← changed]
    split
    next own => exact sound old (own ▸ loaded) good
    next => exact good
  · unfold Sfs.nentries
    rw [inodes]
  · funext j
    unfold Sfs.opens
    rw [found]
    cases s.vnode? j with
    | none => rfl
    | some vnode =>
      split
      · exact opencount vnode
      · rfl
  · rw [← live]
    exact isLive

theorem refs_recount (loaded : s.vnode? i = some vnode) (ino : ∀ vnode, (f vnode).ino = vnode.ino) :
    (s.setVnode i f).refs = update s.refs i (f vnode).refcount := by
  funext j
  rw [Sfs.refs, vnode?_setVnode ino, update_apply]
  split
  next own =>
    subst own
    rw [loaded]
    rfl
  next other =>
    rw [Sfs.refs]
    cases s.vnode? j <;> rfl

theorem vnodeIncref_ensures (healthy : s.Healthy held) (loaded : s.vnode? i = some vnode) :
    (vnodeIncref i).Ensures s fun result after =>
      result = .ok () ∧ Quiet held s after ∧ after.refs = update s.refs i (s.refs i + 1) := by
  refine .step (theVnode_eq loaded) ?_
  refine .of_eq (changeVnode_eq _) ⟨rfl, ?_, ?_⟩
  · apply quiet_recount healthy
    · exact fun _ => rfl
    · exact fun _ => rfl
    · exact fun _ => rfl
    · exact fun vnode _ sound => ⟨Nat.succ_pos _, Nat.le_succ_of_le sound.opened, sound.clean⟩
  · rw [refs_recount loaded, refs_loaded loaded]
    exact fun _ => rfl

end Counts

section Load

variable {held : UInt32 → Prop} {i : UInt32} {s : Sfs} {vnodes : List SfsVnode} {heap : Nat → Bool}

theorem vnode?_append {vnode} (absent : s.vnode? vnode.ino = none)
    (same : vnodes = s.vnodes ++ [vnode]) (j : UInt32) :
    (s.retable vnodes heap).vnode? j = if j = vnode.ino then some vnode else s.vnode? j := by
  subst same
  unfold Sfs.vnode? Sfs.retable
  rw [List.find?_append]
  split
  next own =>
    subst own
    rw [Sfs.vnode?] at absent
    rw [absent]
    simp
  next other =>
    have unequal : ¬ vnode.ino = j := fun equal => other equal.symm
    cases s.vnodes.find? (fun vnode => decide (vnode.ino = j)) with
    | some found => rfl
    | none => simp [unequal]

theorem quiet_load (healthy : s.Healthy held) (isLive : s.Live i) (absent : s.vnode? i = none)
    (memory : s.heap = (fun _ => true) → heap = fun _ => true) :
    Quiet held s (s.retable (s.vnodes ++ [⟨i, SfsInode.ofBlock (s.device.sectors i), false, 1, 0⟩]) heap) ∧
    (s.retable (s.vnodes ++ [⟨i, SfsInode.ofBlock (s.device.sectors i), false, 1, 0⟩]) heap).refs =
      update s.refs i (s.refs i + 1) := by
  have found := fun j => @vnode?_append s _ heap ⟨i, SfsInode.ofBlock (s.device.sectors i), false, 1, 0⟩ absent rfl j
  generalize vnodes : s.vnodes ++ [⟨i, SfsInode.ofBlock (s.device.sectors i), false, 1, 0⟩] = table at found ⊢
  have inodes : ∀ j, (s.retable table heap).inodeOf j = s.inodeOf j := by
    intro j
    unfold Sfs.inodeOf
    rw [found]
    by_cases own : j = i
    · rw [if_pos own, own, absent]
    · rw [if_neg own]
      rfl
  have names : (s.retable table heap).table = s.table := table_retable (inodes _)
  have live : (s.retable table heap).Live = s.Live := by
    funext j
    unfold Sfs.Live
    rw [names, found]
    apply propext
    split
    next own =>
      subst own
      exact ⟨fun _ => isLive, fun _ => .inr (.inl ⟨_, rfl⟩)⟩
    next => exact Iff.rfl
  have distinct : (table.map (·.ino)).Nodup := by
    rw [← vnodes, map_append, nodup_append]
    refine ⟨healthy.consistent.distinct, nodup_singleton _, ?_⟩
    rintro first member second last rfl
    rw [mem_singleton.mp last] at member
    exact vnode?_eq_none.mp absent member
  refine ⟨⟨?_, evolves_retable memory, names, ?_, ?_, fun j there => ⟨?_, inodes j, byte_retable (inodes j)⟩⟩, ?_⟩
  · refine healthy.retable (fun j _ => inodes j) live distinct fun vnode member => ?_
    rw [← vnodes] at member
    rcases mem_append.mp member with member | member
    · exact healthy.consistent.sound vnode member
    · rw [mem_singleton.mp member]
      exact ⟨Nat.one_pos, Nat.zero_le 1, fun _ => rfl⟩
  · unfold Sfs.nentries
    rw [inodes]
  · funext j
    unfold Sfs.opens
    rw [found]
    split
    next own =>
      rw [own, absent]
      rfl
    next => rfl
  · rw [← live]
    exact there
  · funext j
    rw [Sfs.refs, found, update_apply]
    split
    next => rw [Sfs.refs, absent]; rfl
    next => rfl

theorem live_reheap (s : Sfs) (heap : Nat → Bool) : (s.retable s.vnodes heap).Live = s.Live := by
  funext j
  rfl

theorem Sfs.Healthy.reheap (healthy : s.Healthy held) (heap : Nat → Bool) : (s.retable s.vnodes heap).Healthy held :=
  healthy.retable (fun _ _ => rfl) (live_reheap s heap) healthy.consistent.distinct healthy.consistent.sound

theorem quiet_heap (healthy : s.Healthy held) (memory : s.heap = (fun _ => true) → heap = fun _ => true) :
    Quiet held s (s.retable s.vnodes heap) ∧ (s.retable s.vnodes heap).refs = s.refs := by
  refine ⟨⟨healthy.reheap heap, evolves_retable memory, table_retable rfl, rfl, rfl, ?_⟩, rfl⟩
  intro j isLive
  exact ⟨isLive, rfl, byte_retable rfl⟩

theorem kmalloc_cases (s : Sfs) : (kmalloc s = some (.ok (), s.retable s.vnodes fun n => s.heap (n + 1)) ∧ s.heap 0 = true) ∨
    (kmalloc s = some (.error .enomem, s.retable s.vnodes fun n => s.heap (n + 1)) ∧ s.heap 0 = false) := by
  unfold kmalloc
  rw [bind_ok rfl]
  cases s.heap 0 with
  | true => exact .inl ⟨rfl, rfl⟩
  | false => exact .inr ⟨rfl, rfl⟩

theorem Sfs.Healthy.loadedVnode_eq (healthy : s.Healthy held) (i : UInt32) (part : ∀ vnode ∈ vnodes, vnode ∈ s.vnodes) :
    loadedVnode i vnodes s = some (.ok (vnodes.any (·.ino = i)), s) := by
  induction vnodes with
  | nil => rfl
  | cons vnode rest again =>
    have isLive := healthy.consistent.loaded vnode (part vnode mem_cons_self)
    have owns : s.Owns s.Live (.inode vnode.ino) vnode.ino := ⟨isLive, rfl⟩
    have used := sfsBused_eq (healthy.consistent.inside owns) (healthy.consistent.marked owns)
    rw [loadedVnode, bind_ok used, any_cons]
    split
    next same =>
      rw [decide_eq_true same]
      rfl
    next other =>
      rw [decide_eq_false other]
      exact again fun vnode member => part vnode (mem_cons_of_mem _ member)

theorem any_ino : (s.vnodes.any (·.ino = i)) = (s.vnode? i).isSome := by
  rw [Bool.eq_iff_iff, List.any_eq_true, Sfs.vnode?, List.find?_isSome]

def Sfs.Later (s : Sfs) (heap : Nat → Bool) : Prop := ∃ k, heap = fun n => s.heap (n + k)

theorem Sfs.Later.memory (later : s.Later heap) (all : s.heap = fun _ => true) : heap = fun _ => true := by
  obtain ⟨k, rfl⟩ := later
  rw [all]

theorem Sfs.Later.next (later : s.Later heap) : s.Later fun n => heap (n + 1) := by
  obtain ⟨k, rfl⟩ := later
  refine ⟨1 + k, ?_⟩
  funext n
  dsimp only
  rw [Nat.add_assoc]

theorem kmalloc_later (later : s.Later heap) :
    ∃ heap', s.Later heap' ∧ (kmalloc (s.retable vnodes heap) = some (.ok (), s.retable vnodes heap') ∨
      kmalloc (s.retable vnodes heap) = some (.error .enomem, s.retable vnodes heap') ∧ s.heap ≠ fun _ => true) := by
  refine ⟨_, later.next, ?_⟩
  rcases kmalloc_cases (s.retable vnodes heap) with ⟨done, _⟩ | ⟨failed, empty⟩
  · exact .inl done
  · refine .inr ⟨failed, fun all => ?_⟩
    rw [later.memory all] at empty
    cases empty

theorem readVnode_reads (geometry : s.Geometry) (inside : i < s.nblocks) (marked : s.Marked i) {forcetype inode dirty} (type : inode.type = sfsTypeFile ∨ inode.type = sfsTypeDir)
    (forced : ∀ t, forceType (SfsInode.ofBlock (s.device.sectors i)) forcetype t = some (.ok (inode, dirty), t)) :
    (readVnode i forcetype).Ensures s fun result after => ∃ heap, s.Later heap ∧
      ((result = .error .enomem ∧ s.heap ≠ (fun _ => true) ∧ after = s.retable s.vnodes heap) ∨
        (result = .ok () ∧ after = s.retable (s.vnodes ++ [⟨i, inode, dirty, 1, 0⟩]) heap)) := by
  obtain ⟨first, later, done | ⟨failed, lacking⟩⟩ := @kmalloc_later s s.vnodes s.heap ⟨0, rfl⟩
  · have still : (s.retable s.vnodes first).Geometry := ⟨geometry.works, geometry.disk, geometry.sized, geometry.bits⟩
    refine .step done ?_
    refine .step (sfsBused_eq inside marked) ?_
    refine .require rfl ?_
    refine .step (rblock_eq still inside _) ?_
    refine .step (forced _) ?_
    refine .require type ?_
    rw [ensures_bind]
    obtain ⟨second, later', done' | ⟨failed', lacking⟩⟩ := @kmalloc_later s s.vnodes first later
    · refine .of_eq done' ?_
      rw [after_ok, ensures_bind]
      obtain ⟨third, later'', done'' | ⟨failed'', lacking⟩⟩ := @kmalloc_later s s.vnodes second later'
      · refine .of_eq done'' ?_
        rw [after_ok, ensures_modify]
        exact ⟨third, later'', .inr ⟨rfl, rfl⟩⟩
      · exact .of_eq failed'' ⟨third, later'', .inl ⟨rfl, lacking, rfl⟩⟩
    · exact .of_eq failed' ⟨second, later', .inl ⟨rfl, lacking, rfl⟩⟩
  · refine ⟨_, _, bind_error failed, first, later, .inl ⟨rfl, lacking, rfl⟩⟩

theorem readVnode_ensures (healthy : s.Healthy held) (isLive : s.Live i) (absent : s.vnode? i = none) :
    (readVnode i sfsTypeInval).Ensures s fun result after => ∃ heap, s.Later heap ∧
      ((result = .error .enomem ∧ s.heap ≠ (fun _ => true) ∧ after = s.retable s.vnodes heap) ∨
        (result = .ok () ∧
          after = s.retable (s.vnodes ++ [⟨i, SfsInode.ofBlock (s.device.sectors i), false, 1, 0⟩]) heap)) := by
  have owns : s.Owns s.Live (.inode i) i := ⟨isLive, rfl⟩
  have inode : s.inodeOf i = SfsInode.ofBlock (s.device.sectors i) := by rw [Sfs.inodeOf, absent]
  refine readVnode_reads healthy.consistent.geometry (healthy.consistent.inside owns) (healthy.consistent.marked owns)
    ?_ fun t => ?_
  · rw [← inode]
    by_cases root : i = sfsRootLocation
    · rw [root]
      exact .inr healthy.rooted.type
    · exact .inl (healthy.files i isLive root)
  · rfl

theorem sfsLoadvnode_ensures (healthy : s.Healthy held) (isLive : s.Live i) :
    (sfsLoadvnode i sfsTypeInval).Ensures s fun result after => Quiet held s after ∧
      ((result = .error .enomem ∧ (s.heap ≠ (fun _ => true) ∧ s.vnode? i = none) ∧ after.refs = s.refs) ∨
        (result = .ok i ∧ after.refs = update s.refs i (s.refs i + 1))) := by
  unfold sfsLoadvnode
  rw [ensures_bind, ensures_get]
  refine .step (healthy.loadedVnode_eq i fun _ member => member) ?_
  rw [any_ino]
  cases found : s.vnode? i with
  | some vnode =>
    refine .require rfl ?_
    rw [ensures_bind]
    apply (vnodeIncref_ensures healthy found).mono
    intro result after outcome
    obtain ⟨rfl, quiet, refs⟩ := outcome
    rw [after_ok, ensures_pure]
    exact ⟨quiet, .inr ⟨rfl, refs⟩⟩
  | none =>
    rw [isSome_none, if_neg Bool.false_ne_true, ensures_bind]
    apply (readVnode_ensures healthy isLive found).mono
    intro result after outcome
    obtain ⟨heap, later, ⟨rfl, lacking, rfl⟩ | ⟨rfl, rfl⟩⟩ := outcome
    · obtain ⟨quiet, refs⟩ := quiet_heap healthy later.memory
      exact ⟨quiet, .inl ⟨rfl, ⟨lacking, rfl⟩, refs⟩⟩
    · obtain ⟨quiet, refs⟩ := quiet_load healthy isLive found later.memory
      rw [after_ok, ensures_pure]
      exact ⟨quiet, .inr ⟨rfl, refs⟩⟩

end Load

section Sync

variable {held : UInt32 → Prop} {i : UInt32} {s : Sfs} {vnode : SfsVnode}

theorem sync_inode (healthy : s.Healthy held) (loaded : s.vnode? i = some vnode) :
    Quiet held s ((s.store i vnode.inode.toBlock).setVnode i fun vnode => { vnode with dirty := false }) ∧
    ((s.store i vnode.inode.toBlock).setVnode i fun vnode => { vnode with dirty := false }).refs = s.refs := by
  have before := healthy.consistent
  have isLive := live_loaded loaded
  have owns : s.Owns s.Live (.inode i) i := ⟨isLive, rfl⟩
  have found : ∀ j, ((s.store i vnode.inode.toBlock).setVnode i fun vnode => { vnode with dirty := false }).vnode? j =
      (s.vnode? j).map fun vnode => if j = i then { vnode with dirty := false } else vnode := by
    intro j
    rw [vnode?_setVnode]
    · rfl
    · exact fun _ => rfl
  generalize target : (s.store i vnode.inode.toBlock).setVnode i (fun vnode => { vnode with dirty := false }) = s'
    at found ⊢
  have sectors : ∀ block, block ≠ i → s'.device.sectors block = s.device.sectors block := by
    intro block other
    rw [← target]
    exact if_neg other
  have here : s'.vnode? i = some { vnode with dirty := false } := by rw [found, loaded]; simp
  have step : FileStep s.Live i s s' := by
    constructor
    · rw [← target]
      exact fun geometry => ⟨geometry.works, geometry.disk, geometry.sized, geometry.bits⟩
    · rw [← target]; rfl
    · rw [← target]; rfl
    · rw [← target]; rfl
    · rw [← target]
      exact fun clean => ⟨clean, rfl⟩
    · rw [← target]
      exact inos_setVnode fun _ => rfl
    · intro j other
      rw [found]
      simp [other]
    · intro vnode' there
      cases loaded.symm.trans there
      refine ⟨_, here, rfl, rfl, fun sound => ⟨sound.referenced, sound.opened, fun _ => ?_⟩⟩
      have stored : s'.device.sectors i = vnode.inode.toBlock := by
        rw [← target]
        exact if_pos rfl
      rw [vnode?_ino loaded, stored, SfsInode.ofBlock_toBlock]
    · intro owner block outside owns'
      apply sectors
      rintro rfl
      cases before.ledger.unique owns owns'
      exact outside rfl
  have inode : s'.inodeOf i = s.inodeOf i := by
    rw [Sfs.inodeOf_loaded here, Sfs.inodeOf_loaded loaded]
  have listed : s'.listed i = s.listed i := by
    unfold Sfs.listed
    rw [inode]
    split
    · rfl
    next present =>
      rw [sectors]
      intro same
      have indirect : s.Owns s.Live (.indirect i) (s.inodeOf i).indirect := ⟨isLive, present, rfl⟩
      rw [same] at indirect
      cases before.ledger.unique owns indirect
  have slots : ∀ p, s'.slot i p = s.slot i p := Sfs.slot_congr (by rw [inode]) listed
  have bytes : s'.byte i = s.byte i := by
    funext pos
    unfold Sfs.byte
    rw [slots]
    split
    · rfl
    next present =>
      rw [sectors]
      intro same
      have data : s.Owns s.Live (.data i (pos / 512)) (s.slot i (pos / 512)) := ⟨isLive, present, rfl⟩
      rw [same] at data
      cases before.ledger.unique owns data
  have marked : ∀ block, s'.Marked block ↔ s.Marked block := by
    rw [← target]
    exact fun _ => Iff.rfl
  have consistent := step.consistent before (step.ledger_same before (by rw [inode]) slots marked)
  have inodes : ∀ j, s.Live j → s'.inodeOf j = s.inodeOf j := by
    intro j there
    by_cases own : j = i
    · rw [own, inode]
    · exact step.inodeOf there own
  have contents : ∀ j, s.Live j → s'.byte j = s.byte j := by
    intro j there
    by_cases own : j = i
    · rw [own, bytes]
    · exact funext (step.byte there own)
  have root := inodes _ (live_root s)
  have table : s'.table = s.table := by
    refine table_congr (by rw [root]) fun slot => ?_
    unfold Sfs.entry
    rw [contents _ (live_root s)]
  have live := step.live_eq table
  refine ⟨⟨healthy.keep step consistent table (by rw [root]) (by rw [inode]) (by rw [inode]), step.evolves, table, ?_, ?_,
    fun j there => ?_⟩, ?_⟩
  · unfold Sfs.nentries
    rw [root]
  · exact funext fun j => (step.counts j).2
  · rw [live] at there
    exact ⟨there, inodes j there, contents j there⟩
  · exact funext fun j => (step.counts j).1

theorem sfsSyncInode_ensures (healthy : s.Healthy held) (loaded : s.vnode? i = some vnode) :
    (sfsSyncInode i).Ensures s fun result after => result = .ok () ∧ Quiet held s after ∧ after.refs = s.refs ∧
      after.vnode? i = some { vnode with dirty := false } := by
  have owns : s.Owns s.Live (.inode i) i := ⟨live_loaded loaded, rfl⟩
  have number := vnode?_ino loaded
  refine .step (theVnode_eq loaded) ?_
  split
  next dirty =>
    obtain ⟨quiet, refs⟩ := sync_inode healthy loaded
    rw [ensures_bind, number]
    refine .of_eq (wblock_eq healthy.consistent.geometry (healthy.consistent.inside owns) _) ?_
    refine .of_eq (changeVnode_eq _) ⟨rfl, quiet, refs, ?_⟩
    rw [vnode?_setVnode]
    · change (s.vnode? i).map _ = _
      rw [loaded]
      simp only [map_some, if_true, number]
    · exact fun _ => rfl
  next clean =>
    rw [ensures_pure]
    refine ⟨rfl, Quiet.refl healthy, rfl, ?_⟩
    rw [loaded]
    obtain ⟨ino, inode, dirty, refcount, opencount⟩ := vnode
    cases Bool.eq_false_of_not_eq_true clean
    rfl

end Sync

section Unload

variable {held : UInt32 → Prop} {i : UInt32} {s : Sfs} {vnode : SfsVnode}

def Sfs.unload (s : Sfs) (i : UInt32) : Sfs := { s with vnodes := s.vnodes.eraseP (·.ino = i) }

theorem inos_unload (s : Sfs) (i : UInt32) : (s.unload i).vnodes.map (·.ino) = (s.vnodes.map (·.ino)).erase i := by
  rw [erase_eq_eraseP, eraseP_map]
  change List.map _ (s.vnodes.eraseP _) = _
  congr 2
  funext vnode
  simp only [Function.comp_apply]
  rw [Bool.eq_iff_iff, decide_eq_true_iff, beq_iff_eq, eq_comm]

theorem vnode?_unload (distinct : (s.vnodes.map (·.ino)).Nodup) (j : UInt32) :
    (s.unload i).vnode? j = if j = i then none else s.vnode? j := by
  have rest : ((s.unload i).vnodes.map (·.ino)).Nodup := by
    rw [inos_unload]
    exact distinct.erase i
  have member : j ∈ (s.unload i).vnodes.map (·.ino) ↔ j ≠ i ∧ j ∈ s.vnodes.map (·.ino) := by
    rw [inos_unload, distinct.mem_erase_iff]
  split
  next own =>
    rw [vnode?_eq_none, member]
    exact fun there => there.1 own
  next other =>
    cases found : s.vnode? j with
    | none =>
      rw [vnode?_eq_none] at found ⊢
      rw [member]
      exact fun there => found there.2
    | some vnode =>
      have number := vnode?_ino found
      have kept : vnode ∈ (s.unload i).vnodes := by
        apply (mem_eraseP_of_neg _).mpr (vnode?_mem found)
        rw [decide_eq_true_iff, number]
        exact other
      have there := vnode?_of_mem rest kept
      rwa [number] at there

theorem mem_unload {vnode} (member : vnode ∈ (s.unload i).vnodes) : vnode ∈ s.vnodes :=
  mem_of_mem_eraseP member

theorem counts_unload (distinct : (s.vnodes.map (·.ino)).Nodup) (loaded : s.vnode? i = some vnode)
    (last : vnode.refcount = 1) (closed : vnode.opencount = 0) :
    (s.unload i).refs = update s.refs i (s.refs i - 1) ∧ (s.unload i).opens = s.opens := by
  constructor
  · funext j
    rw [Sfs.refs, vnode?_unload distinct, update_apply]
    split
    next => rw [refs_loaded loaded, last]; rfl
    next => rfl
  · funext j
    rw [Sfs.opens, vnode?_unload distinct]
    split
    next own => rw [own, opens_loaded loaded, closed]; rfl
    next => rfl

theorem quiet_unload (healthy : s.Healthy held) (loaded : s.vnode? i = some vnode) (clean : vnode.dirty = false)
    (linked : vnode.inode.linkcount ≠ 0) (last : vnode.refcount = 1) (closed : vnode.opencount = 0) :
    Quiet held s (s.unload i) := by
  have distinct := healthy.consistent.distinct
  have isLive := live_loaded loaded
  have found := fun j => @vnode?_unload i s distinct j
  have inodes : ∀ j, (s.unload i).inodeOf j = s.inodeOf j := by
    intro j
    by_cases own : j = i
    · have disk := (healthy.consistent.sound vnode (vnode?_mem loaded)).clean clean
      rw [vnode?_ino loaded] at disk
      subst own
      rw [Sfs.inodeOf, found, if_pos rfl, Sfs.inodeOf_loaded loaded, ← disk]
      rfl
    · unfold Sfs.inodeOf
      rw [found, if_neg own]
      rfl
  have table : (s.unload i).table = s.table := table_retable (inodes _)
  have live : (s.unload i).Live = s.Live := by
    funext j
    unfold Sfs.Live
    rw [table, found]
    apply propext
    by_cases own : j = i
    · subst own
      refine ⟨fun _ => isLive, fun _ => ?_⟩
      by_cases root : j = sfsRootLocation
      · exact .inl root
      · have count := healthy.links j isLive
        rw [Sfs.inodeOf_loaded loaded, if_neg root, Nat.add_zero] at count
        have positive : 0 < s.links j := by
          rw [← count]
          refine Nat.pos_of_ne_zero fun zero => linked ?_
          exact UInt16.toNat_inj.mp zero
        exact .inr (.inr ((Slots.count_pos (table_bounded s)).mp positive))
    · rw [if_neg own]
  have rest : ((s.unload i).vnodes.map (·.ino)).Nodup := by
    rw [inos_unload]
    exact distinct.erase i
  refine ⟨?_, evolves_retable id, table, ?_, (counts_unload distinct loaded last closed).2,
    fun j there => ⟨?_, inodes j, byte_retable (inodes j)⟩⟩
  · exact healthy.retable (fun j _ => inodes j) live rest fun vnode member =>
      healthy.consistent.sound vnode (mem_unload member)
  · unfold Sfs.nentries
    rw [inodes]
  · rw [← live]
    exact there

theorem Sfs.Healthy.unlinked (healthy : s.Healthy held) (isLive : s.Live i) (unlinked : (s.inodeOf i).linkcount = 0) :
    i ≠ sfsRootLocation ∧ ∀ name, ¬ Slots.Holds s.table name i := by
  have count := healthy.links i isLive
  have zero : (0 : UInt16).toNat = 0 := rfl
  rw [unlinked] at count
  constructor
  · intro root
    rw [if_pos root] at count
    omega
  · intro name named
    have positive : 0 < s.links i := (Slots.count_pos (table_bounded s)).mpr ⟨name, named⟩
    omega

/-- The last reference to an inode without a name is dropped, and with it the inode. -/
theorem quiet_discard (healthy : s.Healthy held) (loaded : s.vnode? i = some vnode) (unlinked : vnode.inode.linkcount = 0)
    (empty : ∀ p, s.slot i p = 0) (direct : (s.inodeOf i).indirect = 0) (last : vnode.refcount = 1)
    (closed : vnode.opencount = 0) :
    Quiet held s ((s.release i).unload i) ∧ ¬ ((s.release i).unload i).Live i := by
  have before := healthy.consistent
  have distinct := before.distinct
  have isLive := live_loaded loaded
  have owns : s.Owns s.Live (.inode i) i := ⟨isLive, rfl⟩
  obtain ⟨notRoot, unnamed⟩ := healthy.unlinked isLive (by rw [Sfs.inodeOf_loaded loaded, unlinked])
  have found : ∀ j, ((s.release i).unload i).vnode? j = if j = i then none else s.vnode? j :=
    fun j => @vnode?_unload i (s.release i) distinct j
  have inodes : ∀ j, j ≠ i → ((s.release i).unload i).inodeOf j = s.inodeOf j := by
    intro j other
    unfold Sfs.inodeOf
    rw [found, if_neg other]
    rfl
  have listed : ∀ j, j ≠ i → ((s.release i).unload i).listed j = s.listed j := by
    intro j other
    unfold Sfs.listed
    rw [inodes j other]
    rfl
  have slots : ∀ j, j ≠ i → ∀ p, ((s.release i).unload i).slot j p = s.slot j p := by
    intro j other
    exact Sfs.slot_congr (by rw [inodes j other]) (listed j other)
  have bytes : ∀ j, j ≠ i → ((s.release i).unload i).byte j = s.byte j := by
    intro j other
    funext pos
    unfold Sfs.byte
    rw [slots j other]
    rfl
  have table : ((s.release i).unload i).table = s.table := by
    refine table_congr (by rw [inodes _ notRoot.symm]) fun slot => ?_
    unfold Sfs.entry
    rw [bytes _ notRoot.symm]
  have live : ∀ j, ((s.release i).unload i).Live j ↔ s.Live j ∧ j ≠ i := by
    intro j
    unfold Sfs.Live
    rw [table, found]
    by_cases own : j = i
    · subst own
      simp only [if_true, ne_eq, not_true_eq_false, and_false, iff_false, reduceCtorEq, exists_false, false_or, not_or,
        not_exists]
      exact ⟨notRoot, unnamed⟩
    · simp only [own, if_false, ne_eq, not_false_eq_true, and_true]
  have rest : (((s.release i).unload i).vnodes.map (·.ino)).Nodup := by
    rw [inos_unload]
    exact distinct.erase i
  have inside := before.inside owns
  have marked : ∀ block, ((s.release i).unload i).Marked block ↔ s.Marked block ∧ block ≠ i :=
    marked_release before.geometry inside
  have ledger : Ledger (((s.release i).unload i).Owns ((s.release i).unload i).Live) held
      ((s.release i).unload i).Marked := by
    refine before.ledger.detach (fun owner _ => owner.Within i) (fun owner block => ?_) fun block => ?_
    · cases owner with
      | super => exact (and_iff_left not_false).symm
      | map j => exact (and_iff_left not_false).symm
      | inode j =>
        simp only [Sfs.Owns, live, Owner.Within]
        tauto
      | indirect j =>
        simp only [Sfs.Owns, live, Owner.Within]
        by_cases own : j = i
        · simp [own]
        · simp [own, inodes j own]
      | data j p =>
        simp only [Sfs.Owns, live, Owner.Within]
        by_cases own : j = i
        · simp [own]
        · simp [own, slots j own]
    · rw [marked]
      apply and_congr_right
      intro _
      apply not_congr
      constructor
      · rintro rfl
        exact ⟨.inode block, owns, rfl⟩
      · rintro ⟨owner, owned, within⟩
        cases owner with
        | super => exact within.elim
        | map j => exact within.elim
        | inode j =>
          cases within
          exact owned.2
        | indirect j =>
          cases within
          exact absurd (owned.2.2.trans direct) owned.2.1
        | data j p =>
          cases within
          exact absurd (owned.2.2.trans (empty p)) owned.2.1
  refine ⟨?_, fun still => ((live i).mp still).2 rfl⟩
  refine ⟨⟨⟨?_, ledger, before.spare, ?_, ?_, rest, ?_⟩, ?_, ?_, ?_⟩, ⟨rfl, id, ?_⟩, table, ?_, ?_, fun j there => ?_⟩
  · exact ⟨before.geometry.works, before.geometry.disk, (before.geometry.release i).sized, before.geometry.bits⟩
  · exact (live _).mpr ⟨live_root s, notRoot.symm⟩
  · intro other member
    have there := vnode?_of_mem rest member
    exact live_loaded there
  · exact fun other member => before.sound other (mem_unload member)
  · have inode := inodes _ notRoot.symm
    exact healthy.rooted.congr table (by rw [inode]) (by rw [inode])
  · intro j there other
    obtain ⟨was, apart⟩ := (live j).mp there
    rw [inodes j apart]
    exact healthy.files j was other
  · intro j there
    obtain ⟨was, apart⟩ := (live j).mp there
    rw [links_congr table (by rw [inodes _ notRoot.symm]), inodes j apart]
    exact healthy.links j was
  · exact fun stored => ⟨stored.magic, stored.nblocks, by rintro ⟨⟩⟩
  · unfold Sfs.nentries
    rw [inodes _ notRoot.symm]
  · exact (@counts_unload i (s.release i) vnode distinct loaded last closed).2
  · obtain ⟨was, apart⟩ := (live j).mp there
    exact ⟨was, inodes j apart, bytes j apart⟩

/-- The change is to an inode that is gone in the end. -/
theorem Quiet.after_change {middle after} (step : FileStep s.Live i s middle)
    (other : i ≠ sfsRootLocation) (quiet : Quiet held middle after) (gone : ¬ after.Live i) : Quiet held s after := by
  obtain ⟨inode, table⟩ := step.root (live_root s) other
  refine ⟨quiet.healthy, step.evolves.trans quiet.evolves, quiet.table.trans table, ?_, ?_, fun j isLive => ?_⟩
  · rw [quiet.nentries]
    unfold Sfs.nentries
    rw [inode]
  · exact quiet.opens.trans (funext fun j => (step.counts j).2)
  · have apart : j ≠ i := by
      rintro rfl
      exact gone isLive
    obtain ⟨there, inode', bytes⟩ := quiet.views j isLive
    rw [step.live_eq table] at there
    refine ⟨there, inode'.trans (step.inodeOf there apart), ?_⟩
    rw [bytes]
    exact funext (step.byte there apart)

theorem unload_eq (loaded : s.vnode? i = some vnode) (last : vnode.refcount = 1)
    (closed : vnode.opencount = 0) : (do
      let vnode ← theVnode i
      modify fun sfs => { sfs with vnodes := sfs.vnodes.eraseP (·.ino = i) }
      vnodeKill vnode : Routine Errno Sfs Unit) s = some (.ok (), s.unload i) := by
  rw [bind_ok (theVnode_eq loaded), bind_ok rfl, vnodeKill, bind_ok (require_pos last), require_pos closed]
  rfl

variable (healthy : s.Healthy held) (loaded : s.vnode? i = some vnode)
include healthy loaded

theorem sfsReclaim_linked
    (linked : vnode.inode.linkcount ≠ 0) (last : vnode.refcount = 1) (closed : vnode.opencount = 0) :
    (sfsReclaim i).Ensures s fun result after =>
      result = .ok () ∧ Quiet held s after ∧ after.refs = update s.refs i (s.refs i - 1) := by
  refine .step (theVnode_eq loaded) ?_
  rw [if_neg (not_not_intro last), ensures_bind]
  refine .step (theVnode_eq loaded) ?_
  rw [if_neg linked, ensures_pure, after_ok, ensures_bind]
  apply (sfsSyncInode_ensures healthy loaded).mono
  intro result synced outcome
  obtain ⟨rfl, quiet, refs, still⟩ := outcome
  rw [after_ok, ensures_bind]
  refine .step (theVnode_eq still) ?_
  rw [if_neg linked, ensures_pure]
  refine .of_eq (unload_eq still last closed) ⟨rfl, ?_, ?_⟩
  · exact quiet.trans (quiet_unload quiet.healthy still rfl linked last closed)
  · rw [(counts_unload quiet.healthy.consistent.distinct still last closed).1, refs]

theorem sfsReclaim_unlinked
    (unlinked : vnode.inode.linkcount = 0) (last : vnode.refcount = 1) (closed : vnode.opencount = 0) :
    (sfsReclaim i).Ensures s fun result after =>
      result = .ok () ∧ Quiet held s after ∧ after.refs = update s.refs i (s.refs i - 1) := by
  have isLive := live_loaded loaded
  have inode := Sfs.inodeOf_loaded loaded
  obtain ⟨other, _⟩ := healthy.unlinked isLive (by rw [inode, unlinked])
  have type := healthy.files i isLive other
  have file : vnode.inode.type ≠ sfsTypeDir := by
    rw [← inode, type]
    decide
  refine .step (theVnode_eq loaded) ?_
  rw [if_neg (not_not_intro last), ensures_bind]
  refine .step (theVnode_eq loaded) ?_
  rw [if_pos unlinked]
  refine .step (theVnode_eq loaded) ?_
  rw [if_neg file]
  apply (sfsTruncate_ensures 0 healthy.consistent loaded).mono
  intro result cut outcome
  obtain ⟨rfl, step, consistent, sameType, sameLinks, _, freed⟩ := outcome
  obtain ⟨empty, direct⟩ := freed rfl
  obtain ⟨erased, _, _⟩ := healthy.keep_file step consistent other sameType sameLinks
  obtain ⟨vnode', there, refcount, opencount, _⟩ := step.own vnode loaded
  have inode' := Sfs.inodeOf_loaded there
  rw [after_ok, ensures_bind]
  apply (sfsSyncInode_ensures erased there).mono
  intro result synced outcome
  obtain ⟨rfl, quiet, refs, still⟩ := outcome
  have inode'' : synced.inodeOf i = cut.inodeOf i := by rw [Sfs.inodeOf_loaded still, inode']
  have unlinked' : vnode'.inode.linkcount = 0 := by rw [← inode', sameLinks, inode, unlinked]
  have direct' : (synced.inodeOf i).indirect = 0 := by rw [inode'', direct]
  have empty' : ∀ p, synced.slot i p = 0 := by
    intro p
    rw [← empty p]
    apply Sfs.slot_congr
    · rw [inode'']
    · unfold Sfs.listed
      rw [if_pos direct', if_pos direct]
  have last' := refcount.trans last
  have closed' := opencount.trans closed
  have before := quiet.healthy.consistent
  have owns : synced.Owns synced.Live (.inode i) i := ⟨live_loaded still, rfl⟩
  obtain ⟨discarded, gone⟩ := quiet_discard quiet.healthy still unlinked' empty' direct' last' closed'
  rw [after_ok, ensures_bind]
  refine .step (theVnode_eq still) ?_
  rw [if_pos unlinked']
  refine .of_eq (sfsBfree_eq before.geometry (before.marked owns)) ?_
  refine .of_eq (unload_eq (s := synced.release i) still last' closed') ⟨rfl, ?_, ?_⟩
  · exact (quiet.trans discarded).after_change step other gone
  · rw [(@counts_unload i (synced.release i) _ before.distinct still last' closed').1]
    change update synced.refs i (synced.refs i - 1) = _
    rw [refs, funext fun j => (step.counts j).1]

/-- A reference that is not that of an open file can be dropped. -/
theorem vnodeDecref_ensures (spare : vnode.opencount < vnode.refcount) : (vnodeDecref i).Ensures s fun result after =>
      result = .ok () ∧ Quiet held s after ∧ after.refs = update s.refs i (s.refs i - 1) := by
  have referenced := (healthy.consistent.sound vnode (vnode?_mem loaded)).referenced
  refine .step (theVnode_eq loaded) ?_
  refine .require referenced ?_
  split
  next several =>
    refine .of_eq (changeVnode_eq _) ⟨rfl, ?_, ?_⟩
    · apply quiet_recount healthy
      · exact fun _ => rfl
      · exact fun _ => rfl
      · exact fun _ => rfl
      · intro same found sound
        rw [loaded] at found
        cases found
        exact ⟨Nat.sub_pos_of_lt several, Nat.le_sub_one_of_lt spare, sound.clean⟩
    · rw [refs_recount loaded, refs_loaded loaded]
      exact fun _ => rfl
  next single =>
    have last : vnode.refcount = 1 := by omega
    have closed : vnode.opencount = 0 := by omega
    have reclaimed : (sfsReclaim i).Ensures s fun result after =>
        result = .ok () ∧ Quiet held s after ∧ after.refs = update s.refs i (s.refs i - 1) := by
      by_cases unlinked : vnode.inode.linkcount = 0
      · exact sfsReclaim_unlinked healthy loaded unlinked last closed
      · exact sfsReclaim_linked healthy loaded unlinked last closed
    rw [ensures_bind, ensures_attempt]
    apply reclaimed.mono
    intro result after outcome
    rw [after_ok, ensures_pure]
    exact ⟨rfl, outcome.2⟩

end Unload

end Os161
