import Os161.Proofs.SfsReferences

/-! Entries of the directory and the link counts that go with them. -/

namespace Os161
open Routine Function

/-- No inode is lost, and no file is changed but in its link count. -/
structure Grows (held : UInt32 → Prop) (s s' : Sfs) : Prop where
  healthy : s'.Healthy held
  evolves : s.Evolves s'
  opens : s'.opens = s.opens
  contents : ∀ j, j ≠ sfsRootLocation → s.Live j →
    s'.Live j ∧ (s'.inodeOf j).size = (s.inodeOf j).size ∧ s'.byte j = s.byte j

/-- No file that is left is changed but in its link count. -/
structure Changes (held : UInt32 → Prop) (s s' : Sfs) : Prop where
  healthy : s'.Healthy held
  evolves : s.Evolves s'
  opens : s'.opens = s.opens
  contents : ∀ j, j ≠ sfsRootLocation → s.Live j → s'.Live j →
    (s'.inodeOf j).size = (s.inodeOf j).size ∧ s'.byte j = s.byte j

section Grows

variable {held held' : UInt32 → Prop} {s s' s'' : Sfs}

theorem Grows.refl (healthy : s.Healthy held) : Grows held s s :=
  ⟨healthy, Sfs.Evolves.refl s, rfl, fun _ _ isLive => ⟨isLive, rfl, rfl⟩⟩

theorem Grows.trans (first : Grows held s s') (second : Grows held' s' s'') : Grows held' s s'' where
  healthy := second.healthy
  evolves := first.evolves.trans second.evolves
  opens := second.opens.trans first.opens
  contents := by
    intro j other isLive
    obtain ⟨middle, size, bytes⟩ := first.contents j other isLive
    obtain ⟨final, size', bytes'⟩ := second.contents j other middle
    exact ⟨final, size'.trans size, bytes'.trans bytes⟩

theorem Grows.changes (grows : Grows held s s') : Changes held s s' :=
  ⟨grows.healthy, grows.evolves, grows.opens, fun j other isLive _ => (grows.contents j other isLive).2⟩

theorem Grows.quiet (grows : Grows held s s') (quiet : Quiet held' s' s'') : Changes held' s s'' where
  healthy := quiet.healthy
  evolves := grows.evolves.trans quiet.evolves
  opens := quiet.opens.trans grows.opens
  contents := by
    intro j other isLive final
    obtain ⟨_, size, bytes⟩ := grows.contents j other isLive
    obtain ⟨_, inode, bytes'⟩ := quiet.views j final
    exact ⟨by rw [inode, size], bytes'.trans bytes⟩

theorem Sfs.Healthy.live_iff (healthy : s.Healthy held) (j : UInt32) :
    s.Live j ↔ j = sfsRootLocation ∨ 0 < s.refs j ∨ ∃ name, Slots.Holds s.table name j := by
  apply or_congr_right
  apply or_congr_left
  exact ⟨fun ⟨_, loaded⟩ => healthy.consistent.refs_pos loaded, loaded_of_refs⟩

theorem Quiet.grows (quiet : Quiet held s s') (healthy : s.Healthy held) (more : ∀ j, s.refs j ≤ s'.refs j) :
    Grows held s s' := by
  refine ⟨quiet.healthy, quiet.evolves, quiet.opens, fun j _ isLive => ?_⟩
  have still : s'.Live j := by
    rw [quiet.healthy.live_iff, quiet.table]
    rcases (healthy.live_iff j).mp isLive with root | referenced | named
    · exact Or.inl root
    · exact Or.inr (Or.inl (Nat.lt_of_lt_of_le referenced (more j)))
    · exact Or.inr (Or.inr named)
  obtain ⟨_, inode, bytes⟩ := quiet.views j still
  exact ⟨still, by rw [inode], bytes⟩

end Grows

section Relink

variable {held : UInt32 → Prop} {i : UInt32} {s m : Sfs} {vnode : SfsVnode} {slot : Nat}

variable (healthy : s.Healthy held) (rewrites : Rewrites s.Live held s m) (loaded : s.vnode? i = some vnode)
include healthy rewrites loaded

/-- The entries of the directory have changed, and the link count of an inode is made to
agree with them. -/
theorem relinked (f : UInt16 → UInt16) (whole : (m.inodeOf sfsRootLocation).size.toNat = m.nentries * 64)
    (bounded : m.nentries ≤ 1144) (unique : Slots.Unique m.table)
    (named : ∀ j, j ≠ i → ((∃ name, Slots.Holds m.table name j) ↔ ∃ name, Slots.Holds s.table name j))
    (counts : ∀ j, s.Live j → (if j = i then f (s.inodeOf j).linkcount else (s.inodeOf j).linkcount).toNat =
      m.links j + if j = sfsRootLocation then 1 else 0) :
    Grows held s (m.setInode i fun inode => { inode with linkcount := f inode.linkcount }) ∧
    (m.setInode i fun inode => { inode with linkcount := f inode.linkcount }).refs = s.refs ∧
    (m.setInode i fun inode => { inode with linkcount := f inode.linkcount }).table = m.table ∧
    (m.setInode i fun inode => { inode with linkcount := f inode.linkcount }).nentries = m.nentries := by
  generalize change : (fun inode : SfsInode => { inode with linkcount := f inode.linkcount }) = g
  have keeps : ∀ inode, (g inode).direct = inode.direct ∧ (g inode).indirect = inode.indirect ∧
      (g inode).size = inode.size ∧ (g inode).type = inode.type ∧ (g inode).linkcount = f inode.linkcount := by
    intro inode
    rw [← change]
    exact ⟨rfl, rfl, rfl, rfl, rfl⟩
  obtain ⟨vnode', present⟩ := rewrites.step.loaded loaded
  have isLive := live_loaded loaded
  have step : FileStep s.Live i m (m.setInode i g) := step_setInode g
  have own := inodeOf_setInode present g
  obtain ⟨consistent, ownBytes⟩ := kept_attributes rewrites.consistent present
    (fun inode => (keeps inode).1) fun inode => (keeps inode).2.1
  have inode : ∀ j, s.Live j → ((m.setInode i g).inodeOf j).size = (m.inodeOf j).size ∧
      ((m.setInode i g).inodeOf j).type = (m.inodeOf j).type := by
    intro j there
    by_cases same : j = i
    · rw [same, own]
      exact ⟨(keeps _).2.2.1, (keeps _).2.2.2.1⟩
    · rw [step.inodeOf there same]
      exact ⟨rfl, rfl⟩
  have bytes : ∀ j, s.Live j → (m.setInode i g).byte j = m.byte j := by
    intro j there
    by_cases same : j = i
    · rw [same, ownBytes]
    · exact funext (step.byte there same)
  have root := inode _ (live_root s)
  have table : (m.setInode i g).table = m.table := by
    refine table_congr root.1 fun slot => ?_
    unfold Sfs.entry
    rw [bytes _ (live_root s)]
  have nentries : (m.setInode i g).nentries = m.nentries := by
    unfold Sfs.nentries
    rw [root.1]
  have live : (m.setInode i g).Live = s.Live := by
    funext j
    apply propext
    unfold Sfs.Live
    rw [table, step.loaded_iff, rewrites.step.loaded_iff]
    by_cases same : j = i
    · subst same
      exact ⟨fun _ => isLive, fun _ => Or.inr (Or.inl ⟨vnode, loaded⟩)⟩
    · rw [named j same]
  have types : ∀ j, s.Live j → ((m.setInode i g).inodeOf j).type = (s.inodeOf j).type := by
    intro j there
    rw [(inode j there).2]
    by_cases same : j = sfsRootLocation
    · rw [same, rewrites.type]
    · rw [rewrites.step.inodeOf there same]
  have linkcounts : ∀ j, s.Live j → ((m.setInode i g).inodeOf j).linkcount =
      if j = i then f (s.inodeOf j).linkcount else (s.inodeOf j).linkcount := by
    intro j there
    have middle : (m.inodeOf j).linkcount = (s.inodeOf j).linkcount := by
      by_cases same : j = sfsRootLocation
      · rw [same, rewrites.linkcount]
      · rw [rewrites.step.inodeOf there same]
    split
    next same => rw [same, own, (keeps _).2.2.2.2, ← same, middle]
    next other => rw [step.inodeOf there other, middle]
  refine ⟨⟨⟨?_, ⟨?_, ?_, ?_, ?_⟩, ?_, ?_⟩, ?_, ?_, ?_⟩, ?_, table, nentries⟩
  · rw [live]
    exact consistent
  · rw [types _ (live_root s)]
    exact healthy.rooted.type
  · rw [root.1, whole]
    exact Nat.mul_mod_left _ _
  · rw [nentries]
    exact bounded
  · rw [table]
    exact unique
  · intro j there other
    rw [live] at there
    rw [types j there]
    exact healthy.files j there other
  · intro j there
    rw [live] at there
    rw [linkcounts j there, counts j there, links_congr table root.1]
  · exact rewrites.step.evolves.trans step.evolves
  · funext j
    rw [(step.counts j).2, (rewrites.step.counts j).2]
  · intro j other there
    refine ⟨by rw [live]; exact there, ?_, ?_⟩
    · rw [(inode j there).1, rewrites.step.inodeOf there other]
    · rw [bytes j there]
      exact funext (rewrites.step.byte there other)
  · funext j
    rw [(step.counts j).1, (rewrites.step.counts j).1]

theorem entry_added
    {name} (empty : s.table slot = none) (fresh : ∀ value, ¬ Slots.Holds s.table name value)
    (table : m.table = update s.table slot (some (name, i)))
    (whole : (m.inodeOf sfsRootLocation).size.toNat = max s.nentries (slot + 1) * 64) (room : slot < 1144) :
    Grows held s (m.setInode i fun inode => { inode with linkcount := inode.linkcount + 1 }) ∧
    (m.setInode i fun inode => { inode with linkcount := inode.linkcount + 1 }).refs = s.refs ∧
    (m.setInode i fun inode => { inode with linkcount := inode.linkcount + 1 }).table = m.table ∧
    (m.setInode i fun inode => { inode with linkcount := inode.linkcount + 1 }).nentries = m.nentries := by
  have nentries := nentries_of_size whole
  have bounded := healthy.rooted.bounded
  have distinct : Slots.Unique s.table := healthy.rooted.unique
  apply relinked healthy rewrites loaded (· + 1)
  · rw [whole, nentries]
  · omega
  · rw [table]
    exact distinct.put fresh
  · intro j other
    apply exists_congr
    intro name'
    rw [table, Slots.holds_put empty]
    exact or_iff_left fun same => other same.2
  · intro j isLive
    have count := healthy.links j isLive
    have few : s.links j ≤ s.nentries := Slots.count_le j
    have more := @Slots.count_put (List UInt8) UInt32 _ s.table s.nentries (max s.nentries (slot + 1)) slot name i
      (table_bounded s) empty (by omega) (by omega) j
    have links : m.links j = s.links j + if j = i then 1 else 0 := by
      unfold Sfs.links
      rw [nentries, table, more]
    rw [links]
    split at count <;> split
    next => rw [UInt16.toNat_add, count]; simp only [UInt16.reduceToNat]; omega
    next => omega
    next => rw [UInt16.toNat_add, count]; simp only [UInt16.reduceToNat]; omega
    next => omega

theorem entry_removed
    {name} (there : s.table slot = some (name, i)) (table : m.table = update s.table slot none)
    (nentries : m.nentries = s.nentries) (whole : (m.inodeOf sfsRootLocation).size.toNat = s.nentries * 64) :
    Grows held s (m.setInode i fun inode => { inode with linkcount := inode.linkcount - 1 }) ∧
    (m.setInode i fun inode => { inode with linkcount := inode.linkcount - 1 }).refs = s.refs ∧
    (m.setInode i fun inode => { inode with linkcount := inode.linkcount - 1 }).table = m.table ∧
    (m.setInode i fun inode => { inode with linkcount := inode.linkcount - 1 }).nentries = m.nentries := by
  have distinct : Slots.Unique s.table := healthy.rooted.unique
  apply relinked healthy rewrites loaded (· - 1)
  · rw [whole, nentries]
  · rw [nentries]
    exact healthy.rooted.bounded
  · rw [table]
    exact distinct.clear
  · intro j other
    apply exists_congr
    intro name'
    rw [table, Slots.holds_clear distinct there]
    refine and_iff_left_of_imp fun held same => other ?_
    rw [same] at held
    exact distinct.agree held ⟨slot, there⟩
  · intro j isLive
    have count := healthy.links j isLive
    have fewer := @Slots.count_clear (List UInt8) UInt32 _ s.table s.nentries slot name i (table_bounded s) there j
    have links : m.links j + (if j = i then 1 else 0) = s.links j := by
      unfold Sfs.links
      rw [nentries, table, fewer]
    split
    next same =>
      rw [if_pos same] at links
      have positive : (1 : UInt16) ≤ (s.inodeOf j).linkcount := by
        rw [UInt16.le_iff_toNat_le, count]
        simp only [UInt16.reduceToNat]
        omega
      rw [UInt16.toNat_sub_of_le _ _ positive, count]
      simp only [UInt16.reduceToNat]
      omega
    next other =>
      rw [if_neg other] at links
      omega

end Relink

section Entries

variable {held : UInt32 → Prop} {i : UInt32} {s : Sfs} {vnode : SfsVnode} {slot : Nat}

theorem Rewrites.grows {m} (rewrites : Rewrites s.Live held s m) (healthy : s.Healthy held)
    (size : (m.inodeOf sfsRootLocation).size = (s.inodeOf sfsRootLocation).size) (entries : ∀ k, m.entry k = s.entry k) :
    Grows held s m ∧ m.refs = s.refs ∧ m.table = s.table ∧ m.nentries = s.nentries := by
  have table := table_congr size entries
  have live := rewrites.step.live_eq table
  refine ⟨⟨?_, rewrites.step.evolves, funext fun j => (rewrites.step.counts j).2, ?_⟩,
    funext fun j => (rewrites.step.counts j).1, table, ?_⟩
  · exact healthy.keep rewrites.step rewrites.consistent table size rewrites.type rewrites.linkcount
  · intro j other there
    refine ⟨by rw [live]; exact there, by rw [rewrites.step.inodeOf there other], ?_⟩
    exact funext (rewrites.step.byte there other)
  · unfold Sfs.nentries
    rw [size]

theorem slot_room {m : Sfs} (used : (m.entry slot).ino ≠ sfsNoino) : slot < 1144 := by
  by_contra beyond
  apply used
  apply entry_hole
  unfold Sfs.slot
  rw [dif_neg (by omega), dif_neg (by omega)]

variable (healthy : s.Healthy held) (loaded : s.vnode? sfsRootLocation = some vnode)
include healthy loaded

theorem sfsDirLink_ensures (name : CString) (valid : i ≠ sfsNoino) :
    (sfsDirLink sfsRootLocation name i).Ensures s fun result m =>
      (∃ code, result = .error code ∧ Grows held s m ∧ m.refs = s.refs ∧ m.table = s.table ∧ m.nentries = s.nentries) ∨
      ∃ slot, result = .ok slot ∧ Rewrites s.Live held s m ∧ s.table slot = none ∧ slot < 1144 ∧
        (∀ value, ¬ Slots.Holds s.table name.val value) ∧ m.table = update s.table slot (some (name.val, i)) ∧
        (m.inodeOf sfsRootLocation).size.toNat = max s.nentries (slot + 1) * 64 := by
  have rooted := healthy.rooted
  have same : Grows held s s ∧ s.refs = s.refs ∧ s.table = s.table ∧ s.nentries = s.nentries :=
    ⟨Grows.refl healthy, rfl, rfl, rfl⟩
  obtain ⟨found, computed, covers⟩ := sfsDirFindname_finds healthy.consistent rooted loaded name
  refine .step computed ?_
  split
  next present =>
    rw [ensures_fail]
    exact Or.inl ⟨_, rfl, same⟩
  next absent =>
    rw [not_not] at absent
    split
    next long =>
      rw [ensures_fail]
      exact Or.inl ⟨_, rfl, same⟩
    next fitting =>
      have short : name.val.length ≤ 59 := by
        have limit : sfsNamelen = 60 := rfl
        omega
      have fresh : ∀ value, ¬ Slots.Holds s.table name.val value := by
        rintro value ⟨slot, there⟩
        exact covers.missing absent slot (table_eq_some there).1 value there
      have place : ∃ slot, linkSlot sfsRootLocation found.emptyslot s = some (.ok slot, s) ∧ slot ≤ s.nentries ∧
          s.table slot = none := by
        cases empty : found.emptyslot with
        | some slot =>
          obtain ⟨inside, unused⟩ := covers.empty slot empty
          exact ⟨slot, rfl, Nat.le_of_lt inside, unused⟩
        | none => exact ⟨s.nentries, sfsDirNentries_eq rooted loaded, Nat.le_refl _, table_bounded s _ (Nat.le_refl _)⟩
      obtain ⟨slot, chosen, inside, unused⟩ := place
      have full : (SfsDir.link i name).name.length = 60 := by
        unfold SfsDir.link
        rw [List.length_append, List.length_replicate]
        omega
      refine .step chosen ?_
      rw [ensures_bind]
      apply (sfsWritedir_ensures healthy.consistent rooted loaded full inside).mono
      intro result m outcome
      obtain ⟨rewrites, ⟨code, rfl, _, size, entries⟩ | ⟨rfl, size, entries⟩⟩ := outcome
      · exact Or.inl ⟨code, rfl, rewrites.grows healthy size entries⟩
      · rw [after_ok, ensures_pure]
        have room : slot < 1144 := by
          apply @slot_room slot m
          rw [entries, if_pos rfl]
          exact valid
        exact Or.inr ⟨slot, rfl, rewrites, unused, room, fresh,
          table_put short valid (nentries_of_size size) entries inside, size⟩

theorem sfsDirUnlink_ensures {name} (there : s.table slot = some (name, i)) :
    (sfsDirUnlink sfsRootLocation slot).Ensures s fun result m =>
      result = .ok () ∧ Rewrites s.Live held s m ∧ m.table = update s.table slot none ∧
        m.nentries = s.nentries ∧ (m.inodeOf sfsRootLocation).size.toNat = s.nentries * 64 := by
  have inside := (table_eq_some there).1
  have full : (SfsDir.mk sfsNoino (List.replicate 60 0)).name.length = 60 := List.length_replicate
  apply (sfsWritedir_ensures healthy.consistent healthy.rooted loaded full (Nat.le_of_lt inside)).mono
  intro result m outcome
  obtain ⟨rewrites, ⟨code, _, unused, _⟩ | ⟨rfl, size, entries⟩⟩ := outcome
  · cases unused.symm.trans there
  · have whole : max s.nentries (slot + 1) = s.nentries := by omega
    rw [whole] at size
    have nentries := nentries_of_size size
    exact ⟨rfl, rewrites, table_clear rfl nentries entries, nentries, size⟩

end Entries

section Maps

variable {s s' : Sfs} {i : UInt32} {slot : Nat} {name : CString}

theorem directory_congr (table : s'.table = s.table) (nentries : s'.nentries = s.nentries) :
    s'.directory = s.directory := by
  funext name
  unfold Sfs.directory
  rw [table, nentries]

theorem directory_ext {map} (rooted : s.Rooted)
    (entries : ∀ name i, Slots.Holds s.table name.val i ↔ map name = some i) : s.directory = map := by
  funext name
  apply Option.ext
  intro i
  rw [rooted.directory_eq_some, entries]

theorem directory_put (rooted : s.Rooted) (rooted' : s'.Rooted) (empty : s.table slot = none)
    (fresh : ∀ value, ¬ Slots.Holds s.table name.val value)
    (table : s'.table = update s.table slot (some (name.val, i))) :
    s.directory name = none ∧ s'.directory = update s.directory name (some i) := by
  have none := rooted.directory_eq_none.mpr fresh
  refine ⟨none, directory_ext rooted' fun other j => ?_⟩
  rw [table, Slots.holds_put empty, update_apply, ← rooted.directory_eq_some]
  split
  next same =>
    rw [same, none]
    simp [eq_comm]
  next apart =>
    apply or_iff_left
    exact fun same => apart (Subtype.ext same.1)

theorem directory_clear (rooted : s.Rooted) (rooted' : s'.Rooted) (there : s.table slot = some (name.val, i))
    (table : s'.table = update s.table slot none) :
    s.directory name = some i ∧ s'.directory = update s.directory name none := by
  refine ⟨rooted.directory_eq_some.mpr ⟨slot, there⟩, directory_ext rooted' fun other j => ?_⟩
  rw [table, Slots.holds_clear rooted.unique there, update_apply, ← rooted.directory_eq_some]
  split
  next same => simp [same]
  next apart =>
    apply and_iff_left
    exact fun same => apart (Subtype.ext same)

end Maps

end Os161
