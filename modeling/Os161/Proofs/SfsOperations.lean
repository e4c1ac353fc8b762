import Os161.Proofs.SfsCreation

/-! What the operations on the directory do to names, references and link counts. -/

namespace Os161
open Routine Function

section References

variable {held : UInt32 → Prop} {i : UInt32} {s : Sfs}

theorem Sfs.Healthy.ino_ne_zero (healthy : s.Healthy held) (isLive : s.Live i) : i ≠ sfsNoino := by
  rintro rfl
  have owns : s.Owns s.Live (.inode sfsNoino) sfsNoino := ⟨isLive, rfl⟩
  have super : s.Owns s.Live .super sfsNoino := rfl
  cases healthy.consistent.ledger.unique owns super

theorem vnodeDecref_drops (healthy : s.Healthy held) (spare : s.opens i < s.refs i) :
    (vnodeDecref i).Ensures s fun result after =>
      result = .ok () ∧ Quiet held s after ∧ after.refs = update s.refs i (s.refs i - 1) := by
  obtain ⟨vnode, loaded⟩ := loaded_of_refs (Nat.lt_of_le_of_lt (Nat.zero_le _) spare)
  rw [opens_loaded loaded, refs_loaded loaded] at spare
  exact vnodeDecref_ensures healthy loaded spare

theorem Sfs.Healthy.opens_le (healthy : s.Healthy held) (i : UInt32) : s.opens i ≤ s.refs i := by
  cases found : s.vnode? i with
  | none =>
    rw [Sfs.opens, found]
    exact Nat.zero_le _
  | some vnode =>
    rw [opens_loaded found, refs_loaded found]
    exact (healthy.consistent.sound vnode (vnode?_mem found)).opened

theorem refs_back {refs} (taken : refs = update s.refs i (s.refs i + 1)) :
    update refs i (refs i - 1) = s.refs := by
  rw [taken, update_self, Nat.add_sub_cancel, update_idem, update_eq_self]

theorem vnodeDecref_back {m} (healthy : s.Healthy held) (still : m.Healthy held) (opens : m.opens = s.opens)
    (taken : m.refs = update s.refs i (s.refs i + 1)) :
    (vnodeDecref i).Ensures m fun result after => result = .ok () ∧ Quiet held m after ∧ after.refs = s.refs := by
  have spare : m.opens i < m.refs i := by
    have few := healthy.opens_le i
    rw [opens, taken, update_self]
    omega
  apply (vnodeDecref_drops still spare).mono
  intro result after outcome
  obtain ⟨rfl, quiet, refs⟩ := outcome
  exact ⟨rfl, quiet, refs.trans (refs_back taken)⟩

theorem refs_more (i j : UInt32) : s.refs j ≤ update s.refs i (s.refs i + 1) j := by
  rw [update_apply]
  split
  next same =>
    rw [same]
    omega
  next => exact Nat.le_refl _

theorem loaded_taken {m : Sfs} (taken : m.refs = update s.refs i (s.refs i + 1)) :
    ∃ vnode, m.vnode? i = some vnode := by
  apply loaded_of_refs
  rw [taken, update_self]
  exact Nat.succ_pos _

theorem Sfs.Healthy.loaded_still {m : Sfs} {j vnode} (healthy : s.Healthy held)
    (loaded : s.vnode? j = some vnode) (taken : m.refs = update s.refs i (s.refs i + 1)) :
    ∃ vnode, m.vnode? j = some vnode := by
  apply loaded_of_refs
  rw [taken]
  exact Nat.lt_of_lt_of_le (healthy.consistent.refs_pos loaded) (refs_more i j)

end References

section Lookup

variable {held : UInt32 → Prop} {s : Sfs} {vnode : SfsVnode}

section

variable (healthy : s.Healthy held) (loaded : s.vnode? sfsRootLocation = some vnode) (name : CString)
include healthy loaded name

/-- A lookup finds what the directory maps the name to, and takes a reference to it. -/
theorem sfsLookonce_ensures :
    (sfsLookonce sfsRootLocation name).Ensures s fun result after => Grows held s after ∧ Quiet held s after ∧
      ((result = .error .enoent ∧ s.directory name = none ∧ after.refs = s.refs) ∨
        (result = .error .enomem ∧ (s.heap ≠ (fun _ => true) ∧ ∃ i, s.directory name = some i ∧ s.vnode? i = none) ∧
          after.refs = s.refs) ∨ ∃ i slot, result = .ok (i, slot) ∧ s.table slot = some (name.val, i) ∧
          after.refs = update s.refs i (s.refs i + 1)) := by
  have rooted := healthy.rooted
  obtain ⟨found, computed, covers⟩ := sfsDirFindname_finds healthy.consistent rooted loaded name
  have directory := covers.directory rooted
  refine .step computed ?_
  cases entry : found.entry with
  | none =>
    rw [entry] at directory
    simp only [ensures_fail]
    exact ⟨Grows.refl healthy, Quiet.refl healthy, Or.inl ⟨trivial, directory, trivial⟩⟩
  | some pair =>
    obtain ⟨i, slot⟩ := pair
    obtain ⟨_, there⟩ := covers.entry i slot entry
    have named : Slots.Holds s.table name.val i := ⟨slot, there⟩
    simp only [ensures_bind]
    apply (sfsLoadvnode_ensures healthy (live_named named)).mono
    intro result after outcome
    obtain ⟨quiet, ⟨rfl, ⟨lacking, absent⟩, refs⟩ | ⟨rfl, refs⟩⟩ := outcome
    · have mapped := rooted.directory_eq_some.mpr named
      refine ⟨quiet.grows healthy fun j => ?_, quiet, Or.inr (Or.inl ⟨rfl, ⟨lacking, i, mapped, absent⟩, refs⟩)⟩
      rw [refs]
    · have grows := quiet.grows healthy fun j => by
        rw [refs]
        exact refs_more i j
      obtain ⟨target, present⟩ := loaded_taken refs
      have linked : target.inode.linkcount ≠ 0 := by
        intro zero
        have unnamed := (quiet.healthy.unlinked (live_loaded present) (by rw [Sfs.inodeOf_loaded present, zero])).2
        rw [quiet.table] at unnamed
        exact unnamed name.val named
      refine .step (theVnode_eq present) ?_
      refine .require linked ?_
      rw [ensures_pure]
      exact ⟨grows, quiet, Or.inr (Or.inr ⟨i, slot, rfl, there, refs⟩)⟩

theorem sfsLookup_ensures :
    (sfsLookup sfsRootLocation name).Ensures s fun result after => Grows held s after ∧ after.directory = s.directory ∧
      ((result = .error .enoent ∧ s.directory name = none ∧ after.refs = s.refs) ∨
        (result = .error .enomem ∧ s.heap ≠ (fun _ => true) ∧ after.refs = s.refs) ∨
        ∃ i, result = .ok i ∧ s.directory name = some i ∧ after.refs = update s.refs i (s.refs i + 1)) := by
  unfold sfsLookup
  rw [ensures_bind]
  apply (sfsLookonce_ensures healthy loaded name).mono
  intro result after outcome
  obtain ⟨grows, quiet, ⟨rfl, missing, refs⟩ | ⟨rfl, ⟨lacking, _⟩, refs⟩ | ⟨i, slot, rfl, there, refs⟩⟩ := outcome
  · exact ⟨grows, quiet.directory, Or.inl ⟨rfl, missing, refs⟩⟩
  · exact ⟨grows, quiet.directory, Or.inr (Or.inl ⟨rfl, lacking, refs⟩)⟩
  · rw [after_ok, ensures_pure]
    have found := healthy.rooted.directory_eq_some.mpr ⟨slot, there⟩
    exact ⟨grows, quiet.directory, Or.inr (Or.inr ⟨i, rfl, found, refs⟩)⟩

end

theorem sfsGetroot_cases (healthy : s.Healthy held) :
    (sfsGetroot s = none ∧ s.heap ≠ fun _ => true) ∨
    sfsGetroot.Ensures s fun result after => result = .ok sfsRootLocation ∧ Quiet held s after ∧
      after.refs = update s.refs sfsRootLocation (s.refs sfsRootLocation + 1) := by
  obtain ⟨result, after, computed, quiet, ⟨rfl, ⟨lacking, _⟩, _⟩ | ⟨rfl, refs⟩⟩ := sfsLoadvnode_ensures healthy (live_root s)
  · refine Or.inl ⟨?_, lacking⟩
    unfold sfsGetroot
    rw [bind_ok (attempt_eq computed)]
    rfl
  · refine Or.inr ?_
    refine .step (attempt_eq computed) ?_
    exact ⟨_, _, rfl, rfl, quiet, refs⟩

end Lookup

section Entries

variable {held : UInt32 → Prop} {i : UInt32} {s : Sfs} {vnode root : SfsVnode}

variable (healthy : s.Healthy held) (loaded : s.vnode? sfsRootLocation = some root)
include healthy loaded

theorem dirLink_add (file : s.vnode? i = some vnode) (name : CString) :
    (sfsDirLink sfsRootLocation name i).Ensures s fun result m =>
      (∃ code, result = .error code ∧ Grows held s m ∧ m.refs = s.refs ∧ m.table = s.table ∧ m.nentries = s.nentries) ∨
      ∃ slot after, result = .ok slot ∧ addLink i m = some (.ok (), after) ∧ Grows held s after ∧
        after.refs = s.refs ∧ s.table slot = none ∧ after.table = update s.table slot (some (name.val, i)) ∧
        s.directory name = none ∧ after.directory = update s.directory name (some i) := by
  apply (sfsDirLink_ensures healthy loaded name (healthy.ino_ne_zero (live_loaded file))).mono
  intro result m outcome
  rcases outcome with failed | ⟨slot, rfl, rewrites, empty, room, fresh, table, size⟩
  · exact Or.inl failed
  · obtain ⟨grows, refs, same, _⟩ := entry_added healthy rewrites file empty fresh table size room
    obtain ⟨absent, directory⟩ :=
      directory_put healthy.rooted grows.healthy.rooted empty fresh (same.trans table)
    exact Or.inr ⟨slot, _, rfl, rfl, grows, refs, empty, same.trans table, absent, directory⟩

variable {slot : Nat} {name : CString}

theorem dirUnlink_drop (file : s.vnode? i = some vnode) (there : s.table slot = some (name.val, i)) :
    (sfsDirUnlink sfsRootLocation slot).Ensures s fun result m => ∃ after, result = .ok () ∧
      dropLink i m = some (.ok (), after) ∧ Grows held s after ∧ after.refs = s.refs ∧
      s.directory name = some i ∧ after.directory = update s.directory name none := by
  apply (sfsDirUnlink_ensures healthy loaded there).mono
  intro result m outcome
  obtain ⟨rfl, rewrites, table, nentries, size⟩ := outcome
  obtain ⟨grows, refs, same, _⟩ := entry_removed healthy rewrites file there table nentries size
  obtain ⟨present, directory⟩ := directory_clear healthy.rooted grows.healthy.rooted there (same.trans table)
  obtain ⟨vnode', still⟩ := rewrites.step.loaded file
  have isLive := live_loaded file
  have linkcount : vnode'.inode.linkcount = (s.inodeOf i).linkcount := by
    rw [← Sfs.inodeOf_loaded still]
    by_cases same : i = sfsRootLocation
    · rw [same, rewrites.linkcount]
    · rw [rewrites.step.inodeOf isLive same]
  have positive : 0 < vnode'.inode.linkcount := by
    rw [linkcount, UInt16.lt_iff_toNat_lt, healthy.links i isLive]
    have named : 0 < s.links i := (Slots.count_pos (table_bounded s)).mpr ⟨name.val, slot, there⟩
    simp only [UInt16.toNat_zero]
    omega
  refine ⟨_, rfl, ?_, grows, refs, present, directory⟩
  unfold dropLink
  rw [bind_ok (theVnode_eq still), bind_ok (require_pos positive)]
  rfl

theorem sfsLink_ensures (file : s.vnode? i = some vnode) (name : CString) :
    (sfsLink sfsRootLocation name i).Ensures s fun result after => Grows held s after ∧ after.refs = s.refs ∧
      ((∃ code, result = .error code ∧ after.directory = s.directory) ∨
        (result = .ok () ∧ s.directory name = none ∧ after.directory = update s.directory name (some i))) := by
  refine .step (theVnode_eq file) ?_
  rw [ensures_bind]
  apply (dirLink_add healthy loaded file name).mono
  intro result m outcome
  rcases outcome with ⟨code, rfl, grows, refs, table, nentries⟩ |
    ⟨slot, after, rfl, added, grows, refs, _, _, absent, directory⟩
  · exact ⟨grows, refs, Or.inl ⟨code, rfl, directory_congr table nentries⟩⟩
  · exact .of_eq added ⟨grows, refs, Or.inr ⟨rfl, absent, directory⟩⟩

/-- The end of `sfs_remove` and `sfs_rename`: the entry is cleared and the lookup's reference dropped. -/
theorem dirUnlink_back {m : Sfs} (grows : Grows held s m) (taken : m.refs = update s.refs i (s.refs i + 1)) (there : m.table slot = some (name.val, i)) (failed : Errno → Routine Errno Sfs Unit) :
    Ensures (do
      match ← attempt (sfsDirUnlink sfsRootLocation slot) with
      | .ok _ =>
        dropLink i
        vnodeDecref i
      | .error code => failed code) m fun result after => result = .ok () ∧ Changes held s after ∧ after.refs = s.refs ∧
        m.directory name = some i ∧ after.directory = update m.directory name none := by
  obtain ⟨victim, file⟩ := loaded_taken taken
  obtain ⟨root', present⟩ := healthy.loaded_still loaded taken
  rw [ensures_bind, ensures_attempt]
  apply (dirUnlink_drop grows.healthy present file there).mono
  intro result m' outcome
  obtain ⟨cleared, rfl, dropped, grows', refs, found, directory⟩ := outcome
  refine .step dropped ?_
  apply (vnodeDecref_back healthy grows'.healthy (grows'.opens.trans grows.opens) (refs.trans taken)).mono
  intro result after outcome
  obtain ⟨rfl, last, back⟩ := outcome
  refine ⟨rfl, (grows.trans grows').quiet last, back, found, ?_⟩
  rw [last.directory, directory]

theorem sfsRemove_ensures (name : CString) :
    (sfsRemove sfsRootLocation name).Ensures s fun result after => Changes held s after ∧ after.refs = s.refs ∧
      ((∃ code, result = .error code ∧ after.directory = s.directory) ∨
        ∃ i, result = .ok () ∧ s.directory name = some i ∧ after.directory = update s.directory name none) := by
  unfold sfsRemove
  rw [ensures_bind]
  apply (sfsLookonce_ensures healthy loaded name).mono
  intro result m outcome
  obtain ⟨grows, quiet, ⟨rfl, _, refs⟩ | ⟨rfl, _, refs⟩ | ⟨i, slot, rfl, there, refs⟩⟩ := outcome
  · exact ⟨grows.changes, refs, Or.inl ⟨_, rfl, quiet.directory⟩⟩
  · exact ⟨grows.changes, refs, Or.inl ⟨_, rfl, quiet.directory⟩⟩
  · rw [← quiet.table] at there
    apply (dirUnlink_back healthy loaded grows refs there _).mono
    intro result after outcome
    obtain ⟨rfl, changes, back, found, directory⟩ := outcome
    rw [quiet.directory] at found directory
    exact ⟨changes, back, Or.inr ⟨i, rfl, found, directory⟩⟩

theorem sfsRename_ensures (n1 n2 : CString) (file : s.directory n1 ≠ some sfsRootLocation) :
    (sfsRename sfsRootLocation n1 sfsRootLocation n2).Ensures s fun result after => Changes held s after ∧
      after.refs = s.refs ∧ ((∃ code, result = .error code ∧ after.directory = s.directory) ∨
        ∃ i, result = .ok () ∧ s.directory n1 = some i ∧ s.directory n2 = none ∧
          after.directory = update (update s.directory n2 (some i)) n1 none) := by
  refine .require rfl ?_
  refine .require rfl ?_
  rw [ensures_bind]
  apply (sfsLookonce_ensures healthy loaded n1).mono
  intro result m outcome
  obtain ⟨grows, quiet, ⟨rfl, _, refs⟩ | ⟨rfl, _, refs⟩ | ⟨i, slot, rfl, there, refs⟩⟩ := outcome
  · exact ⟨grows.changes, refs, Or.inl ⟨_, rfl, quiet.directory⟩⟩
  · exact ⟨grows.changes, refs, Or.inl ⟨_, rfl, quiet.directory⟩⟩
  · have found := healthy.rooted.directory_eq_some.mpr ⟨slot, there⟩
    have other : i ≠ sfsRootLocation := by
      rintro rfl
      exact file found
    obtain ⟨target, present⟩ := loaded_taken refs
    obtain ⟨root', dir⟩ := healthy.loaded_still loaded refs
    have type : target.inode.type = sfsTypeFile := by
      rw [← Sfs.inodeOf_loaded present]
      exact quiet.healthy.files i (live_loaded present) other
    rw [← quiet.table] at there
    refine .step (theVnode_eq present) ?_
    refine .require type ?_
    rw [ensures_bind, ensures_attempt]
    apply (dirLink_add quiet.healthy dir present n2).mono
    intro result m' outcome
    rw [after_ok]
    rcases outcome with ⟨code, rfl, grows', refs', table, nentries⟩ |
      ⟨slot2, linked, rfl, added, grows', refs', empty, table, absent, directory⟩
    · rw [ensures_bind]
      apply (vnodeDecref_back healthy grows'.healthy (grows'.opens.trans quiet.opens) (refs'.trans refs)).mono
      intro result after outcome
      obtain ⟨rfl, last, back⟩ := outcome
      rw [after_ok, ensures_fail]
      refine ⟨(grows.trans grows').quiet last, back, Or.inl ⟨code, rfl, ?_⟩⟩
      rw [last.directory, directory_congr table nentries, quiet.directory]
    · refine .step added ?_
      have apart : slot ≠ slot2 := by
        rintro rfl
        cases empty.symm.trans there
      have entry : linked.table slot = some (n1.val, i) := by
        rw [table, update_of_ne apart, there]
      apply (dirUnlink_back healthy loaded (grows.trans grows') (refs'.trans refs) entry _).mono
      intro result after outcome
      obtain ⟨rfl, changes, back, _, directory'⟩ := outcome
      rw [quiet.directory] at absent directory
      refine ⟨changes, back, Or.inr ⟨i, rfl, found, absent, ?_⟩⟩
      rw [directory', directory]

/-- The assertion in `sfs_rename` that the file is a regular one fails for another name of the root. -/
theorem sfsRename_root (n1 n2 : CString)
    (named : s.directory n1 = some sfsRootLocation) : sfsRename sfsRootLocation n1 sfsRootLocation n2 s = none := by
  obtain ⟨result, m, computed, _, quiet, outcome⟩ := sfsLookonce_ensures healthy loaded n1
  unfold sfsRename
  rw [bind_ok (require_pos rfl), bind_ok (require_pos rfl)]
  rcases outcome with ⟨_, missing, _⟩ | ⟨rfl, ⟨_, i, found, absent⟩, _⟩ | ⟨i, slot, rfl, there, refs⟩
  · cases named.symm.trans missing
  · cases named.symm.trans found
    cases loaded.symm.trans absent
  · cases named.symm.trans (healthy.rooted.directory_eq_some.mpr ⟨slot, there⟩)
    obtain ⟨root', present⟩ := loaded_taken refs
    have directory : ¬ root'.inode.type = sfsTypeFile := by
      have type := quiet.healthy.rooted.type
      rw [Sfs.inodeOf_loaded present] at type
      rw [type]
      decide
    rw [bind_ok computed]
    dsimp only
    rw [bind_ok (theVnode_eq present), bind_halts (require_neg directory)]

theorem sfsCreat_ensures (name : CString) (excl : Bool) :
    (sfsCreat sfsRootLocation name excl).Ensures s fun result after => ∃ held',
      (s.heap = (fun _ => true) → held' = held) ∧ Changes held' s after ∧
      ((∃ code, result = .error code ∧ after.refs = s.refs ∧ after.directory = s.directory) ∨
        ∃ i, result = .ok i ∧ after.refs = update s.refs i (s.refs i + 1) ∧
          ((excl = false ∧ s.directory name = some i ∧ after.directory = s.directory) ∨
            (s.directory name = none ∧ after.directory = update s.directory name (some i) ∧ ¬ s.Live i ∧
              after.Blank i))) := by
  have rooted := healthy.rooted
  obtain ⟨found, computed, covers⟩ := sfsDirFindname_finds healthy.consistent rooted loaded name
  have mapped := covers.directory rooted
  refine .step computed ?_
  cases entry : found.entry with
  | some pair =>
    obtain ⟨i, slot⟩ := pair
    obtain ⟨_, there⟩ := covers.entry i slot entry
    rw [entry] at mapped
    dsimp only
    split
    next =>
      rw [ensures_fail]
      exact ⟨held, fun _ => rfl, (Grows.refl healthy).changes, Or.inl ⟨_, rfl, rfl, rfl⟩⟩
    next shared =>
      have shared := Bool.eq_false_of_not_eq_true shared
      apply (sfsLoadvnode_ensures healthy (live_named ⟨slot, there⟩)).mono
      intro result after outcome
      obtain ⟨quiet, ⟨rfl, _, refs⟩ | ⟨rfl, refs⟩⟩ := outcome
      · have grows := quiet.grows healthy fun j => by rw [refs]
        exact ⟨held, fun _ => rfl, grows.changes, Or.inl ⟨_, rfl, refs, quiet.directory⟩⟩
      · have grows := quiet.grows healthy fun j => by
          rw [refs]
          exact refs_more i j
        exact ⟨held, fun _ => rfl, grows.changes, Or.inr ⟨i, rfl, refs, Or.inl ⟨shared, mapped, quiet.directory⟩⟩⟩
  | none =>
    rw [ensures_bind]
    apply (sfsMakeobj_ensures healthy).mono
    intro result m outcome
    rcases outcome with ⟨code, held', rfl, memory, grows, refs, table, nentries⟩ | ⟨fresh, rfl, made⟩
    · exact ⟨held', memory, grows.changes, Or.inl ⟨code, rfl, refs, directory_congr table nentries⟩⟩
    · obtain ⟨root', dir⟩ := healthy.loaded_still loaded made.refs
      have before := directory_congr made.table made.nentries
      rw [after_ok, ensures_bind, ensures_attempt]
      apply (dirLink_add made.grows.healthy dir made.vnode name).mono
      intro result m' outcome
      rw [after_ok]
      rcases outcome with ⟨code, rfl, grows, refs, table, nentries⟩ |
        ⟨slot, linked, rfl, added, grows, refs, _, _, absent, directory⟩
      · rw [ensures_bind]
        have opens := grows.opens.trans made.grows.opens
        apply (vnodeDecref_back healthy grows.healthy opens (refs.trans made.refs)).mono
        intro result after outcome
        obtain ⟨rfl, last, back⟩ := outcome
        rw [after_ok, ensures_fail]
        refine ⟨held, fun _ => rfl, (made.grows.trans grows).quiet last, Or.inl ⟨code, rfl, back, ?_⟩⟩
        rw [last.directory, directory_congr table nentries, before]
      · refine .step added ?_
        rw [ensures_pure]
        have other : fresh ≠ sfsRootLocation := by
          rintro rfl
          exact made.unknown (live_root s)
        obtain ⟨_, size, bytes⟩ := grows.contents fresh other (live_loaded made.vnode)
        rw [before] at absent directory
        refine ⟨held, fun _ => rfl, (made.grows.trans grows).changes, Or.inr ⟨fresh, rfl, ?_, Or.inr ?_⟩⟩
        · rw [refs, made.refs]
        · refine ⟨absent, directory, made.unknown, ?_, fun pos => ?_⟩
          · rw [size]
            exact made.blank.size
          · rw [bytes]
            exact made.blank.bytes pos

end Entries

end Os161
