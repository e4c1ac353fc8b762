import Os161.Lib.Slots
import Os161.Proofs.SfsReadWrite

/-! The root directory as a table of slots, and its search. -/

namespace Os161
open Routine Contents List

namespace Sfs

def nentries (s : Sfs) : Nat := (s.inodeOf sfsRootLocation).size.toNat / 64

def entry (s : Sfs) (slot : Nat) : SfsDir := SfsDir.ofBytes (window (s.byte sfsRootLocation) (slot * 64) 64)

def table (s : Sfs) (slot : Nat) : Option (List UInt8 × UInt32) :=
  if slot < s.nentries ∧ (s.entry slot).ino ≠ sfsNoino then some ((s.entry slot).cname, (s.entry slot).ino) else none

def directory (s : Sfs) (name : CString) : Option UInt32 := Slots.lookup s.table s.nentries name.val

def links (s : Sfs) (i : UInt32) : Nat := Slots.count s.table s.nentries i

/-- The inodes of the volume: the root, those in memory and those with a name. -/
def Live (s : Sfs) (i : UInt32) : Prop :=
  i = sfsRootLocation ∨ (∃ vnode, s.vnode? i = some vnode) ∨ ∃ name, Slots.Holds s.table name i

end Sfs

structure Sfs.Rooted (s : Sfs) : Prop where
  type : (s.inodeOf sfsRootLocation).type = sfsTypeDir
  whole : (s.inodeOf sfsRootLocation).size.toNat % 64 = 0
  bounded : s.nentries ≤ 1144
  unique : Slots.Unique s.table

section Table

variable {s s' : Sfs}

theorem table_bounded (s : Sfs) : Slots.Bounded s.table s.nentries := by
  intro slot beyond
  exact if_neg fun used => by omega

variable {i : UInt32} {name : CString}

theorem table_eq_some {slot name} (here : s.table slot = some (name, i)) :
    slot < s.nentries ∧ (s.entry slot).ino = i ∧ (s.entry slot).cname = name ∧ i ≠ sfsNoino := by
  unfold Sfs.table at here
  split at here
  next used =>
    cases here
    exact ⟨used.1, rfl, rfl, used.2⟩
  next => cases here

theorem table_used {slot} (inside : slot < s.nentries) (used : (s.entry slot).ino ≠ sfsNoino) :
    s.table slot = some ((s.entry slot).cname, (s.entry slot).ino) := if_pos ⟨inside, used⟩

theorem table_congr (size : (s'.inodeOf sfsRootLocation).size = (s.inodeOf sfsRootLocation).size)
    (entries : ∀ slot, s'.entry slot = s.entry slot) : s'.table = s.table := by
  funext slot
  unfold Sfs.table Sfs.nentries
  rw [size, entries]

theorem Sfs.Rooted.size (rooted : s.Rooted) : (s.inodeOf sfsRootLocation).size.toNat = s.nentries * 64 := by
  have whole := rooted.whole
  unfold Sfs.nentries
  omega

theorem Sfs.Rooted.directory_eq_some (rooted : s.Rooted) : s.directory name = some i ↔ Slots.Holds s.table name.val i :=
  Slots.lookup_eq_some rooted.unique (table_bounded s)

theorem Sfs.Rooted.directory_eq_none (rooted : s.Rooted) :
    s.directory name = none ↔ ∀ i, ¬ Slots.Holds s.table name.val i :=
  Slots.lookup_eq_none rooted.unique (table_bounded s)

end Table

section Read

variable {live held : UInt32 → Prop} {s : Sfs} {vnode : SfsVnode}

theorem mkKuio_offset (kbuf : List UInt8) (pos : Int) (rw : UioRw) : (mkKuio kbuf pos rw).offset = pos := rfl

theorem mkKuio_fits {kbuf} {slot : Nat} (length : kbuf.length = 64) (small : slot ≤ 1144) (rw : UioRw) :
    (mkKuio kbuf (offT (slot * 64)) rw).Fits ∧ (mkKuio kbuf (offT (slot * 64)) rw).position = slot * 64 := by
  have offset : offT (slot * 64) = slot * 64 := offT_small (by omega) (by omega)
  have start := mkKuio_offset kbuf (offT (slot * 64)) rw
  refine ⟨⟨?_, ?_, Nat.le_refl _, ?_⟩, ?_⟩
  · omega
  · omega
  · change kbuf.length < 2 ^ 32
    omega
  · rw [Uio.position, start]
    omega

theorem sfsReaddir_eq (before : s.Consistent live held) (rooted : s.Rooted)
    (loaded : s.vnode? sfsRootLocation = some vnode) {slot : Nat} (inside : slot < s.nentries) :
    sfsReaddir sfsRootLocation slot s = some (.ok (s.entry slot), s) := by
  have bounded := rooted.bounded
  have size := rooted.size
  have length : (List.replicate 64 (0 : UInt8)).length = 64 := length_replicate
  obtain ⟨fits, position⟩ := mkKuio_fits length (by omega : slot ≤ 1144) .read
  have offset : offT (slot * 64) = slot * 64 := offT_small (by omega) (by omega)
  have amount : readable (s.inodeOf sfsRootLocation).size (mkKuio (List.replicate 64 0) (offT (slot * 64)) .read) = 64 := by
    have small : offT (s.inodeOf sfsRootLocation).size.toNat = (s.inodeOf sfsRootLocation).size.toNat :=
      offT_small (by omega) (by omega)
    have ending : offT (slot * 64 + (64 : Nat)) = slot * 64 + 64 := offT_small (by omega) (by omega)
    have resid : (mkKuio (List.replicate 64 0) (offT (slot * 64)) .read).resid = 64 := length
    rw [readable, resid, mkKuio_offset, small, offset, ending, if_neg (by omega), if_neg (by omega)]
  obtain ⟨result, ⟨after, ku⟩, computed, same, outcome⟩ := sfsIo_read before loaded fits rfl
  rw [amount, position] at outcome
  subst same
  rcases outcome with ⟨code, _, user | far | far⟩ | ⟨rfl, carries, _⟩
  · exact absurd rfl user
  · omega
  · omega
  · have resid : ku.resid = 0 := by
      have total : ku.resid + (window (after.byte sfsRootLocation) (slot * 64) 64).length = 64 := carries.resid
      rw [window_length] at total
      omega
    have rest : ku.rest = [] := by
      have total : ku.rest.length + (window (after.byte sfsRootLocation) (slot * 64) 64).length = 64 := carries.length
      rw [window_length] at total
      exact eq_nil_of_length_eq_zero (by omega)
    have moved : ku.moved = window (after.byte sfsRootLocation) (slot * 64) 64 := carries.moved
    unfold sfsReaddir
    dsimp only
    rw [bind_ok (withLocal_eq computed)]
    rw [bind_ok rfl, bind_ok (require_pos resid), moved, rest, append_nil]
    rfl

theorem sfsDirNentries_eq (rooted : s.Rooted) (loaded : s.vnode? sfsRootLocation = some vnode) :
    sfsDirNentries sfsRootLocation s = some (.ok s.nentries, s) := by
  have inode := Sfs.inodeOf_loaded loaded
  have type := rooted.type
  have whole := rooted.whole
  rw [inode] at type whole
  unfold sfsDirNentries Sfs.nentries
  rw [bind_ok (theVnode_eq loaded), bind_ok (require_pos type), bind_ok (require_pos whole), inode]
  rfl

structure FoundName.Covers (found : FoundName) (s : Sfs) (name : CString) (i : Nat) : Prop where
  entry : ∀ ino slot, found.entry = some (ino, slot) → slot < i ∧ s.table slot = some (name.val, ino)
  missing : found.entry = none → ∀ slot < i, ∀ ino, s.table slot ≠ some (name.val, ino)
  empty : ∀ slot, found.emptyslot = some slot → slot < i ∧ s.table slot = none

section

variable (before : s.Consistent live held) (rooted : s.Rooted) (loaded : s.vnode? sfsRootLocation = some vnode)
  (name : CString)
include before rooted loaded name

theorem findnameLoop_ensures (left i : Nat) (total : left + i = s.nentries)
    (found : FoundName) (covers : found.Covers s name i) :
    (findnameLoop sfsRootLocation name left i found).Ensures s fun result after => ∃ found,
      result = .ok found ∧ after = s ∧ found.Covers s name s.nentries := by
  induction left generalizing i found with
  | zero =>
    rw [findnameLoop, ensures_pure]
    rw [Nat.zero_add] at total
    exact ⟨found, rfl, rfl, total ▸ covers⟩
  | succ left again =>
    have inside : i < s.nentries := by omega
    refine .step (sfsReaddir_eq before rooted loaded inside) ?_
    split
    next free =>
      have unused : s.table i = none := if_neg fun used => used.2 free
      refine again (i + 1) (by omega) _ ⟨fun ino slot here => ?_, fun none slot low ino => ?_, fun slot here => ?_⟩
      · obtain ⟨low, there⟩ := covers.entry ino slot here
        exact ⟨by omega, there⟩
      · by_cases last : slot = i
        · rw [last, unused]
          exact nofun
        · exact covers.missing none slot (by omega) ino
      · cases here
        exact ⟨by omega, unused⟩
    next used =>
      have here := table_used inside used
      split
      next same =>
        rw [same] at here
        have first : found.entry = none := by
          cases earlier : found.entry with
          | none => rfl
          | some pair =>
            obtain ⟨low, there⟩ := covers.entry pair.1 pair.2 earlier
            cases rooted.unique there here
            omega
        rw [ensures_bind, ensures_require, after_ok]
        refine ⟨first, again (i + 1) (by omega) _ ⟨fun ino slot there => ?_, nofun, fun slot empty => ?_⟩⟩
        · cases there
          exact ⟨by omega, here⟩
        · obtain ⟨low, there⟩ := covers.empty slot empty
          exact ⟨by omega, there⟩
      next differs =>
        refine again (i + 1) (by omega) _ ⟨fun ino slot there => ?_, fun none slot low ino => ?_, fun slot empty => ?_⟩
        · obtain ⟨low, there⟩ := covers.entry ino slot there
          exact ⟨by omega, there⟩
        · by_cases last : slot = i
          · rw [last, here, ne_eq, Option.some.injEq, Prod.mk.injEq]
            exact fun equal => differs equal.1
          · exact covers.missing none slot (by omega) ino
        · obtain ⟨low, there⟩ := covers.empty slot empty
          exact ⟨by omega, there⟩

/-- The search of the directory finds what the table has, and an empty slot. -/
theorem sfsDirFindname_finds :
    ∃ found, sfsDirFindname sfsRootLocation name s = some (.ok found, s) ∧ found.Covers s name s.nentries := by
  have start : (FoundName.mk none none).Covers s name 0 := ⟨nofun, fun _ slot low => by omega, nofun⟩
  obtain ⟨result, after, computed, found, rfl, rfl, covers⟩ :=
    findnameLoop_ensures before rooted loaded name s.nentries 0 (Nat.add_zero _) _ start
  refine ⟨found, ?_, covers⟩
  unfold sfsDirFindname
  rw [bind_ok (sfsDirNentries_eq rooted loaded), computed]

end

theorem FoundName.Covers.directory {found : FoundName} {name} (covers : found.Covers s name s.nentries)
    (rooted : s.Rooted) : s.directory name = found.entry.map Prod.fst := by
  cases entry : found.entry with
  | some pair =>
    rw [rooted.directory_eq_some.mpr ⟨pair.2, (covers.entry pair.1 pair.2 entry).2⟩]
    rfl
  | none =>
    rw [Option.map_none, rooted.directory_eq_none]
    rintro i ⟨slot, here⟩
    exact covers.missing entry slot (table_eq_some here).1 i here

end Read

section Write

variable {live held : UInt32 → Prop} {s s' : Sfs} {vnode : SfsVnode} {slot : Nat} {sd : SfsDir}

theorem entry_ino (s : Sfs) (slot : Nat) :
    (s.entry slot).ino = wordOf (s.byte sfsRootLocation (slot * 64)) (s.byte sfsRootLocation (slot * 64 + 1))
      (s.byte sfsRootLocation (slot * 64 + 2)) (s.byte sfsRootLocation (slot * 64 + 3)) := by
  have byte {k : Nat} (inside : k < 64) :
      (window (s.byte sfsRootLocation) (slot * 64) 64).getD k 0 = s.byte sfsRootLocation (slot * 64 + k) := by
    rw [getD_eq_getElem?_getD, window_getElem? inside, Option.getD_some]
  unfold Sfs.entry SfsDir.ofBytes
  rw [byte (by decide), byte (by decide), byte (by decide), byte (by decide), Nat.add_zero]

theorem entry_hole (hole : s.slot sfsRootLocation (slot * 64 / 512) = 0) : (s.entry slot).ino = sfsNoino := by
  have byte {k : Nat} (inside : k < 64) : s.byte sfsRootLocation (slot * 64 + k) = 0 := by
    have block : (slot * 64 + k) / 512 = slot * 64 / 512 := by omega
    rw [Sfs.byte, block, if_pos hole]
  have first := byte (show 0 < 64 by decide)
  rw [Nat.add_zero] at first
  rw [entry_ino, first, byte (by decide), byte (by decide), byte (by decide)]
  rfl

theorem toBytes_length (full : sd.name.length = 60) : sd.toBytes.length = 64 := by
  unfold SfsDir.toBytes
  simp only [length_cons, full]

theorem entry_patch (full : sd.name.length = 60)
    (bytes : s'.byte sfsRootLocation = patch (s.byte sfsRootLocation) (slot * 64) sd.toBytes) (k : Nat) :
    s'.entry k = if k = slot then sd else s.entry k := by
  have length := toBytes_length full
  unfold Sfs.entry
  rw [bytes]
  split
  next same =>
    have whole := @window_patch_self _ (s.byte sfsRootLocation) (slot * 64) sd.toBytes
    rw [length] at whole
    rw [same, whole, SfsDir.ofBytes_toBytes]
  next other => rw [window_patch_apart (by omega)]

/-- How the directory file changes when a slot is written. -/
structure Rewrites (live held : UInt32 → Prop) (s s' : Sfs) : Prop where
  step : FileStep live sfsRootLocation s s'
  consistent : s'.Consistent live held
  type : (s'.inodeOf sfsRootLocation).type = (s.inodeOf sfsRootLocation).type
  linkcount : (s'.inodeOf sfsRootLocation).linkcount = (s.inodeOf sfsRootLocation).linkcount

theorem grown_small {size endpos} (small : size.toNat < 2 ^ 31) (room : endpos < 2 ^ 31) :
    (grown size endpos).toNat = max size.toNat endpos := by
  have exact_ : offT size.toNat = size.toNat := offT_small (by omega) (by omega)
  unfold grown
  split
  · rw [UInt32.toNat_ofNat', Nat.mod_eq_of_lt (by omega)]
    omega
  · omega

/-- An entry is written as a whole, or it is not written and there was none in its slot. -/
theorem sfsWritedir_ensures (before : s.Consistent live held) (rooted : s.Rooted)
    (loaded : s.vnode? sfsRootLocation = some vnode) (full : sd.name.length = 60) (inside : slot ≤ s.nentries) :
    (sfsWritedir sfsRootLocation sd slot).Ensures s fun result after => Rewrites live held s after ∧
      ((∃ code, result = .error code ∧ s.table slot = none ∧
          (after.inodeOf sfsRootLocation).size = (s.inodeOf sfsRootLocation).size ∧
          ∀ k, after.entry k = s.entry k) ∨
        (result = .ok () ∧ (after.inodeOf sfsRootLocation).size.toNat = max s.nentries (slot + 1) * 64 ∧
          ∀ k, after.entry k = if k = slot then sd else s.entry k)) := by
  have bounded := rooted.bounded
  have size := rooted.size
  have length := toBytes_length full
  obtain ⟨fits, position⟩ := mkKuio_fits length (by omega : slot ≤ 1144) .write
  have resid : (mkKuio sd.toBytes (offT (slot * 64)) .write).resid = 64 := length
  have rest : (mkKuio sd.toBytes (offT (slot * 64)) .write).rest = sd.toBytes := rfl
  unfold sfsWritedir
  rw [ensures_bind, ensures_withLocal]
  apply (sfsIo_write before loaded fits rfl).mono
  intro result next outcome
  obtain ⟨after, ku⟩ := next
  obtain ⟨data, taken, carries, _, wrote, outcome⟩ := outcome
  have left : ku.resid + data.length = 64 := carries.resid.trans resid
  rw [position, resid] at outcome
  rw [rest] at taken
  rw [position] at wrote
  have rewrites : Rewrites live held s after := ⟨wrote.step, wrote.consistent, wrote.type, wrote.linkcount⟩
  rw [after_ok]
  dsimp only
  rw [ensures_bind, ensures_finish]
  cases result with
  | error code =>
    obtain ⟨stopped, reason⟩ := outcome
    have nothing : data = [] := by
      rcases stopped with nothing | ⟨short, boundary⟩
      · exact nothing
      · exact eq_nil_of_length_eq_zero (by omega)
    refine ⟨rewrites, Or.inl ⟨code, rfl, ?_, ?_, ?_⟩⟩
    · rcases reason with (user | far | far) | ⟨p, hole, touched⟩
      · exact absurd rfl user
      · exact if_neg fun used => by omega
      · exact if_neg fun used => by omega
      · rw [position] at touched
        refine if_neg fun used => used.2 (entry_hole ?_)
        rcases touched with rfl | ⟨low, high⟩
        · exact hole
        · omega
    · apply UInt32.toNat_inj.mp
      rw [wrote.size, nothing, grown_small (by omega) (by rw [length_nil]; omega), length_nil]
      omega
    · intro k
      unfold Sfs.entry
      rw [wrote.bytes, nothing, patch_nil]
  | ok value =>
    have whole : data.length = 64 := outcome
    have all : data = sd.toBytes := by rw [taken, whole, ← length, take_length]
    rw [after_ok, ensures_require]
    refine ⟨by omega, rewrites, Or.inr ⟨rfl, ?_, ?_⟩⟩
    · rw [wrote.size, grown_small (by omega) (by omega), whole]
      omega
    · rw [all] at wrote
      exact entry_patch full wrote.bytes

end Write

section Update

variable {s s' : Sfs} {slot : Nat} {ino : UInt32} {name : CString}

theorem cname_link (short : name.val.length ≤ 59) : (SfsDir.link ino name).cname = name.val := by
  have nonzero : ∀ byte ∈ name.val, decide (byte ≠ 0) = true := by
    intro byte member
    rw [decide_eq_true_iff]
    rintro rfl
    exact name.property member
  unfold SfsDir.cname SfsDir.link
  rw [take_append, take_of_length_le short, takeWhile_append_of_pos nonzero, take_replicate]
  cases count : min (59 - name.val.length) (60 - name.val.length) with
  | zero => rw [replicate_zero, takeWhile_nil, append_nil]
  | succ more => rw [replicate_succ, takeWhile_cons_of_neg (by decide), append_nil]

theorem nentries_of_size {n} (size : (s'.inodeOf sfsRootLocation).size.toNat = n * 64) : s'.nentries = n := by
  unfold Sfs.nentries
  omega

theorem table_put (short : name.val.length ≤ 59) (valid : ino ≠ sfsNoino)
    (size : s'.nentries = max s.nentries (slot + 1))
    (entries : ∀ k, s'.entry k = if k = slot then SfsDir.link ino name else s.entry k) (inside : slot ≤ s.nentries) :
    s'.table = Function.update s.table slot (some (name.val, ino)) := by
  funext k
  rw [Function.update_apply]
  unfold Sfs.table
  rw [entries, size]
  split
  next same =>
    rw [if_pos ⟨by omega, valid⟩, cname_link short]
    rfl
  next other =>
    have range : k < max s.nentries (slot + 1) ↔ k < s.nentries := by omega
    simp only [range]

theorem table_clear {sd} (unused : sd.ino = sfsNoino) (size : s'.nentries = s.nentries)
    (entries : ∀ k, s'.entry k = if k = slot then sd else s.entry k) :
    s'.table = Function.update s.table slot none := by
  funext k
  rw [Function.update_apply]
  unfold Sfs.table
  rw [entries, size]
  split
  next => rw [if_neg fun used => used.2 unused]
  next => rfl

end Update

end Os161
