import Os161.Lib.Ledger
import Os161.Proofs.SfsPrimitives

/-! Who owns the blocks of a volume, and what a change to one file leaves alone. -/

namespace Os161

/-- What a block can belong to. Block `p` of a file is a direct block or one in the indirect block. -/
inductive Owner where
  | super
  | map (j : Nat)
  | inode (i : UInt32)
  | indirect (i : UInt32)
  | data (i : UInt32) (p : Nat)

def Owner.Within (i : UInt32) : Owner → Prop
  | super => False
  | map _ => False
  | inode j => j = i
  | indirect j => j = i
  | data j _ => j = i

namespace Sfs

/-- The current inode: the one in memory if it is loaded, else the one on disk. -/
def inodeOf (s : Sfs) (i : UInt32) : SfsInode :=
  match s.vnode? i with
  | some vnode => vnode.inode
  | none => SfsInode.ofBlock (s.device.sectors i)

def listed (s : Sfs) (i : UInt32) : Words :=
  if (s.inodeOf i).indirect = 0 then Words.zeros else Words.ofBlock (s.device.sectors (s.inodeOf i).indirect)

def slot (s : Sfs) (i : UInt32) (p : Nat) : UInt32 :=
  if direct : p < 15 then (s.inodeOf i).direct ⟨p, direct⟩
  else if listed : p - 15 < 128 then s.listed i ⟨p - 15, listed⟩
  else 0

def byte (s : Sfs) (i : UInt32) (pos : Nat) : UInt8 :=
  if s.slot i (pos / 512) = 0 then 0
  else s.device.sectors (s.slot i (pos / 512)) ⟨pos % 512, Nat.mod_lt _ (by decide)⟩

def Owns (s : Sfs) (live : UInt32 → Prop) : Owner → UInt32 → Prop
  | .super, block => block = sfsSbLocation
  | .map j, block => j < (sfsBitblocks s.nblocks).toNat ∧ block = sfsMapLocation + UInt32.ofNat j
  | .inode i, block => live i ∧ block = i
  | .indirect i, block => live i ∧ block ≠ 0 ∧ block = (s.inodeOf i).indirect
  | .data i p, block => live i ∧ block ≠ 0 ∧ block = s.slot i p

end Sfs

/-- A vnode in use, whose inode is on disk unless it is dirty. -/
structure SfsVnode.Sound (device : Lhd) (vnode : SfsVnode) : Prop where
  referenced : 0 < vnode.refcount
  opened : vnode.opencount ≤ vnode.refcount
  clean : vnode.dirty = false → SfsInode.ofBlock (device.sectors vnode.ino) = vnode.inode

/-- The invariant of the blocks. `live` are the inodes, `held` the blocks marked though nobody owns them. -/
structure Sfs.Consistent (live held : UInt32 → Prop) (s : Sfs) : Prop where
  geometry : s.Geometry
  ledger : Ledger (s.Owns live) held s.Marked
  spare : ∀ block, s.nblocks ≤ block → block < s.freemap.nbits → held block
  root : live sfsRootLocation
  loaded : ∀ vnode ∈ s.vnodes, live vnode.ino
  distinct : (s.vnodes.map (·.ino)).Nodup
  sound : ∀ vnode ∈ s.vnodes, vnode.Sound s.device

/-- Only what belongs to file `i` changes, and nobody takes or drops a reference. -/
structure FileStep (live : UInt32 → Prop) (i : UInt32) (s s' : Sfs) : Prop where
  geometry : s.Geometry → s'.Geometry
  nblocks : s'.nblocks = s.nblocks
  nbits : s'.freemap.nbits = s.freemap.nbits
  heap : s'.heap = s.heap
  clean : s'.freemapdirty = false → s.freemapdirty = false ∧ s'.freemap = s.freemap
  inos : s'.vnodes.map (·.ino) = s.vnodes.map (·.ino)
  others : ∀ j, j ≠ i → s'.vnode? j = s.vnode? j
  own : ∀ vnode, s.vnode? i = some vnode → ∃ vnode', s'.vnode? i = some vnode' ∧
    vnode'.refcount = vnode.refcount ∧ vnode'.opencount = vnode.opencount ∧
    (vnode.Sound s.device → vnode'.Sound s'.device)
  sectors : ∀ owner block, ¬ owner.Within i → s.Owns live owner block →
    s'.device.sectors block = s.device.sectors block

section Consistent

variable {live held : UInt32 → Prop} {s : Sfs}

section

variable (consistent : s.Consistent live held)
include consistent

variable {owner : Owner} {block : UInt32}

theorem Sfs.Consistent.marked (owns : s.Owns live owner block) : s.Marked block := consistent.ledger.marked_of_owns owns

theorem Sfs.Consistent.inside (owns : s.Owns live owner block) : block < s.nblocks := by
  by_contra beyond
  have range := consistent.geometry.sized.isset_range (consistent.marked owns)
  exact consistent.ledger.apart owns (consistent.spare block (UInt32.not_lt.mp beyond) range)

theorem Sfs.Consistent.reserved : s.Spare := by
  intro block beyond range
  exact (consistent.ledger.marked_iff block).mpr (Or.inr (consistent.spare block beyond range))

theorem Sfs.Consistent.isLive {i vnode} (loaded : s.vnode? i = some vnode) : live i := by
  have known := consistent.loaded vnode (vnode?_mem loaded)
  rwa [vnode?_ino loaded] at known

theorem Sfs.Consistent.free {fresh}
    (owns : s.Owns live owner block) (free : ¬ s.Marked fresh) : block ≠ fresh := by
  rintro rfl
  exact free (consistent.marked owns)

end

theorem Sfs.inodeOf_loaded {i vnode} (loaded : s.vnode? i = some vnode) :
    s.inodeOf i = vnode.inode := by
  rw [inodeOf, loaded]

end Consistent

namespace FileStep

variable {live held : UInt32 → Prop} {i j : UInt32} {s s' s'' : Sfs}

theorem refl (s : Sfs) : FileStep live i s s where
  geometry := id
  nblocks := rfl
  nbits := rfl
  heap := rfl
  clean := fun clean => ⟨clean, rfl⟩
  inos := rfl
  others := fun _ _ => rfl
  own := fun vnode loaded => ⟨vnode, loaded, rfl, rfl, id⟩
  sectors := fun _ _ _ _ => rfl

variable (step : FileStep live i s s')
include step

section

variable (isLive : live j) (other : j ≠ i)
include isLive other

theorem inodeOf : s'.inodeOf j = s.inodeOf j := by
  unfold Sfs.inodeOf
  rw [step.others j other, step.sectors (.inode j) j other ⟨isLive, rfl⟩]

theorem listed : s'.listed j = s.listed j := by
  unfold Sfs.listed
  rw [step.inodeOf isLive other]
  split
  · rfl
  · next present => rw [step.sectors (.indirect j) _ other ⟨isLive, present, rfl⟩]

theorem slot (p : Nat) : s'.slot j p = s.slot j p := by
  unfold Sfs.slot
  rw [step.inodeOf isLive other, step.listed isLive other]

theorem byte (pos : Nat) : s'.byte j pos = s.byte j pos := by
  unfold Sfs.byte
  rw [step.slot isLive other]
  split
  · rfl
  · next present => rw [step.sectors (.data j (pos / 512)) _ other ⟨isLive, present, rfl⟩]

end

theorem owns_iff {owner} (outside : ¬ owner.Within i) (block : UInt32) :
    s'.Owns live owner block ↔ s.Owns live owner block := by
  cases owner with
  | super => exact Iff.rfl
  | map j =>
    unfold Sfs.Owns
    rw [step.nblocks]
  | inode j => exact Iff.rfl
  | indirect j =>
    apply and_congr_right
    intro isLive
    rw [step.inodeOf isLive outside]
  | data j p =>
    apply and_congr_right
    intro isLive
    rw [step.slot isLive outside]

theorem trans (next : FileStep live i s' s'') : FileStep live i s s'' where
  geometry := next.geometry ∘ step.geometry
  nblocks := next.nblocks.trans step.nblocks
  nbits := next.nbits.trans step.nbits
  heap := next.heap.trans step.heap
  clean := by
    intro clean
    obtain ⟨earlier, same⟩ := next.clean clean
    obtain ⟨first, equal⟩ := step.clean earlier
    exact ⟨first, same.trans equal⟩
  inos := next.inos.trans step.inos
  others := fun j other => (next.others j other).trans (step.others j other)
  own := by
    intro vnode loaded
    obtain ⟨middle, found, refcount, opencount, sound⟩ := step.own vnode loaded
    obtain ⟨last, present, refcount', opencount', sound'⟩ := next.own middle found
    exact ⟨last, present, refcount'.trans refcount, opencount'.trans opencount, sound' ∘ sound⟩
  sectors := by
    intro owner block outside owns
    rw [next.sectors owner block outside ((step.owns_iff outside block).mpr owns), step.sectors owner block outside owns]

theorem consistent (before : s.Consistent live held) (ledger : Ledger (s'.Owns live) held s'.Marked) :
    s'.Consistent live held where
  geometry := step.geometry before.geometry
  ledger := ledger
  spare := by
    intro block beyond range
    rw [step.nblocks] at beyond
    rw [step.nbits] at range
    exact before.spare block beyond range
  root := before.root
  loaded := by
    intro vnode member
    have known : vnode.ino ∈ s.vnodes.map (·.ino) := by
      rw [← step.inos]
      exact List.mem_map_of_mem member
    obtain ⟨old, present, same⟩ := List.mem_map.mp known
    rw [← same]
    exact before.loaded old present
  distinct := by
    rw [step.inos]
    exact before.distinct
  sound := by
    have distinct : (s'.vnodes.map (·.ino)).Nodup := by
      rw [step.inos]
      exact before.distinct
    intro vnode member
    have found := vnode?_of_mem distinct member
    by_cases own : vnode.ino = i
    · rw [own] at found
      cases previous : s.vnode? i with
      | none =>
        rw [vnode?_eq_none, ← step.inos, ← vnode?_eq_none, found] at previous
        cases previous
      | some old =>
        obtain ⟨current, present, -, -, sound⟩ := step.own old previous
        rw [found] at present
        cases present
        exact sound (before.sound old (vnode?_mem previous))
    · rw [step.others _ own] at found
      obtain ⟨referenced, opened, clean⟩ := before.sound vnode (vnode?_mem found)
      refine ⟨referenced, opened, fun notDirty => ?_⟩
      rw [step.sectors (.inode vnode.ino) _ own ⟨before.isLive found, rfl⟩]
      exact clean notDirty

end FileStep

end Os161
