import Os161.Proofs.SfsDirectory
import Os161.Proofs.SfsTruncate

/-! The invariant of a volume, and the changes of the vnode table that keep it. -/

namespace Os161
open Routine

namespace Sfs

def refs (s : Sfs) (i : UInt32) : Nat := (s.vnode? i).elim 0 (·.refcount)

def opens (s : Sfs) (i : UInt32) : Nat := (s.vnode? i).elim 0 (·.opencount)

/-- Blocks, types, names and links of a volume agree with each other. -/
structure Healthy (held : UInt32 → Prop) (s : Sfs) : Prop where
  consistent : s.Consistent s.Live held
  rooted : s.Rooted
  files : ∀ i, s.Live i → i ≠ sfsRootLocation → (s.inodeOf i).type = sfsTypeFile
  links : ∀ i, s.Live i → (s.inodeOf i).linkcount.toNat = s.links i + if i = sfsRootLocation then 1 else 0

structure Stored (s : Sfs) : Prop where
  magic : Words.ofBlock (s.device.sectors sfsSbLocation) 0 = sfsMagic
  nblocks : Words.ofBlock (s.device.sectors sfsSbLocation) 1 = s.nblocks
  freemap : s.freemapdirty = false → ∀ j < (sfsBitblocks s.nblocks).toNat,
    s.device.sectors (sfsMapLocation + UInt32.ofNat j) = Block.ofList (s.freemap.v.drop (j * 512))

/-- What all operations do: allocations that cannot fail stay so, and the volume stays stored. -/
structure Evolves (s s' : Sfs) : Prop where
  nblocks : s'.nblocks = s.nblocks
  memory : s.heap = (fun _ => true) → s'.heap = fun _ => true
  stored : s.Stored → s'.Stored

end Sfs

section Evolves

variable {live held : UInt32 → Prop} {i : UInt32} {s s' s'' : Sfs}

theorem Sfs.Evolves.refl (s : Sfs) : s.Evolves s := ⟨rfl, id, id⟩

theorem Sfs.Evolves.trans (first : s.Evolves s') (second : s'.Evolves s'') : s.Evolves s'' :=
  ⟨second.nblocks.trans first.nblocks, second.memory ∘ first.memory, second.stored ∘ first.stored⟩

variable (step : FileStep live i s s')
include step

theorem FileStep.evolves : s.Evolves s' where
  nblocks := step.nblocks
  memory := fun memory => step.heap.trans memory
  stored := by
    intro stored
    have super := step.sectors .super sfsSbLocation not_false rfl
    refine ⟨?_, ?_, fun clean j small => ?_⟩
    · rw [super]
      exact stored.magic
    · rw [super, step.nblocks]
      exact stored.nblocks
    · obtain ⟨earlier, same⟩ := step.clean clean
      rw [step.nblocks] at small
      rw [step.sectors (.map j) _ not_false ⟨small, rfl⟩, same]
      exact stored.freemap earlier j small

theorem FileStep.counts (j : UInt32) : s'.refs j = s.refs j ∧ s'.opens j = s.opens j := by
  unfold Sfs.refs Sfs.opens
  by_cases own : j = i
  · subst own
    cases found : s.vnode? j with
    | none =>
      rw [vnode?_eq_none, ← step.inos, ← vnode?_eq_none] at found
      rw [found]
      exact ⟨rfl, rfl⟩
    | some vnode =>
      obtain ⟨vnode', there, refcount, opencount, _⟩ := step.own vnode found
      rw [there]
      exact ⟨refcount, opencount⟩
  · rw [step.others j own]
    exact ⟨rfl, rfl⟩

theorem FileStep.loaded_iff (j : UInt32) : (∃ vnode, s'.vnode? j = some vnode) ↔ ∃ vnode, s.vnode? j = some vnode := by
  rw [← Option.isSome_iff_exists, ← Option.isSome_iff_exists, ← not_iff_not]
  simp only [Bool.not_eq_true, Option.isSome_eq_false_iff, Option.isNone_iff_eq_none]
  rw [vnode?_eq_none, vnode?_eq_none, step.inos]

theorem FileStep.live_eq (table : s'.table = s.table) : s'.Live = s.Live := by
  funext j
  unfold Sfs.Live
  rw [table, propext (step.loaded_iff j)]

theorem FileStep.root (isLive : live sfsRootLocation) (other : i ≠ sfsRootLocation) :
    s'.inodeOf sfsRootLocation = s.inodeOf sfsRootLocation ∧ s'.table = s.table := by
  have inode := step.inodeOf isLive other.symm
  refine ⟨inode, table_congr (by rw [inode]) fun slot => ?_⟩
  have bytes : s'.byte sfsRootLocation = s.byte sfsRootLocation := funext (step.byte isLive other.symm)
  unfold Sfs.entry
  rw [bytes]

end Evolves

section Healthy

variable {held : UInt32 → Prop} {i : UInt32} {s s' : Sfs}

theorem live_root (s : Sfs) : s.Live sfsRootLocation := Or.inl rfl

theorem live_loaded {vnode} (loaded : s.vnode? i = some vnode) : s.Live i := Or.inr (Or.inl ⟨vnode, loaded⟩)

theorem live_named {name} (named : Slots.Holds s.table name i) : s.Live i := Or.inr (Or.inr ⟨name, named⟩)

theorem links_congr (table : s'.table = s.table)
    (size : (s'.inodeOf sfsRootLocation).size = (s.inodeOf sfsRootLocation).size) : s'.links = s.links := by
  funext j
  unfold Sfs.links Sfs.nentries
  rw [table, size]

theorem Sfs.Rooted.congr (rooted : s.Rooted) (table : s'.table = s.table)
    (size : (s'.inodeOf sfsRootLocation).size = (s.inodeOf sfsRootLocation).size)
    (type : (s'.inodeOf sfsRootLocation).type = (s.inodeOf sfsRootLocation).type) : s'.Rooted where
  type := type.trans rooted.type
  whole := by
    rw [size]
    exact rooted.whole
  bounded := by
    unfold Sfs.nentries
    rw [size]
    exact rooted.bounded
  unique := by
    rw [table]
    exact rooted.unique

section

variable (healthy : s.Healthy held) (step : FileStep s.Live i s s') (consistent : s'.Consistent s.Live held)
include healthy step consistent

theorem Sfs.Healthy.keep (table : s'.table = s.table)
    (size : (s'.inodeOf sfsRootLocation).size = (s.inodeOf sfsRootLocation).size)
    (type : (s'.inodeOf i).type = (s.inodeOf i).type)
    (linkcount : (s'.inodeOf i).linkcount = (s.inodeOf i).linkcount) : s'.Healthy held := by
  have live := step.live_eq table
  have types : ∀ j, s.Live j → (s'.inodeOf j).type = (s.inodeOf j).type := by
    intro j isLive
    by_cases own : j = i
    · rw [own, type]
    · rw [step.inodeOf isLive own]
  refine ⟨by rw [live]; exact consistent, healthy.rooted.congr table size (types _ (live_root s)), ?_, ?_⟩
  · intro j isLive other
    rw [live] at isLive
    rw [types j isLive]
    exact healthy.files j isLive other
  · intro j isLive
    rw [live] at isLive
    rw [links_congr table size, ← healthy.links j isLive]
    by_cases own : j = i
    · rw [own, linkcount]
    · rw [step.inodeOf isLive own]

theorem Sfs.Healthy.keep_file (other : i ≠ sfsRootLocation) (type : (s'.inodeOf i).type = (s.inodeOf i).type)
    (linkcount : (s'.inodeOf i).linkcount = (s.inodeOf i).linkcount) :
    s'.Healthy held ∧ s'.table = s.table ∧ s'.nentries = s.nentries := by
  obtain ⟨inode, table⟩ := step.root (live_root s) other
  refine ⟨healthy.keep step consistent table (by rw [inode]) type linkcount, table, ?_⟩
  unfold Sfs.nentries
  rw [inode]

end

def Sfs.retable (s : Sfs) (vnodes : List SfsVnode) (heap : Nat → Bool) : Sfs := { s with vnodes := vnodes, heap := heap }

section Retable

variable {live : UInt32 → Prop} {vnodes : List SfsVnode} {heap : Nat → Bool}

theorem slot_retable (inode : (s.retable vnodes heap).inodeOf i = s.inodeOf i) (p : Nat) :
    (s.retable vnodes heap).slot i p = s.slot i p := by
  apply Sfs.slot_congr
  · rw [inode]
  · unfold Sfs.listed
    rw [inode]
    rfl

theorem byte_retable (inode : (s.retable vnodes heap).inodeOf i = s.inodeOf i) :
    (s.retable vnodes heap).byte i = s.byte i := by
  funext pos
  unfold Sfs.byte
  rw [slot_retable inode]
  rfl

theorem owns_retable (inode : ∀ j, live j → (s.retable vnodes heap).inodeOf j = s.inodeOf j) (owner : Owner)
    (block : UInt32) : (s.retable vnodes heap).Owns live owner block ↔ s.Owns live owner block := by
  cases owner with
  | super => exact Iff.rfl
  | map j => exact Iff.rfl
  | inode j => exact Iff.rfl
  | indirect j =>
    apply and_congr_right
    intro isLive
    rw [inode j isLive]
  | data j p =>
    apply and_congr_right
    intro isLive
    rw [slot_retable (inode j isLive)]

theorem Sfs.Consistent.retable (before : s.Consistent live held)
    (inode : ∀ j, live j → (s.retable vnodes heap).inodeOf j = s.inodeOf j)
    (loaded : ∀ vnode ∈ vnodes, live vnode.ino) (distinct : (vnodes.map (·.ino)).Nodup)
    (sound : ∀ vnode ∈ vnodes, vnode.Sound s.device) : (s.retable vnodes heap).Consistent live held where
  geometry := ⟨before.geometry.works, before.geometry.disk, before.geometry.sized, before.geometry.bits⟩
  ledger := before.ledger.congr (owns_retable inode) fun _ => Iff.rfl
  spare := before.spare
  root := before.root
  loaded := loaded
  distinct := distinct
  sound := sound

theorem table_retable (inode : (s.retable vnodes heap).inodeOf sfsRootLocation = s.inodeOf sfsRootLocation) :
    (s.retable vnodes heap).table = s.table := by
  refine table_congr (by rw [inode]) fun slot => ?_
  unfold Sfs.entry
  rw [byte_retable inode]

theorem evolves_retable (memory : s.heap = (fun _ => true) → heap = fun _ => true) :
    s.Evolves (s.retable vnodes heap) :=
  ⟨rfl, memory, fun stored => ⟨stored.magic, stored.nblocks, stored.freemap⟩⟩

theorem Sfs.Healthy.retable (healthy : s.Healthy held)
    (inode : ∀ j, s.Live j → (s.retable vnodes heap).inodeOf j = s.inodeOf j)
    (live : (s.retable vnodes heap).Live = s.Live) (distinct : (vnodes.map (·.ino)).Nodup)
    (sound : ∀ vnode ∈ vnodes, vnode.Sound s.device) : (s.retable vnodes heap).Healthy held := by
  have root := inode _ (live_root s)
  have table := table_retable root
  have loaded : ∀ vnode ∈ vnodes, s.Live vnode.ino := by
    intro vnode member
    have found : (s.retable vnodes heap).vnode? vnode.ino = some vnode := vnode?_of_mem distinct member
    rw [← live]
    exact live_loaded found
  refine ⟨?_, healthy.rooted.congr table (by rw [root]) (by rw [root]), ?_, ?_⟩
  · rw [live]
    exact healthy.consistent.retable inode loaded distinct sound
  · intro j isLive other
    rw [live] at isLive
    rw [inode j isLive]
    exact healthy.files j isLive other
  · intro j isLive
    rw [live] at isLive
    rw [links_congr table (by rw [root]), inode j isLive]
    exact healthy.links j isLive

end Retable

end Healthy

end Os161
