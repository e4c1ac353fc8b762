import Mathlib.Data.List.Perm.Basic
import Os161.Lib.Runs
import Os161.Vfslist

/-! Device names. `vfs_adddev` and `vfs_addfs` check that names are new; `vfs_mount` does not look at the volume's.
-/

namespace Os161.Vfs
open Runs List

def Knowndev.Answers (kd : Knowndev) (name : CString) : Prop :=
  kd.name = name ∨ kd.rawname = some name ∨ ∃ fs, kd.fs = some fs ∧ fs.volname = some name

def Apart (first second : Knowndev) : Prop := ∀ name, ¬ (first.Answers name ∧ second.Answers name)

def Unambiguous (devs : List Knowndev) : Prop := devs.Pairwise Apart

/-- What a name stands for does not depend on the order of the table. -/
def OrderIrrelevant (devs : List Knowndev) : Prop :=
  ∀ other, devs.Perm other → ∀ name, vfsGetroot name other = vfsGetroot name devs

/-- The volume that is mounted has a name that no other entry answers to. -/
def NewVolname (devs : List Knowndev) : DevCall → Prop
  | .adddev _ _ _ _ => True
  | .addfs _ _ _ => True
  | .mount devname mounted => ∀ i kd fs name, findmount devs devname = some i → devs[i]? = some kd → kd.fs = none →
      mounted = .ok fs → fs.volname = some name → ∀ other ∈ devs.eraseIdx i, ¬ other.Answers name
  | .unmount _ _ _ => True

theorem Apart.symm {first second} (apart : Apart first second) : Apart second first :=
  fun name both => apart name both.symm

section Lookup

variable {kd : Knowndev} {devs : List Knowndev} {name : CString}

theorem getroot_passes : kd.getroot name = some none ↔ ¬ kd.Answers name := by
  have itself : kd.itself.map some ≠ some none := by
    cases kd with
    | mk n r device f => cases device <;> simp [Knowndev.itself]
  cases mounted : kd.fs with
  | none =>
    simp only [Knowndev.getroot, mounted, Knowndev.Answers]
    by_cases named : kd.name = name
    · by_cases mountable : kd.rawname = none
      · simp [mountable, named, itself]
      · simp [mountable, named]
    · by_cases raw : kd.rawname = some name
      · simp [named, raw, itself]
      · simp [named, raw]
  | some fs =>
    simp only [Knowndev.getroot, mounted, Knowndev.Answers]
    by_cases named : kd.name = name ∨ fs.volname = some name
    · rw [if_pos named]
      simp only [Option.some.injEq, reduceCtorEq, false_iff, not_not]
      rcases named with own | volume
      · exact .inl own
      · exact .inr (.inr ⟨fs, rfl, volume⟩)
    · rw [if_neg named]
      obtain ⟨other, unnamed⟩ := not_or.mp named
      by_cases raw : kd.rawname = some name
      · simp [raw, itself]
      · simp [raw, other, unnamed]

theorem vfsGetroot_none (unnamed : ∀ kd ∈ devs, ¬ kd.Answers name) : vfsGetroot name devs = some (.error .enodev) := by
  induction devs with
  | nil => rfl
  | cons kd rest ih =>
    have passes := getroot_passes.mpr (unnamed kd mem_cons_self)
    simp only [vfsGetroot, passes]
    exact ih fun other member => unnamed other (mem_cons_of_mem _ member)

theorem vfsGetroot_member (unambiguous : Unambiguous devs) (member : kd ∈ devs) (answers : kd.Answers name) :
    vfsGetroot name devs = (kd.getroot name).bind id := by
  induction devs with
  | nil => cases member
  | cons first rest ih =>
    obtain ⟨apart, later⟩ := pairwise_cons.mp unambiguous
    rcases mem_cons.mp member with rfl | behind
    · simp only [vfsGetroot]
      cases found : kd.getroot name with
      | none => rfl
      | some result =>
        cases result with
        | none => exact absurd answers (getroot_passes.mp found)
        | some result => rfl
    · have passes := getroot_passes.mpr fun also => apart kd behind name ⟨also, answers⟩
      simp only [vfsGetroot, passes]
      exact ih later behind

theorem Unambiguous.orderIrrelevant (unambiguous : Unambiguous devs) : OrderIrrelevant devs := by
  intro other same name
  have permuted : Unambiguous other := (same.pairwise_iff fun apart => apart.symm).mp unambiguous
  by_cases named : ∃ kd ∈ devs, kd.Answers name
  · obtain ⟨kd, member, answers⟩ := named
    rw [vfsGetroot_member unambiguous member answers, vfsGetroot_member permuted (same.mem_iff.mp member) answers]
  · have unnamed : ∀ kd ∈ devs, ¬ kd.Answers name := fun kd member answers => named ⟨kd, member, answers⟩
    rw [vfsGetroot_none unnamed, vfsGetroot_none fun kd member => unnamed kd (same.mem_iff.mpr member)]

end Lookup

section Adding

variable {devs : List Knowndev}

theorem samestring_iff {a b} : samestring a b = true ↔ ∃ name, a = some name ∧ b = some name := by
  cases a with
  | none => simp [samestring]
  | some a =>
    cases b with
    | none => simp [samestring]
    | some b => simp [samestring, eq_comm]

theorem badnames_iff {n1 n2 n3} :
    badnames devs n1 n2 n3 = true ↔
      ∃ kd ∈ devs, ∃ name, kd.Answers name ∧ (n1 = some name ∨ n2 = some name ∨ n3 = some name) := by
  have three (a : Option CString) : samestring3 a n1 n2 n3 = true ↔
      ∃ name, a = some name ∧ (n1 = some name ∨ n2 = some name ∨ n3 = some name) := by
    simp only [samestring3, Bool.or_eq_true, samestring_iff]
    constructor
    · rintro ((⟨name, own, new⟩ | ⟨name, own, new⟩) | ⟨name, own, new⟩)
      · exact ⟨name, own, .inl new⟩
      · exact ⟨name, own, .inr (.inl new)⟩
      · exact ⟨name, own, .inr (.inr new)⟩
    · rintro ⟨name, own, new | new | new⟩
      · exact .inl (.inl ⟨name, own, new⟩)
      · exact .inl (.inr ⟨name, own, new⟩)
      · exact .inr ⟨name, own, new⟩
  simp only [badnames, any_eq_true, Bool.or_eq_true, three, Option.any_eq_true]
  constructor
  · rintro ⟨kd, member, (⟨fs, mounted, name, own, new⟩ | ⟨name, own, new⟩) | ⟨name, own, new⟩⟩
    · exact ⟨kd, member, name, .inr (.inr ⟨fs, mounted, own⟩), new⟩
    · exact ⟨kd, member, name, .inr (.inl own), new⟩
    · exact ⟨kd, member, name, .inl (Option.some.inj own), new⟩
  · rintro ⟨kd, member, name, own | own | ⟨fs, mounted, own⟩, new⟩
    · exact ⟨kd, member, .inr ⟨name, congrArg some own, new⟩⟩
    · exact ⟨kd, member, .inl (.inr ⟨name, own, new⟩)⟩
    · exact ⟨kd, member, .inl (.inl ⟨fs, mounted, name, own, new⟩)⟩

theorem vfsDoadd_unambiguous (unambiguous : Unambiguous devs) (dname : CString) (mountable : Bool) (dev : Option Nat)
    (fs : Option Fs) (memory : Bool) : Unambiguous (vfsDoadd devs dname mountable dev fs memory).2 := by
  cases memory with
  | false => exact unambiguous
  | true =>
    simp only [vfsDoadd, if_true]
    by_cases clash : badnames devs (some dname) (if mountable then some (mkrawname dname) else none)
        (fs.bind Fs.volname) = true
    · rw [if_pos clash]
      exact unambiguous
    · rw [if_neg clash]
      refine pairwise_append.mpr ⟨unambiguous, pairwise_singleton _ _, fun kd member added single => ?_⟩
      rw [mem_singleton.mp single]
      rintro name ⟨old, new⟩
      apply clash
      refine badnames_iff.mpr ⟨kd, member, name, old, ?_⟩
      rcases new with own | raw | ⟨volume, given, own⟩
      · exact .inl (congrArg some own)
      · exact .inr (.inl raw)
      · refine .inr (.inr ?_)
        rw [show fs = some volume from given]
        exact own

end Adding

section Replacing

variable {devs : List Knowndev} {i : Nat} {kd changed : Knowndev}

theorem pairwise_set (found : devs[i]? = some kd) :
    Unambiguous (devs.set i changed) ↔
      Unambiguous (devs.eraseIdx i) ∧ ∀ other ∈ devs.eraseIdx i, Apart changed other := by
  have inside := (List.getElem?_eq_some_iff.mp found).1
  have moved : (devs.set i changed).Perm (changed :: devs.eraseIdx i) := set_perm_cons_eraseIdx inside changed
  have pairs : Unambiguous (devs.set i changed) ↔ Unambiguous (changed :: devs.eraseIdx i) :=
    moved.pairwise_iff fun apart => apart.symm
  rw [pairs]
  exact pairwise_cons.trans and_comm

theorem unambiguous_split (found : devs[i]? = some kd) :
    Unambiguous devs ↔ Unambiguous (devs.eraseIdx i) ∧ ∀ other ∈ devs.eraseIdx i, Apart kd other := by
  have same : devs.set i kd = devs := by
    obtain ⟨inside, rfl⟩ := List.getElem?_eq_some_iff.mp found
    exact set_getElem_self inside
  rw [← pairwise_set found, same]

/-- Mounting keeps the table unambiguous exactly if the name of the volume is new. -/
theorem mount_unambiguous_iff (unambiguous : Unambiguous devs) (found : devs[i]? = some kd) (fs : Fs) :
    Unambiguous (devs.set i { kd with fs := some fs }) ↔
      ∀ name, fs.volname = some name → ∀ other ∈ devs.eraseIdx i, ¬ other.Answers name := by
  obtain ⟨rest, apart⟩ := (unambiguous_split found).mp unambiguous
  rw [pairwise_set found]
  constructor
  · intro mounted name volume other member answers
    exact mounted.2 other member name ⟨.inr (.inr ⟨fs, rfl, volume⟩), answers⟩
  · intro fresh
    refine ⟨rest, fun other member name both => ?_⟩
    obtain ⟨own | raw | ⟨_, given, volume⟩, answers⟩ := both
    · exact apart other member name ⟨.inl own, answers⟩
    · exact apart other member name ⟨.inr (.inl raw), answers⟩
    · cases given
      exact fresh name volume other member answers

theorem unmount_unambiguous (unambiguous : Unambiguous devs) (found : devs[i]? = some kd) :
    Unambiguous (devs.set i { kd with fs := none }) := by
  obtain ⟨rest, apart⟩ := (unambiguous_split found).mp unambiguous
  rw [pairwise_set found]
  refine ⟨rest, fun other member name both => ?_⟩
  obtain ⟨own | raw | ⟨_, given, _⟩, answers⟩ := both
  · exact apart other member name ⟨.inl own, answers⟩
  · exact apart other member name ⟨.inr (.inl raw), answers⟩
  · cases given

end Replacing

section Steps

variable {devs next : List Knowndev} {call : DevCall}

/-- What a mount does: nothing, or it changes one entry that had no filesystem. -/
theorem mount_cases {devname mounted}
    (taken : devStep devs (.mount devname mounted) = some next) :
    next = devs ∧ NewVolname devs (.mount devname mounted) ∨
    ∃ i kd fs, findmount devs devname = some i ∧ devs[i]? = some kd ∧ kd.fs = none ∧ mounted = .ok fs ∧
      next = devs.set i { kd with fs := some fs } := by
  simp only [devStep, vfsMount] at taken
  cases search : findmount devs devname with
  | none =>
    rw [search] at taken
    cases taken
    refine .inl ⟨rfl, fun i kd fs name found => ?_⟩
    rw [search] at found
    cases found
  | some i =>
    rw [search] at taken
    cases found : devs[i]? with
    | none =>
      simp only [found] at taken
      cases taken
    | some kd =>
      simp only [found] at taken
      by_cases unmounted : kd.fs = none
      · rw [if_neg (not_not.mpr unmounted)] at taken
        split at taken
        · cases taken
        cases mounted with
        | error code =>
          cases taken
          exact .inl ⟨rfl, fun _ _ _ _ _ _ _ given => nomatch given⟩
        | ok fs =>
          cases taken
          exact .inr ⟨i, kd, fs, rfl, found, unmounted, rfl, rfl⟩
      · rw [if_pos unmounted] at taken
        cases taken
        refine .inl ⟨rfl, fun j other fs name here there none_ => ?_⟩
        rw [search] at here
        cases here
        rw [found] at there
        cases there
        exact absurd none_ unmounted

theorem unmount_cases {devname sync unmounted}
    (taken : devStep devs (.unmount devname sync unmounted) = some next) :
    next = devs ∨ ∃ i kd, devs[i]? = some kd ∧ next = devs.set i { kd with fs := none } := by
  simp only [devStep, vfsUnmount] at taken
  cases search : findmount devs devname with
  | none =>
    rw [search] at taken
    cases taken
    exact .inl rfl
  | some i =>
    rw [search] at taken
    cases found : devs[i]? with
    | none =>
      simp only [found] at taken
      cases taken
    | some kd =>
      simp only [found] at taken
      split at taken
      · cases taken
        exact .inl rfl
      · split at taken
        · cases taken
        · split at taken
          · cases taken
            exact .inl rfl
          · cases taken
            exact .inl rfl
          · cases taken
            exact .inr ⟨i, kd, found, rfl⟩

theorem devStep_unambiguous_iff (unambiguous : Unambiguous devs) (taken : devStep devs call = some next) :
    Unambiguous next ↔ NewVolname devs call := by
  cases call with
  | adddev devname dev mountable memory =>
    cases taken
    exact iff_of_true (vfsDoadd_unambiguous unambiguous _ _ _ _ _) trivial
  | addfs devname fs memory =>
    cases taken
    exact iff_of_true (vfsDoadd_unambiguous unambiguous _ _ _ _ _) trivial
  | mount devname mounted =>
    obtain ⟨rfl, clear⟩ | ⟨i, kd, fs, search, found, unmounted, rfl, rfl⟩ := mount_cases taken
    · exact iff_of_true unambiguous clear
    · rw [mount_unambiguous_iff unambiguous found]
      constructor
      · intro fresh j other volume name here there _ given own
        cases given
        rw [search] at here
        cases here
        exact fresh name own
      · intro fresh name own
        exact fresh i kd fs name search found unmounted rfl own
  | unmount devname sync unmounted =>
    obtain rfl | ⟨i, kd, found, rfl⟩ := unmount_cases taken
    · exact iff_of_true unambiguous trivial
    · exact iff_of_true (unmount_unambiguous unambiguous found) trivial

end Steps

/-- Exactly in the runs in which every volume mounted has a new name, every string names at most one device
throughout, whatever the order of the table. -/
theorem names_unambiguous_iff (calls : List DevCall) :
    (Always devStep Unambiguous [] calls ↔ EachStep devStep NewVolname [] calls) ∧
    (EachStep devStep NewVolname [] calls → Always devStep OrderIrrelevant [] calls) := by
  have exact_ : Always devStep Unambiguous [] calls ↔ EachStep devStep NewVolname [] calls := by
    refine always_iff_steps (fun _ unambiguous => unambiguous) ?_ ?_ List.Pairwise.nil
    · intro devs call next unambiguous taken fresh
      exact (devStep_unambiguous_iff unambiguous taken).mpr fresh
    · intro devs call next unambiguous taken after
      exact (devStep_unambiguous_iff unambiguous taken).mp after
  exact ⟨exact_, fun fresh => (exact_.mpr fresh).mono fun _ unambiguous => unambiguous.orderIrrelevant⟩

def sameVolname : List DevCall :=
  [.adddev ⟨[97], by decide⟩ 0 true true, .adddev ⟨[98], by decide⟩ 1 true true,
    .mount ⟨[97], by decide⟩ (.ok ⟨0, some ⟨[118], letter_ends⟩⟩), .mount ⟨[98], by decide⟩ (.ok ⟨1, some ⟨[118], letter_ends⟩⟩)]

theorem volname_names_two_disks :
    ∃ devs, run devStep [] sameVolname = some devs ∧ ¬ Unambiguous devs ∧ ¬ OrderIrrelevant devs := by
  refine ⟨_, rfl, fun unambiguous => ?_, fun irrelevant => ?_⟩
  · have apart := (pairwise_cons.mp unambiguous).1 _ mem_cons_self
    exact apart ⟨[118], letter_ends⟩ ⟨.inr (.inr ⟨_, rfl, rfl⟩), .inr (.inr ⟨_, rfl, rfl⟩)⟩
  · have same := irrelevant _ (List.Perm.swap _ _ []) ⟨[118], letter_ends⟩
    revert same
    decide

end Os161.Vfs
