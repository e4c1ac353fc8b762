import Mathlib.Data.Set.Card
import Os161.Proofs.FreeMap
import Os161.Proofs.SfsCalls

/-! Runs on a volume that `mksfs` has made: who owns the blocks, and what the directory says. -/

namespace Os161
open Routine Runs Option

def sfsStep (s : Sfs) (call : SfsCall) : Option Sfs := (call.perform s).map Prod.snd

section Invariant

variable {nblocks : UInt32} {nospace heap : Nat → Bool} {s s' : Sfs}

def Sfs.Sound (s : Sfs) : Prop := ∃ held, s.Healthy held ∧ ∀ i, s.opens i = 0

theorem Sfs.Sound.performed (sound : s.Sound) {call result}
    (done : call.perform s = some (result, s')) : s'.Sound ∧ ∃ held, Performed held call s result s' := by
  obtain ⟨held, healthy, closed⟩ := sound
  obtain ⟨held', _, performed⟩ := SfsCall.performed healthy closed done
  refine ⟨⟨held', performed.healthy, fun i => ?_⟩, held', performed⟩
  rw [performed.opens]
  exact closed i

theorem Sfs.Sound.step (sound : s.Sound) {call} (taken : sfsStep s call = some s') : s'.Sound := by
  obtain ⟨⟨result, after⟩, done, rfl⟩ := map_eq_some_iff.mp taken
  exact (sound.performed done).1

section

variable (mounted : MountedFresh nblocks nospace heap s)
include mounted

theorem MountedFresh.closed (i : UInt32) : s.opens i = 0 := by
  rw [mounted.opens]

theorem MountedFresh.sound (roundable : Roundable nblocks) : s.Sound :=
  ⟨_, mounted.healthy roundable, mounted.closed⟩

theorem MountedFresh.unmarked (large : ¬ Roundable nblocks) (block : UInt32) : ¬ s.Marked block := by
  obtain ⟨disk, bitbuf, _, _, _, _, rfl⟩ := mounted.state
  rw [(bitmapsize_wraps large).2, UInt32.toNat_zero, Nat.zero_mul, List.take_zero]
  simp [Sfs.Marked, Bitmap.isset, Bitmap.word]

/-- On the largest disks nothing can be done at all. -/
theorem MountedFresh.stuck (large : ¬ Roundable nblocks) (call : SfsCall) : call.perform s = none := by
  have vnodes : s.vnodes = [] := by
    obtain ⟨_, _, _, _, _, _, rfl⟩ := mounted.state
    rfl
  exact perform_halts vnodes (mounted.unmarked large _) call

end

theorem freshMount_mounted {dBlocks} (computed : freshMount dBlocks = some s) :
    MountedFresh dBlocks (fun _ => false) (fun _ => true) s := by
  obtain ⟨made, after, done, mounted⟩ := freshMount_some computed
  exact ⟨⟨_, _, made, after, rfl, rfl, done, mounted⟩⟩

end Invariant

section Blocks

variable {nblocks : UInt32} {nospace heap : Nat → Bool} {s s' : Sfs}

/-- A block is marked exactly if it has an owner, and none has two. The inodes are the root, those with a name and
those in memory. -/
def Sfs.BlocksOwned (s : Sfs) : Prop :=
  (∀ block < s.nblocks, s.Marked block ↔ ∃! owner, s.Owns s.Live owner block) ∧
    ∀ block first second, s.Owns s.Live first block → s.Owns s.Live second block → first = second

def Sfs.Exact (s : Sfs) : Prop :=
  s.heap = (fun _ => true) ∧ s.Healthy (BeyondDisk s.nblocks) ∧ ∀ i, s.opens i = 0

theorem Sfs.Exact.step (exact_ : s.Exact) {call} (taken : sfsStep s call = some s') : s'.Exact := by
  obtain ⟨memory, healthy, closed⟩ := exact_
  obtain ⟨⟨result, after⟩, done, rfl⟩ := map_eq_some_iff.mp taken
  obtain ⟨held, same, performed⟩ := SfsCall.performed healthy closed done
  refine ⟨performed.evolves.memory memory, ?_, fun i => ?_⟩
  · rw [performed.evolves.nblocks, ← same memory]
    exact performed.healthy
  · rw [performed.opens]
    exact closed i

theorem Sfs.Exact.owned (exact_ : s.Exact) : s.BlocksOwned := by
  have ledger := exact_.2.1.consistent.ledger
  refine ⟨fun block inside => ?_, fun block first second one other => ledger.unique one other⟩
  have notHeld : ¬ BeyondDisk s.nblocks block := fun beyond => absurd inside (UInt32.not_lt.mpr beyond.1)
  rw [ledger.marked_iff, or_iff_left notHeld]
  constructor
  · rintro ⟨owner, owns⟩
    exact ⟨owner, owns, fun other owns' => ledger.unique owns' owns⟩
  · rintro ⟨owner, owns, _⟩
    exact ⟨owner, owns⟩

/-- On a volume made by `mksfs`, with allocations that succeed: every run keeps the bitmap in agreement with the
owners exactly if the size of the disk can be rounded up to whole bitmap blocks. -/
theorem block_ownership_iff (mounted : MountedFresh nblocks nospace (fun _ => true) s) :
    (∀ calls, Always sfsStep Sfs.BlocksOwned s calls) ↔ Roundable nblocks := by
  constructor
  · intro always
    by_contra large
    obtain ⟨owned, _⟩ := always []
    have large' := large
    unfold Roundable at large
    have inside : sfsSbLocation < s.nblocks := by
      rw [mounted.size, UInt32.lt_iff_toNat_lt]
      change 0 < nblocks.toNat
      omega
    have super : s.Owns s.Live .super sfsSbLocation := rfl
    refine mounted.unmarked large' sfsSbLocation ((owned _ inside).mpr ⟨.super, super, fun other owns => ?_⟩)
    rcases (mounted.owns_iff other _).mp owns with ⟨rfl, _⟩ | ⟨_, place⟩ | ⟨k, _, _, place⟩
    · rfl
    · cases place
    · change 0 = 2 + k at place
      omega
  · intro roundable calls
    have start : s.Exact := by
      refine ⟨mounted.heap_eq, ?_, mounted.closed⟩
      rw [mounted.size]
      exact mounted.healthy roundable
    exact (always_of_invariant (fun _ _ _ exact_ taken => exact_.step taken) start calls).mono fun _ exact_ => exact_.owned

theorem block_ownership_small_disk : ∃ s, freshMount 4096 = some s ∧ ∀ calls, Always sfsStep Sfs.BlocksOwned s calls := by
  have computed : (freshMount 4096).isSome = true := by decide +kernel
  obtain ⟨s, found⟩ := isSome_iff_exists.mp computed
  refine ⟨s, found, (block_ownership_iff (freshMount_mounted found)).mpr ?_⟩
  change 4096 + 4095 < 2 ^ 32
  decide

/-- On the largest disk the superblock is not marked. -/
theorem block_ownership_largest_disk : ∃ s, freshMount 0xffffffff = some s ∧ ¬ s.BlocksOwned := by
  have computed : (freshMount 0xffffffff).isSome = true := by decide +kernel
  obtain ⟨s, found⟩ := isSome_iff_exists.mp computed
  have mounted := freshMount_mounted found
  have large : ¬ Roundable 0xffffffff := by
    change ¬ 0xffffffff + 4095 < 2 ^ 32
    decide
  refine ⟨s, found, fun owned => ?_⟩
  have inside : sfsSbLocation < s.nblocks := by
    rw [mounted.size]
    decide
  have super : s.Owns s.Live .super sfsSbLocation := rfl
  exact mounted.unmarked large _ ((owned.1 _ inside).mpr ⟨.super, super, fun other owns => owned.2 _ _ _ owns super⟩)

end Blocks

section Names

variable {nblocks : UInt32} {nospace heap : Nat → Bool} {held : UInt32 → Prop} {s s' : Sfs}

/-- No name is in two slots, and the link count of a file is the number of its names. -/
def Sfs.DirectoryExact (s : Sfs) : Prop :=
  Slots.Unique s.table ∧ ∀ i, s.Live i → i ≠ sfsRootLocation →
    (s.inodeOf i).linkcount.toNat = {name : CString | s.directory name = some i}.ncard

theorem cname_zero_free (sd : SfsDir) : (0 : UInt8) ∉ sd.cname := by
  intro member
  have nonzero := List.all_eq_true.mp List.all_takeWhile 0 member
  exact absurd rfl (of_decide_eq_true nonzero)

theorem Sfs.Rooted.links_eq (rooted : s.Rooted) (i : UInt32) :
    s.links i = {name : CString | s.directory name = some i}.ncard := by
  have unique : Slots.Unique s.table := rooted.unique
  have names : {name : CString | s.directory name = some i} =
      (fun slot => (⟨(s.entry slot).cname, cname_zero_free _⟩ : CString)) ''
        {slot | slot < s.nentries ∧ (s.table slot).map Prod.snd = some i} := by
    ext name
    simp only [Set.mem_ofPred_eq, rooted.directory_eq_some, Set.mem_image]
    constructor
    · rintro ⟨slot, here⟩
      obtain ⟨inside, _, cname, _⟩ := table_eq_some here
      exact ⟨slot, ⟨inside, by rw [here]; rfl⟩, Subtype.ext cname⟩
    · rintro ⟨slot, ⟨_, holds⟩, rfl⟩
      obtain ⟨⟨name, j⟩, here, rfl⟩ := map_eq_some_iff.mp holds
      obtain ⟨_, _, cname, _⟩ := table_eq_some here
      refine ⟨slot, here.trans ?_⟩
      rw [← cname]
  have injective : Set.InjOn (fun slot => (⟨(s.entry slot).cname, cname_zero_free _⟩ : CString))
      {slot | slot < s.nentries ∧ (s.table slot).map Prod.snd = some i} := by
    rintro first ⟨_, one⟩ second ⟨_, other⟩ same
    obtain ⟨⟨name, j⟩, here, rfl⟩ := map_eq_some_iff.mp one
    obtain ⟨⟨name', j'⟩, there, _⟩ := map_eq_some_iff.mp other
    obtain ⟨_, _, cname, _⟩ := table_eq_some here
    obtain ⟨_, _, cname', _⟩ := table_eq_some there
    have equal : (s.entry first).cname = (s.entry second).cname := congrArg Subtype.val same
    rw [cname, cname'] at equal
    subst equal
    exact unique here there
  rw [names, injective.ncard_image]
  unfold Sfs.links Slots.count
  rw [← Set.ncard_coe_finset, Finset.coe_filter]
  simp only [Finset.mem_range]

theorem Sfs.Sound.exact_directory (sound : s.Sound) : s.DirectoryExact := by
  obtain ⟨held, healthy, _⟩ := sound
  refine ⟨healthy.rooted.unique, fun i isLive other => ?_⟩
  rw [healthy.links i isLive, if_neg other, Nat.add_zero, healthy.rooted.links_eq]

/-- The vnodes of a directory operation are loaded, and it is not a rename of another name of
the root. -/
def SfsCall.Ready (s : Sfs) : SfsCall → Prop
  | .lookup dir _ | .creat dir _ _ | .remove dir _ => s.vnode? dir ≠ none
  | .link dir _ file => s.vnode? dir ≠ none ∧ s.vnode? file ≠ none
  | .rename d1 n1 d2 _ => s.vnode? d1 ≠ none ∧ d1 = d2 ∧ s.directory n1 ≠ some sfsRootLocation
  | _ => False

theorem dir_returns {α : Type} {f : α → SfsReply} (healthy : s.Healthy held) {dir operation} (loaded : s.vnode? dir ≠ none)
    (ensures : ∀ root, dir = sfsRootLocation → s.vnode? sfsRootLocation = some root →
      operation.Ensures s fun _ _ => True) :
    ((dirOnly dir operation >>= fun value => pure (f value)) s).isSome = true := by
  rcases dirOnly_cases healthy dir operation with ⟨_, absent⟩ | ⟨root, own, found, same⟩ | ⟨_, failed⟩
  · exact absurd absent loaded
  · obtain ⟨inner, after, computed, _⟩ := ensures root own found
    cases inner with
    | ok value =>
      rw [bind_ok (same.trans computed)]
      rfl
    | error code =>
      rw [bind_error (same.trans computed)]
      rfl
  · rw [bind_error failed]
    rfl

theorem SfsCall.Ready.returns (healthy : s.Healthy held) {call : SfsCall} (ready : call.Ready s) :
    (call.perform s).isSome = true := by
  cases call with
  | lookup dir name =>
    refine dir_returns healthy ready fun root own loaded => ?_
    subst own
    exact (sfsLookup_ensures healthy loaded name).mono fun _ _ _ => trivial
  | creat dir name excl =>
    refine dir_returns healthy ready fun root own loaded => ?_
    subst own
    exact (sfsCreat_ensures healthy loaded name excl).mono fun _ _ _ => trivial
  | remove dir name =>
    refine dir_returns healthy ready fun root own loaded => ?_
    subst own
    exact (sfsRemove_ensures healthy loaded name).mono fun _ _ _ => trivial
  | link dir name file =>
    refine dir_returns healthy ready.1 fun root own loaded => ?_
    subst own
    obtain ⟨vnode, present⟩ := ne_none_iff_exists'.mp ready.2
    exact (sfsLink_ensures healthy loaded present name).mono fun _ _ _ => trivial
  | rename d1 n1 d2 n2 =>
    refine dir_returns healthy ready.1 fun root own loaded => ?_
    obtain ⟨_, rfl, named⟩ := ready
    subst own
    exact (sfsRename_ensures healthy loaded n1 n2 named).mono fun _ _ _ => trivial
  | _ => exact ready.elim

/-- Later calls that neither write to nor truncate a file leave its size and its bytes alone while it is there. -/
def Sfs.KeepsFiles (s : Sfs) : Prop :=
  ∀ j calls later, j ≠ sfsRootLocation → (∀ call ∈ calls, ¬ SfsCall.Touches call j) →
    Always sfsStep (fun s => s.Live j) s calls → run sfsStep s calls = some later →
    (later.inodeOf j).size = (s.inodeOf j).size ∧ later.byte j = s.byte j

theorem Sfs.Sound.keepsFiles (sound : s.Sound) : s.KeepsFiles := by
  intro j calls later other untouched live went
  induction calls generalizing s with
  | nil =>
    cases went
    exact ⟨rfl, rfl⟩
  | cons call rest ih =>
    obtain ⟨next, taken, further⟩ := bind_eq_some_iff.mp went
    obtain ⟨here, there⟩ := live
    obtain ⟨⟨result, after⟩, done, rfl⟩ := map_eq_some_iff.mp taken
    obtain ⟨kept, held, performed⟩ := sound.performed done
    obtain ⟨spared, others⟩ := List.forall_mem_cons.mp untouched
    obtain ⟨size, bytes⟩ := performed.contents j other spared here (there _ taken).head
    rw [← size, ← bytes]
    exact ih kept others (there _ taken) further

/-- From every state a fresh volume gets to. -/
theorem files_kept_apart (mounted : MountedFresh nblocks nospace heap s) (roundable : Roundable nblocks)
    (calls : List SfsCall) : Always sfsStep Sfs.KeepsFiles s calls :=
  (always_of_invariant (fun _ _ _ sound taken => Sfs.Sound.step sound taken) (mounted.sound roundable) calls).mono
    fun _ sound => sound.keepsFiles

theorem files_kept_apart_small_disk : ∃ s, freshMount 4096 = some s ∧
    Always sfsStep Sfs.KeepsFiles s [.getroot, .creat sfsRootLocation ⟨[102], by decide⟩ true] := by
  have computed : (freshMount 4096).isSome = true := by decide +kernel
  obtain ⟨s, found⟩ := isSome_iff_exists.mp computed
  exact ⟨s, found, files_kept_apart (freshMount_mounted found) small_roundable _⟩

end Names

end Os161
