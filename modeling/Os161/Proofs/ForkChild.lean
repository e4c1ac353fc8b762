import Os161.Proofs.ForkUndo

/-! What `sys_fork` makes of its three steps. The result of `as_copy` is not looked at, and what was allocated
before a failing step is not given back. -/

namespace Os161.Fork
open Routine Containers Vm Option

section Copy

theorem takeFrames_created (npages : Nat) (store : AddrSpace → Nat → AddrSpace) :
    (takeFrames npages store).Follows (Same Machine.created) := by
  refine follows_get_bind fun m => Follows.bind (follows_modify fun _ => rfl) fun _ => ?_
  split
  · exact follows_fail _
  · exact follows_pure _

theorem memmove_created (dest src len : Nat) : (memmove dest src len).Follows (Same Machine.created) :=
  follows_get_bind fun _ => (follows_require _).bind fun _ => follows_modify fun _ => rfl

theorem asPrepareLoad_created : asPrepareLoad.Follows (Same Machine.created) := by
  refine follows_get_bind fun m => (follows_require _).bind fun _ => ?_
  refine (takeFrames_created _ _).bind fun _ => ?_
  exact (takeFrames_created _ _).bind fun _ => takeFrames_created _ _

theorem asCopy_created (old : AddrSpace) (m : Machine) :
    (asCopy old).Allows m fun _ after => after.created = m.created + 1 := by
  refine (asPrepareLoad_created.attempt.bind fun result => ?_) ((m.switchAs m.cm).setAs old.regions)
  cases result with
  | error code => exact follows_fail _
  | ok _ =>
    refine follows_get_bind fun m => (follows_require _).bind fun _ => (follows_require _).bind fun _ => ?_
    refine (follows_require _).bind fun _ => (memmove_created _ _ _).bind fun _ => ?_
    exact (memmove_created _ _ _).bind fun _ => memmove_created _ _ _

structure Copied (k after : Kern) (as : SpacePtr) : Prop where
  copied : ∃ old, k.current.bind Thread.vmspace = some old ∧
    asCopy (k.machine.spaces old.index) k.machine = some (.ok (), after.machine)
  index : as.index = k.machine.created
  live : ⟨.addrspace, as.block⟩ ∈ after.heap.live
  new : ⟨.addrspace, as.block⟩ ∉ k.heap.live

structure CopyCalled (k : Kern) (result : Except Errno SpacePtr) (after : Kern) : Prop where
  spared : ∀ kind, kind ≠ .addrspace → Spared kind k.heap after.heap
  trapframes : after.trapframes = k.trapframes
  copied : ∀ as, result = .ok as → Copied k after as
  failed : ∀ code, result = .error code → ∀ old, k.current.bind Thread.vmspace = some old →
    asCopy (k.machine.spaces old.index) k.machine ≠ some (.ok (), after.machine)

theorem asCopyCurrent_allows (k : Kern) : asCopyCurrent.Allows k (CopyCalled k) := by
  simp only [asCopyCurrent, allows_bind, allows_get, andThenAllows_ok]
  cases parent : k.current.bind Thread.vmspace with
  | none => exact allows_halt _ _
  | some old =>
    simp only [allows_bind, onHeap, allows_zoom]
    refine (kmalloc_allows .addrspace k.heap).mono fun result heap outcome => ?_
    rcases outcome with ⟨grants, rfl, rfl⟩ | ⟨refuses, rfl, rfl⟩
    · simp only [andThenAllows_ok, allows_bind, allows_attempt, onMachine, allows_zoom]
      intro result machine copies
      cases result with
      | error code =>
        simp only [asDestroy, kfree, onHeap, allows_bind, allows_zoom, allows_get, andThenAllows_ok, allows_require,
          allows_modify, allows_fail]
        intro member
        refine ⟨fun kind differs => ⟨fun ptr live => ?_, Nat.le_succ _⟩, rfl, (by rintro _ ⟨⟩), fun _ _ other found copied => ?_⟩
        · exact Finset.mem_erase.mpr ⟨fun same => differs (congrArg Pool.Block.kind same), Finset.mem_insert_of_mem live⟩
        · rw [parent] at found
          cases found
          rw [copies] at copied
          cases copied
      | ok _ =>
        simp only [andThenAllows_ok, allows_pure]
        refine ⟨fun _ _ => ⟨fun ptr live => Finset.mem_insert_of_mem live, Nat.le_succ _⟩, rfl, fun as same => ?_, by rintro _ ⟨⟩⟩
        cases same
        exact ⟨⟨old, parent, copies⟩, rfl, Finset.mem_insert_self _ _, k.heap.unused .addrspace⟩
    · rw [andThenAllows_ok, allows_fail]
      refine ⟨fun _ _ => ⟨fun _ => id, Nat.le_refl _⟩, rfl, (by rintro _ ⟨⟩), fun _ _ other found copied => ?_⟩
      have counted := asCopy_created _ _ _ _ copied
      exact absurd counted (Nat.ne_of_lt (Nat.lt_succ_self _))

end Copy

section Child

variable (k : Kern) {α : Type}

theorem onHeap_threads (routine : Routine Errno Heap α) : (onHeap routine).Follows (Same Kern.threads) :=
  fun k => (allows_zoom _ _ _ _ _).mpr fun _ _ _ => rfl

theorem enqueue_threads (newguy : Nat) : (enqueue newguy).Follows (Same Kern.threads) := by
  refine follows_get_bind fun k => (onHeap_threads _).bind fun _ => Follows.bind (follows_modify fun _ => rfl) fun _ => ?_
  refine (onHeap_threads _).bind fun _ => Follows.bind (follows_modify fun _ => rfl) fun _ => ?_
  refine (onHeap_threads _).bind fun _ => Follows.bind (follows_modify fun _ => rfl) fun _ => ?_
  exact (onHeap_threads _).bind fun _ => follows_modify fun _ => rfl

theorem modifyThread_self (t : Nat) (change : Thread → Thread) :
    (k.modifyThread t change).threads t = (k.threads t).map change := if_pos rfl

theorem inheritCwd_present (newguy : Nat) :
    (inheritCwd newguy).Allows k fun _ after =>
      (k.threads newguy).isSome = true → (after.threads newguy).isSome = true := by
  simp only [inheritCwd, allows_bind, allows_get, andThenAllows_ok]
  split
  · exact allows_halt _ _
  · split
    · exact (allows_pure _ _ _).mpr id
    · simp only [vopIncref, allows_bind, allows_modify, andThenAllows_ok, modifyThread_self, isSome_map]
      exact id

theorem failFork_fails (newguy : Nat) (code : Errno) : (failFork newguy code).Yields fun _ => False := by
  refine Yields.after fun k => ?_
  split
  · exact yields_halt
  · exact Yields.after fun _ => Yields.after fun _ => Yields.after fun _ => yields_fail code

theorem forkRest_starts (newguy data1 : Nat) (data2 : SpacePtr) (present : (k.threads newguy).isSome = true) :
    (forkRest newguy data1 data2).Allows k fun result after => ∀ child, result = .ok child →
      child = newguy ∧ ∃ thread, after.threads child = some thread ∧ thread.entry = some (data1, data2) := by
  simp only [forkRest, allows_bind, onHeap, allows_zoom]
  refine (kmalloc_allows .stack k.heap).mono fun result heap outcome => ?_
  rcases outcome with ⟨_, rfl, _⟩ | ⟨_, rfl, _⟩
  · simp only [andThenAllows_ok, allows_bind, allows_modify]
    refine (inheritCwd_present _ newguy).mono fun result inherited stays => ?_
    cases result with
    | error code => rintro _ ⟨⟩
    | ok _ =>
      simp only [andThenAllows_ok, allows_bind, allows_attempt, allows_modify]
      refine (enqueue_threads newguy _).mono fun result queued same => ?_
      cases result with
      | error code => exact fun result after failed child found => (failFork_fails newguy code _ _ _ (found ▸ failed)).elim
      | ok _ =>
        refine (allows_pure _ _ _).mpr fun child found => ?_
        cases found
        have there : (inherited.threads newguy).isSome = true := by
          apply stays
          rw [modifyThread_self, isSome_map]
          exact present
        obtain ⟨thread, there⟩ := isSome_iff_exists.mp there
        refine ⟨rfl, { thread with entry := some (data1, data2) }, ?_, rfl⟩
        rw [same, modifyThread_self, there, map_some]
  · have fails : (freeThread newguy >>= fun _ => fail .enomem : Routine Errno Kern Nat).Yields fun _ => False :=
      Yields.after fun _ => yields_fail _
    exact fun result after failed child found => (fails _ _ _ (found ▸ failed)).elim

theorem createThread_new (i process : Nat) :
    (createThread i process).Allows k fun result after => ∀ thread, result = .ok (some thread) →
      k.heap.serial ≤ thread ∧ (after.threads thread).isSome = true := by
  simp only [createThread, allows_bind, onHeap, allows_zoom]
  refine (kmalloc_allows .thread k.heap).mono fun result heap outcome => ?_
  rcases outcome with ⟨_, rfl, _⟩ | ⟨_, rfl, _⟩
  · rw [andThenAllows_ok, allows_bind, allows_zoom]
    refine (kmalloc_allows .threadName heap).mono fun result heap outcome => ?_
    rcases outcome with ⟨_, rfl, _⟩ | ⟨_, rfl, _⟩
    · simp only [andThenAllows_ok, allows_bind, allows_zoom]
      intro result heap _
      cases result with
      | error code => rintro _ ⟨⟩
      | ok exitSem =>
        simp only [andThenAllows_ok, allows_bind, allows_modify, allows_pure]
        intro thread found
        cases found
        refine ⟨Nat.le_refl _, ?_⟩
        simp [Kern.setSlot, Kern.setThread]
    · simp only [andThenAllows_ok, allows_bind, allows_zoom]
      intro result heap _
      cases result with
      | error code => rintro _ ⟨⟩
      | ok _ => exact (allows_pure _ _ _).mpr (by rintro _ ⟨⟩)
  · exact (allows_pure _ _ _).mpr (by rintro _ ⟨⟩)

theorem threadFork_starts (data1 : Nat) (data2 : SpacePtr) :
    (threadFork data1 data2).Allows k fun result after => ∀ child, result = .ok child →
      ⟨.thread, child⟩ ∉ k.heap.live ∧
        ∃ thread, after.threads child = some thread ∧ thread.entry = some (data1, data2) := by
  simp only [threadFork, threadCreate, allows_bind, allows_get, andThenAllows_ok]
  split
  · rw [allows_pure, andThenAllows_ok, allows_fail]
    rintro _ ⟨⟩
  next i slot =>
    simp only [allows_bind, onHeap, allows_zoom]
    refine (kmalloc_allows .process k.heap).mono fun result heap outcome => ?_
    rcases outcome with ⟨_, rfl, rfl⟩ | ⟨_, rfl, _⟩
    · refine (createThread_new _ i k.heap.serial).mono fun result created new => ?_
      rcases result with code | (_ | newguy)
      · rintro _ ⟨⟩
      · exact (allows_fail _ _ _).mpr (by rintro _ ⟨⟩)
      · obtain ⟨numbered, present⟩ := new newguy rfl
        refine (forkRest_starts created newguy data1 data2 present).mono fun result after starts child found => ?_
        obtain ⟨rfl, started⟩ := starts child found
        refine ⟨fun old => ?_, started⟩
        have small := k.heap.numbered _ old
        exact absurd numbered (Nat.not_le_of_lt (Nat.lt_succ_of_lt small))
    · rw [andThenAllows_ok, allows_pure, andThenAllows_ok, allows_fail]
      rintro _ ⟨⟩

end Child

def Kern.stored (k : Kern) (ptf : Trapframe) : Kern :=
  { k with
    heap := k.heap.granted .trapframe
    trapframes := fun p => if p = k.heap.serial then some ptf else k.trapframes p }

def handed (stale : SpacePtr) : Except Errno SpacePtr → SpacePtr
  | .ok as => as
  | .error _ => stale

/-- The three steps of `sys_fork` with their results. -/
inductive Forked (k : Kern) (ptf : Trapframe) (stale : SpacePtr) : Except Errno Nat → Kern → Prop where
  | refused (refuses : k.heap.grants 0 = false) :
      Forked k ptf stale (.error .enomem) { k with heap := k.heap.answered }
  | failed (grants : k.heap.grants 0 = true) (result : Except Errno SpacePtr) (copied : Kern) (code : Errno) (after : Kern)
      (copies : asCopyCurrent (k.stored ptf) = some (result, copied))
      (forks : threadFork k.heap.serial (handed stale result) copied = some (.error code, after)) :
      Forked k ptf stale (.error .enomem) after
  | started (grants : k.heap.grants 0 = true) (result : Except Errno SpacePtr) (copied : Kern) (child : Nat) (after : Kern)
      (copies : asCopyCurrent (k.stored ptf) = some (result, copied))
      (forks : threadFork k.heap.serial (handed stale result) copied = some (.ok child, after)) :
      Forked k ptf stale (.ok child) after

theorem sysFork_allows (k : Kern) (ptf : Trapframe) (stale : SpacePtr) :
    (sysFork ptf stale).Allows k (Forked k ptf stale) := by
  simp only [sysFork, allows_bind, onHeap, allows_zoom]
  refine (kmalloc_allows .trapframe k.heap).mono fun result heap outcome => ?_
  rcases outcome with ⟨grants, rfl, rfl⟩ | ⟨refuses, rfl, rfl⟩
  · simp only [andThenAllows_ok, allows_bind, allows_modify, allows_attempt]
    intro result copied copies forkResult after forks
    have handed : threadFork k.heap.serial (handed stale result) copied = some (forkResult, after) := by
      cases result with
      | ok as => exact forks
      | error code => exact forks
    cases forkResult with
    | error code => exact (allows_fail _ _ _).mpr (.failed grants result copied code after copies handed)
    | ok child => exact (allows_pure _ _ _).mpr (.started grants result copied child after copies handed)
  · exact (allows_fail _ _ _).mpr (.refused refuses)

structure ForkedFrom (ptf tf : Trapframe) : Prop where
  v0 : tf .v0 = 0
  a3 : tf .a3 = 0
  epc : tf .epc = ptf .epc + 4
  rest : ∀ reg, reg ≠ .v0 → reg ≠ .a3 → reg ≠ .epc → tf reg = ptf reg

/-- A child that goes on as a copy of its parent, or no child and no memory held for it. -/
def Faithful (k : Kern) (ptf : Trapframe) (reused : Option Int) : Except Errno Nat → Kern → Prop
  | .ok child, after =>
    ⟨.thread, child⟩ ∉ k.heap.live ∧
      (∃ thread, after.threads child = some thread ∧ forkRetval after child reused = some (thread.pid : Int)) ∧
      ∃ tf as, forkentry after child = some (tf, as) ∧ ForkedFrom ptf tf ∧ Copied k after as
  | .error _, after =>
    after.threads = k.threads ∧ after.machine.cm = k.machine.cm ∧ after.heap.live = k.heap.live

/-- There is no memory for the trapframe, or all three steps succeed and the child is there when its pid is read. -/
def Smooth (k : Kern) (ptf : Trapframe) (reused : Option Int) : Prop :=
  k.heap.grants 0 = false ∨ ∃ as copied child final, asCopyCurrent (k.stored ptf) = some (.ok as, copied) ∧
    threadFork k.heap.serial as copied = some (.ok child, final) ∧
    (reused = none ∨ reused = (final.threads child).map fun thread => (thread.pid : Int))

theorem trapframeKept : Kept .trapframe := ⟨nofun, nofun, nofun, nofun, nofun, nofun⟩

theorem addrspaceKept : Kept .addrspace := ⟨nofun, nofun, nofun, nofun, nofun, nofun⟩

theorem threadFork_spares {kind} (kept : Kept kind) (data1 : Nat) (data2 : SpacePtr) :
    (threadFork data1 data2).Follows (Kern.Spared kind) := by
  refine Follows.bind (follows_get_bind fun k => ?_) fun newguy => ?_
  · split
    · exact follows_pure _
    · refine (onHeap_spares (kmalloc_spares _)).bind fun process => ?_
      cases process with
      | none => exact follows_pure _
      | some process => exact createThread_spares kept _ process
  · cases newguy with
    | none => exact follows_fail _
    | some newguy => exact forkRest_spares kept newguy data1 data2

variable {after copied : Kern} {ptf : Trapframe} {result : Except Errno Nat} {as : SpacePtr}

theorem Forked.trapframe_live {k stale}
    (forked : Forked k ptf stale result after) (grants : k.heap.grants 0 = true) :
    ⟨.trapframe, k.heap.serial⟩ ∈ after.heap.live := by
  have stored : ⟨.trapframe, k.heap.serial⟩ ∈ (k.stored ptf).heap.live := Finset.mem_insert_self _ _
  cases forked with
  | refused refuses =>
    rw [grants] at refuses
    cases refuses
  | failed _ result copied code after copies forks =>
    have kept := ((asCopyCurrent_allows _ _ _ copies).spared .trapframe nofun).kept _ stored
    exact (threadFork_spares trapframeKept _ _ _ _ _ forks).heap.kept _ kept
  | started _ result copied child after copies forks =>
    have kept := ((asCopyCurrent_allows _ _ _ copies).spared .trapframe nofun).kept _ stored
    exact (threadFork_spares trapframeKept _ _ _ _ _ forks).heap.kept _ kept

theorem forkentry_started {k : Kern} {result child} (copies : asCopyCurrent (k.stored ptf) = some (result, copied))
    (forks : threadFork k.heap.serial as copied = some (.ok child, after)) :
    ∃ tf, forkentry after child = some (tf, as) ∧ ForkedFrom ptf tf := by
  obtain ⟨_, thread, there, entry⟩ := threadFork_starts copied _ _ _ _ forks child rfl
  have called := asCopyCurrent_allows _ _ _ copies
  have saved : after.trapframes k.heap.serial = some ptf := by
    rw [(threadFork_spares trapframeKept _ _ _ _ _ forks).trapframes, called.trapframes]
    exact if_pos rfl
  refine ⟨((ptf.set .v0 0).set .a3 0).set .epc (ptf .epc + 4), ?_, ?_⟩
  · simp only [forkentry, there, entry, saved, bind, Option.bind, pure]
  · refine ⟨by simp, by simp, by simp, fun reg v0 a3 epc => ?_⟩
    simp [v0, a3, epc]

theorem Copied.forked {k} (copy : Copied (k.stored ptf) copied as) {data1 data2}
    (forks : threadFork data1 data2 copied = some (result, after)) : Copied k after as := by
  have spared := threadFork_spares addrspaceKept _ _ _ _ _ forks
  refine ⟨?_, copy.index, spared.heap.kept _ copy.live, fun old => copy.new (Finset.mem_insert_of_mem old)⟩
  rw [spared.machine]
  exact copy.copied

/-- `sys_fork` makes a faithful child or none exactly when its steps go smoothly. -/
theorem fork_faithful_iff (k after : Kern) (ptf : Trapframe) (stale : SpacePtr) (reused : Option Int)
    (result : Except Errno Nat) (run : sysFork ptf stale k = some (result, after)) :
    Faithful k ptf reused result after ↔ Smooth k ptf reused := by
  have forked := sysFork_allows k ptf stale _ _ run
  by_cases grants : k.heap.grants 0 = true
  · have lives := forked.trapframe_live grants
    have smooth : Smooth k ptf reused ↔ ∃ as copied child final, asCopyCurrent (k.stored ptf) = some (.ok as, copied) ∧
        threadFork k.heap.serial as copied = some (.ok child, final) ∧
        (reused = none ∨ reused = (final.threads child).map fun thread => (thread.pid : Int)) := by
      rw [Smooth, grants]
      simp
    rw [smooth]
    cases forked with
    | refused refuses =>
      rw [grants] at refuses
      cases refuses
    | failed _ copyResult copied code after copies forks =>
      constructor
      · intro faithful
        rw [faithful.2.2] at lives
        exact absurd lives (k.heap.unused .trapframe)
      · rintro ⟨as, middle, child, final, copied, starts, _⟩
        rw [copies] at copied
        cases copied
        rw [handed, starts] at forks
        cases forks
    | started _ copyResult copied child after copies forks =>
      obtain ⟨tf, enters, tfFrom⟩ := forkentry_started copies forks
      constructor
      · rintro ⟨_, ⟨thread, there, retval⟩, _, as, entered, _, copy⟩
        rw [enters] at entered
        cases entered
        cases copyResult with
        | error code =>
          obtain ⟨old, parent, copied⟩ := copy.copied
          rw [(threadFork_spares addrspaceKept _ _ _ _ _ forks).machine] at copied
          exact absurd copied ((asCopyCurrent_allows _ _ _ copies).failed code rfl old parent)
        | ok as =>
          refine ⟨as, copied, child, after, copies, forks, ?_⟩
          cases reused with
          | none => exact .inl rfl
          | some value => exact .inr (by rw [there]; exact retval)
      · rintro ⟨as, middle, other, final, copied, starts, read⟩
        rw [copies] at copied
        cases copied
        rw [handed, starts] at forks
        cases forks
        obtain ⟨new, thread, there, _⟩ := threadFork_starts _ _ _ _ _ starts child rfl
        have called := asCopyCurrent_allows _ _ _ copies
        refine ⟨fun old => new ?_, ⟨thread, there, ?_⟩, tf, as, enters, tfFrom, (called.copied as rfl).forked starts⟩
        · exact (called.spared .thread nofun).kept _ (Finset.mem_insert_of_mem old)
        · rcases read with rfl | rfl
          · simp only [forkRetval, there, map_some]
          · simp only [forkRetval, there, map_some]
  · have refuses : k.heap.grants 0 = false := Bool.eq_false_iff.mpr grants
    have smooth : Smooth k ptf reused := .inl refuses
    refine ⟨fun _ => smooth, fun _ => ?_⟩
    cases forked with
    | refused _ => exact ⟨rfl, rfl, rfl⟩
    | failed granted _ _ _ _ _ _ => exact absurd granted grants
    | started granted _ _ _ _ _ _ => exact absurd granted grants

theorem fork_faithful_program :
    ∃ after, sysFork (fun _ => 0) ⟨6, 0⟩ (oneProgram fun _ => true) = some (.ok 10, after) ∧
      Faithful (oneProgram fun _ => true) (fun _ => 0) none (.ok 10) after := by
  have copies : (asCopyCurrent ((oneProgram fun _ => true).stored fun _ => 0)).bind (·.1.toOption) = some ⟨8, 1⟩ := by
    decide +kernel
  have forks : ((asCopyCurrent ((oneProgram fun _ => true).stored fun _ => 0)).bind fun outcome =>
      (threadFork 7 ⟨8, 1⟩ outcome.2).bind (·.1.toOption)) = some 10 := by
    decide +kernel
  have runs : (sysFork (fun _ => 0) ⟨6, 0⟩ (oneProgram fun _ => true)).bind (·.1.toOption) = some 10 := by
    decide +kernel
  obtain ⟨copied, copies⟩ := ok_of_toOption copies
  rw [copies, bind_some] at forks
  obtain ⟨final, forks⟩ := ok_of_toOption forks
  obtain ⟨after, run⟩ := ok_of_toOption runs
  exact ⟨after, run, (fork_faithful_iff _ _ _ _ none _ run).mpr (.inr ⟨_, _, _, _, copies, forks, .inl rfl⟩)⟩

/-- Without memory for the second `struct addrspace` the child starts in what `child_as` happened to hold. -/
theorem fork_without_address_space :
    ∃ child after, sysFork (fun _ => 0) ⟨6, 0⟩ (oneProgram fun n => n ≠ 1) = some (.ok child, after) ∧
      ¬ Faithful (oneProgram fun n => n ≠ 1) (fun _ => 0) none (.ok child) after := by
  refine ⟨_, _, rfl, ?_⟩
  rintro ⟨_, _, _, _, _, _, copy⟩
  obtain ⟨old, _, copied⟩ := copy.copied
  have counted := asCopy_created _ _ _ _ copied
  exact absurd counted (by decide)

end Os161.Fork
