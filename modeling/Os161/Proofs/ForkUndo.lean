import Os161.Fork

/-! What a failed `thread_fork` leaves behind: `thread_create` first allocates the process block, which nothing else
in a fork gives back. -/

namespace Os161.Fork
open Routine Containers Vm

structure Spared (kind : Kind) (heap after : Heap) : Prop where
  kept : ∀ ptr, ⟨kind, ptr⟩ ∈ heap.live → ⟨kind, ptr⟩ ∈ after.live
  later : heap.serial ≤ after.serial

instance (kind : Kind) : IsPreorder Heap (Spared kind) where
  refl _ := ⟨fun _ => id, Nat.le_refl _⟩
  trans _ _ _ first second := ⟨fun ptr => second.kept ptr ∘ first.kept ptr, Nat.le_trans first.later second.later⟩

structure Kern.Spared (kind : Kind) (k after : Kern) : Prop where
  heap : Fork.Spared kind k.heap after.heap
  trapframes : after.trapframes = k.trapframes
  machine : after.machine = k.machine

instance (kind : Kind) : IsPreorder Kern (Kern.Spared kind) where
  refl k := ⟨refl_of (Fork.Spared kind) k.heap, rfl, rfl⟩
  trans _ _ _ first second := ⟨trans_of (Fork.Spared kind) first.heap second.heap,
    second.trapframes.trans first.trapframes, second.machine.trans first.machine⟩

section Spares

variable {kind : Kind}

theorem kmalloc_allows (other : Kind) (heap : Heap) :
    (kmalloc other).Allows heap fun result after =>
      heap.grants 0 = true ∧ result = .ok (some heap.serial) ∧ after = heap.granted other ∨
        heap.grants 0 = false ∧ result = .ok none ∧ after = heap.answered := by
  intro result after computed
  cases computed
  unfold Pool.request
  by_cases grants : heap.grants 0 = true
  · rw [if_pos grants]
    exact .inl ⟨grants, rfl, rfl⟩
  · rw [if_neg grants]
    exact .inr ⟨Bool.eq_false_iff.mpr grants, rfl, rfl⟩

theorem kmalloc_spares (other : Kind) : (kmalloc other).Follows (Spared kind) := by
  intro heap
  refine (kmalloc_allows other heap).mono fun result after outcome => ?_
  rcases outcome with ⟨_, _, rfl⟩ | ⟨_, _, rfl⟩
  · exact ⟨fun ptr member => Finset.mem_insert_of_mem member, Nat.le_succ _⟩
  · exact ⟨fun ptr member => member, Nat.le_refl _⟩

variable {other : Kind}

theorem kfree_spares (differs : other ≠ kind) (ptr : Nat) : (kfree other ptr).Follows (Spared kind) := by
  refine follows_get_bind fun heap => (follows_require _).bind fun _ => follows_modify fun heap => ?_
  refine ⟨fun kept member => ?_, Nat.le_refl _⟩
  exact Finset.mem_erase.mpr ⟨fun same => differs (congrArg Pool.Block.kind same).symm, member⟩

theorem kfreeAny_spares (differs : other ≠ kind) (ptr : Option Nat) : (kfreeAny other ptr).Follows (Spared kind) := by
  cases ptr with
  | none => exact follows_pure ()
  | some ptr => exact kfree_spares differs ptr

theorem arrayPreallocate_spares (differs : other ≠ kind) (a : HeapArr) (nguys : Nat) :
    (arrayPreallocate other a nguys).Follows (Spared kind) := by
  refine (kmalloc_spares other).bind fun newv => ?_
  cases newv with
  | none => exact follows_fail _
  | some newv =>
    refine (follows_finish _).bind fun arr => ?_
    exact (kfreeAny_spares differs a.v).bind fun _ => follows_pure _

section

variable (differs : .runqueue ≠ kind) (q : HeapQueue)
include differs q

theorem qGrow_spares (targetsize : Nat) : (qGrow q targetsize).Follows (Spared kind) := by
  refine (kmalloc_spares _).bind fun ndata => ?_
  cases ndata with
  | none => exact follows_fail _
  | some ndata =>
    dsimp only
    split
    · exact (kfree_spares differs q.data).bind fun _ => follows_pure _
    · exact follows_halt

theorem schedulerPreallocate_spares (nthreads : Nat) : (schedulerPreallocate q nthreads).Follows (Spared kind) := by
  unfold schedulerPreallocate
  split
  · exact qGrow_spares differs q nthreads
  · exact follows_pure q

theorem makeRunnable_spares (t : Nat) : (makeRunnable q t).Follows (Spared kind) := by
  unfold makeRunnable
  split
  · exact (qGrow_spares differs q _).bind fun _ => follows_pure _
  · exact follows_pure _

end

theorem kfree_fresh_spares {heap ptr} (fresh : heap.serial ≤ ptr) (grown : Heap)
    (spared : Spared kind heap grown) : (kfree other ptr).Allows grown fun _ after => Spared kind heap after := by
  simp only [kfree, allows_bind, allows_get, andThenAllows_ok, allows_require, allows_modify]
  refine fun _ => ⟨fun kept member => ?_, spared.later⟩
  refine Finset.mem_erase.mpr ⟨fun same => ?_, spared.kept kept member⟩
  cases same
  exact Nat.not_lt_of_le fresh (heap.numbered _ member)

theorem semCreate_spares : semCreate.Follows (Spared kind) := by
  intro heap
  rw [semCreate, allows_bind]
  refine (kmalloc_allows .semaphore heap).mono fun result grown outcome => ?_
  rcases outcome with ⟨_, rfl, rfl⟩ | ⟨_, rfl, rfl⟩
  · rw [andThenAllows_ok, allows_bind]
    have first : Spared kind heap (heap.granted .semaphore) :=
      ⟨fun ptr member => Finset.mem_insert_of_mem member, Nat.le_succ _⟩
    refine (@kmalloc_spares kind .semName (heap.granted .semaphore)).mono fun result named second => ?_
    have both := trans_of (Spared kind) first second
    rcases result with code | (_ | name)
    · exact both
    · rw [andThenAllows_ok, allows_bind]
      refine (kfree_fresh_spares (Nat.le_refl _) named both).mono fun result after spared => ?_
      cases result with
      | error code => exact spared
      | ok _ => exact (allows_pure _ _ _).mpr spared
    · exact (allows_pure _ _ _).mpr both
  · exact (allows_pure _ _ _).mpr ⟨fun _ => id, Nat.le_refl _⟩

theorem onHeap_spares {α : Type} {routine : Routine Errno Heap α} (spares : routine.Follows (Spared kind)) :
    (onHeap routine).Follows (Kern.Spared kind) := spares.zoom fun _ _ spared => ⟨spared, rfl, rfl⟩

theorem modify_spares {f}
    (same : ∀ k, (f k).heap = k.heap ∧ (f k).trapframes = k.trapframes ∧ (f k).machine = k.machine) :
    (modify f : Routine Errno Kern Unit).Follows (Kern.Spared kind) := by
  refine follows_modify fun k => ⟨?_, (same k).2.1, (same k).2.2⟩
  rw [(same k).1]
  exact refl_of (Spared kind) k.heap

theorem vopDecref_spares (v : Nat) : (vopDecref v).Follows (Kern.Spared kind) := by
  refine follows_get_bind fun k => ?_
  split
  · exact follows_halt
  · exact (follows_require _).bind fun _ => modify_spares fun _ => ⟨rfl, rfl, rfl⟩

theorem vopDecrefAny_spares (v : Option Nat) : (vopDecrefAny v).Follows (Kern.Spared kind) := by
  cases v with
  | none => exact follows_pure ()
  | some v => exact vopDecref_spares v

theorem inheritCwd_spares (newguy : Nat) : (inheritCwd newguy).Follows (Kern.Spared kind) := by
  refine follows_get_bind fun k => ?_
  split
  · exact follows_halt
  · split
    · exact follows_pure ()
    · exact Follows.bind (modify_spares fun _ => ⟨rfl, rfl, rfl⟩) fun _ => modify_spares fun _ => ⟨rfl, rfl, rfl⟩

/-- The blocks that `thread_fork` gives back, when it fails or for a container that has grown. -/
structure Kept (kind : Kind) : Prop where
  threadName : .threadName ≠ kind
  thread : .thread ≠ kind
  stack : .stack ≠ kind
  sleepers : .sleepers ≠ kind
  zombies : .zombies ≠ kind
  runqueue : .runqueue ≠ kind

section

variable (kept : Kept kind)
include kept

theorem freeThread_spares (t : Nat) : (freeThread t).Follows (Kern.Spared kind) := by
  refine follows_get_bind fun k => ?_
  split
  · exact follows_halt
  · refine (onHeap_spares (kfree_spares kept.threadName _)).bind fun _ => ?_
    exact (onHeap_spares (kfree_spares kept.thread t)).bind fun _ => modify_spares fun _ => ⟨rfl, rfl, rfl⟩

theorem enqueue_spares (newguy : Nat) : (enqueue newguy).Follows (Kern.Spared kind) := by
  refine follows_get_bind fun k => ?_
  refine (onHeap_spares (arrayPreallocate_spares kept.sleepers _ _)).bind fun _ => Follows.bind (modify_spares fun _ => ⟨rfl, rfl, rfl⟩) fun _ => ?_
  refine (onHeap_spares (arrayPreallocate_spares kept.zombies _ _)).bind fun _ => Follows.bind (modify_spares fun _ => ⟨rfl, rfl, rfl⟩) fun _ => ?_
  refine (onHeap_spares (schedulerPreallocate_spares kept.runqueue _ _)).bind fun _ => Follows.bind (modify_spares fun _ => ⟨rfl, rfl, rfl⟩) fun _ => ?_
  exact (onHeap_spares (makeRunnable_spares kept.runqueue _ _)).bind fun _ => modify_spares fun _ => ⟨rfl, rfl, rfl⟩

theorem failFork_spares (newguy : Nat) (code : Errno) : (failFork newguy code).Follows (Kern.Spared kind) := by
  refine follows_get_bind fun k => ?_
  split
  · exact follows_halt
  · refine (vopDecrefAny_spares _).bind fun _ => (onHeap_spares (kfreeAny_spares kept.stack _)).bind fun _ => ?_
    exact (freeThread_spares kept newguy).bind fun _ => follows_fail code

theorem createThread_spares (i process : Nat) : (createThread i process).Follows (Kern.Spared kind) := by
  refine (onHeap_spares (kmalloc_spares _)).bind fun thread => ?_
  cases thread with
  | none => exact follows_pure _
  | some thread =>
    refine (onHeap_spares (kmalloc_spares _)).bind fun name => ?_
    cases name with
    | none => exact (onHeap_spares (kfree_spares kept.thread thread)).bind fun _ => follows_pure _
    | some name =>
      refine (onHeap_spares semCreate_spares).bind fun exitSem => ?_
      refine Follows.bind (modify_spares fun k => by cases exitSem <;> exact ⟨rfl, rfl, rfl⟩) fun _ => ?_
      exact Follows.bind (modify_spares fun _ => ⟨rfl, rfl, rfl⟩) fun _ => follows_pure _

theorem forkRest_spares (newguy data1 : Nat) (data2 : SpacePtr) :
    (forkRest newguy data1 data2).Follows (Kern.Spared kind) := by
  refine (onHeap_spares (kmalloc_spares _)).bind fun stack => ?_
  cases stack with
  | none => exact (freeThread_spares kept newguy).bind fun _ => follows_fail _
  | some stack =>
    refine Follows.bind (modify_spares fun _ => ⟨rfl, rfl, rfl⟩) fun _ => (inheritCwd_spares newguy).bind fun _ => ?_
    refine Follows.bind (modify_spares fun _ => ⟨rfl, rfl, rfl⟩) fun _ => (enqueue_spares kept newguy).attempt.bind fun result => ?_
    cases result with
    | ok _ => exact follows_pure _
    | error code => exact failFork_spares kept newguy code

end

theorem processKept : Kept .process := ⟨nofun, nofun, nofun, nofun, nofun, nofun⟩

end Spares

/-- `thread_create` does nothing, or it allocates the process block and keeps it. -/
theorem threadCreate_allows (k : Kern) :
    threadCreate.Allows k fun result after =>
      (k.freeSlot = none ∨ k.heap.grants 0 = false) ∧ result = .ok none ∧
          (after = k ∨ after = { k with heap := k.heap.answered }) ∨
        (k.freeSlot ≠ none ∧ k.heap.grants 0 = true) ∧ ⟨.process, k.heap.serial⟩ ∈ after.heap.live := by
  simp only [threadCreate, allows_bind, allows_get, andThenAllows_ok]
  cases slot : k.freeSlot with
  | none => exact (allows_pure _ _ _).mpr (.inl ⟨.inl rfl, rfl, .inl rfl⟩)
  | some i =>
    simp only [allows_bind, onHeap, allows_zoom]
    refine (kmalloc_allows .process k.heap).mono fun result heap outcome => ?_
    rcases outcome with ⟨grants, rfl, rfl⟩ | ⟨refuses, rfl, rfl⟩
    · refine (createThread_spares processKept i k.heap.serial _).mono fun _ after spared => ?_
      exact .inr ⟨⟨Option.some_ne_none i, grants⟩, spared.heap.kept _ (Finset.mem_insert_self _ _)⟩
    · exact (allows_pure _ _ _).mpr (.inl ⟨.inr refuses, rfl, .inr rfl⟩)

theorem threadFork_allows (k : Kern) (data1 : Nat) (data2 : SpacePtr) :
    (threadFork data1 data2).Allows k fun _ after =>
      (k.freeSlot = none ∨ k.heap.grants 0 = false) ∧ (after = k ∨ after = { k with heap := k.heap.answered }) ∨
        (k.freeSlot ≠ none ∧ k.heap.grants 0 = true) ∧ ⟨.process, k.heap.serial⟩ ∈ after.heap.live := by
  rw [threadFork, allows_bind]
  refine (threadCreate_allows k).mono fun result after created => ?_
  rcases created with ⟨refused, rfl, same⟩ | ⟨granted, live⟩
  · exact (allows_fail _ _ _).mpr (.inl ⟨refused, same⟩)
  · cases result with
    | error code => exact .inr ⟨granted, live⟩
    | ok newguy =>
      cases newguy with
      | none => exact (allows_fail _ _ _).mpr (.inr ⟨granted, live⟩)
      | some newguy =>
        exact (forkRest_spares processKept newguy data1 data2 after).mono fun _ _ spared =>
          .inr ⟨granted, spared.heap.kept _ live⟩

structure Undone (k after : Kern) : Prop where
  pTable : after.pTable = k.pTable
  numthreads : after.numthreads = k.numthreads
  runqueue : after.runqueue.queue.entries = k.runqueue.queue.entries
  cwd : ∀ thread v, k.current = some thread → thread.cwd = some v → after.vnodes v = k.vnodes v
  heap : after.heap.live = k.heap.live

/-- A `thread_fork` that fails undoes everything exactly when it got no process block. -/
theorem failed_fork_undone_iff (k after : Kern) (data1 : Nat) (data2 : SpacePtr) (code : Errno)
    (failed : threadFork data1 data2 k = some (.error code, after)) :
    Undone k after ↔ k.freeSlot = none ∨ k.heap.grants 0 = false := by
  rcases threadFork_allows k data1 data2 _ after failed with ⟨refused, rfl | rfl⟩ | ⟨⟨slot, grants⟩, live⟩
  · exact ⟨fun _ => refused, fun _ => ⟨rfl, rfl, rfl, fun _ _ _ _ => rfl, rfl⟩⟩
  · exact ⟨fun _ => refused, fun _ => ⟨rfl, rfl, rfl, fun _ _ _ _ => rfl, rfl⟩⟩
  · constructor
    · intro undone
      rw [undone.heap] at live
      exact absurd live (k.heap.unused .process)
    · intro refused
      rcases refused with full | refuses
      · exact absurd full slot
      · rw [refuses] at grants
        cases grants

def programMachine : Machine where
  ram := fun _ => 0
  ramsize := 61 * pageSize
  bounded := by decide
  cm := ⟨setFree false ((List.range 60).map (freshEntry 4096)) 0 26, 4096⟩
  spaces := fun _ => ⟨0x400000, 4096, 1, 0x10000000, 8192, 1, 12288⟩
  created := 1
  vmspace := 0
  current := Nat.one_pos

/-- One user program runs, and nothing has been forked yet. -/
def oneProgram (grants : Nat → Bool) : Kern where
  heap :=
    { live := {⟨.thread, 0⟩, ⟨.threadName, 1⟩, ⟨.process, 2⟩, ⟨.semaphore, 3⟩, ⟨.semName, 4⟩, ⟨.runqueue, 5⟩,
        ⟨.addrspace, 6⟩}
      serial := 7
      grants
      numbered := by decide }
  pTable := fun i => if i = 1 then some ⟨2, 0, -1, false, -1, some ⟨3, 4⟩⟩ else none
  curthread := some 0
  threads := fun t => if t = 0 then some ⟨1, none, some ⟨6, 0⟩, none, 1, none, none, .running⟩ else none
  numthreads := 1
  runqueue := ⟨Queue.create 32 Queue.positive_32, 5⟩
  sleepers := ⟨Arr.create, none⟩
  zombies := ⟨Arr.create, none⟩
  counts := fun _ => 0
  vnodes := fun _ => none
  trapframes := fun _ => none
  machine := programMachine

theorem failed_fork_undone_refused :
    ∃ after, threadFork 0 ⟨6, 0⟩ (oneProgram fun _ => false) = some (.error .enomem, after) ∧
      Undone (oneProgram fun _ => false) after := by
  refine ⟨{ oneProgram fun _ => false with heap := (oneProgram fun _ => false).heap.answered }, rfl, ?_⟩
  exact (failed_fork_undone_iff (oneProgram fun _ => false) _ 0 ⟨6, 0⟩ .enomem rfl).mpr (.inr rfl)

/-- The heap has room for the process block and for nothing more. -/
theorem failed_fork_keeps_process_block :
    ∃ after, threadFork 0 ⟨6, 0⟩ (oneProgram fun n => n = 0) = some (.error .enomem, after) ∧
      ¬ Undone (oneProgram fun n => n = 0) after := by
  refine ⟨{ oneProgram fun n => n = 0 with
    heap := ((oneProgram fun n => n = 0).heap.granted .process).answered }, rfl, fun undone => ?_⟩
  have live : ⟨.process, 7⟩ ∈ (oneProgram fun n => n = 0).heap.live := by
    rw [← undone.heap]
    exact Finset.mem_insert_self _ _
  exact absurd live (by decide)

end Os161.Fork
