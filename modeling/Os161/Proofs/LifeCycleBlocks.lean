import Os161.Lib.Runs
import Os161.LifeCycle
import Os161.Proofs.ForkChild

/-! Which blocks the processes give back. No step frees a trapframe or a semaphore's name, and only the end of
`sys_waitpid` frees a process block. -/

namespace Os161.Fork
open Routine Containers Runs Option

structure Lasting (kind : Kind) : Prop extends Kept kind where
  addrspace : .addrspace ≠ kind

section Steps

variable {kind : Kind} {α : Type}

theorem asserted_spares {routine : Routine Errno Heap α} (spares : routine.Follows (Spared kind)) :
    (asserted routine).Follows (Spared kind) := by
  refine spares.attempt.bind fun result => ?_
  cases result with
  | ok value => exact follows_pure _
  | error code => exact follows_halt

theorem arrayAdd_spares {other} (differs : other ≠ kind) (a : HeapArr) (guy : Nat) :
    (arrayAdd other a guy).Follows (Spared kind) := by
  unfold arrayAdd
  split
  · exact (follows_finish _).bind fun _ => follows_pure _
  · refine (arrayPreallocate_spares differs a _).bind fun _ => ?_
    exact (follows_finish _).bind fun _ => follows_pure _

theorem arrayClear_spares {other} (differs : other ≠ kind) (a : HeapArr) :
    (arrayClear other a).Follows (Spared kind) := by
  unfold arrayClear
  split
  · refine (follows_require _).bind fun _ => (kfreeAny_spares differs a.v).bind fun _ => follows_pure _
  · exact follows_pure _

theorem curthread_spares : curthread.Follows (Kern.Spared kind) := by
  refine follows_get_bind fun k => ?_
  split
  · exact follows_pure _
  · exact follows_halt

section

variable (lasting : Lasting kind)
include lasting

theorem ready_spares (t : Nat) : (ready t).Follows (Kern.Spared kind) := by
  refine follows_get_bind fun k => ?_
  refine (onHeap_spares (asserted_spares (makeRunnable_spares lasting.runqueue _ t))).bind fun _ => ?_
  exact modify_spares fun _ => ⟨rfl, rfl, rfl⟩

theorem threadYield_spares : threadYield.Follows (Kern.Spared kind) := by
  refine curthread_spares.bind fun ⟨t, _⟩ => (ready_spares lasting t).bind fun _ => ?_
  exact modify_spares fun _ => ⟨rfl, rfl, rfl⟩

theorem threadSleep_spares (addr : Nat) : (threadSleep addr).Follows (Kern.Spared kind) := by
  refine curthread_spares.bind fun ⟨t, _⟩ => follows_get_bind fun k => ?_
  refine (onHeap_spares (asserted_spares (arrayAdd_spares lasting.sleepers _ t))).bind fun _ => ?_
  refine Follows.bind (modify_spares fun _ => ⟨rfl, rfl, rfl⟩) fun _ => ?_
  exact modify_spares fun _ => ⟨rfl, rfl, rfl⟩

theorem wakeupLoop_spares (addr left i : Nat) : (wakeupLoop addr left i).Follows (Kern.Spared kind) := by
  induction left generalizing i with
  | zero => exact follows_pure ()
  | succ left again =>
    refine follows_get_bind fun k => ?_
    split
    · exact follows_halt
    · split
      · refine Follows.bind (modify_spares fun _ => ⟨rfl, rfl, rfl⟩) fun _ => ?_
        exact (ready_spares lasting _).bind fun _ => again i
      · exact again (i + 1)

theorem semV_spares (sem : Option Semaphore) : (semV sem).Follows (Kern.Spared kind) := by
  cases sem with
  | none => exact follows_halt
  | some sem =>
    refine Follows.bind (modify_spares fun _ => ⟨rfl, rfl, rfl⟩) fun _ => ?_
    exact follows_get_bind fun k => wakeupLoop_spares lasting _ _ _

theorem asDestroyAny_spares (as : Option SpacePtr) : (asDestroyAny as).Follows (Kern.Spared kind) := by
  cases as with
  | none => exact follows_pure ()
  | some as => exact onHeap_spares (kfree_spares lasting.addrspace as.block)

theorem threadExit_spares : threadExit.Follows (Kern.Spared kind) := by
  refine curthread_spares.bind fun ⟨t, thread⟩ => Follows.bind (modify_spares fun _ => ⟨rfl, rfl, rfl⟩) fun _ => ?_
  refine (asDestroyAny_spares lasting _).bind fun _ => (vopDecrefAny_spares _).bind fun _ => ?_
  refine Follows.bind (modify_spares fun _ => ⟨rfl, rfl, rfl⟩) fun _ => follows_get_bind fun k => ?_
  refine (follows_require _).bind fun _ => ?_
  refine (onHeap_spares (asserted_spares (arrayAdd_spares lasting.zombies _ t))).bind fun _ => ?_
  exact modify_spares fun _ => ⟨rfl, rfl, rfl⟩

theorem sysExit_spares (exitCode : Int) : (sysExit exitCode).Follows (Kern.Spared kind) := by
  refine curthread_spares.bind fun ⟨t, thread⟩ => follows_get_bind fun k => ?_
  split
  · exact follows_halt
  · refine Follows.bind (modify_spares fun _ => ⟨rfl, rfl, rfl⟩) fun _ => ?_
    exact (semV_spares lasting _).bind fun _ => threadExit_spares lasting

theorem threadDestroy_spares (t : Nat) : (threadDestroy t).Follows (Kern.Spared kind) := by
  refine follows_get_bind fun k => ?_
  split
  · exact follows_halt
  · refine (follows_require _).bind fun _ => (follows_require _).bind fun _ => (follows_require _).bind fun _ => ?_
    exact (onHeap_spares (kfreeAny_spares lasting.stack _)).bind fun _ => freeThread_spares lasting.toKept t

theorem destroyAll_spares (zombies : List Nat) : (destroyAll zombies).Follows (Kern.Spared kind) := by
  induction zombies with
  | nil => exact follows_pure ()
  | cons t rest again => exact (threadDestroy_spares lasting t).bind fun _ => again

theorem exorcise_spares : exorcise.Follows (Kern.Spared kind) := by
  refine follows_get_bind fun k => (destroyAll_spares lasting _).bind fun _ => ?_
  refine (onHeap_spares (arrayClear_spares lasting.zombies _)).bind fun _ => ?_
  exact modify_spares fun _ => ⟨rfl, rfl, rfl⟩

end

theorem sysWaitpid_spares (pid : Nat) : (sysWaitpid pid).Follows (Kern.Spared kind) := by
  refine curthread_spares.bind fun ⟨t, thread⟩ => (follows_require _).bind fun _ => follows_get_bind fun k => ?_
  split
  · exact follows_pure ()
  · split
    · exact follows_pure ()
    · split
      · exact follows_pure ()
      · exact modify_spares fun _ => ⟨rfl, rfl, rfl⟩

theorem enterP_spares (pid : Nat) : (enterP pid).Follows (Kern.Spared kind) := by
  refine curthread_spares.bind fun ⟨t, thread⟩ => follows_get_bind fun k => ?_
  split
  · exact follows_halt
  · exact modify_spares fun _ => ⟨rfl, rfl, rfl⟩

theorem semP_spares (lasting : Lasting kind) (pid sem : Nat) : (semP pid sem).Follows (Kern.Spared kind) := by
  refine curthread_spares.bind fun ⟨t, thread⟩ => follows_get_bind fun k => ?_
  split
  · exact threadSleep_spares lasting sem
  · refine Follows.bind (modify_spares fun _ => ⟨rfl, rfl, rfl⟩) fun _ => ?_
    exact modify_spares fun _ => ⟨rfl, rfl, rfl⟩

theorem collect_spares (semaphore : .semaphore ≠ kind) (process : .process ≠ kind) (pid : Nat) :
    (collect pid).Follows (Kern.Spared kind) := by
  refine curthread_spares.bind fun ⟨t, thread⟩ => follows_get_bind fun k => ?_
  split
  · exact follows_halt
  · refine (onHeap_spares (kfreeAny_spares semaphore _)).bind fun _ => ?_
    refine (onHeap_spares (kfree_spares process _)).bind fun _ => ?_
    refine Follows.bind (modify_spares fun _ => ⟨rfl, rfl, rfl⟩) fun _ => ?_
    exact modify_spares fun _ => ⟨rfl, rfl, rfl⟩

theorem resume_spares (lasting : Lasting kind) : resume.Follows (Kern.Spared kind) := by
  refine follows_get_bind fun k => (follows_require _).bind fun _ => ?_
  split
  · exact follows_halt
  · refine Follows.bind (modify_spares fun _ => ⟨rfl, rfl, rfl⟩) fun _ => ?_
    split
    · exact modify_spares fun _ => ⟨rfl, rfl, rfl⟩
    · exact exorcise_spares lasting

theorem sysFork_spares (lasting : Lasting kind) (ptf : Trapframe) (stale : SpacePtr) (k : Kern) :
    (sysFork ptf stale).Allows k fun _ after => Spared kind k.heap after.heap := by
  refine (sysFork_allows k ptf stale).mono fun result after forked => ?_
  have stored : Spared kind k.heap (k.stored ptf).heap :=
    ⟨fun ptr member => Finset.mem_insert_of_mem member, Nat.le_succ _⟩
  cases forked with
  | refused _ => exact ⟨fun _ => id, Nat.le_refl _⟩
  | failed _ result copied code after copies forks =>
    have copied := (asCopyCurrent_allows _ _ _ copies).spared kind lasting.addrspace.symm
    have forked := (threadFork_spares lasting.toKept _ _ _ _ _ forks).heap
    exact trans_of (Spared kind) (trans_of (Spared kind) stored copied) forked
  | started _ result copied child after copies forks =>
    have copied := (asCopyCurrent_allows _ _ _ copies).spared kind lasting.addrspace.symm
    have forked := (threadFork_spares lasting.toKept _ _ _ _ _ forks).heap
    exact trans_of (Spared kind) (trans_of (Spared kind) stored copied) forked

end Steps

def Uncollected (k : Kern) (action : Step) : Prop :=
  action = .waits → ∀ thread pid, k.current = some thread → thread.phase ≠ .collecting pid

theorem curthread_allows (k : Kern) :
    curthread.Allows k fun result after => after = k ∧ ∀ t thread, result = .ok (t, thread) → k.current = some thread := by
  simp only [curthread, allows_bind, allows_get, andThenAllows_ok]
  split
  next t thread _ found =>
    refine (allows_pure _ _ _).mpr ⟨rfl, fun _ _ same => ?_⟩
    cases same
    exact found
  · exact allows_halt _ _

theorem waits_spares {kind} (lasting : Lasting kind) (k : Kern)
    (spares : Uncollected k .waits ∨ .semaphore ≠ kind ∧ .process ≠ kind) :
    waits.Allows k fun _ after => Kern.Spared kind k after := by
  rw [waits, allows_bind]
  refine (curthread_allows k).mono fun result after found => ?_
  obtain ⟨rfl, found⟩ := found
  cases result with
  | error code => exact refl_of (Kern.Spared kind) after
  | ok current =>
    obtain ⟨t, thread⟩ := current
    rw [andThenAllows_ok]
    dsimp only
    split
    · exact allows_halt _ _
    next pid _ => exact enterP_spares pid after
    next pid sem _ => exact semP_spares lasting pid sem after
    next pid phase =>
      rcases spares with uncollected | ⟨semaphore, process⟩
      · exact absurd phase (uncollected rfl thread pid (found t thread rfl))
      · exact collect_spares semaphore process pid after

theorem inUser_spares {kind} : inUser.Follows (Kern.Spared kind) :=
  curthread_spares.bind fun ⟨_, _⟩ => follows_require _

theorem step_spares {kind} (lasting : Lasting kind) {k next action}
    (spares : Uncollected k action ∨ .semaphore ≠ kind ∧ .process ≠ kind) (taken : step k action = some next) :
    Spared kind k.heap next.heap := by
  obtain ⟨⟨result, _⟩, performed, rfl⟩ := map_eq_some_iff.mp taken
  cases action with
  | sysFork ptf stale =>
    have allowed : (perform (.sysFork ptf stale)).Allows k fun _ after => Spared kind k.heap after.heap := by
      rw [perform, allows_bind]
      refine (@inUser_spares kind k).mono fun result middle first => ?_
      cases result with
      | error code => exact first.heap
      | ok _ =>
        rw [andThenAllows_ok, allows_bind]
        refine (sysFork_spares lasting ptf stale middle).mono fun result after second => ?_
        have both := trans_of (Spared kind) first.heap second
        cases result with
        | error code => exact both
        | ok child => exact (allows_pure _ _ _).mpr both
    exact allowed _ _ performed
  | sysExit exitCode => exact (inUser_spares.bind fun _ => sysExit_spares lasting exitCode) k _ _ performed |>.heap
  | sysWaitpid pid => exact (inUser_spares.bind fun _ => sysWaitpid_spares pid) k _ _ performed |>.heap
  | waits => exact (waits_spares lasting k spares _ _ performed).heap
  | threadYield => exact (threadYield_spares lasting k _ _ performed).heap
  | resume => exact (resume_spares lasting k _ _ performed).heap

/-- What is not freed when a process is collected is never freed. -/
theorem run_spares {kind} (lasting : Lasting kind) (semaphore : .semaphore ≠ kind) (process : .process ≠ kind)
    {k final steps} (reached : run step k steps = some final) : Spared kind k.heap final.heap := by
  refine @run_preserves _ _ step (fun state => Spared kind k.heap state.heap) ?_ k final steps (refl_of (Spared kind) k.heap) reached
  intro state action next spared taken
  exact trans_of (Spared kind) spared (step_spares lasting (.inr ⟨semaphore, process⟩) taken)

theorem run_spares_uncollected {kind} (lasting : Lasting kind) {k final steps}
    (uncollected : EachStep step Uncollected k steps) (reached : run step k steps = some final) :
    Spared kind k.heap final.heap := by
  have always : Always step (fun state => Spared kind k.heap state.heap) k steps := by
    refine always_of_steps ?_ (refl_of (Spared kind) k.heap) uncollected
    intro state action next spared taken now
    exact trans_of (Spared kind) spared (step_spares lasting (.inl now) taken)
  exact always.final reached

/-- The trapframe and the semaphore's name outlive the process; so do the process block and the semaphore where the
parent does not wait before the child exits. -/
theorem life_cycle_leaks (k forked final : Kern) (ptf : Trapframe) (stale : SpacePtr) (child : Nat) (steps : List Step)
    (forks : sysFork ptf stale k = some (.ok child, forked)) (reached : run step forked steps = some final) :
    final.heap.live ≠ k.heap.live ∧
      (∀ block ∈ forked.heap.live, block.kind = .trapframe ∨ block.kind = .semName → block ∈ final.heap.live) ∧
      (EachStep step Uncollected forked steps → ∀ block ∈ forked.heap.live,
        block.kind = .process ∨ block.kind = .semaphore → block ∈ final.heap.live) := by
  have granted : k.heap.grants 0 = true := by
    cases sysFork_allows k ptf stale _ _ forks with
    | started grants _ _ _ _ _ _ => exact grants
  have copied := (sysFork_allows k ptf stale _ _ forks).trapframe_live granted
  have trapframes := @run_spares .trapframe ⟨trapframeKept, nofun⟩ nofun nofun _ _ _ reached
  have names := @run_spares .semName ⟨⟨nofun, nofun, nofun, nofun, nofun, nofun⟩, nofun⟩ nofun nofun _ _ _ reached
  refine ⟨fun same => ?_, ?_, ?_⟩
  · have kept := trapframes.kept _ copied
    rw [same] at kept
    exact k.heap.unused .trapframe kept
  · rintro ⟨_, ptr⟩ live (rfl | rfl)
    · exact trapframes.kept ptr live
    · exact names.kept ptr live
  · intro uncollected
    have processes := @run_spares_uncollected .process ⟨processKept, nofun⟩ _ _ _ uncollected reached
    have semaphores := @run_spares_uncollected .semaphore
      ⟨⟨nofun, nofun, nofun, nofun, nofun, nofun⟩, nofun⟩ _ _ _ uncollected reached
    rintro ⟨_, ptr⟩ live (rfl | rfl)
    · exact processes.kept ptr live
    · exact semaphores.kept ptr live

def waitFirst : List Step := [.sysWaitpid 2, .waits, .waits, .resume, .sysExit 0, .resume, .waits, .waits]

def exitFirst : List Step := [.threadYield, .resume, .sysExit 0, .resume, .sysWaitpid 2]

def lifeCycle (steps : List Step) : Option (Kern × Kern) :=
  (sysFork (fun _ => 0) ⟨6, 0⟩ (oneProgram fun _ => true)).bind fun outcome =>
    outcome.1.toOption.bind fun _ => (run step outcome.2 steps).map (Prod.mk outcome.2)

theorem lifeCycle_eq {steps forked final} (computed : lifeCycle steps = some (forked, final)) :
    ∃ child, sysFork (fun _ => 0) ⟨6, 0⟩ (oneProgram fun _ => true) = some (.ok child, forked) ∧
      run step forked steps = some final := by
  obtain ⟨⟨result, after⟩, forks, rest⟩ := bind_eq_some_iff.mp computed
  cases result with
  | error code => cases rest
  | ok child =>
    obtain ⟨last, reached, same⟩ := map_eq_some_iff.mp rest
    cases same
    exact ⟨child, forks, reached⟩

theorem life_cycle_leaks_waited :
    ∃ forked final, lifeCycle waitFirst = some (forked, final) ∧
      final.heap.live ≠ (oneProgram fun _ => true).heap.live := by
  obtain ⟨⟨forked, final⟩, computed⟩ := isSome_iff_exists.mp
    (show (lifeCycle waitFirst).isSome = true by decide +kernel)
  obtain ⟨child, forks, reached⟩ := lifeCycle_eq computed
  exact ⟨forked, final, computed, (life_cycle_leaks _ _ _ _ _ _ _ forks reached).1⟩

/-- In both orders the parent has the exit code, and the trapframe and the semaphore's name are still allocated. -/
theorem collected_child_leaks :
    (∃ forked final, lifeCycle waitFirst = some (forked, final) ∧ final.threads 10 = none ∧ final.pTable 2 = none ∧
      (⟨.trapframe, 7⟩ ∈ final.heap.live ∧ ⟨.semName, 13⟩ ∈ final.heap.live) ∧
      final.heap.live ≠ (oneProgram fun _ => true).heap.live) ∧
    ∃ forked final, lifeCycle exitFirst = some (forked, final) ∧ final.threads 10 = none ∧
      (⟨.trapframe, 7⟩ ∈ final.heap.live ∧ ⟨.semName, 13⟩ ∈ final.heap.live ∧ ⟨.process, 9⟩ ∈ final.heap.live) ∧
      final.heap.live ≠ (oneProgram fun _ => true).heap.live := by
  have before : (⟨.trapframe, 7⟩ : Pool.Block Kind) ∉ (oneProgram fun _ => true).heap.live := by decide
  have waited : (lifeCycle waitFirst).map (fun states => (states.2.threads 10, states.2.pTable 2,
      decide (⟨.trapframe, 7⟩ ∈ states.2.heap.live), decide (⟨.semName, 13⟩ ∈ states.2.heap.live))) =
        some (none, none, true, true) := by decide +kernel
  have exited : (lifeCycle exitFirst).map (fun states => (states.2.threads 10,
      decide (⟨.trapframe, 7⟩ ∈ states.2.heap.live), decide (⟨.semName, 13⟩ ∈ states.2.heap.live),
      decide (⟨.process, 9⟩ ∈ states.2.heap.live))) = some (none, true, true, true) := by decide +kernel
  constructor
  · obtain ⟨⟨forked, final⟩, computed, seen⟩ := map_eq_some_iff.mp waited
    simp only [Prod.mk.injEq, decide_eq_true_eq] at seen
    obtain ⟨gone, collected, trapframe, name⟩ := seen
    exact ⟨forked, final, computed, gone, collected, ⟨trapframe, name⟩, fun same => before (same ▸ trapframe)⟩
  · obtain ⟨⟨forked, final⟩, computed, seen⟩ := map_eq_some_iff.mp exited
    simp only [Prod.mk.injEq, decide_eq_true_eq] at seen
    obtain ⟨gone, trapframe, rest⟩ := seen
    exact ⟨forked, final, computed, gone, ⟨trapframe, rest⟩, fun same => before (same ▸ trapframe)⟩

end Os161.Fork
