import Os161.ProcessForks
import Os161.Proofs.ProcessSteps

/-! Pids under interleaved forks. While every store of `thread_create` finds its entry free, the table is as with
atomic forks. -/

namespace Os161.Proc
open State

def Thread.Unexited (thread : Thread) : Prop := thread.phase.code = none ∧ thread.phase ≠ .discarded

/-- Pids of threads that have not called `sys__exit` are distinct and lead back to them. -/
def PidsUnique (s : State) : Prop :=
  (∀ t u thread other, s.threads t = some thread → s.threads u = some other → thread.Unexited → other.Unexited →
    thread.pid = other.pid → t = u) ∧
  ∀ t thread, s.threads t = some thread → thread.Unexited → ∃ p, s.pTable thread.pid = some p ∧ p.me = t

/-- Every entry that a thread in `thread_create` stores into is still free. -/
def StoresFree (f : Forks) : ForkStep → Prop
  | .store t _ _ => ∀ i, f.found t = some i → f.state.pTable i = none
  | _ => True

variable {s : State} {i t : Nat} {start : Start} {f : Forks}

theorem pidsUnique_of_valid (valid : Valid s) : PidsUnique s := by
  have entry : ∀ t thread, s.threads t = some thread → thread.Unexited →
      ∃ p, s.pTable thread.pid = some p ∧ p.me = t := by
    intro t thread lookup unexited
    apply valid.ledger.owner t thread lookup
    cases collected : thread.collected with
    | false => rfl
    | true =>
      obtain ⟨code, exited⟩ := valid.marked.reaped t thread lookup collected
      rw [Thread.Unexited, exited] at unexited
      cases unexited.1
  refine ⟨fun t u thread other lookup lookupOther unexited unexitedOther same => ?_, entry⟩
  obtain ⟨p, slot, me⟩ := entry t thread lookup unexited
  obtain ⟨q, slotOther, meOther⟩ := entry u other lookupOther unexitedOther
  rw [same, slotOther] at slot
  cases slot
  exact me.symm.trans meOther

theorem threadStore_stores {created me curthread memory} (low : 1 ≤ i) (high : i < maxthreads) (empty : s.pTable i = none)
    (computed : threadStore s i curthread start memory = some (me, created)) :
    me = s.created ∧ Stores s created i curthread start memory.sem := by
  unfold threadStore at computed
  split at computed
  · cases computed
    refine ⟨rfl, ?_⟩
    cases memory.sem with
    | false => exact ⟨low, high, empty, rfl, rfl, rfl, fun _ _ => rfl, Bool.noConfusion, rfl⟩
    | true =>
      exact ⟨low, high, empty, rfl, rfl, rfl, fun _ different => if_neg different, fun _ => if_pos rfl, rfl⟩
  · cases computed

theorem threadForkAt_valid (valid : Valid s) (low : 1 ≤ i) (high : i < maxthreads)
    (empty : s.pTable i = none) (curthread : Nat × Thread) (start : Start) (memory : Memory) :
    Valid (threadForkAt s i curthread start memory) := by
  unfold threadForkAt
  split
  · exact valid
  · next newguy created computed =>
    obtain ⟨rfl, stores⟩ := threadStore_stores low high empty computed
    have grown := stores.valid valid
    split
    · exact grown.start stores.newcomer rfl
    · exact grown

theorem threadFork_eq (free : s.freeSlot = some i) (curthread : Nat × Thread) (start : Start)
    (memory : Memory) : threadFork s curthread start memory = threadForkAt s i curthread start memory := by
  have stored : threadCreate s (some curthread) start memory = threadStore s i (some curthread) start memory := by
    simp only [threadCreate, threadStore, free]
  cases result : threadStore s i (some curthread) start memory with
  | none => simp only [threadFork, threadForkAt, stored, result]
  | some created => simp only [threadFork, threadForkAt, stored, result]

/-- A fork that is not interrupted is the atomic one. -/
theorem uninterrupted_fork {thread} (memory : Memory)
    (alive : f.state.halted = false) (lookup : f.state.threads t = some thread) (running : thread.phase = .running)
    (outside : f.found t = none) (kind : start ≠ .boot) (free : f.state.freeSlot = some i) :
    (Runs.run forkStep f [.find t, .store t start memory]).map Forks.state = step f.state (.fork t start memory) := by
  obtain ⟨pid, creator, own, phase, collected⟩ := thread
  cases running
  have taken : forkStep f (.find t) = some (f.setFound t (some i)) := by
    simp [forkStep, alive, lookup, outside, free]
  have stored : forkStep (f.setFound t (some i)) (.store t start memory) =
      some ({ f.setFound t (some i) with
        state := threadForkAt f.state i (t, ⟨pid, creator, own, .running, collected⟩) start memory }.setFound t none) := by
    simp [forkStep, Forks.setFound, alive, lookup, kind]
  have atomic : step f.state (.fork t start memory) =
      some (threadFork f.state (t, ⟨pid, creator, own, .running, collected⟩) start memory) := by
    cases start with
    | boot => exact absurd rfl kind
    | _ => simp [step, alive, Step.thread, lookup, perform]
  rw [atomic, threadFork_eq free]
  simp only [Runs.run, taken, stored, Option.bind_some, Option.map_some]
  rfl

structure Forks.Sound (f : Forks) : Prop where
  valid : Valid f.state
  range : ∀ t i, f.found t = some i → 1 ≤ i ∧ i < maxthreads

theorem Forks.Sound.setFound (sound : f.Sound) {slot}
    (range : ∀ i, slot = some i → 1 ≤ i ∧ i < maxthreads) : (f.setFound t slot).Sound := by
  refine ⟨sound.valid, fun u i found => ?_⟩
  simp only [Forks.setFound] at found
  split at found
  · exact range i found
  · exact sound.range u i found

theorem forkStep_sound {next action} (sound : f.Sound) (taken : forkStep f action = some next)
    (free : StoresFree f action) : next.Sound := by
  cases action with
  | find t =>
    simp only [forkStep] at taken
    split at taken <;> cases taken
    apply sound.setFound
    intro i found
    obtain ⟨low, high, -⟩ := freeSlot_spec found
    exact ⟨low, high⟩
  | store t start memory =>
    simp only [forkStep] at taken
    split at taken
    · next thread i running lookup found =>
      split at taken <;> cases taken
      obtain ⟨low, high⟩ := sound.range t i found
      have valid := threadForkAt_valid sound.valid low high (free i found) (t, thread) start memory
      have grown : Forks.Sound { f with state := threadForkAt f.state i (t, thread) start memory } := ⟨valid, sound.range⟩
      exact grown.setFound nofun
    · cases taken
  | other action =>
    have stepped : ∃ s, step f.state action = some s ∧ next = { f with state := s } := by
      cases action <;> simp only [forkStep] at taken
      case fork => cases taken
      all_goals
        split at taken
        · obtain ⟨s, stepped, rfl⟩ := Option.map_eq_some_iff.mp taken
          exact ⟨s, stepped, rfl⟩
        · cases taken
    obtain ⟨s, stepped, rfl⟩ := stepped
    exact ⟨step_valid sound.valid stepped, sound.range⟩

theorem boot_sound (sem : Bool) : (Forks.boot sem).Sound := ⟨boot_valid sem, nofun⟩

/-- In every interleaving in which each store of `thread_create` finds its entry free, all pids are unique all the
time. -/
theorem pids_unique_of_free_stores (sem : Bool) (actions : List ForkStep)
    (free : Runs.EachStep forkStep StoresFree (Forks.boot sem) actions) :
    Runs.Always forkStep (fun f => PidsUnique f.state) (Forks.boot sem) actions := by
  have sound := Runs.always_of_steps (fun _ _ _ sound taken free => forkStep_sound sound taken free) (boot_sound sem) free
  exact sound.mono fun f sound => pidsUnique_of_valid sound.valid

/-- The boot thread forks a kernel thread, and then both fork one after the other. -/
theorem pids_unique_in_turn :
    let memory : Memory := ⟨true, true, true⟩
    Runs.Always forkStep (fun f => PidsUnique f.state) (Forks.boot true)
      [.find 0, .store 0 .kernel memory, .find 1, .store 1 .kernel memory, .find 0, .store 0 .kernel memory] := by
  intro memory
  apply pids_unique_of_free_stores
  rintro _ ⟨⟩
  refine ⟨trivial, ?_⟩
  rintro _ ⟨⟩
  refine ⟨?_, ?_⟩
  · rintro i ⟨⟩
    rfl
  rintro _ ⟨⟩
  refine ⟨trivial, ?_⟩
  rintro _ ⟨⟩
  refine ⟨?_, ?_⟩
  · rintro i ⟨⟩
    rfl
  rintro _ ⟨⟩
  refine ⟨trivial, ?_⟩
  rintro _ ⟨⟩
  refine ⟨?_, trivial⟩
  rintro i ⟨⟩
  rfl

/-- Two threads find entry 3 before either stores into it: both have pid 3, and the table knows only the second. -/
theorem interleaved_forks_share_pid :
    let memory : Memory := ⟨true, true, true⟩
    ∃ f, Runs.run forkStep (Forks.boot true)
        [.find 0, .store 0 .kernel memory, .find 0, .find 1, .store 0 .kernel memory, .store 1 .kernel memory] = some f ∧
      f.state.threads 2 = some ⟨3, some 0, .kernel, .running, false⟩ ∧
      f.state.threads 3 = some ⟨3, some 1, .kernel, .running, false⟩ ∧
      (f.state.pTable 3).map Process.me = some 3 ∧ ¬PidsUnique f.state := by
  intro memory
  refine ⟨_, rfl, rfl, rfl, rfl, fun unique => ?_⟩
  cases unique.1 2 3 _ _ rfl rfl ⟨rfl, nofun⟩ ⟨rfl, nofun⟩ rfl

end Os161.Proc
