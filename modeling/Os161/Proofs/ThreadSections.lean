import Os161.Proofs.ContainerSpecs
import Os161.Threads

/-! What one section of the thread system does. The loop of `thread_wakeup` is one section for each thread. -/

namespace Os161.Threads
open Containers Option

structure Extended (s wide : Sched) : Prop where
  curthread : wide.curthread = s.curthread
  threads : wide.threads = s.threads
  created : wide.created = s.created
  numthreads : wide.numthreads = s.numthreads
  forked : wide.forked = s.forked
  grows : wide.grows = s.grows
  sleepers : wide.sleepers.guys = s.sleepers.guys ∧ s.sleepers.max ≤ wide.sleepers.max
  zombies : wide.zombies.guys = s.zombies.guys ∧ s.zombies.max ≤ wide.zombies.max
  runqueue : wide.runqueue.entries = s.runqueue.entries ∧ s.runqueue.size ≤ wide.runqueue.size

structure Roomy (s wide : Sched) : Prop extends Extended s wide where
  sleepersMax : s.numthreads + 1 ≤ wide.sleepers.max
  zombiesMax : s.numthreads + 1 ≤ wide.zombies.max
  size : s.numthreads + 1 ≤ wide.runqueue.size
  grown : wide.runqueue.size = s.runqueue.size ∨
    s.runqueue.size < s.numthreads + 1 ∧ s.runqueue.size * 2 ≤ wide.runqueue.size

def Sched.runnable (s : Sched) (runqueue : Queue Nat) : Sched :=
  { s with runqueue, grows := s.grows + if s.runqueue.Full then 1 else 0 }

def Sched.forkDone (s : Sched) (t : Nat) : Sched :=
  { s with numthreads := s.numthreads + 1, forked := true }.modifyThread t fun thread => { thread with newguy := none }

inductive Section (s : Sched) : Call → Sched → Prop where
  | refused : Section s (.threadCreate false) s
  | created (t : Nat) (cur : s.curthread = some t) (idle : (s.threads t).newguy = none) :
      Section s (.threadCreate true) (s.threadCreate t)
  | forkFailed (memory : ForkMemory) (t newguy : Nat) (cur : s.curthread = some t)
      (forking : (s.threads t).newguy = some newguy) (wide : Sched) (extended : Extended s wide) :
      Section s (.threadFork memory) (wide.abandon t newguy)
  | forked (memory : ForkMemory) (t newguy : Nat) (cur : s.curthread = some t)
      (forking : (s.threads t).newguy = some newguy) (wide : Sched) (roomy : Roomy s wide) (runqueue : Queue Nat)
      (added : wide.runqueue.addtail newguy memory.runnable = some (.ok runqueue)) :
      Section s (.threadFork memory) ((wide.runnable runqueue).forkDone t)
  | setup (vmspace cwd : Bool) (t : Nat) (cur : s.curthread = some t) :
      Section s (.setup vmspace cwd) (s.modifyThread t fun thread => { thread with vmspace, cwd })
  | idled (memory : Bool) (idle : s.curthread = none) : Section s (.threadYield memory) s
  | yielded (memory : Bool) (t : Nat) (cur : s.curthread = some t) (runqueue : Queue Nat)
      (added : s.runqueue.addtail t memory = some (.ok runqueue)) :
      Section s (.threadYield memory) ({ s with curthread := none }.runnable runqueue)
  | slept (addr : Nat) (memory : Bool) (t : Nat) (cur : s.curthread = some t) (sleepers : Arr Nat)
      (added : s.sleepers.add t memory = .ok sleepers) :
      Section s (.threadSleep addr memory)
        { s.modifyThread t fun thread => { thread with sleepaddr := addr } with curthread := none, sleepers }
  | woken (addr : Nat) (memory : Bool) (i t : Nat) (found : s.sleepers.guys[i]? = some t) (runqueue : Queue Nat)
      (added : s.runqueue.addtail t memory = some (.ok runqueue)) :
      Section s (.threadWakeup addr memory) ({ s with sleepers := s.sleepers.remove i }.runnable runqueue)
  | wokenOne (addr : Nat) (memory : Bool) (t : Nat) (found : s.sleepers.guys[0]? = some t) (runqueue : Queue Nat)
      (added : s.runqueue.addtail t memory = some (.ok runqueue)) :
      Section s (.threadWakeupOne addr memory) ({ s with sleepers := s.sleepers.remove 0 }.runnable runqueue)
  | notWoken (addr : Nat) (memory : Bool) : Section s (.threadWakeupOne addr memory) s
  | exited (memory : Bool) (t : Nat) (cur : s.curthread = some t) (running : 0 < s.numthreads) (zombies : Arr Nat)
      (added : s.zombies.add t memory = .ok zombies) :
      Section s (.threadExit memory) { s.modifyThread t fun thread => { thread with vmspace := false, cwd := false } with
        curthread := none, numthreads := s.numthreads - 1, zombies }
  | launched (t : Nat) (idle : s.curthread = none) (runqueue : Queue Nat) (taken : s.runqueue.remhead = some (t, runqueue))
      (fresh : (s.threads t).started = false) :
      Section s .scheduler
        ({ s with curthread := some t, runqueue }.modifyThread t fun thread => { thread with started := true })
  | resumed (t : Nat) (idle : s.curthread = none) (runqueue : Queue Nat) (taken : s.runqueue.remhead = some (t, runqueue))
      (started : (s.threads t).started = true) (next : Sched)
      (exorcised : ({ s with curthread := some t, runqueue }.modifyThread t
        fun thread => { thread with sleepaddr := 0 }).exorcise = some next) :
      Section s .scheduler next

section Functions

variable {s next : Sched} {t newguy : Nat}

theorem asserted_ok {outcome} (passed : Sched.asserted outcome = some next) :
    outcome = some (.ok next) := by
  cases outcome with
  | none => cases passed
  | some result =>
    cases result with
    | error code => cases passed
    | ok s => exact congrArg (some ∘ Except.ok) (Option.some.inj passed)

variable {memory : Bool} {addr i : Nat}

theorem makeRunnable_ok (done : s.makeRunnable t memory = some (.ok next)) :
    ∃ runqueue, s.runqueue.addtail t memory = some (.ok runqueue) ∧ next = s.runnable runqueue := by
  rw [Sched.makeRunnable] at done
  cases added : s.runqueue.addtail t memory with
  | none =>
    rw [added] at done
    cases done
  | some result =>
    rw [added] at done
    cases result with
    | error code => cases done
    | ok runqueue => exact ⟨runqueue, rfl, (Except.ok.inj (Option.some.inj done)).symm⟩

theorem map_ok {α β : Type} {result : Except Errno α} {f} {value : β} (mapped : result.map f = .ok value) :
    ∃ found, result = .ok found ∧ value = f found := by
  cases result with
  | error code => cases mapped
  | ok found => exact ⟨found, rfl, (Except.ok.inj mapped).symm⟩

theorem Extended.refl (s : Sched) : Extended s s :=
  ⟨rfl, rfl, rfl, rfl, rfl, rfl, ⟨rfl, Nat.le_refl _⟩, ⟨rfl, Nat.le_refl _⟩, ⟨rfl, Nat.le_refl _⟩⟩

/-- Something could not be allocated and the new thread is gone, or there is room for all and it is in the run
queue. -/
theorem threadFork_cases {memory result}
    (returned : s.threadFork t newguy memory = some (result, next)) :
    (result ≠ .ok () ∧ ∃ wide, Extended s wide ∧ next = wide.abandon t newguy) ∨
    (result = .ok () ∧ ∃ wide runqueue, Roomy s wide ∧
      wide.runqueue.addtail newguy memory.runnable = some (.ok runqueue) ∧
      next = (wide.runnable runqueue).forkDone t) := by
  simp only [Sched.threadFork] at returned
  split at returned
  · cases returned
    exact .inl ⟨nofun, s, Extended.refl s, rfl⟩
  split at returned
  · cases returned
    exact .inl ⟨nofun, s, Extended.refl s, rfl⟩
  next sleepers allocated1 =>
  obtain ⟨guys1, more1, enough1⟩ := Arr.preallocate_ok allocated1
  split at returned
  · cases returned
    exact .inl ⟨nofun, { s with sleepers }, ⟨rfl, rfl, rfl, rfl, rfl, rfl, ⟨guys1, more1⟩, ⟨rfl, Nat.le_refl _⟩, ⟨rfl, Nat.le_refl _⟩⟩, rfl⟩
  next zombies allocated2 =>
  obtain ⟨guys2, more2, enough2⟩ := Arr.preallocate_ok allocated2
  obtain ⟨queueResult, allocated3, returned⟩ := bind_eq_some_iff.mp returned
  cases queueResult with
  | error code =>
    cases returned
    exact .inl ⟨nofun, { s with sleepers, zombies }, ⟨rfl, rfl, rfl, rfl, rfl, rfl, ⟨guys1, more1⟩, ⟨guys2, more2⟩, ⟨rfl, Nat.le_refl _⟩⟩, rfl⟩
  | ok runqueue =>
    obtain ⟨entries, more3, enough3, grown⟩ := Queue.preallocate_ok allocated3
    have extended : Extended s { s with sleepers, zombies, runqueue } :=
      ⟨rfl, rfl, rfl, rfl, rfl, rfl, ⟨guys1, more1⟩, ⟨guys2, more2⟩, ⟨entries, more3⟩⟩
    obtain ⟨addResult, added, returned⟩ := bind_eq_some_iff.mp returned
    cases addResult with
    | error code =>
      cases returned
      exact .inl ⟨nofun, { s with sleepers, zombies, runqueue }, extended, rfl⟩
    | ok made =>
      cases returned
      obtain ⟨longer, stored, rfl⟩ := makeRunnable_ok added
      exact .inr ⟨rfl, { s with sleepers, zombies, runqueue }, longer, ⟨extended, enough1, enough2, enough3, grown⟩,
        stored, rfl⟩

theorem wake_section (found : s.sleepers.guys[i]? = some t)
    (done : s.wake i t memory = some next) : Section s (.threadWakeup addr memory) next := by
  obtain ⟨runqueue, added, rfl⟩ := makeRunnable_ok (asserted_ok done)
  exact .woken addr memory i t found runqueue added

/-- What every wakeup of a single thread preserves, the loop of `thread_wakeup` preserves. -/
theorem wakeupLoop_keeps {property : Sched → Prop}
    (keeps : ∀ s next, property s → Section s (.threadWakeup addr memory) next → property next)
    {left s} (start : property s)
    (looped : Sched.wakeupLoop addr memory left i s = some next) : property next := by
  induction left generalizing i s with
  | zero =>
    cases looped
    exact start
  | succ left ih =>
    rw [Sched.wakeupLoop] at looped
    split at looped
    · cases looped
    next t found =>
      split at looped
      · obtain ⟨middle, woke, looped⟩ := bind_eq_some_iff.mp looped
        exact ih (keeps s middle start (wake_section found woke)) looped
      · exact ih start looped

end Functions

/-- All calls but `thread_wakeup` are one section. -/
theorem threadStep_section {s next : Sched} {call} (one : ∀ addr memory, call ≠ .threadWakeup addr memory)
    (taken : threadStep s call = some next) : Section s call next := by
  cases call with
  | threadCreate memory =>
    obtain ⟨t, cur, taken⟩ := bind_eq_some_iff.mp taken
    split at taken
    · cases taken
    next idle =>
      cases memory with
      | false =>
        cases taken
        exact .refused
      | true =>
        cases taken
        exact .created t cur (not_isSome_iff_eq_none.mp idle)
  | threadFork memory =>
    obtain ⟨t, cur, taken⟩ := bind_eq_some_iff.mp taken
    obtain ⟨newguy, forking, taken⟩ := bind_eq_some_iff.mp taken
    obtain ⟨⟨result, after⟩, returned, rfl⟩ := map_eq_some_iff.mp taken
    rcases threadFork_cases returned with ⟨-, wide, extended, rfl⟩ | ⟨-, wide, runqueue, roomy, added, rfl⟩
    · exact .forkFailed memory t newguy cur forking wide extended
    · exact .forked memory t newguy cur forking wide roomy runqueue added
  | setup vmspace cwd =>
    obtain ⟨t, cur, taken⟩ := bind_eq_some_iff.mp taken
    cases taken
    exact .setup vmspace cwd t cur
  | threadYield memory =>
    simp only [threadStep, Sched.miSwitch] at taken
    split at taken
    next idle =>
      cases taken
      exact .idled memory idle
    next t cur =>
      obtain ⟨runqueue, added, rfl⟩ := makeRunnable_ok (asserted_ok taken)
      exact .yielded memory t cur runqueue added
  | threadSleep addr memory =>
    obtain ⟨t, cur, taken⟩ := bind_eq_some_iff.mp taken
    simp only [Sched.miSwitch, Sched.modifyThread, cur] at taken
    obtain ⟨sleepers, added, rfl⟩ := map_ok (Option.some.inj (asserted_ok taken))
    exact .slept addr memory t cur sleepers added
  | threadWakeup addr memory => exact absurd rfl (one addr memory)
  | threadWakeupOne addr memory =>
    simp only [threadStep, Sched.threadWakeupOne] at taken
    split at taken
    · cases taken
    next t found =>
      split at taken
      · obtain ⟨runqueue, added, rfl⟩ := makeRunnable_ok (asserted_ok taken)
        exact .wokenOne addr memory t found runqueue added
      · cases taken
        exact .notWoken addr memory
  | threadExit memory =>
    obtain ⟨t, cur, taken⟩ := bind_eq_some_iff.mp taken
    split at taken
    · cases taken
    next =>
      simp only [Sched.threadExit, Sched.modifyThread] at taken
      split at taken
      next running =>
        simp only [Sched.miSwitch, cur] at taken
        obtain ⟨zombies, added, rfl⟩ := map_ok (Option.some.inj (asserted_ok taken))
        exact .exited memory t cur running zombies added
      · cases taken
  | scheduler =>
    simp only [threadStep] at taken
    split at taken
    · cases taken
    next idle =>
      have idle := not_isSome_iff_eq_none.mp idle
      obtain ⟨⟨t, runqueue⟩, removed, taken⟩ := bind_eq_some_iff.mp taken
      simp only at taken
      split at taken
      next started => exact .resumed t idle runqueue removed started next taken
      next fresh =>
        cases taken
        exact .launched t idle runqueue removed (Bool.eq_false_iff.mpr fresh)

/-- A property that every section of a call preserves is preserved by the call. -/
theorem threadStep_keeps {property : Sched → Prop} {s next call}
    (keeps : ∀ s next, property s → Section s call next → property next) (start : property s)
    (taken : threadStep s call = some next) : property next := by
  by_cases wakes : ∃ addr memory, call = .threadWakeup addr memory
  · obtain ⟨addr, memory, rfl⟩ := wakes
    exact wakeupLoop_keeps keeps start taken
  · refine keeps s next start (threadStep_section (fun addr memory same => ?_) taken)
    exact wakes ⟨addr, memory, same⟩

section Wakeup

variable {s : Sched} {addr t : Nat}

theorem wake_granted (i : Nat) : ∃ next, s.wake i t true = some next ∧ next.sleepers = s.sleepers.remove i ∧
    next.runqueue.entries = s.runqueue.entries ++ [t] ∧ next.threads = s.threads := by
  obtain ⟨runqueue, added, entries⟩ := s.runqueue.addtail_granted t
  refine ⟨{ s with sleepers := s.sleepers.remove i }.runnable runqueue, ?_, rfl, entries, rfl⟩
  simp only [Sched.wake, Sched.makeRunnable, added]
  rfl

/-- The loop has kept the threads `before` and still has to look at `rest`. -/
theorem wakeupLoop_moves {before rest} (listed : s.sleepers.guys = before ++ rest) :
    ∃ next, Sched.wakeupLoop addr true rest.length before.length s = some next ∧
      next.sleepers.guys = before ++ rest.filter (fun t => (s.threads t).sleepaddr ≠ addr) ∧
      next.runqueue.entries = s.runqueue.entries ++ rest.filter fun t => (s.threads t).sleepaddr = addr := by
  induction rest generalizing before s with
  | nil => exact ⟨s, rfl, by simp [listed], by simp⟩
  | cons t rest ih =>
    have here : s.sleepers.guys[before.length]? = some t := by simp [listed]
    rw [List.length_cons, Sched.wakeupLoop, here]
    dsimp only
    split
    next sleeps =>
      obtain ⟨woken, woke, sleepers, runqueue, threads⟩ := @wake_granted s t before.length
      have removed : woken.sleepers.guys = before ++ rest := by
        simp [sleepers, Arr.remove, listed, List.eraseIdx_append_of_length_le]
      obtain ⟨next, looped, kept, moved⟩ := ih removed
      refine ⟨next, by rw [woke]; exact looped, ?_, ?_⟩
      · simp [kept, threads, sleeps]
      · simp [moved, runqueue, threads, sleeps]
    next awake =>
      obtain ⟨next, looped, kept, moved⟩ := @ih s (before ++ [t]) (by simp [listed])
      rw [List.length_append, List.length_singleton] at looped
      refine ⟨next, looped, ?_, ?_⟩
      · simp [kept, awake]
      · simp [moved, awake]

theorem thread_wakeup_moves (s : Sched) (addr : Nat) : ∃ next, s.threadWakeup addr true = some next ∧
    next.sleepers.guys = s.sleepers.guys.filter (fun t => (s.threads t).sleepaddr ≠ addr) ∧
    next.runqueue.entries = s.runqueue.entries ++ s.sleepers.guys.filter fun t => (s.threads t).sleepaddr = addr :=
  @wakeupLoop_moves s addr [] s.sleepers.guys rfl

end Wakeup

end Os161.Threads
