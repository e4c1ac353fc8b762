import Os161.Proofs.ThreadConservation

/-! Whether the space `thread_fork` allocates is enough for the threads to change places. -/

namespace Os161.Threads
open Containers Runs List Option

/-- Since a `thread_fork` has returned 0: both arrays have space for all threads, and the current one can be added
to either without a `kmalloc`. -/
def Preallocated (s : Sched) : Prop :=
  s.forked → (s.numthreads ≤ s.sleepers.max ∧ s.numthreads ≤ s.zombies.max) ∧
    (s.curthread.isSome → s.sleepers.guys.length < s.sleepers.max ∧ s.zombies.guys.length < s.zombies.max)

/-- A thread that ran before is resumed while `zombies` is small, a new one started while it is not full. -/
def KeepsSpace (s : Sched) : Call → Prop
  | .scheduler => s.forked → ∀ t, s.runqueue.entries.head? = some t →
    if (s.threads t).started then s.zombies.max ≤ 16 else s.zombies.guys.length < s.zombies.max
  | _ => True

/-- Before the first `thread_fork` there is one thread, dead or alive. -/
def Alone (s : Sched) : Prop := s.forked = false → s.numthreads + s.zombies.guys.length ≤ 1

section Arrays

variable {s next : Sched} {call : Call}

theorem resumed_frame (sound : Sound s) {t} (idle : s.curthread = none) {runqueue}
    (taken : s.runqueue.remhead = some (t, runqueue))
    (exorcised : ({ s with curthread := some t, runqueue }.modifyThread t
      fun thread => { thread with sleepaddr := 0 }).exorcise = some next) :
    next.forked = s.forked ∧ next.numthreads = s.numthreads ∧ next.sleepers = s.sleepers ∧
      next.curthread = some t ∧ next.zombies = s.zombies.clear ∧ next.runqueue = runqueue ∧ next.grows = s.grows := by
  have chosen := sound.chosen idle (Queue.remhead_some taken).1 (fun thread => { thread with sleepaddr := 0 })
    fun _ => ⟨rfl, rfl, rfl, rfl⟩
  rw [chosen.exorcise] at exorcised
  cases exorcised
  exact ⟨rfl, rfl, rfl, rfl, rfl, rfl, rfl⟩

theorem Alone.step (sound : Sound s) (alone : Alone s) (step : Section s call next) : Alone next := by
  cases step with
  | refused => exact alone
  | created t cur idle => exact alone
  | forkFailed memory t newguy cur forking wide extended =>
    intro unforked
    change wide.numthreads + wide.zombies.guys.length ≤ 1
    rw [extended.numthreads, extended.zombies.1]
    exact alone (extended.forked ▸ unforked)
  | forked memory t newguy cur forking wide roomy runqueue added => exact nofun
  | setup vmspace cwd t cur => exact alone
  | idled memory idle => exact alone
  | yielded memory t cur runqueue added => exact alone
  | slept addr memory t cur sleepers added => exact alone
  | woken addr memory i t found runqueue added => exact alone
  | wokenOne addr memory t found runqueue added => exact alone
  | notWoken addr memory => exact alone
  | exited memory t cur running zombies added =>
    intro unforked
    have before := alone unforked
    change s.numthreads - 1 + zombies.guys.length ≤ 1
    rw [(Arr.add_ok added).1, length_append, length_singleton]
    omega
  | launched t idle runqueue taken fresh => exact alone
  | resumed t idle runqueue taken started next exorcised =>
    obtain ⟨forked, numthreads, -, -, zombies, -⟩ := resumed_frame sound idle taken exorcised
    intro unforked
    have before := alone (forked.symm.trans unforked)
    rw [zombies, numthreads]
    change s.numthreads + 0 ≤ 1
    omega

theorem Preallocated.step (sound : Sound s) (alone : Alone s) (space : Preallocated s) (step : Section s call next)
    (keeps : KeepsSpace s call) : Preallocated next := by
  have counted := sound.counted
  cases step with
  | refused => exact space
  | created t cur idle => exact space
  | forkFailed memory t newguy cur forking wide extended =>
    intro forked
    obtain ⟨⟨sleepers, zombies⟩, room⟩ := space (extended.forked ▸ forked)
    have more1 := extended.sleepers.2
    have more2 := extended.zombies.2
    refine ⟨?_, fun running => ?_⟩
    · change wide.numthreads ≤ wide.sleepers.max ∧ wide.numthreads ≤ wide.zombies.max
      rw [extended.numthreads]
      exact ⟨by omega, by omega⟩
    · have room := room (extended.curthread ▸ running)
      change wide.sleepers.guys.length < wide.sleepers.max ∧ wide.zombies.guys.length < wide.zombies.max
      rw [extended.sleepers.1, extended.zombies.1]
      exact ⟨by omega, by omega⟩
  | forked memory t newguy cur forking wide roomy runqueue added =>
    intro _
    have room1 := roomy.sleepersMax
    have room2 := roomy.zombiesMax
    refine ⟨?_, fun _ => ?_⟩
    · change wide.numthreads + 1 ≤ wide.sleepers.max ∧ wide.numthreads + 1 ≤ wide.zombies.max
      rw [roomy.numthreads]
      exact ⟨room1, room2⟩
    · change wide.sleepers.guys.length < wide.sleepers.max ∧ wide.zombies.guys.length < wide.zombies.max
      rw [roomy.sleepers.1, roomy.zombies.1]
      refine ⟨by omega, ?_⟩
      cases before : s.forked with
      | false =>
        have few := alone before
        rw [cur] at counted
        change s.numthreads = 1 + _ + _ at counted
        omega
      | true =>
        have room := ((space before).2 (by rw [cur]; rfl)).2
        have more := roomy.zombies.2
        omega
  | setup vmspace cwd t cur => exact space
  | idled memory idle => exact space
  | yielded memory t cur runqueue added => exact fun forked => ⟨(space forked).1, nofun⟩
  | slept addr memory t cur sleepers added =>
    intro forked
    have more := (Arr.add_ok added).2
    obtain ⟨first, second⟩ := (space forked).1
    exact ⟨⟨Nat.le_trans first more, second⟩, nofun⟩
  | woken addr memory i t found runqueue added =>
    intro forked
    obtain ⟨enough, room⟩ := space forked
    refine ⟨enough, fun running => ⟨?_, (room running).2⟩⟩
    exact Nat.lt_of_le_of_lt (length_eraseIdx_le _ _) (room running).1
  | wokenOne addr memory t found runqueue added =>
    intro forked
    obtain ⟨enough, room⟩ := space forked
    refine ⟨enough, fun running => ⟨?_, (room running).2⟩⟩
    exact Nat.lt_of_le_of_lt (length_eraseIdx_le _ _) (room running).1
  | notWoken addr memory => exact space
  | exited memory t cur running zombies added =>
    intro forked
    have more := (Arr.add_ok added).2
    obtain ⟨first, second⟩ := (space forked).1
    refine ⟨⟨?_, ?_⟩, nofun⟩
    · exact Nat.le_trans (Nat.sub_le _ _) first
    · exact Nat.le_trans (Nat.sub_le _ _) (Nat.le_trans second more)
  | launched t idle runqueue taken fresh =>
    intro forked
    have entries := (Queue.remhead_some taken).1
    obtain ⟨enough, -⟩ := space forked
    have condition := keeps forked t (by rw [entries]; rfl)
    rw [if_neg (by rw [fresh]; exact Bool.false_ne_true)] at condition
    rw [idle, entries, length_cons] at counted
    refine ⟨enough, fun _ => ⟨?_, condition⟩⟩
    change s.sleepers.guys.length < s.sleepers.max
    omega
  | resumed t idle runqueue taken started next exorcised =>
    have entries := (Queue.remhead_some taken).1
    obtain ⟨forked, numthreads, sleepers, -, zombies, -⟩ := resumed_frame sound idle taken exorcised
    intro still
    obtain ⟨⟨first, second⟩, -⟩ := space (forked ▸ still)
    have condition := keeps (forked ▸ still) t (by rw [entries]; rfl)
    rw [if_pos started] at condition
    rw [idle, entries, length_cons] at counted
    have max : next.zombies.max = s.zombies.max := by
      rw [zombies]
      exact if_neg (Nat.not_lt.mpr condition)
    have none_ : next.zombies.guys.length = 0 := by
      rw [zombies]
      rfl
    rw [numthreads, sleepers, max, none_]
    exact ⟨⟨first, second⟩, fun _ => ⟨by omega, by omega⟩⟩

/-- A state with enough space comes only after a step that keeps it. -/
theorem keepsSpace_of_preallocated (sound : Sound s) (taken : threadStep s call = some next)
    (after : Preallocated next) : KeepsSpace s call := by
  cases call with
  | scheduler =>
    intro forked t first
    cases threadStep_section (by rintro addr memory ⟨⟩) taken with
    | launched u idle runqueue removed fresh =>
      rw [(Queue.remhead_some removed).1] at first
      cases first
      rw [if_neg (by rw [fresh]; exact Bool.false_ne_true)]
      exact ((after forked).2 rfl).2
    | resumed u idle runqueue removed started next exorcised =>
      rw [(Queue.remhead_some removed).1] at first
      cases first
      obtain ⟨same, -, -, cur, zombies, -⟩ := resumed_frame sound idle removed exorcised
      have room := ((after (same.trans forked)).2 (by rw [cur]; rfl)).2
      rw [zombies] at room
      rw [if_pos started]
      by_contra large
      change 0 < if 16 < s.zombies.max then 0 else s.zombies.max at room
      rw [if_pos (Nat.not_le.mp large)] at room
      exact Nat.lt_irrefl _ room
  | _ => trivial

end Arrays

/-- Exactly in the runs in which no thread is resumed while `zombies` has space for more than 16 and none is started
while it is full, neither array needs memory after a fork. -/
theorem arrays_preallocated_iff (calls : List Call) :
    Always threadStep Preallocated bootstrap calls ↔ EachStep threadStep KeepsSpace bootstrap calls := by
  refine @always_iff_steps _ _ threadStep (fun s => Sound s ∧ Alone s ∧ Preallocated s) Preallocated KeepsSpace ?_ ?_ ?_
    bootstrap calls ⟨bootstrap_sound, ?_, nofun⟩
  · exact fun s invariant => invariant.2.2
  · intro s call next invariant taken keeps
    have step (s next : Sched) (invariant : Sound s ∧ Alone s ∧ Preallocated s) (step : Section s call next)
        (keeps : KeepsSpace s call) : Sound next ∧ Alone next ∧ Preallocated next :=
      ⟨invariant.1.step step, invariant.2.1.step invariant.1 step, invariant.2.2.step invariant.1 invariant.2.1 step keeps⟩
    cases call with
    | scheduler => exact step s next invariant (threadStep_section (by rintro addr memory ⟨⟩) taken) keeps
    | _ => exact threadStep_keeps (fun s next invariant section_ => step s next invariant section_ trivial) invariant taken
  · exact fun s call next invariant taken after => keepsSpace_of_preallocated invariant.1 taken after
  · intro _
    decide

/-- The call of `thread_fork`, with memory for everything. -/
def fork : List Call := [.threadCreate true, .threadFork ⟨true, true, true, true, true⟩]

/-- Sixteen threads, each of which yields once. -/
def yieldAll : List Call :=
  (List.replicate 15 fork).flatten ++ (List.replicate 16 [Call.threadYield true, .scheduler]).flatten

/-- When the first thread is resumed, `zombies` loses its space. -/
theorem exorcise_frees_space :
    ∃ s, run threadStep bootstrap yieldAll = some s ∧ s.forked = true ∧ s.numthreads = 16 ∧ s.zombies.max = 0 ∧
      ¬ Preallocated s := by
  have computed : (run threadStep bootstrap yieldAll).map
      (fun s => (s.forked, s.numthreads, s.zombies.max)) = some (true, 16, 0) := by decide +kernel
  obtain ⟨s, reached, seen⟩ := map_eq_some_iff.mp computed
  simp only [Prod.mk.injEq] at seen
  obtain ⟨forked, numthreads, max⟩ := seen
  refine ⟨s, reached, forked, numthreads, max, fun space => ?_⟩
  have enough := (space forked).1.2
  rw [numthreads, max] at enough
  exact absurd enough (by decide)

structure Sized (s : Sched) : Prop where
  many : 32 ≤ s.runqueue.size
  enough : s.numthreads ≤ s.runqueue.size

/-- All threads fit into the run queue at once, and it has not grown. -/
structure Fits (grows : Nat) (s : Sched) : Prop where
  room : s.numthreads < s.runqueue.size
  same : s.grows = grows

def NoFork (calls : List Call) : Prop := ∀ memory, Call.threadFork memory ∉ calls

section Runqueue

variable {s next : Sched} {call : Call}

theorem Sized.step (sound : Sound s) (sized : Sized s) (step : Section s call next) : Sized next := by
  obtain ⟨many, enough⟩ := sized
  cases step with
  | refused => exact ⟨many, enough⟩
  | created t cur idle => exact ⟨many, enough⟩
  | forkFailed memory t newguy cur forking wide extended =>
    have larger := extended.runqueue.2
    refine ⟨Nat.le_trans many larger, ?_⟩
    change wide.numthreads ≤ wide.runqueue.size
    rw [extended.numthreads]
    exact Nat.le_trans enough larger
  | forked memory t newguy cur forking wide roomy runqueue added =>
    have larger := roomy.runqueue.2
    have longer := (Queue.addtail_ok added).2
    refine ⟨Nat.le_trans many (Nat.le_trans larger longer), ?_⟩
    change wide.numthreads + 1 ≤ runqueue.size
    rw [roomy.numthreads]
    exact Nat.le_trans roomy.size longer
  | setup vmspace cwd t cur => exact ⟨many, enough⟩
  | idled memory idle => exact ⟨many, enough⟩
  | yielded memory t cur runqueue added =>
    have longer := (Queue.addtail_ok added).2
    exact ⟨Nat.le_trans many longer, Nat.le_trans enough longer⟩
  | slept addr memory t cur sleepers added => exact ⟨many, enough⟩
  | woken addr memory i t found runqueue added =>
    have longer := (Queue.addtail_ok added).2
    exact ⟨Nat.le_trans many longer, Nat.le_trans enough longer⟩
  | wokenOne addr memory t found runqueue added =>
    have longer := (Queue.addtail_ok added).2
    exact ⟨Nat.le_trans many longer, Nat.le_trans enough longer⟩
  | notWoken addr memory => exact ⟨many, enough⟩
  | exited memory t cur running zombies added => exact ⟨many, Nat.le_trans (Nat.sub_le _ _) enough⟩
  | launched t idle runqueue taken fresh =>
    have same := (Queue.remhead_some taken).2
    refine ⟨?_, ?_⟩
    · change 32 ≤ runqueue.size
      rw [same]
      exact many
    · change s.numthreads ≤ runqueue.size
      rw [same]
      exact enough
  | resumed t idle runqueue taken started next exorcised =>
    obtain ⟨-, numthreads, -, -, -, queue, -⟩ := resumed_frame sound idle taken exorcised
    have same := (Queue.remhead_some taken).2
    rw [← queue] at same
    refine ⟨?_, ?_⟩
    · rw [same]
      exact many
    · rw [same, numthreads]
      exact enough

variable {grows t : Nat} {memory : Bool} {runqueue : Queue Nat}

/-- The queue does not grow when a thread is added for which there is a place. -/
theorem Fits.runnable (fits : Fits grows s) (few : s.runqueue.entries.length + 1 ≤ s.numthreads) (added : s.runqueue.addtail t memory = some (.ok runqueue)) :
    s.numthreads < runqueue.size ∧ s.grows + (if s.runqueue.Full then 1 else 0) = grows := by
  have longer := (Queue.addtail_ok added).2
  have room := fits.room
  have open_ : ¬ s.runqueue.Full := by
    rw [Queue.full_iff]
    omega
  rw [if_neg open_]
  exact ⟨Nat.lt_of_lt_of_le room longer, fits.same⟩

theorem Fits.step (sound : Sound s) (fits : Fits grows s) (forkless : ∀ memory, call ≠ .threadFork memory)
    (step : Section s call next) : Fits grows next := by
  have counted := sound.counted
  cases step with
  | refused => exact ⟨fits.room, fits.same⟩
  | created t cur idle => exact ⟨fits.room, fits.same⟩
  | forkFailed memory t newguy cur forking wide extended => exact absurd rfl (forkless memory)
  | forked memory t newguy cur forking wide roomy runqueue added => exact absurd rfl (forkless memory)
  | setup vmspace cwd t cur => exact ⟨fits.room, fits.same⟩
  | idled memory idle => exact fits
  | yielded memory t cur runqueue added =>
    rw [cur] at counted
    change s.numthreads = 1 + _ + _ at counted
    obtain ⟨room, same⟩ := fits.runnable (by omega) added
    exact ⟨room, same⟩
  | slept addr memory t cur sleepers added => exact ⟨fits.room, fits.same⟩
  | woken addr memory i t found runqueue added =>
    have some_ := (List.getElem?_eq_some_iff.mp found).1
    obtain ⟨room, same⟩ := fits.runnable (by omega) added
    exact ⟨room, same⟩
  | wokenOne addr memory t found runqueue added =>
    have some_ := (List.getElem?_eq_some_iff.mp found).1
    obtain ⟨room, same⟩ := fits.runnable (by omega) added
    exact ⟨room, same⟩
  | notWoken addr memory => exact fits
  | exited memory t cur running zombies added => exact ⟨Nat.lt_of_le_of_lt (Nat.sub_le _ _) fits.room, fits.same⟩
  | launched t idle runqueue taken fresh =>
    refine ⟨?_, fits.same⟩
    change s.numthreads < runqueue.size
    rw [(Queue.remhead_some taken).2]
    exact fits.room
  | resumed t idle runqueue taken started next exorcised =>
    obtain ⟨-, numthreads, -, -, -, queue, grown⟩ := resumed_frame sound idle taken exorcised
    refine ⟨?_, grown.trans fits.same⟩
    rw [queue, numthreads, (Queue.remhead_some taken).2]
    exact fits.room

theorem Fits.run {calls} (sound : Sound s) (fits : Fits grows s) (forkless : NoFork calls)
    (reached : run threadStep s calls = some next) : next.grows = grows := by
  induction calls generalizing s with
  | nil =>
    cases reached
    exact fits.same
  | cons call rest ih =>
    obtain ⟨middle, taken, reached⟩ := bind_eq_some_iff.mp reached
    have other (memory : ForkMemory) : call ≠ .threadFork memory := by
      rintro rfl
      exact forkless memory mem_cons_self
    have keeps (s next : Sched) (both : Sound s ∧ Fits grows s) (step : Section s call next) :
        Sound next ∧ Fits grows next := ⟨both.1.step step, both.2.step both.1 other step⟩
    obtain ⟨sound, fits⟩ := threadStep_keeps keeps ⟨sound, fits⟩ taken
    exact ih sound fits (fun memory member => forkless memory (mem_cons_of_mem _ member)) reached

theorem yield_eq (cur : s.curthread = some t) (added : s.runqueue.addtail t memory = some (.ok runqueue)) :
    threadStep s (.threadYield memory) = some ({ s with curthread := none }.runnable runqueue) := by
  simp only [threadStep, Sched.miSwitch, cur, Sched.makeRunnable, added, map_some, Except.map, Sched.asserted,
    Sched.runnable]

theorem wakeupOne_eq (found : s.sleepers.guys[0]? = some t)
    (added : s.runqueue.addtail t memory = some (.ok runqueue)) :
    threadStep s (.threadWakeupOne (s.threads t).sleepaddr memory) =
      some ({ s with sleepers := s.sleepers.remove 0 }.runnable runqueue) := by
  simp only [threadStep, Sched.threadWakeupOne, found, if_true, Sched.wake, Sched.makeRunnable, added, map_some,
    Except.map, Sched.asserted, Sched.runnable]

/-- Without a place to spare: once all threads are awake, the queue grows when the current
one yields. -/
theorem grows_when_crowded {asleep s} (sound : Sound s) (cur : s.curthread = some t)
    (crowded : s.runqueue.size = s.numthreads) (sleeping : s.sleepers.guys.length = asleep) :
    ∃ later final, NoFork later ∧ run threadStep s later = some final ∧ final.grows = s.grows + 1 := by
  induction asleep generalizing s with
  | zero =>
    have counted := sound.counted
    rw [cur, sleeping] at counted
    change s.numthreads = 1 + _ + 0 at counted
    have full : s.runqueue.Full := by
      rw [Queue.full_iff]
      omega
    obtain ⟨-, runqueue, added, -⟩ := Queue.addtail_full full t
    refine ⟨[.threadYield true], { s with curthread := none }.runnable runqueue, by simp [NoFork], ?_, ?_⟩
    · rw [run, yield_eq cur added]
      rfl
    · change s.grows + (if s.runqueue.Full then 1 else 0) = s.grows + 1
      rw [if_pos full]
  | succ asleep ih =>
    have counted := sound.counted
    rw [cur, sleeping] at counted
    change s.numthreads = 1 + _ + (asleep + 1) at counted
    have room : ¬ s.runqueue.Full := by
      rw [Queue.full_iff]
      omega
    obtain ⟨u, found⟩ : ∃ u, s.sleepers.guys[0]? = some u := ⟨_, List.getElem?_eq_getElem (by omega)⟩
    have added := Queue.addtail_room room u true
    have step := wakeupOne_eq found added
    have woken : Sound ({ s with sleepers := s.sleepers.remove 0 }.runnable (s.runqueue.store u)) :=
      sound.woken found (Queue.entries_store room u)
    obtain ⟨later, final, forkless, reached, grown⟩ := ih woken cur crowded (by
      change (s.sleepers.guys.eraseIdx 0).length = asleep
      rw [length_eraseIdx_of_lt (by omega)]
      omega)
    refine ⟨.threadWakeupOne (s.threads u).sleepaddr true :: later, final, ?_, ?_, ?_⟩
    · intro memory member
      rcases mem_cons.mp member with same | member
      · cases same
      · exact forkless memory member
    · rw [run, step]
      exact reached
    · rw [grown]
      change s.grows + (if s.runqueue.Full then 1 else 0) + 1 = s.grows + 1
      rw [if_neg room]

end Runqueue

theorem bootstrap_sized : Sized bootstrap := ⟨by decide, by decide⟩

theorem reached_sized {calls s} (reached : run threadStep bootstrap calls = some s) :
    Sound s ∧ Sized s := by
  have keeps {call : Call} (s next : Sched) (both : Sound s ∧ Sized s) (step : Section s call next) :
      Sound next ∧ Sized next := ⟨both.1.step step, both.2.step both.1 step⟩
  have start : Sound bootstrap ∧ Sized bootstrap := ⟨bootstrap_sound, bootstrap_sized⟩
  exact run_preserves (fun _ _ _ both taken => threadStep_keeps keeps both taken) start reached

/-- After a `thread_fork` that returned 0 the queue never grows until the next fork, unless its size was one more
than the number of threads before the fork. -/
theorem runqueue_preallocated_iff (calls : List Call) (s : Sched) (reached : run threadStep bootstrap calls = some s)
    (t newguy : Nat) (cur : s.curthread = some t) (forking : (s.threads t).newguy = some newguy)
    (memory : ForkMemory) (next : Sched) (returned : s.threadFork t newguy memory = some (.ok (), next)) :
    (∀ later final, NoFork later → run threadStep next later = some final → final.grows = next.grows) ↔
      s.runqueue.size ≠ s.numthreads + 1 := by
  obtain ⟨sound, many, enough⟩ := reached_sized reached
  rcases threadFork_cases returned with ⟨failed, -⟩ | ⟨-, wide, runqueue, roomy, added, rfl⟩
  · exact absurd rfl failed
  have after : Sound ((wide.runnable runqueue).forkDone t) :=
    sound.step (.forked memory t newguy cur forking wide roomy runqueue added)
  have longer := (Queue.addtail_ok added).2
  have size := roomy.size
  have count : ((wide.runnable runqueue).forkDone t).numthreads = s.numthreads + 1 :=
    congrArg (· + 1) roomy.numthreads
  constructor
  · intro never same
    have kept : wide.runqueue.size = s.runqueue.size := by
      rcases roomy.grown with kept | ⟨short, -⟩
      · exact kept
      · omega
    have counted := sound.counted
    rw [cur] at counted
    change s.numthreads = 1 + _ + _ at counted
    have room : ¬ wide.runqueue.Full := by
      rw [Queue.full_iff, roomy.runqueue.1]
      omega
    rw [Queue.addtail_room room] at added
    cases added
    have crowded : ((wide.runnable (wide.runqueue.store newguy)).forkDone t).runqueue.size =
        ((wide.runnable (wide.runqueue.store newguy)).forkDone t).numthreads := by
      rw [count]
      exact kept.trans same
    obtain ⟨later, final, forkless, ran, grown⟩ :=
      grows_when_crowded after (roomy.curthread.trans cur) crowded rfl
    have equal := never later final forkless ran
    omega
  · intro spare later final forkless ran
    have fits : Fits ((wide.runnable runqueue).forkDone t).grows ((wide.runnable runqueue).forkDone t) := by
      refine ⟨?_, rfl⟩
      rw [count]
      change s.numthreads + 1 < runqueue.size
      rcases roomy.grown with kept | ⟨-, double⟩
      · omega
      · omega
    exact fits.run after forkless ran

theorem runqueue_preallocated_first :
    ∃ s next, run threadStep bootstrap [.threadCreate true] = some s ∧ s.curthread = some 0 ∧
      (s.threads 0).newguy = some 1 ∧ s.threadFork 0 1 ⟨true, true, true, true, true⟩ = some (.ok (), next) ∧
      ((∀ later final, NoFork later → run threadStep next later = some final → final.grows = next.grows) ↔
        s.runqueue.size ≠ s.numthreads + 1) :=
  ⟨_, _, rfl, rfl, rfl, rfl, runqueue_preallocated_iff [.threadCreate true] _ rfl 0 1 rfl rfl
    ⟨true, true, true, true, true⟩ _ rfl⟩

/-- With 32 threads, all of them runnable, the queue is full: a yield needs memory. -/
theorem full_with_thirty_two :
    ∃ s, run threadStep bootstrap (List.replicate 31 fork).flatten = some s ∧ s.numthreads = 32 ∧
      s.runqueue.size = 32 ∧ (∃ final, threadStep s (.threadYield true) = some final ∧ final.grows = s.grows + 1) ∧
      threadStep s (.threadYield false) = none := by
  have computed : (run threadStep bootstrap (List.replicate 31 fork).flatten).map (fun s =>
      (s.numthreads, s.runqueue.size, s.grows, (threadStep s (.threadYield true)).map Sched.grows,
        (threadStep s (.threadYield false)).isNone)) = some (32, 32, 0, some 1, true) := by decide +kernel
  obtain ⟨s, reached, seen⟩ := map_eq_some_iff.mp computed
  simp only [Prod.mk.injEq] at seen
  obtain ⟨numthreads, size, grows, grown, halted⟩ := seen
  obtain ⟨final, taken, once⟩ := map_eq_some_iff.mp grown
  exact ⟨s, reached, numthreads, size, ⟨final, taken, by rw [once, grows]⟩, isNone_iff_eq_none.mp halted⟩

end Os161.Threads
