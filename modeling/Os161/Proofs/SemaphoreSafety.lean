import Os161.Proofs.LockSafety

/-! Semaphores: the count is what `V` put in less what `P` took out, and nobody stays asleep on a positive count. -/

namespace Os161.Synch
open List

def ups (s : Nat) (log : List Event) : Nat := log.count (.up s)

def Event.isDown (s : Nat) : Event → Bool
  | .down _ k => k = s
  | _ => false

def Event.isCompletedP (s : Nat) : Event → Bool
  | .returned _ call => call = .P s
  | _ => false

def downs (s : Nat) (log : List Event) : Nat := log.countP (Event.isDown s)

def completedP (s : Nat) (log : List Event) : Nat := log.countP (Event.isCompletedP s)

/-- The current thread took a unit and has not yet returned from `P`. -/
def Machine.returning (m : Machine) (s : Nat) : Nat :=
  match m.cur with
  | some t => if (m.frames t).call = some (.P s) ∧ (m.frames t).code = [.splx] then 1 else 0
  | none => 0

theorem ups_append (s : Nat) (log events : List Event) : ups s (log ++ events) = ups s log + ups s events :=
  count_append

theorem downs_append (s : Nat) (log events : List Event) : downs s (log ++ events) = downs s log + downs s events :=
  countP_append

theorem completedP_append (s : Nat) (log events : List Event) :
    completedP s (log ++ events) = completedP s log + completedP s events :=
  countP_append

theorem counts_woken (s : Nat) (threads : List Nat) (addr : Object) :
    ups s (threads.map (Event.woken · addr)) = 0 ∧ downs s (threads.map (Event.woken · addr)) = 0 ∧
      completedP s (threads.map (Event.woken · addr)) = 0 := by
  refine ⟨count_eq_zero.mpr ?_, countP_eq_zero.mpr ?_, countP_eq_zero.mpr ?_⟩ <;>
    simp [Event.isDown, Event.isCompletedP]

theorem counts_leave (s t : Nat) (call : Option Call) (code : List Instr) :
    ups s (Machine.leave t call code).2 = 0 ∧ downs s (Machine.leave t call code).2 = 0 ∧
      completedP s (Machine.leave t call code).2 = if call = some (.P s) ∧ code = [] then 1 else 0 := by
  cases call <;> cases code <;>
    simp [Machine.leave, ups, downs, completedP, Event.isDown, Event.isCompletedP, countP_cons]

theorem counts_record (s : Nat) (m : Machine) (t : Nat) (instr : Instr) :
    ups s (m.record t instr) = (if instr = .addCount s then 1 else 0) ∧
      downs s (m.record t instr) = (if instr = .takeCount s then 1 else 0) ∧ completedP s (m.record t instr) = 0 := by
  cases instr <;> simp only [Machine.record, counts_woken] <;>
    simp [ups, downs, completedP, Event.isDown, Event.isCompletedP, countP_cons, count_cons]

theorem increment_eq {count} (nonneg : 0 ≤ count) (small : count < 2 ^ 31) (positive : 0 < increment count) :
    increment count = count + 1 ∧ count + 1 < 2 ^ 31 := by
  rw [increment, Int.bmod_def] at *
  omega

structure SemKept (initial : Nat → Nat) (w : World) : Prop where
  left : ∀ t s, w.machine.About t (.takeCount s) → w.machine.count s ≠ 0
  range : ∀ s, 0 ≤ w.machine.count s ∧ w.machine.count s < 2 ^ 31
  attended : ∀ s, Attended (.sem s) (fun m => 0 < m.count s) w.machine
  history : ∀ s, w.machine.count s = initial s + ups s w.log - downs s w.log
  completed : ∀ s, downs s w.log = completedP s w.log + w.machine.returning s

theorem call_of_takeCount {call s code} (placed : Placed call (.takeCount s :: code)) :
    call = some (.P s) := by
  obtain ⟨c, k, rfl, inside, here⟩ := placed.within rfl nofun
  cases c <;>
    simp only [Call.code, lockAcquire, lockRelease, cvWait, cvSignal, cvBroadcast, semP, semV, threadYield,
      length_cons, length_append, length_nil] at inside here <;>
    interval_cases k <;> cases here
  rfl

/-- A thread in `P` returns once for each unit it took. -/
theorem returning_balance {call instr code}
    (placed : Placed call (instr :: code)) (s t : Nat) :
    (if call = some (.P s) ∧ instr :: code = [.splx] then 1 else 0) + (if instr = .takeCount s then 1 else 0) =
      (if call = some (.P s) ∧ code = [] then 1 else 0) +
        if (Machine.leave t call code).1 = some (.P s) ∧ code = [.splx] then 1 else 0 := by
  by_cases inP : call = some (.P s)
  · subst inP
    obtain ⟨k, inside, here | ⟨here, blocks⟩ | ⟨here, -⟩⟩ := placed
    · simp only [Call.code, semP, length_cons, length_nil] at inside here
      interval_cases k <;> cases here <;> simp [Machine.leave]
    · simp only [Call.code, semP, length_cons, length_nil] at inside here
      interval_cases k <;> cases here <;> simp [Machine.leave]
      simp [Call.blocksAt, Call.code, semP] at blocks
    · simp only [Call.code, semP] at here
      cases here
      simp
  · have taken : instr ≠ .takeCount s := fun taken => inP (call_of_takeCount (taken ▸ placed))
    have after : (Machine.leave t call code).1 ≠ some (.P s) := by
      cases call <;> cases code <;> simp_all [Machine.leave]
    simp [inP, taken, after]

theorem returning_current {m : Machine} {t} (current : m.cur = some t) (s : Nat) :
    m.returning s = if (m.frames t).call = some (.P s) ∧ (m.frames t).code = [.splx] then 1 else 0 := by
  rw [Machine.returning, current]

theorem returning_idle {m : Machine} (idle : m.cur = none) (s : Nat) : m.returning s = 0 := by
  rw [Machine.returning, idle]

theorem returning_between {m} (scheduled : Scheduled m) (between : m.Between) (s : Nat) : m.returning s = 0 := by
  rw [Machine.returning]
  split
  next t current =>
    refine if_neg fun ⟨_, last⟩ => ?_
    rcases (scheduled.sound t).outside (between t current) .splx (by rw [last]; rfl) with
      impossible | ⟨level, impossible⟩ <;> cases impossible
  next => rfl

/-- A step outside the sections finds nobody on the way out of `P` and leaves nobody there. -/
theorem Outside.not_returning {m m'} (outside : Outside m m') (s : Nat) :
    m.returning s = 0 ∧ m'.returning s = 0 := by
  constructor
  · rw [Machine.returning]
    split
    next t current =>
      refine if_neg fun ⟨_, last⟩ => ?_
      rcases outside.before t .splx ⟨current, by rw [last]; rfl⟩ with impossible | ⟨level, impossible⟩ <;>
        cases impossible
    next => rfl
  · rw [Machine.returning]
    split
    next t current =>
      refine if_neg fun ⟨inP, last⟩ => ?_
      rcases outside.after t .splx ⟨current, by rw [last]; rfl⟩ with (impossible | ⟨level, impossible⟩) | suspended
      · cases impossible
      · cases impossible
      · rw [Frame.Suspended, inP, last] at suspended
        rcases suspended with impossible | impossible | ⟨impossible, -⟩ <;> cases impossible
    next => rfl

namespace SemKept

variable {initial : Nat → Nat} {w : World} {m : Machine} {events : List Event}

section Execution

variable {t : Nat} {call : Option Call} {instr : Instr} {code : List Instr} {saved : List Nat}

variable (kept : SemKept initial w) (current : w.machine.cur = some t)
  (here : w.machine.frames t = ⟨call, instr :: code, saved⟩) (placed : Placed call (instr :: code))
  (linked : Linked (instr :: code))
include kept current here placed linked

theorem slept {addr : Object} {frame} (blocks : w.machine.Blocks instr addr)
    (slept : w.machine.sleep t addr frame = some (m, events)) :
    SemKept initial ⟨m, w.log ++ (events ++ (Machine.leave t call code).2)⟩ := by
  have attended : ∀ s, Attended (.sem s) (fun m => 0 < m.count s) m := by
    refine fun s => (kept.attended s).slept current here blocks slept (fun positive => ?_) fun same => ?_
    · obtain ⟨rfl, -⟩ := sleep_cases slept
      exact positive
    · rcases blocks with ⟨k, -, rfl, -⟩ | ⟨k, -, rfl, empty⟩ | rfl
      · cases same
      · cases same
        simp [empty]
      · obtain ⟨⟨c, onCv⟩, -⟩ := linked.1.slept addr rfl
        cases same.symm.trans onCv
  have other : instr ≠ .splx ∧ ∀ s, instr ≠ .takeCount s := by
    rcases blocks with ⟨k, rfl, -⟩ | ⟨k, rfl, -⟩ | rfl <;> exact ⟨nofun, nofun⟩
  obtain ⟨rfl, rfl⟩ := sleep_cases slept
  refine ⟨fun u s about => ?_, kept.range, attended, fun s => ?_, fun s => ?_⟩
  · cases about.1
  · simp only [nil_append, ups_append, downs_append, counts_leave]
    exact kept.history s
  · have balance := returning_balance placed s t
    have before := kept.completed s
    rw [returning_current current, here] at before
    simp only [nil_append, downs_append, completedP_append, counts_leave]
    rw [returning_idle rfl]
    simp only [List.cons.injEq, other, false_and, and_false, if_false] at balance before
    omega

theorem passed (passed : Passed w.machine m t (Machine.leave t call code).1 code instr) :
    SemKept initial ⟨m, w.log ++ (w.machine.record t instr ++ (Machine.leave t call code).2)⟩ := by
  have about : w.machine.About t instr := ⟨current, by rw [here]; rfl⟩
  have counted : ∀ s, m.count s = w.machine.count s + (if instr = .addCount s then 1 else 0) -
      (if instr = .takeCount s then 1 else 0) ∧ 0 ≤ m.count s ∧ m.count s < 2 ^ 31 := by
    intro s
    have range := kept.range s
    rw [passed.count]
    by_cases taken : instr = .takeCount s
    · subst taken
      have left := kept.left t s about
      simp only [if_true, reduceCtorEq, if_false]
      omega
    · by_cases added : instr = .addCount s
      · have next := increment_eq range.1 range.2 (passed.counted s added)
        simp only [added, if_true, reduceCtorEq, if_false]
        omega
      · simp only [taken, added, if_false]
        omega
  refine ⟨fun u s about => ?_, fun s => (counted s).2, fun s => ?_, fun s => ?_, fun s => ?_⟩
  · obtain rfl := passed.current current about.1
    have await := (linked.1.countAwaited s).mpr (by rw [← passed.code]; exact about.2)
    have left := passed.countLeft s await
    rwa [passed.count, await, if_neg nofun, if_neg nofun]
  · refine (kept.attended s).passed current here passed fun positive => ?_
    by_cases added : instr = .addCount s
    · refine .inr ⟨?_, ?_⟩
      · rw [passed.cur, added, if_neg nofun, current]
      · rw [passed.code]
        exact linked.1.countAdded s added
    · have total := (counted s).1
      simp only [added, if_false] at total
      change 0 < m.count s at positive
      split at total <;> exact .inl (by omega)
  · have before := kept.history s
    have total := (counted s).1
    simp only [ups_append, downs_append, counts_leave, counts_record]
    split at total <;> split at total <;> simp_all <;> omega
  · have balance := returning_balance placed s t
    have before := kept.completed s
    rw [returning_current current, here] at before
    simp only at before
    have after : m.returning s = if (Machine.leave t call code).1 = some (.P s) ∧ code = [.splx] then 1 else 0 := by
      by_cases switches : instr = .switchReady
      · subst switches
        rw [returning_idle (by rw [passed.cur, if_pos rfl])]
        simp only [List.cons.injEq, reduceCtorEq, false_and, and_false, if_false] at balance
        omega
      · rw [returning_current (by rw [passed.cur, if_neg switches, current]), passed.code, passed.call]
    simp only [downs_append, completedP_append, counts_leave, counts_record, after]
    omega

end Execution

theorem outside (kept : SemKept initial w) (outside : Outside w.machine m) (scheduled : Scheduled m)
    (range : ∀ s, 0 ≤ m.count s ∧ m.count s < 2 ^ 31)
    (opens : ∀ s, 0 < m.count s → 0 < w.machine.count s ∨
      ∀ u ∈ m.threads.sleepers, m.threads.sleepaddr u ≠ some (.sem s))
    (counted : ∀ s, m.count s = w.machine.count s + ups s events)
    (quiet : ∀ s, downs s events = 0 ∧ completedP s events = 0) : SemKept initial ⟨m, w.log ++ events⟩ := by
  refine ⟨fun u s about => ?_, range, fun s => (kept.attended s).outside outside (opens s), fun s => ?_, fun s => ?_⟩
  · rcases outside.place scheduled about with impossible | impossible <;> cases impossible
  · have before := kept.history s
    have now := counted s
    simp only [ups_append, downs_append, (quiet s).1, now]
    omega
  · have before := kept.completed s
    rw [(outside.not_returning s).1] at before
    simp only [downs_append, completedP_append, quiet s, (outside.not_returning s).2]
    omega

theorem unchanged (kept : SemKept initial w) (outside : Outside w.machine m) (scheduled : Scheduled m)
    (same : m.count = w.machine.count) (quiet : ∀ s, ups s events = 0 ∧ downs s events = 0 ∧ completedP s events = 0) :
    SemKept initial ⟨m, w.log ++ events⟩ := by
  refine kept.outside outside scheduled (fun s => ?_) (fun s positive => .inl ?_) (fun s => ?_) fun s => (quiet s).2
  · rw [same]
    exact kept.range s
  · rwa [same] at positive
  · rw [same, (quiet s).1]
    omega

theorem step (kept : SemKept initial w) (scheduled : Scheduled w.machine) {action}
    (performed : w.machine.perform action = some (m, events)) : SemKept initial ⟨m, w.log ++ events⟩ := by
  have next := scheduled.perform performed
  cases action with
  | exec =>
    obtain ⟨t, call, instr, code, saved, made, current, here, executed, rfl⟩ := exec_cases performed
    have sound := scheduled.sound t
    rw [here] at sound
    rcases execute_cases executed with ⟨addr, frame, slept, blocks, -⟩ | ⟨passed, rfl⟩
    · exact kept.slept current here sound.placed sound.linked blocks slept
    · exact kept.passed current here sound.placed sound.linked passed
  | call call =>
    have outside := scheduled.outside_of_perform performed nofun
    obtain ⟨u, -, -, rfl, rfl⟩ := enter_cases performed
    exact kept.unchanged outside next rfl fun s => ⟨rfl, rfl, rfl⟩
  | preempt =>
    have outside := scheduled.outside_of_perform performed nofun
    obtain ⟨u, -, -, rfl, rfl⟩ := preempt_cases performed
    exact kept.unchanged outside next rfl fun s => ⟨rfl, rfl, rfl⟩
  | dispatch u =>
    have outside := scheduled.outside_of_perform performed nofun
    obtain ⟨-, -, rfl, rfl⟩ := dispatch_cases performed
    exact kept.unchanged outside next rfl fun s => ⟨rfl, rfl, rfl⟩
  | interruptV s =>
    have outside := scheduled.outside_of_perform performed nofun
    obtain ⟨positive, rfl, rfl, -⟩ := interruptV_cases performed
    have added := increment_eq (kept.range s).1 (kept.range s).2 positive
    have woken := fun k => counts_woken k (w.machine.sleepersOn (.sem s)) (.sem s)
    refine kept.outside outside next (fun k => ?_) (fun k open_ => ?_) (fun k => ?_) fun k => (woken k).2
    · by_cases same : k = s
      · simp only [Machine.setCount, same, if_true]
        omega
      · simp only [Machine.setCount, same, if_false]
        exact kept.range k
    · by_cases same : k = s
      · subst same
        refine .inr fun u member => ?_
        simp only [threadWakeup_sleepaddr]
        exact (threadWakeup_sleepers.mp member).2
      · exact .inl (by simpa [Machine.setCount, same] using open_)
    · rw [← singleton_append, ups_append, (woken k).1]
      by_cases same : k = s
      · simp only [Machine.setCount, same, if_true, ups, count_singleton_self]
        omega
      · simp [Machine.setCount, same, ups, Ne.symm same]

end SemKept

theorem start_semKept (threads : List Nat) {count} (ints : ∀ s, count s < 2 ^ 31) :
    SemKept count (start threads count) := by
  refine ⟨fun t s about => ?_, fun s => ⟨Int.natCast_nonneg _, ?_⟩, fun s => nofun, fun s => ?_, fun s => rfl⟩
  · cases about.1
  · have := ints s
    simp only [start]
    omega
  · simp [start, ups, downs]

theorem run_semKept {threads} (distinct : threads.Nodup) {count} (ints : ∀ s, count s < 2 ^ 31)
    {actions w} (reached : Runs.run step (start threads count) actions = some w) :
    Scheduled w.machine ∧ SemKept count w := by
  refine @Runs.run_preserves _ _ step (fun w => Scheduled w.machine ∧ SemKept count w)
    (fun before action after kept taken => ?_) _ _ _ ⟨start_scheduled distinct count, start_semKept threads ints⟩ reached
  obtain ⟨m, events, performed, rfl⟩ := step_cases taken
  exact ⟨kept.1.perform performed, kept.2.step kept.1 performed⟩

end Os161.Synch
