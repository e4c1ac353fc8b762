import Os161.Proofs.SynchSteps

/-! Locks: one holder at a time, and nobody is left asleep on a lock that is free. -/

namespace Os161.Synch

/-- Whether a thread that held the lock or not holds it after an event. -/
def noteHolding (t l : Nat) (held : Bool) : Event → Bool
  | .took u k => if u = t ∧ k = l then true else held
  | .dropped u k => if u = t ∧ k = l then false else held
  | _ => held

/-- The thread is between a `lock_acquire` that took the lock and its `lock_release`. -/
def holding (t l : Nat) (log : List Event) : Bool := log.foldl (noteHolding t l) false

/-- No section at a raised level is being executed. -/
def Machine.Between (m : Machine) : Prop := ∀ t, m.cur = some t → (m.frames t).saved = []

theorem foldl_noteHolding_woken (t l : Nat) (held : Bool) (threads : List Nat) (addr : Object) :
    (threads.map (Event.woken · addr)).foldl (noteHolding t l) held = held := by
  induction threads with
  | nil => rfl
  | cons u rest ih => exact ih

theorem foldl_noteHolding_leave (t l : Nat) (held : Bool) (u : Nat) (call : Option Call) (code : List Instr) :
    (Machine.leave u call code).2.foldl (noteHolding t l) held = held := by
  cases call <;> cases code <;> rfl

theorem holding_record (u l : Nat) (log : List Event) (m : Machine) (t : Nat) (call : Option Call) (instr : Instr)
    (code : List Instr) : holding u l (log ++ (m.record t instr ++ (Machine.leave t call code).2)) =
      if instr = .takeLock l ∧ u = t then true else if instr = .dropLock l ∧ u = t then false else holding u l log := by
  rw [holding, List.foldl_append, List.foldl_append, foldl_noteHolding_leave, ← holding]
  cases instr <;> simp [Machine.record, noteHolding, foldl_noteHolding_woken, and_comm, eq_comm]

structure LockKept (w : World) : Prop where
  free : ∀ t l, w.machine.About t (.takeLock l) → w.machine.holder l = none
  own : ∀ t l, w.machine.About t (.dropLock l) → w.machine.holder l = some t
  attended : ∀ l, Attended (.lock l) (fun m => m.holder l = none) w.machine
  history : ∀ t l, holding t l w.log = true ↔ w.machine.holder l = some t

namespace LockKept

variable {w : World} {m : Machine} {events : List Event} {t : Nat} {call : Option Call} {instr : Instr}
  {code : List Instr} {saved : List Nat}

section

variable (kept : LockKept w) (current : w.machine.cur = some t)
  (here : w.machine.frames t = ⟨call, instr :: code, saved⟩) (linked : Linked (instr :: code))
include kept current here linked

theorem slept {addr frame} (blocks : w.machine.Blocks instr addr)
    (slept : w.machine.sleep t addr frame = some (m, events)) :
    LockKept ⟨m, w.log ++ (events ++ (Machine.leave t call code).2)⟩ := by
  have attended : ∀ l, Attended (.lock l) (fun m => m.holder l = none) m := by
    refine fun l => (kept.attended l).slept current here blocks slept (fun free => ?_) fun same => ?_
    · obtain ⟨rfl, -⟩ := sleep_cases slept
      exact free
    · rcases blocks with ⟨k, -, rfl, busy⟩ | ⟨s, -, rfl, -⟩ | rfl
      · cases same
        exact busy
      · cases same
      · obtain ⟨⟨c, onCv⟩, -⟩ := linked.1.slept addr rfl
        cases same.symm.trans onCv
  obtain ⟨rfl, rfl⟩ := sleep_cases slept
  refine ⟨fun u l about => ?_, fun u l about => ?_, attended, fun u l => ?_⟩
  · cases about.1
  · cases about.1
  · rw [List.nil_append, holding, List.foldl_append, foldl_noteHolding_leave]
    exact kept.history u l

theorem passed {left} (passed : Passed w.machine m t left code instr) :
    LockKept ⟨m, w.log ++ (w.machine.record t instr ++ (Machine.leave t call code).2)⟩ := by
  refine ⟨fun u l about => ?_, fun u l about => ?_, fun l => ?_, fun u l => ?_⟩
  · obtain rfl := passed.current current about.1
    have await := (linked.1.lockAwaited l).mpr (by rw [← passed.code]; exact about.2)
    have free := passed.lockFree l await
    rwa [passed.holder, await, if_neg nofun, if_neg nofun]
  · obtain rfl := passed.current current about.1
    have held := linked.1.dropLock l (by rw [← passed.code]; exact about.2)
    have own := passed.lockHeld l held
    rwa [passed.holder, held, if_neg nofun, if_neg nofun]
  · refine (kept.attended l).passed current here passed fun free => ?_
    rw [passed.holder] at free
    split at free
    next => cases free
    next =>
      split at free
      next dropped =>
        refine .inr ⟨?_, ?_⟩
        · rw [passed.cur, dropped, if_neg nofun, current]
        · rw [passed.code]
          exact linked.1.lockDropped l dropped
      next => exact .inl free
  · have about : w.machine.About t instr := ⟨current, by rw [here]; rfl⟩
    have history := kept.history u l
    rw [holding_record, passed.holder]
    by_cases taken : instr = .takeLock l
    · subst taken
      rw [kept.free t l about] at history
      by_cases same : u = t
      · simp [same]
      · simpa [same, Ne.symm same] using history
    · by_cases dropped : instr = .dropLock l
      · subst dropped
        rw [kept.own t l about] at history
        by_cases same : u = t
        · simp [same]
        · simpa [same, Ne.symm same] using history
      · simp only [taken, dropped, false_and, if_false]
        exact history

end

theorem outside (kept : LockKept w) (outside : Outside w.machine m) (scheduled : Scheduled m)
    (history : ∀ t l, events.foldl (noteHolding t l) (holding t l w.log) = holding t l w.log) :
    LockKept ⟨m, w.log ++ events⟩ := by
  refine ⟨fun u l about => ?_, fun u l about => ?_, fun l => ?_, fun u l => ?_⟩
  · rcases outside.place scheduled about with impossible | impossible <;> cases impossible
  · rcases outside.place scheduled about with impossible | impossible <;> cases impossible
  · refine (kept.attended l).outside outside fun free => .inl ?_
    rwa [outside.holder] at free
  · simp only [outside.holder]
    rw [holding, List.foldl_append]
    exact (congrArg (· = true) (history u l)).to_iff.trans (kept.history u l)

theorem step (kept : LockKept w) (scheduled : Scheduled w.machine) {action}
    (performed : w.machine.perform action = some (m, events)) : LockKept ⟨m, w.log ++ events⟩ := by
  cases action with
  | exec =>
    obtain ⟨t, call, instr, code, saved, made, current, here, executed, rfl⟩ := exec_cases performed
    have linked : Linked (instr :: code) := by
      have linked := (scheduled.sound t).linked
      rwa [here] at linked
    rcases execute_cases executed with ⟨addr, frame, slept, blocks, -⟩ | ⟨passed, rfl⟩
    · exact kept.slept current here linked blocks slept
    · exact kept.passed current here linked passed
  | call call =>
    refine kept.outside (scheduled.outside_of_perform performed nofun) (scheduled.perform performed) fun t l => ?_
    obtain ⟨u, -, -, -, rfl⟩ := enter_cases performed
    rfl
  | preempt =>
    refine kept.outside (scheduled.outside_of_perform performed nofun) (scheduled.perform performed) fun t l => ?_
    obtain ⟨u, -, -, rfl, -⟩ := preempt_cases performed
    rfl
  | dispatch u =>
    refine kept.outside (scheduled.outside_of_perform performed nofun) (scheduled.perform performed) fun t l => ?_
    obtain ⟨-, -, rfl, -⟩ := dispatch_cases performed
    rfl
  | interruptV s =>
    refine kept.outside (scheduled.outside_of_perform performed nofun) (scheduled.perform performed) fun t l => ?_
    obtain ⟨-, rfl, -, -⟩ := interruptV_cases performed
    exact foldl_noteHolding_woken t l _ _ _

end LockKept

theorem start_lockKept (threads : List Nat) (count : Nat → Nat) : LockKept (start threads count) := by
  refine ⟨fun t l about => ?_, fun t l about => ?_, fun l => nofun, fun t l => ?_⟩
  · cases about.1
  · cases about.1
  · simp [holding, start]

theorem run_lockKept {threads} (distinct : threads.Nodup) {count actions w} (reached : Runs.run step (start threads count) actions = some w) :
    Scheduled w.machine ∧ LockKept w := by
  refine @Runs.run_preserves _ _ step (fun w => Scheduled w.machine ∧ LockKept w)
    (fun before action after kept taken => ?_) _ _ _ ⟨start_scheduled distinct count, start_lockKept threads count⟩ reached
  obtain ⟨m, events, performed, rfl⟩ := step_cases taken
  exact ⟨kept.1.perform performed, kept.2.step kept.1 performed⟩

end Os161.Synch
