import Os161.Proofs.SynchFrames
import Os161.Lib.Runs

/-! What a step of the processor can do. A section from the first `splhigh` to the last `splx` never runs at level
0, so that only the current thread acts in it. -/

namespace Os161.Synch
open List Option

def Machine.everybody (m : Machine) : List Nat := m.threads.sleepers ++ m.threads.runqueue ++ m.cur.toList

/-- The current thread runs a section, and every other is where a switch may have left it. -/
structure Scheduled (m : Machine) : Prop where
  sound : ∀ t, (m.frames t).Sound
  running : ∀ t, m.cur = some t → (m.frames t).saved ≠ [] → 0 < m.curspl
  idle : m.cur = none → 0 < m.curspl
  suspended : ∀ t, m.cur ≠ some t → (m.frames t).Suspended
  apart : m.everybody.Nodup

theorem Scheduled.awake {m} (scheduled : Scheduled m) {t} (current : m.cur = some t) :
    t ∉ m.threads.sleepers := by
  have apart := scheduled.apart
  rw [Machine.everybody, current, append_assoc] at apart
  intro member
  exact (nodup_append.mp apart).2.2 t member t (by simp) rfl

theorem Scheduled.distinct {m} (scheduled : Scheduled m) : m.threads.sleepers.Nodup := by
  have apart := scheduled.apart
  rw [Machine.everybody, append_assoc] at apart
  exact (nodup_append.mp apart).1

theorem Threads.wakeup_perm (threads : Threads) (addr : Object) :
    ((threadWakeup addr threads).sleepers ++ (threadWakeup addr threads).runqueue).Perm
      (threads.sleepers ++ threads.runqueue) := by
  rw [threadWakeup_eq]
  have split_ := filter_append_perm (threads.sleepsOn addr) threads.sleepers
  refine (perm_append_comm.append_left _).trans ?_
  rw [← append_assoc]
  exact (perm_append_comm.trans split_).append_right _

theorem Threads.wakeupOne_perm {threads after addr}
    (woken : threadWakeupOne addr threads = some after) :
    (after.sleepers ++ after.runqueue).Perm (threads.sleepers ++ threads.runqueue) := by
  rw [threadWakeupOne] at woken
  split at woken
  next => cases woken
  next t first =>
    split at woken
    next =>
      cases woken
      obtain ⟨rest, whole⟩ := List.head?_eq_some_iff.mp (List.head?_eq_getElem?.trans first)
      simp only [Threads.wake, Threads.makeRunnable, whole, eraseIdx_cons_zero, cons_append]
      rw [← append_assoc]
      exact perm_append_singleton t _
    next =>
      cases woken
      exact List.Perm.refl _

theorem splHigh_pos : 0 < splHigh := by decide

@[simp] theorem Machine.setFrame_same (m : Machine) (t : Nat) (frame : Frame) : (m.setFrame t frame).frames t = frame :=
  if_pos rfl

theorem Machine.setFrame_other (m : Machine) {t u} (frame : Frame) (other : u ≠ t) :
    (m.setFrame t frame).frames u = m.frames u :=
  if_neg other

namespace Scheduled

variable {m m' : Machine} {t : Nat} {frame : Frame}

variable (scheduled : Scheduled m)
include scheduled

theorem sound_replaced (sound : frame.Sound)
    (frames : m'.frames = (m.setFrame t frame).frames) (u : Nat) : (m'.frames u).Sound := by
  rw [frames]
  by_cases same : u = t
  · rwa [same, Machine.setFrame_same]
  · rw [Machine.setFrame_other m frame same]
    exact scheduled.sound u

theorem continued (current : m.cur = some t) (sound : frame.Sound)
    (level : frame.saved ≠ [] → 0 < m'.curspl) (frames : m'.frames = (m.setFrame t frame).frames)
    (kept : m'.cur = some t) (everybody : m'.everybody.Perm m.everybody) : Scheduled m' := by
  refine ⟨scheduled.sound_replaced sound frames, fun u here => ?_, fun idle => ?_, fun u other => ?_,
    everybody.nodup_iff.mpr scheduled.apart⟩
  · obtain rfl := Option.some.inj (kept.symm.trans here)
    rwa [frames, Machine.setFrame_same]
  · rw [kept] at idle
    cases idle
  · rw [kept] at other
    have different : u ≠ t := fun same => other (congrArg some same.symm)
    rw [frames, Machine.setFrame_other m frame different]
    exact scheduled.suspended u fun here => different (Option.some.inj (here.symm.trans current))

theorem switched (current : m.cur = some t) (sound : frame.Sound)
    (level : 0 < m'.curspl) (resume : frame.Suspended) (frames : m'.frames = (m.setFrame t frame).frames)
    (gone : m'.cur = none) (everybody : m'.everybody.Perm m.everybody) : Scheduled m' := by
  refine ⟨scheduled.sound_replaced sound frames, fun u here => ?_, fun _ => level, fun u _ => ?_,
    everybody.nodup_iff.mpr scheduled.apart⟩
  · rw [gone] at here
    cases here
  · rw [frames]
    by_cases same : u = t
    · rwa [same, Machine.setFrame_same]
    · rw [Machine.setFrame_other m frame same]
      exact scheduled.suspended u fun here => same (Option.some.inj (here.symm.trans current))

theorem asleep (current : m.cur = some t) {code saved call k} (sound : Frame.Sound ⟨some call, code, saved⟩) (inside : saved ≠ [])
    (bound : k < call.code.length) (here : code = call.code.drop k) (blocks : call.blocksAt k)
    (place : Follows .woke code.head?) {addr events}
    (slept : m.sleep t addr ⟨some call, code, saved⟩ = some (m', events)) : Scheduled m' := by
  rw [Machine.sleep] at slept
  split at slept
  next level =>
    cases slept
    refine scheduled.switched current (sound.asleep inside rfl bound here blocks place) level (.inl rfl) rfl rfl ?_
    simp only [Machine.everybody, Machine.setFrame, Threads.setSleepaddr, current, toList_none,
      toList_some, append_nil, append_assoc]
    exact perm_append_comm.append_left _
  next => cases slept

theorem execute (current : m.cur = some t) {call instr code saved} (here : m.frames t = ⟨call, instr :: code, saved⟩) {events}
    (executed : m.execute t ⟨(Machine.leave t call code).1, code, saved⟩ instr = some (m', events)) : Scheduled m' := by
  have sound := scheduled.sound t
  have level := scheduled.running t current
  rw [here] at sound level
  cases instr with
  | splhigh =>
    cases executed
    exact scheduled.continued current (sound.splhigh level t) (fun _ => splHigh_pos) rfl current (List.Perm.refl _)
  | splx =>
    rw [Machine.execute] at executed
    split at executed
    next => cases executed
    next old rest top =>
      cases executed
      cases top
      exact scheduled.continued current (sound.splx t).2 (sound.splx t).1 rfl current (List.Perm.refl _)
  | setspl newspl =>
    cases executed
    exact scheduled.continued current (sound.setspl t).2 (fun inside => absurd (sound.setspl t).1 inside) rfl current
      (List.Perm.refl _)
  | awaitLock l =>
    rw [Machine.execute] at executed
    split at executed
    next =>
      obtain ⟨rest, rfl⟩ := List.head?_eq_some_iff.mp ((sound.linked.1.lockAwaited l).mp rfl)
      obtain ⟨c, k, rfl, bound, place⟩ := sound.placed.within rfl nofun
      have blocks : c.blocksAt k := .inl ⟨l, by rw [← List.head?_drop, ← place]; rfl⟩
      exact scheduled.asleep current sound (sound.plain rfl t).1 bound place blocks (by simp [follows_iff]) executed
    next =>
      cases executed
      exact scheduled.continued current (sound.plain rfl t).2 level rfl current (List.Perm.refl _)
  | awaitCount s =>
    rw [Machine.execute] at executed
    split at executed
    next =>
      obtain ⟨rest, rfl⟩ := List.head?_eq_some_iff.mp ((sound.linked.1.countAwaited s).mp rfl)
      obtain ⟨c, k, rfl, bound, place⟩ := sound.placed.within rfl nofun
      have blocks : c.blocksAt k := .inr (.inl ⟨s, by rw [← List.head?_drop, ← place]; rfl⟩)
      exact scheduled.asleep current sound (sound.plain rfl t).1 bound place blocks (by simp [follows_iff]) executed
    next =>
      cases executed
      exact scheduled.continued current (sound.plain rfl t).2 level rfl current (List.Perm.refl _)
  | sleep addr =>
    obtain ⟨-, l, next⟩ := sound.linked.1.slept addr rfl
    obtain ⟨rest, rfl⟩ := List.head?_eq_some_iff.mp next
    obtain ⟨c, k, rfl, -, place⟩ := sound.placed.within rfl nofun
    obtain ⟨inside, behind⟩ := sound.plain rfl t
    obtain ⟨bound, behindPlace⟩ := drop_next place
    have blocks : c.blocksAt (k + 1) := .inr (.inr ⟨k, addr, rfl, by rw [← List.head?_drop, ← place]; rfl⟩)
    exact scheduled.asleep current behind inside bound behindPlace blocks (by simp [follows_iff]) executed
  | switchReady =>
    obtain ⟨rfl, rfl⟩ := call_of_switchReady sound.placed
    rw [Machine.execute] at executed
    split at executed
    next level =>
      cases executed
      refine scheduled.switched current (sound.plain rfl t).2 level (.inr (.inr ⟨rfl, rfl⟩)) rfl rfl ?_
      simp [Machine.everybody, Machine.setFrame, Threads.makeRunnable, current]
    next => cases executed
  | wakeup addr =>
    rw [Machine.execute] at executed
    split at executed
    next =>
      cases executed
      exact scheduled.continued current (sound.plain rfl t).2 level rfl current
        ((m.threads.wakeup_perm addr).append_right _)
    next => cases executed
  | wakeupOne addr =>
    rw [Machine.execute] at executed
    split at executed
    next =>
      obtain ⟨threads, woken, same⟩ := map_eq_some_iff.mp executed
      cases same
      exact scheduled.continued current (sound.plain rfl t).2 level rfl current
        ((Threads.wakeupOne_perm woken).append_right _)
    next => cases executed
  | takeLock l | dropLock l | woke =>
    cases executed
    exact scheduled.continued current (sound.plain rfl t).2 level rfl current (List.Perm.refl _)
  | assertNotHolding l | assertHolding l | takeCount s | addCount s =>
    rw [Machine.execute] at executed
    split at executed <;> cases executed
    exact scheduled.continued current (sound.plain rfl t).2 level rfl current (List.Perm.refl _)

end Scheduled

theorem exec_cases {m m' : Machine} {events} (executed : m.exec = some (m', events)) :
    ∃ t call instr code saved made, m.cur = some t ∧ m.frames t = ⟨call, instr :: code, saved⟩ ∧
      m.execute t ⟨(Machine.leave t call code).1, code, saved⟩ instr = some (m', made) ∧
      events = made ++ (Machine.leave t call code).2 := by
  rw [Machine.exec] at executed
  split at executed
  next => cases executed
  next t current =>
    split at executed
    next => cases executed
    next call instr code saved here =>
      obtain ⟨⟨after, made⟩, inner, same⟩ := map_eq_some_iff.mp executed
      cases same
      exact ⟨t, call, instr, code, saved, made, current, here, inner, rfl⟩

theorem enter_cases {m m' : Machine} {call events} (entered : m.enter call = some (m', events)) :
    ∃ t, m.cur = some t ∧ (m.frames t).code = [] ∧ m' = m.setFrame t ⟨some call, call.code, (m.frames t).saved⟩ ∧
      events = [.called t call] := by
  rw [Machine.enter] at entered
  split at entered
  next => cases entered
  next t current =>
    split at entered
    next last saved here =>
      cases entered
      exact ⟨t, current, by rw [here], by rw [here], rfl⟩
    next => cases entered

theorem preempt_cases {m m' : Machine} {events} (preempted : m.preempt = some (m', events)) :
    ∃ t, m.cur = some t ∧ m.curspl = 0 ∧ events = [] ∧
      m' = { m with curspl := splHigh, threads := m.threads.makeRunnable t, cur := none }.setFrame t
        { m.frames t with code := .splx :: (m.frames t).code, saved := 0 :: (m.frames t).saved } := by
  rw [Machine.preempt] at preempted
  split at preempted
  next => cases preempted
  next t current =>
    split at preempted
    next level =>
      cases preempted
      exact ⟨t, current, level, rfl, by rw [level]⟩
    next => cases preempted

theorem dispatch_cases {m m' : Machine} {t events} (dispatched : m.dispatch t = some (m', events)) :
    m.cur = none ∧ t ∈ m.threads.runqueue ∧ events = [] ∧
      m' = { m with cur := some t, threads := { m.threads with runqueue := m.threads.runqueue.erase t } } := by
  rw [Machine.dispatch] at dispatched
  split at dispatched
  next able =>
    cases dispatched
    exact ⟨able.1, able.2, rfl, rfl⟩
  next => cases dispatched

theorem interruptV_cases {m m' : Machine} {s events}
    (interrupted : m.interruptV s = some (m', events)) :
    0 < increment (m.count s) ∧ events = .up s :: (m.sleepersOn (.sem s)).map (.woken · (.sem s)) ∧
      m' = { m.setCount s (increment (m.count s)) with threads := threadWakeup (.sem s) m.threads } ∧
      (m.cur = none ∨ m.curspl = 0) := by
  rw [Machine.interruptV] at interrupted
  split at interrupted
  next able =>
    cases interrupted
    exact ⟨able.2, rfl, rfl, able.1⟩
  next => cases interrupted

def Machine.About (m : Machine) (t : Nat) (instr : Instr) : Prop :=
  m.cur = some t ∧ (m.frames t).code.head? = some instr

/-- The threads that an instruction takes off the list of sleepers. -/
def Machine.wokenBy (m : Machine) : Instr → List Nat
  | .wakeup addr => m.sleepersOn addr
  | .wakeupOne addr => m.firstOn addr
  | _ => []

def Machine.record (m : Machine) (t : Nat) : Instr → List Event
  | .takeLock l => [.took t l]
  | .dropLock l => [.dropped t l]
  | .takeCount s => [.down t s]
  | .addCount s => [.up s]
  | .wakeup addr => (m.sleepersOn addr).map (.woken · addr)
  | .wakeupOne addr => (m.firstOn addr).map (.woken · addr)
  | _ => []

def Machine.Blocks (m : Machine) (instr : Instr) (addr : Object) : Prop :=
  (∃ l, instr = .awaitLock l ∧ addr = .lock l ∧ m.holder l ≠ none) ∨
    (∃ s, instr = .awaitCount s ∧ addr = .sem s ∧ m.count s = 0) ∨ instr = .sleep addr

structure Passed (m m' : Machine) (t : Nat) (call : Option Call) (code : List Instr) (instr : Instr) : Prop where
  lockFree : ∀ l, instr = .awaitLock l → m.holder l = none
  lockHeld : ∀ l, instr = .assertHolding l → m.holder l = some t
  countLeft : ∀ s, instr = .awaitCount s → m.count s ≠ 0
  counted : ∀ s, instr = .addCount s → 0 < increment (m.count s)
  notSleep : ∀ addr, instr ≠ .sleep addr
  code : (m'.frames t).code = code
  call : (m'.frames t).call = call
  others : ∀ u, u ≠ t → m'.frames u = m.frames u
  cur : m'.cur = if instr = .switchReady then none else m.cur
  holder : ∀ l, m'.holder l =
    if instr = .takeLock l then some t else if instr = .dropLock l then none else m.holder l
  count : ∀ s, m'.count s =
    if instr = .takeCount s then m.count s - 1 else if instr = .addCount s then increment (m.count s) else m.count s
  sleepers : ∀ u, u ∈ m'.threads.sleepers → u ∈ m.threads.sleepers ∧
    ∀ addr, m'.threads.sleepaddr u = some addr → m.threads.sleepaddr u = some addr ∧ instr ≠ .wakeup addr
  sleepaddr : ∀ u, u ≠ t → m'.threads.sleepaddr u = m.threads.sleepaddr u
  woken : m.threads.sleepers.Nodup → ∀ u, u ∈ m'.threads.sleepers ↔ u ∈ m.threads.sleepers ∧ u ∉ m.wokenBy instr

theorem threadWakeup_sleepers {threads addr u} :
    u ∈ (threadWakeup addr threads).sleepers ↔ u ∈ threads.sleepers ∧ threads.sleepaddr u ≠ some addr := by
  rw [threadWakeup_eq]
  simp [← Threads.sleepsOn_iff]

theorem threadWakeup_sleepaddr (threads : Threads) (addr : Object) :
    (threadWakeup addr threads).sleepaddr = threads.sleepaddr := by
  rw [threadWakeup_eq]

theorem threadWakeupOne_sleepers {threads after addr}
    (woken : threadWakeupOne addr threads = some after) :
    after.sleepaddr = threads.sleepaddr ∧ (∀ u, u ∈ after.sleepers → u ∈ threads.sleepers) ∧
      (threads.sleepers.Nodup → ∀ u, u ∈ after.sleepers ↔
        u ∈ threads.sleepers ∧ u ∉ (threads.sleepers.take 1).filter (threads.sleepsOn addr)) := by
  rw [threadWakeupOne] at woken
  cases whole : threads.sleepers with
  | nil =>
    rw [whole] at woken
    cases woken
  | cons t rest =>
    rw [whole] at woken
    simp only [List.getElem?_cons_zero] at woken
    split at woken <;> cases woken
    next sleeps =>
      refine ⟨rfl, fun u member => ?_, fun distinct u => ?_⟩
      · simp only [Threads.wake, Threads.makeRunnable, whole, eraseIdx_cons_zero] at member
        exact mem_cons_of_mem _ member
      · have apart := (nodup_cons.mp distinct).1
        simp only [Threads.wake, Threads.makeRunnable, whole, eraseIdx_cons_zero, take_succ_cons,
          take_zero, filter_cons_of_pos sleeps, filter_nil, mem_cons, not_mem_nil, or_false]
        constructor
        · exact fun member => ⟨.inr member, fun same => apart (same ▸ member)⟩
        · rintro ⟨member, other⟩
          exact member.resolve_left other
    next awake =>
      refine ⟨rfl, fun u member => by rwa [whole] at member, fun _ u => ?_⟩
      simp only [whole, take_succ_cons, take_zero, filter_cons_of_neg awake, filter_nil,
        not_mem_nil, not_false_eq_true, and_true]

section Execution

variable {m m' : Machine} {t : Nat} {call : Option Call} {instr : Instr} {code : List Instr} {saved : List Nat}
  {events : List Event}

theorem sleep_cases {addr frame} (slept : m.sleep t addr frame = some (m', events)) :
    m' = { m with
        threads := { m.threads.setSleepaddr t (some addr) with sleepers := m.threads.sleepers ++ [t] }
        cur := none }.setFrame t { frame with code := .woke :: frame.code } ∧ events = [] := by
  rw [Machine.sleep] at slept
  split at slept
  next => cases slept; exact ⟨rfl, rfl⟩
  next => cases slept

theorem execute_cases (executed : m.execute t ⟨call, code, saved⟩ instr = some (m', events)) :
    (∃ addr frame, m.sleep t addr frame = some (m', events) ∧ m.Blocks instr addr ∧ frame.call = call ∧
      (frame.code = code ∨ frame.code = instr :: code)) ∨
    Passed m m' t call code instr ∧ events = m.record t instr := by
  cases instr <;> simp only [Machine.execute] at executed
  case sleep addr => exact .inl ⟨addr, _, executed, .inr (.inr rfl), rfl, .inl rfl⟩
  case awaitLock l =>
    split at executed
    next busy => exact .inl ⟨_, _, executed, .inl ⟨l, rfl, rfl, busy⟩, rfl, .inr rfl⟩
    next free =>
      cases executed
      refine .inr ⟨?_, rfl⟩
      constructor <;> simp_all +contextual [Machine.setFrame, Machine.wokenBy]
  case awaitCount s =>
    split at executed
    next empty => exact .inl ⟨_, _, executed, .inr (.inl ⟨s, rfl, rfl, empty⟩), rfl, .inr rfl⟩
    next left =>
      cases executed
      refine .inr ⟨?_, rfl⟩
      constructor <;> simp_all +contextual [Machine.setFrame, Machine.wokenBy]
  all_goals right
  case wakeup addr =>
    split at executed <;> cases executed
    refine ⟨⟨?_, ?_, ?_, ?_, ?_, ?_, ?_, ?_, ?_, ?_, ?_, fun u member => ?_, fun u _ => ?_, fun _ u => ?_⟩, rfl⟩
    case refine_12 =>
      obtain ⟨member, awake⟩ := threadWakeup_sleepers.mp member
      refine ⟨member, fun other sleeps => ?_⟩
      change (threadWakeup addr m.threads).sleepaddr u = some other at sleeps
      rw [threadWakeup_sleepaddr] at sleeps
      exact ⟨sleeps, fun same => awake (by cases same; exact sleeps)⟩
    case refine_13 => exact congrFun (threadWakeup_sleepaddr m.threads addr) u
    case refine_14 =>
      refine threadWakeup_sleepers.trans (and_congr_right fun member => not_congr ?_)
      simp [Machine.wokenBy, Machine.sleepersOn, member]
    all_goals simp_all +contextual [Machine.setFrame]
  case wakeupOne addr =>
    split at executed
    next =>
      obtain ⟨threads, woken, same⟩ := map_eq_some_iff.mp executed
      cases same
      obtain ⟨same, fewer, exactly⟩ := threadWakeupOne_sleepers woken
      refine ⟨⟨?_, ?_, ?_, ?_, ?_, ?_, ?_, ?_, ?_, ?_, ?_, fun u member => ?_, fun u _ => congrFun same u, exactly⟩, rfl⟩
      case refine_12 =>
        exact ⟨fewer u member, fun other sleeps => ⟨(congrFun same u).symm.trans sleeps, nofun⟩⟩
      all_goals simp_all +contextual [Machine.setFrame]
    next => cases executed
  all_goals
    first
    | cases executed
    | split at executed <;> cases executed
    refine ⟨?_, rfl⟩
    constructor <;>
      simp_all +contextual [Machine.setFrame, Machine.setHolder, Machine.setCount, Threads.setSleepaddr,
        Threads.makeRunnable, Machine.wokenBy, @eq_comm Nat]

end Execution

theorem Passed.current {m m' t u call code instr} (passed : Passed m m' t call code instr)
    (current : m.cur = some t) (here : m'.cur = some u) : u = t := by
  rw [passed.cur] at here
  split at here
  next => cases here
  next => exact Option.some.inj (here.symm.trans current)

variable {action : Action}

theorem step_cases {w w'} (taken : step w action = some w') :
    ∃ m events, w.machine.perform action = some (m, events) ∧ w' = ⟨m, w.log ++ events⟩ := by
  obtain ⟨⟨m, events⟩, performed, rfl⟩ := map_eq_some_iff.mp taken
  exact ⟨m, events, performed, rfl⟩

theorem Scheduled.perform {m m' : Machine} (scheduled : Scheduled m) {events}
    (performed : m.perform action = some (m', events)) : Scheduled m' := by
  cases action with
  | call call =>
    obtain ⟨t, current, ended, rfl, -⟩ := enter_cases performed
    exact scheduled.continued current ((scheduled.sound t).enter ended call) (scheduled.running t current) rfl current
      (List.Perm.refl _)
  | exec =>
    obtain ⟨t, call, instr, code, saved, made, current, here, executed, -⟩ := exec_cases performed
    exact scheduled.execute current here executed
  | preempt =>
    obtain ⟨t, current, level, -, rfl⟩ := preempt_cases performed
    have outside : (m.frames t).saved = [] := by
      by_contra inside
      have := scheduled.running t current inside
      omega
    have sound : Frame.Sound ⟨(m.frames t).call, (m.frames t).code, []⟩ := by
      rw [← outside]
      exact scheduled.sound t
    rw [outside]
    refine scheduled.switched current (sound.trapped 0) splHigh_pos (sound.start 0).2 rfl rfl ?_
    simp [Machine.everybody, Machine.setFrame, Threads.makeRunnable, current]
  | dispatch t =>
    obtain ⟨idle, ready, -, rfl⟩ := dispatch_cases performed
    refine ⟨scheduled.sound, fun u _ _ => scheduled.idle idle, (by rintro ⟨⟩), fun u _ => ?_, ?_⟩
    · refine scheduled.suspended u fun here => ?_
      rw [idle] at here
      cases here
    · have everybody := scheduled.apart
      rw [Machine.everybody, idle, toList_none, append_nil] at everybody
      rw [Machine.everybody, append_assoc]
      refine (List.Perm.nodup_iff (List.Perm.append_left _ ?_)).mp everybody
      exact (perm_cons_erase ready).trans (perm_append_singleton t _).symm
  | interruptV s =>
    obtain ⟨-, -, rfl, -⟩ := interruptV_cases performed
    refine ⟨scheduled.sound, scheduled.running, scheduled.idle, scheduled.suspended, ?_⟩
    exact ((m.threads.wakeup_perm (.sem s)).append_right m.cur.toList).nodup_iff.mpr scheduled.apart

/-- Within a section only the current thread acts. -/
theorem Scheduled.outside {m} (scheduled : Scheduled m) {t instr} (about : m.About t instr)
    (level : m.curspl = 0) : instr = .splhigh ∨ ∃ level, instr = .setspl level := by
  refine (scheduled.sound t).outside ?_ instr about.2
  by_contra inside
  have := scheduled.running t about.1 inside
  omega

/-- Any other step happens outside the sections: it hands the processor on, enters a call or is an interrupt. -/
structure Outside (m m' : Machine) : Prop where
  before : ∀ t instr, m.About t instr → instr = .splhigh ∨ ∃ level, instr = .setspl level
  after : ∀ t instr, m'.About t instr →
    (instr = .splhigh ∨ ∃ level, instr = .setspl level) ∨ (m'.frames t).Suspended
  holder : m'.holder = m.holder
  sleepers : ∀ u ∈ m'.threads.sleepers, u ∈ m.threads.sleepers
  sleepaddr : m'.threads.sleepaddr = m.threads.sleepaddr

theorem code_starts (call : Call) {instr} (head : call.code.head? = some instr) :
    instr = .splhigh ∨ ∃ level, instr = .setspl level := by
  cases call <;> cases head <;> simp

theorem Scheduled.outside_of_perform {m m' : Machine} (scheduled : Scheduled m) {events}
    (performed : m.perform action = some (m', events)) (other : action ≠ .exec) : Outside m m' := by
  cases action with
  | exec => exact absurd rfl other
  | call call =>
    obtain ⟨t, current, ended, rfl, -⟩ := enter_cases performed
    refine ⟨fun u instr about => ?_, fun u instr about => .inl ?_, rfl, fun u member => member, rfl⟩
    · obtain rfl := Option.some.inj (about.1.symm.trans current)
      have head := about.2
      rw [ended] at head
      cases head
    · obtain rfl := Option.some.inj (about.1.symm.trans current)
      have head := about.2
      rw [Machine.setFrame_same] at head
      exact code_starts call head
  | preempt =>
    obtain ⟨t, current, level, -, rfl⟩ := preempt_cases performed
    refine ⟨fun u instr about => scheduled.outside about level, fun u instr about => ?_, rfl,
      fun u member => member, rfl⟩
    cases about.1
  | dispatch t =>
    obtain ⟨idle, ready, -, rfl⟩ := dispatch_cases performed
    refine ⟨fun u instr about => ?_, fun u instr about => .inr ?_, rfl, fun u member => member, rfl⟩
    · cases idle.symm.trans about.1
    · exact scheduled.suspended u (by rw [idle]; nofun)
  | interruptV s =>
    obtain ⟨-, -, rfl, able⟩ := interruptV_cases performed
    have quiet : ∀ t instr, m.About t instr → instr = .splhigh ∨ ∃ level, instr = .setspl level := by
      intro u instr about
      rcases able with idle | level
      · cases idle.symm.trans about.1
      · exact scheduled.outside about level
    exact ⟨quiet, fun u instr about => .inl (quiet u instr about), rfl,
      fun u member => (threadWakeup_sleepers.mp member).1, threadWakeup_sleepaddr _ _⟩

/-- What a thread is about to do after a step outside the sections. -/
theorem Outside.place {m m'} (outside : Outside m m') (scheduled : Scheduled m') {t instr}
    (about : m'.About t instr) : instr = .woke ∨ instr.plain = false := by
  rcases outside.after t instr about with (rfl | ⟨level, rfl⟩) | suspended
  · exact .inr rfl
  · exact .inr rfl
  · exact suspended.head (scheduled.sound t).placed about.2

theorem start_scheduled {threads} (distinct : threads.Nodup) (count : Nat → Nat) :
    Scheduled (start threads count).machine := by
  refine ⟨fun t => ⟨.inr (.inr ⟨0, .inl rfl⟩), rfl, ⟨?_, trivial⟩, nofun⟩, nofun, fun _ => splHigh_pos, fun t _ => nofun, ?_⟩
  · simp [follows_iff]
  · simpa [Machine.everybody, start] using distinct

/-- Whoever sleeps on an object that is open is about to be woken. -/
def Attended (addr : Object) (isOpen : Machine → Prop) (m : Machine) : Prop :=
  ∀ t ∈ m.threads.sleepers, m.threads.sleepaddr t = some addr → isOpen m → ∃ u, m.About u (.wakeup addr)

section Attended

variable {m m' : Machine} {addr : Object} {isOpen : Machine → Prop} {t : Nat} {call left : Option Call} {instr : Instr}
  {code : List Instr} {saved : List Nat}

section

variable (attended : Attended addr isOpen m) (current : m.cur = some t)
  (here : m.frames t = ⟨call, instr :: code, saved⟩)
include attended current here

theorem Attended.closed (other : instr ≠ .wakeup addr) {u}
    (member : u ∈ m.threads.sleepers) (sleeps : m.threads.sleepaddr u = some addr) : ¬isOpen m := by
  intro opened
  obtain ⟨v, running, head⟩ := attended u member sleeps opened
  obtain rfl := Option.some.inj (running.symm.trans current)
  rw [here] at head
  exact other (Option.some.inj head)

theorem Attended.passed (passed : Passed m m' t left code instr)
    (opens : isOpen m' → isOpen m ∨ m'.About t (.wakeup addr)) : Attended addr isOpen m' := by
  intro u member sleeps opened
  obtain ⟨member, before⟩ := passed.sleepers u member
  obtain ⟨sleeps, other⟩ := before addr sleeps
  rcases opens opened with opened | about
  · exact absurd opened (attended.closed current here other member sleeps)
  · exact ⟨t, about⟩

theorem Attended.slept {on frame events}
    (blocks : m.Blocks instr on) (slept : m.sleep t on frame = some (m', events)) (same : isOpen m' → isOpen m)
    (closed : on = addr → ¬isOpen m) : Attended addr isOpen m' := by
  obtain ⟨rfl, -⟩ := sleep_cases slept
  intro u member sleeps opened
  by_cases own : u = t
  · have onAddr : on = addr := by simpa [Machine.setFrame, Threads.setSleepaddr, own] using sleeps
    exact absurd (same opened) (closed onAddr)
  · have member : u ∈ m.threads.sleepers := by simpa [Machine.setFrame, own] using member
    have sleeps : m.threads.sleepaddr u = some addr := by
      simpa [Machine.setFrame, Threads.setSleepaddr, own] using sleeps
    refine absurd (same opened) (attended.closed current here (fun wakes => ?_) member sleeps)
    subst wakes
    rcases blocks with ⟨k, impossible, -⟩ | ⟨s, impossible, -⟩ | impossible <;> cases impossible

end

theorem Attended.outside (attended : Attended addr isOpen m) (outside : Outside m m')
    (opens : isOpen m' → isOpen m ∨ ∀ u ∈ m'.threads.sleepers, m'.threads.sleepaddr u ≠ some addr) :
    Attended addr isOpen m' := by
  intro u member sleeps opened
  rcases opens opened with opened | nobody
  · rw [outside.sleepaddr] at sleeps
    obtain ⟨v, about⟩ := attended u (outside.sleepers u member) sleeps opened
    rcases outside.before v _ about with impossible | ⟨level, impossible⟩ <;> cases impossible
  · exact absurd sleeps (nobody u member)

/-- Outside the sections nobody sleeps on an open object. -/
theorem Attended.between (attended : Attended addr isOpen m) (scheduled : Scheduled m)
    (between : ∀ t, m.cur = some t → (m.frames t).saved = []) (opened : isOpen m) {u}
    (member : u ∈ m.threads.sleepers) : m.threads.sleepaddr u ≠ some addr := by
  intro sleeps
  obtain ⟨v, about⟩ := attended u member sleeps opened
  rcases (scheduled.sound v).outside (between v about.1) _ about.2 with impossible | ⟨level, impossible⟩ <;>
    cases impossible

end Attended

end Os161.Synch
