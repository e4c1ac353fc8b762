import Os161.Proofs.CondVars

/-! A thread that released the lock inside `cv_wait` is among the sleepers before any other runs, so that no
broadcast misses it, and it comes back only woken and with the lock. -/

namespace Os161.Synch
open List

/-- How far a thread is in a `cv_wait` by what happened. -/
inductive Stage where
  | outside | entered | released | woken
  deriving DecidableEq, Repr

/-- A wakeup on any other address would lead astray. -/
def noteWait (a c l : Nat) (stage : Stage) : Event → Stage
  | .called t call => if t = a ∧ call = .cvWait c l then .entered else stage
  | .dropped t k => if t = a ∧ k = l ∧ stage = .entered then .released else stage
  | .woken t addr => if t = a ∧ stage = .released then (if addr = .cv c then .woken else .outside) else stage
  | .returned t call => if t = a ∧ call = .cvWait c l then .outside else stage
  | _ => stage

def waitStage (a c l : Nat) (log : List Event) : Stage := log.foldl (noteWait a c l) .outside

/-- How far a thread is in a `cv_wait` by its place in the code. -/
def Frame.stage (c l : Nat) (frame : Frame) (asleep : Bool) : Stage :=
  if frame.call = some (.cvWait c l) then
    match frame.code with
    | .woke :: .wakeup _ :: _ => if asleep then .released else .woken
    | code => if 11 ≤ code.length then .entered else if 8 ≤ code.length then .released else .woken
  else .outside

theorem foldl_noteWait_woken (a c l : Nat) (stage : Stage) (threads : List Nat) (addr : Object) :
    (threads.map (Event.woken · addr)).foldl (noteWait a c l) stage =
      if a ∈ threads ∧ stage = .released then (if addr = .cv c then .woken else .outside) else stage := by
  induction threads generalizing stage with
  | nil => simp
  | cons t rest ih =>
    rw [map_cons, foldl_cons, ih]
    by_cases same : t = a
    · subst same
      cases stage <;> simp [noteWait]
    · simp [noteWait, same, Ne.symm same]

structure CvKept (w : World) : Prop where
  stage : ∀ a c l, waitStage a c l w.log = (w.machine.frames a).stage c l (decide (a ∈ w.machine.threads.sleepers))
  asleep : ∀ a ∈ w.machine.threads.sleepers, (w.machine.frames a).code.head? = some .woke
  onCv : ∀ a c l code, a ∈ w.machine.threads.sleepers → (w.machine.frames a).call = some (.cvWait c l) →
    (w.machine.frames a).code = .woke :: .wakeup (.lock l) :: code → w.machine.threads.sleepaddr a = some (.cv c)
  held : ∀ a c l, w.machine.cur = some a → (w.machine.frames a).call = some (.cvWait c l) →
    (w.machine.frames a).code = [.splx, .splx] ∨ (w.machine.frames a).code = [.splx] → w.machine.holder l = some a

theorem Frame.stage_other {c l} {frame : Frame} (other : frame.call ≠ some (.cvWait c l)) (asleep : Bool) :
    frame.stage c l asleep = .outside :=
  if_neg other

theorem wait_asleep {c l code} (placed : Placed (some (.cvWait c l)) code)
    (woke : code.head? = some .woke) :
    (∃ rest, code = .woke :: .wakeup (.lock l) :: rest) ∨ ∃ rest, code = .woke :: .awaitLock l :: rest ∧ rest.length = 3 := by
  obtain ⟨k, inside, rfl | ⟨rfl, blocks⟩ | ⟨rfl, -⟩⟩ := placed
  · simp only [Call.code, cvWait, lockRelease, lockAcquire, cons_append, nil_append, length_cons,
      length_nil] at inside woke
    interval_cases k <;> cases woke
  · simp only [Call.code, cvWait, lockRelease, lockAcquire, cons_append, nil_append, length_cons,
      length_nil, Call.blocksAt] at inside blocks
    interval_cases k <;> simp_all [Call.code, cvWait, lockRelease, lockAcquire]
  · cases woke

theorem waitStage_append (a c l : Nat) (log events : List Event) :
    waitStage a c l (log ++ events) = events.foldl (noteWait a c l) (waitStage a c l log) :=
  foldl_append

theorem stage_own {c l t} {call : Option Call} {instr code saved after log} {m : Machine} (placed : Placed call (instr :: code)) (awake : t ∉ m.threads.sleepers)
    (passes : ∀ addr, instr ≠ .sleep addr)
    (stage : waitStage t c l log = Frame.stage c l ⟨call, instr :: code, saved⟩ false) :
    waitStage t c l (log ++ (m.record t instr ++ (Machine.leave t call code).2)) =
      Frame.stage c l ⟨(Machine.leave t call code).1, code, after⟩ false := by
  have notWoken : ∀ addr, t ∉ m.sleepersOn addr := fun addr member => awake (mem_filter.mp member).1
  rw [waitStage_append, stage]
  by_cases inWait : call = some (.cvWait c l)
  · subst inWait
    obtain ⟨k, inside, here | ⟨here, blocks⟩ | ⟨here, -⟩⟩ := placed
    · simp only [Call.code, cvWait, lockRelease, lockAcquire, cons_append, nil_append, length_cons,
        length_nil] at inside here
      interval_cases k <;> cases here <;>
        first
        | exact absurd rfl (passes _)
        | simp [Frame.stage, Machine.record, noteWait, Machine.leave, foldl_noteWait_woken, notWoken]
    · simp only [Call.code, cvWait, lockRelease, lockAcquire, cons_append, nil_append, length_cons,
        length_nil] at inside here
      interval_cases k <;> cases here <;>
        simp [Call.blocksAt, Call.code, cvWait, lockRelease, lockAcquire] at blocks <;>
        simp [Frame.stage, Machine.record, Machine.leave]
    · cases here
      simp [Frame.stage, Machine.record, Call.code, cvWait, lockRelease, lockAcquire]
  · have after : (Machine.leave t call code).1 ≠ some (.cvWait c l) := by
      cases call <;> cases code <;> simp_all [Machine.leave]
    rw [Frame.stage_other inWait, Frame.stage_other after]
    have recorded : (m.record t instr).foldl (noteWait t c l) .outside = .outside := by
      cases instr <;> simp [Machine.record, noteWait, foldl_noteWait_woken]
    cases call <;> cases code <;> simp_all [Machine.leave, noteWait]

theorem foldl_noteWait_sleepers {threads : Threads} {addr} {woken : List Nat}
    (sleep : ∀ u ∈ woken, threads.sleepaddr u = some addr) (a c l : Nat) (stage : Stage) :
    (woken.map (Event.woken · addr)).foldl (noteWait a c l) stage =
      if a ∈ woken ∧ stage = .released then (if threads.sleepaddr a = some (.cv c) then .woken else .outside)
      else stage := by
  rw [foldl_noteWait_woken]
  by_cases member : a ∈ woken
  · simp [sleep a member]
  · simp [member]

theorem foldl_noteWait_other {a t : Nat} (other : a ≠ t) (c l : Nat) (stage : Stage) (m : Machine) (call : Option Call)
    (instr : Instr) (code : List Instr) :
    (m.record t instr ++ (Machine.leave t call code).2).foldl (noteWait a c l) stage =
      if a ∈ m.wokenBy instr ∧ stage = .released then
        (if m.threads.sleepaddr a = some (.cv c) then .woken else .outside) else stage := by
  have returned : ∀ stage, (Machine.leave t call code).2.foldl (noteWait a c l) stage = stage := by
    cases call <;> cases code <;> simp [Machine.leave, noteWait, Ne.symm other]
  rw [foldl_append, returned]
  cases instr with
  | wakeup addr | wakeupOne addr =>
    exact foldl_noteWait_sleepers (fun u member => (Threads.sleepsOn_iff _ _ _).mp (mem_filter.mp member).2) a c l stage
  | _ => simp [Machine.record, Machine.wokenBy, noteWait, Ne.symm other]

theorem wokenBy_sleepers {m : Machine} {instr a} (woken : a ∈ m.wokenBy instr) :
    a ∈ m.threads.sleepers := by
  cases instr with
  | wakeup addr => exact (mem_filter.mp woken).1
  | wakeupOne addr => exact mem_of_mem_take (mem_filter.mp woken).1
  | _ => cases woken

theorem wait_return {c l t call instr code}
    (placed : Placed call (instr :: code)) (inWait : (Machine.leave t call code).1 = some (.cvWait c l))
    (place : code = [.splx, .splx] ∨ code = [.splx]) :
    call = some (.cvWait c l) ∧ (instr = .takeLock l ∨ instr = .splx ∧ code = [.splx]) := by
  have same : call = some (.cvWait c l) := by
    rcases place with rfl | rfl <;> simpa using inWait
  subst same
  refine ⟨rfl, ?_⟩
  obtain ⟨k, inside, here | ⟨here, blocks⟩ | ⟨here, -⟩⟩ := placed
  · simp only [Call.code, cvWait, lockRelease, lockAcquire, cons_append, nil_append, length_cons,
      length_nil] at inside here
    interval_cases k <;> cases here <;> simp at place ⊢
  · simp only [Call.code, cvWait, lockRelease, lockAcquire, cons_append, nil_append, length_cons,
      length_nil] at inside here
    interval_cases k <;> cases here <;> simp [Call.blocksAt, Call.code, cvWait, lockRelease, lockAcquire] at blocks place
  · cases here
    simp [Call.code, cvWait, lockRelease, lockAcquire] at place

theorem wait_blocks {c l} {m : Machine} {instr code addr}
    (placed : Placed (some (.cvWait c l)) (instr :: code)) (blocks : m.Blocks instr addr) :
    instr = .sleep (.cv c) ∧ addr = .cv c ∧ code = .wakeup (.lock l) :: (lockAcquire l ++ [.splx]) ∨
      instr = .awaitLock l ∧ code = [.takeLock l, .splx, .splx] := by
  obtain ⟨k, inside, here | ⟨here, -⟩ | ⟨here, -⟩⟩ := placed
  · simp only [Call.code, cvWait, lockRelease, lockAcquire, cons_append, nil_append, length_cons,
      length_nil] at inside here
    interval_cases k <;> cases here <;> simp [Machine.Blocks, lockAcquire] at blocks ⊢
    exact blocks.symm
  · cases here
    simp [Machine.Blocks] at blocks
  · cases here
    simp [Machine.Blocks] at blocks

theorem stage_asleep {c l t} {m : Machine} {call instr code saved addr} {frame : Frame} (placed : Placed call (instr :: code))
    (blocks : m.Blocks instr addr) (inCall : frame.call = (Machine.leave t call code).1)
    (resumes : frame.code = code ∨ frame.code = instr :: code) :
    (Machine.leave t call code).2.foldl (noteWait t c l) (Frame.stage c l ⟨call, instr :: code, saved⟩ false) =
      Frame.stage c l { frame with code := .woke :: frame.code } true := by
  by_cases inWait : call = some (.cvWait c l)
  · subst inWait
    rcases wait_blocks placed blocks with ⟨rfl, -, rfl⟩ | ⟨rfl, rfl⟩ <;> rw [leave_cons] at inCall <;>
      rcases resumes with resumes | resumes <;> simp [Frame.stage, resumes, inCall, lockAcquire]
  · have after : (Machine.leave t call code).1 ≠ some (.cvWait c l) := by
      cases call <;> cases code <;> simp_all [Machine.leave]
    rw [Frame.stage_other inWait, Frame.stage_other (by rw [inCall]; exact after)]
    cases call <;> cases code <;> simp_all [Machine.leave, noteWait]

theorem asleep_onCv {c l t} {m : Machine} {call instr code rest addr} {frame : Frame} (placed : Placed call (instr :: code))
    (blocks : m.Blocks instr addr) (inWait : (Machine.leave t call code).1 = some (.cvWait c l))
    (resumes : frame.code = code ∨ frame.code = instr :: code) (place : frame.code = .wakeup (.lock l) :: rest) :
    addr = .cv c := by
  have same : call = some (.cvWait c l) := by
    cases call <;> cases code <;> simp_all [Machine.leave]
  subst same
  rcases wait_blocks placed blocks with ⟨-, onCv, -⟩ | ⟨rfl, rfl⟩
  · exact onCv
  · rcases resumes with resumes | resumes <;> cases resumes.symm.trans place

theorem CvKept.woken {w} (kept : CvKept w) (scheduled : Scheduled w.machine) {a c l : Nat} {woken : List Nat}
    {asleep} (sleepers : asleep = true ↔ a ∈ w.machine.threads.sleepers ∧ a ∉ woken)
    (sleeping : a ∈ woken → a ∈ w.machine.threads.sleepers) :
    (if a ∈ woken ∧ waitStage a c l w.log = .released then
      (if w.machine.threads.sleepaddr a = some (.cv c) then .woken else .outside) else waitStage a c l w.log) =
      (w.machine.frames a).stage c l asleep := by
  have stage := kept.stage a c l
  by_cases member : a ∈ woken
  · have there := sleeping member
    have awake : asleep = false := by
      rw [Bool.eq_false_iff, Ne, sleepers]
      exact fun both => both.2 member
    subst awake
    by_cases inWait : (w.machine.frames a).call = some (.cvWait c l)
    · have placed := (scheduled.sound a).placed
      rw [inWait] at placed
      rcases wait_asleep placed (kept.asleep a there) with ⟨rest, here⟩ | ⟨rest, here, short⟩
      · have onCv := kept.onCv a c l rest there inWait here
        simp [stage, Frame.stage, inWait, here, member, onCv]
      · simp [stage, Frame.stage, inWait, here, short]
    · rw [Frame.stage_other inWait] at stage ⊢
      simp [stage]
  · have same : asleep = decide (a ∈ w.machine.threads.sleepers) := by
      rw [Bool.eq_iff_iff, sleepers, decide_eq_true_eq]
      exact and_iff_left member
    rw [if_neg fun both => member both.1, stage, same]

namespace CvKept

variable {w : World} {m : Machine} {t : Nat} {call : Option Call} {instr : Instr} {code : List Instr} {saved : List Nat}

section

variable (kept : CvKept w) (scheduled : Scheduled w.machine) (current : w.machine.cur = some t)
include kept scheduled current

theorem passed (here : w.machine.frames t = ⟨call, instr :: code, saved⟩)
    (passed : Passed w.machine m t (Machine.leave t call code).1 code instr) :
    CvKept ⟨m, w.log ++ (w.machine.record t instr ++ (Machine.leave t call code).2)⟩ := by
  have awake := scheduled.awake current
  have placed := (scheduled.sound t).placed
  rw [here] at placed
  have others : ∀ a ∈ m.threads.sleepers, a ≠ t := by
    rintro a member rfl
    exact awake (passed.sleepers a member).1
  refine ⟨fun a c l => ?_, fun a member => ?_, fun a c l rest member inWait place => ?_, fun a c l running inWait place => ?_⟩
  · by_cases own : a = t
    · subst own
      have stage := kept.stage a c l
      rw [here, decide_eq_false awake] at stage
      have asleep : decide (a ∈ m.threads.sleepers) = false := decide_eq_false fun member => others a member rfl
      have frame : m.frames a = ⟨(Machine.leave a call code).1, code, (m.frames a).saved⟩ := by
        rw [← passed.call, ← passed.code]
      simp only [asleep]
      rw [stage_own placed awake passed.notSleep stage, ← frame]
    · rw [waitStage_append, foldl_noteWait_other own]
      simp only [passed.others a own]
      refine kept.woken scheduled (by rw [decide_eq_true_eq]; exact passed.woken scheduled.distinct a) fun member => ?_
      exact wokenBy_sleepers member
  · rw [passed.others a (others a member)]
    exact kept.asleep a (passed.sleepers a member).1
  · have other := others a member
    rw [passed.others a other] at inWait place
    simp only [passed.sleepaddr a other]
    exact kept.onCv a c l rest (passed.sleepers a member).1 inWait place
  · obtain rfl := passed.current current running
    rw [passed.call] at inWait
    rw [passed.code] at place
    obtain ⟨rfl, taken | ⟨rfl, last⟩⟩ := wait_return placed inWait place
    · rw [passed.holder, if_pos taken]
    · rw [passed.holder]
      exact kept.held a c l current (by rw [here]) (.inl (by rw [here, last]))

theorem slept
    (here : w.machine.frames t = ⟨call, instr :: code, saved⟩) {addr} {frame : Frame} {events}
    (blocks : w.machine.Blocks instr addr) (inCall : frame.call = (Machine.leave t call code).1)
    (resumes : frame.code = code ∨ frame.code = instr :: code)
    (slept : w.machine.sleep t addr frame = some (m, events)) :
    CvKept ⟨m, w.log ++ (events ++ (Machine.leave t call code).2)⟩ := by
  have awake := scheduled.awake current
  have placed := (scheduled.sound t).placed
  rw [here] at placed
  obtain ⟨rfl, rfl⟩ := sleep_cases slept
  have members : ∀ a, a ≠ t → (a ∈ w.machine.threads.sleepers ++ [t] ↔ a ∈ w.machine.threads.sleepers) := by
    intro a other
    simp [other]
  refine ⟨fun a c l => ?_, fun a member => ?_, fun a c l rest member inWait place => ?_, nofun⟩
  · by_cases own : a = t
    · subst own
      have stage := kept.stage a c l
      rw [here, decide_eq_false awake] at stage
      rw [waitStage_append, stage]
      simp only [Machine.setFrame, mem_append, mem_singleton, or_true, decide_true]
      exact stage_asleep placed blocks inCall resumes
    · rw [Machine.setFrame_other _ _ own, nil_append, waitStage_append, kept.stage]
      have returned : ∀ stage, (Machine.leave t call code).2.foldl (noteWait a c l) stage = stage := by
        cases call <;> cases code <;> simp [Machine.leave, noteWait, Ne.symm own]
      simp only [returned, Machine.setFrame, members a own]
  · by_cases own : a = t
    · rw [own, Machine.setFrame_same]
      rfl
    · rw [Machine.setFrame_other _ _ own]
      exact kept.asleep a ((members a own).mp member)
  · by_cases own : a = t
    · subst own
      rw [Machine.setFrame_same] at inWait place
      simp only [Machine.setFrame, Threads.setSleepaddr, if_true]
      exact congrArg some (asleep_onCv placed blocks (inCall.symm.trans inWait) resumes (List.cons.inj place).2)
    · rw [Machine.setFrame_other _ _ own] at inWait place
      simp only [Machine.setFrame, Threads.setSleepaddr, if_neg own]
      exact kept.onCv a c l rest ((members a own).mp member) inWait place

theorem entered (ended : (w.machine.frames t).code = []) (call : Call) :
    CvKept ⟨w.machine.setFrame t ⟨some call, call.code, (w.machine.frames t).saved⟩, w.log ++ [.called t call]⟩ := by
  have awake := scheduled.awake current
  have others : ∀ a ∈ w.machine.threads.sleepers, a ≠ t := fun a member same => awake (same ▸ member)
  refine ⟨fun a c l => ?_, fun a member => ?_, fun a c l rest member inWait place => ?_, fun a c l running inWait place => ?_⟩
  · rw [waitStage_append, kept.stage]
    by_cases own : a = t
    · subst own
      have idle : (w.machine.frames a).call ≠ some (.cvWait c l) := by
        intro inWait
        have placed := (scheduled.sound a).placed
        rw [inWait, ended] at placed
        obtain ⟨k, inside, here | ⟨here, -⟩ | ⟨here, -⟩⟩ := placed
        · exact absurd (drop_eq_nil_iff.mp here.symm) (by omega)
        · cases here
        · cases here
      rw [Frame.stage_other idle]
      by_cases waits : call = .cvWait c l
      · subst waits
        simp [noteWait, Frame.stage, Call.code, cvWait, lockRelease, lockAcquire]
      · rw [Frame.stage_other (by simpa using waits)]
        simp [noteWait, waits]
    · rw [Machine.setFrame_other _ _ own]
      simp only [foldl_cons, foldl_nil, noteWait, Ne.symm own, false_and, if_false]
      rfl
  · rw [Machine.setFrame_other _ _ (others a member)]
    exact kept.asleep a member
  · rw [Machine.setFrame_other _ _ (others a member)] at inWait place
    exact kept.onCv a c l rest member inWait place
  · obtain rfl := Option.some.inj (running.symm.trans current)
    rw [Machine.setFrame_same] at inWait place
    cases inWait
    simp [Call.code, cvWait, lockRelease, lockAcquire] at place

theorem preempted (outside : (w.machine.frames t).saved = []) :
    CvKept ⟨{ w.machine with curspl := splHigh, threads := w.machine.threads.makeRunnable t, cur := none }.setFrame t
      { w.machine.frames t with code := .splx :: (w.machine.frames t).code, saved := 0 :: (w.machine.frames t).saved },
      w.log ++ []⟩ := by
  have awake := scheduled.awake current
  have others : ∀ a ∈ w.machine.threads.sleepers, a ≠ t := fun a member same => awake (same ▸ member)
  have sound : Frame.Sound ⟨(w.machine.frames t).call, (w.machine.frames t).code, []⟩ := by
    rw [← outside]
    exact scheduled.sound t
  refine ⟨fun a c l => ?_, fun a member => ?_, fun a c l rest member inWait place => ?_, nofun⟩
  · rw [append_nil, kept.stage]
    by_cases own : a = t
    · subst own
      rw [Machine.setFrame_same]
      by_cases inWait : (w.machine.frames a).call = some (.cvWait c l)
      · have place := (sound.start 0).2
        rw [inWait] at place
        rcases place with impossible | place | ⟨impossible, -⟩
        · cases impossible
        · have whole := (List.cons.inj place).2
          simp [Frame.stage, inWait, whole, Call.code, cvWait, lockRelease, lockAcquire]
        · cases impossible
      · rw [Frame.stage_other inWait]
        exact (if_neg inWait).symm
    · rw [Machine.setFrame_other _ _ own]
      rfl
  · rw [Machine.setFrame_other _ _ (others a member)]
    exact kept.asleep a member
  · rw [Machine.setFrame_other _ _ (others a member)] at inWait place
    exact kept.onCv a c l rest member inWait place

end

theorem step (kept : CvKept w) (scheduled : Scheduled w.machine) {action : Action} {events}
    (performed : w.machine.perform action = some (m, events)) : CvKept ⟨m, w.log ++ events⟩ := by
  cases action with
  | exec =>
    obtain ⟨t, call, instr, code, saved, made, current, here, executed, rfl⟩ := exec_cases performed
    rcases execute_cases executed with ⟨addr, frame, slept, blocks, inCall, resumes⟩ | ⟨passed, rfl⟩
    · exact kept.slept scheduled current here blocks inCall resumes slept
    · exact kept.passed scheduled current here passed
  | call call =>
    obtain ⟨t, current, ended, rfl, rfl⟩ := enter_cases performed
    exact kept.entered scheduled current ended call
  | preempt =>
    obtain ⟨t, current, level, rfl, rfl⟩ := preempt_cases performed
    refine kept.preempted scheduled current ?_
    by_contra inside
    have := scheduled.running t current inside
    omega
  | dispatch t =>
    obtain ⟨idle, -, rfl, rfl⟩ := dispatch_cases performed
    rw [append_nil]
    refine ⟨kept.stage, kept.asleep, kept.onCv, fun a c l running inWait place => ?_⟩
    have suspended := scheduled.suspended a (by rw [idle]; nofun)
    rw [Frame.Suspended, inWait] at suspended
    rcases place with place | place <;> rw [place] at suspended <;>
      simp [Call.code, cvWait, lockRelease, lockAcquire] at suspended
  | interruptV s =>
    obtain ⟨-, rfl, rfl, -⟩ := interruptV_cases performed
    refine ⟨fun a c l => ?_, fun a member => ?_, fun a c l rest member inWait place => ?_, kept.held⟩
    · rw [waitStage_append]
      refine (foldl_noteWait_sleepers (fun u member => ?_) a c l _).trans (kept.woken scheduled ?_ ?_)
      · exact (Threads.sleepsOn_iff _ _ _).mp (mem_filter.mp member).2
      · rw [decide_eq_true_eq]
        refine threadWakeup_sleepers.trans (and_congr_right fun member => not_congr ?_)
        simp [Machine.sleepersOn, member]
      · exact fun member => (mem_filter.mp member).1
    · exact kept.asleep a (threadWakeup_sleepers.mp member).1
    · simp only [threadWakeup_sleepaddr]
      exact kept.onCv a c l rest (threadWakeup_sleepers.mp member).1 inWait place

end CvKept

theorem start_cvKept (threads : List Nat) (count : Nat → Nat) : CvKept (start threads count) :=
  ⟨fun _ _ _ => rfl, nofun, nofun, nofun⟩

theorem run_cvKept {threads} (distinct : threads.Nodup) {count actions w} (reached : Runs.run step (start threads count) actions = some w) :
    Scheduled w.machine ∧ CvKept w := by
  refine @Runs.run_preserves _ _ step (fun w => Scheduled w.machine ∧ CvKept w)
    (fun before action after kept taken => ?_) _ _ _ ⟨start_scheduled distinct count, start_cvKept threads count⟩ reached
  obtain ⟨m, events, performed, rfl⟩ := step_cases taken
  exact ⟨kept.1.perform performed, kept.2.step kept.1 performed⟩

theorem wait_not_there {c l code} (placed : Placed (some (.cvWait c l)) code)
    (place : code = [] ∨ code.head? = some (.wakeup (.cv c))) : False := by
  obtain ⟨k, inside, rfl | ⟨rfl, -⟩ | ⟨rfl, -⟩⟩ := placed
  · simp only [Call.code, cvWait, lockRelease, lockAcquire, cons_append, nil_append, length_cons,
      length_nil] at inside place
    interval_cases k <;> simp at place
  · simp at place
  · simp at place

/-- A thread that released the lock and was not woken is asleep, or current on its way there. -/
theorem CvKept.asleep_of_released {w} (kept : CvKept w) (scheduled : Scheduled w.machine) {a b c l : Nat}
    (released : waitStage a c l w.log = .released) (current : w.machine.cur = some b)
    (place : (w.machine.frames b).code = [] ∨ (w.machine.frames b).code.head? = some (.wakeup (.cv c))) :
    a ∈ w.machine.threads.sleepers ∧ w.machine.threads.sleepaddr a = some (.cv c) := by
  rw [kept.stage] at released
  have inWait : (w.machine.frames a).call = some (.cvWait c l) := by
    by_contra other
    rw [Frame.stage_other other] at released
    cases released
  have placed := (scheduled.sound a).placed
  rw [inWait] at placed
  have other : w.machine.cur ≠ some a := by
    intro running
    obtain rfl := Option.some.inj (running.symm.trans current)
    exact wait_not_there placed place
  have suspended := scheduled.suspended a other
  rw [Frame.Suspended, inWait] at suspended
  rcases suspended with woke | place | ⟨impossible, -⟩
  · rcases wait_asleep placed woke with ⟨rest, here⟩ | ⟨rest, here, short⟩
    · have member : a ∈ w.machine.threads.sleepers := by
        by_contra awake
        simp [Frame.stage, inWait, here, awake] at released
      exact ⟨member, kept.onCv a c l rest member inWait here⟩
    · simp [Frame.stage, inWait, here, short] at released
  · simp [Frame.stage, inWait, place, Call.code, cvWait, lockRelease, lockAcquire] at released
  · cases impossible

theorem cvBroadcast_threads (w : World) (t c l : Nat) (current : w.machine.cur = some t)
    (free : (w.machine.frames t).code = []) (holds : w.machine.holder l = some t) :
    (Runs.run Synch.step w (uninterrupted (.cvBroadcast c l))).map (·.machine.threads) =
      some (threadWakeup (.cv c) w.machine.threads) := by
  obtain ⟨⟨holder, count, threads, cur, curspl, frames⟩, log⟩ := w
  obtain rfl : cur = some t := current
  simp only at free holds
  obtain ⟨call, saved, frame⟩ : ∃ call saved, frames t = ⟨call, [], saved⟩ := ⟨_, _, by rw [← free]⟩
  simp [uninterrupted, Call.code, cvBroadcast, Runs.run, List.replicate, Synch.step, Machine.perform, Machine.enter,
    Machine.exec, Machine.execute, Machine.setFrame, splHigh, holds, frame, Machine.leave]

theorem threadWakeup_wakes {threads addr a} (member : a ∈ threads.sleepers)
    (sleeps : threads.sleepaddr a = some addr) :
    a ∉ (threadWakeup addr threads).sleepers ∧ a ∈ (threadWakeup addr threads).runqueue := by
  rw [threadWakeup_eq]
  simp [member, sleeps]

theorem wait_last {c l instr} (placed : Placed (some (.cvWait c l)) [instr]) : instr = .splx := by
  obtain ⟨k, inside, here | ⟨here, -⟩ | ⟨here, -⟩⟩ := placed
  · simp only [Call.code, cvWait, lockRelease, lockAcquire, cons_append, nil_append, length_cons,
      length_nil] at inside here
    interval_cases k <;> cases here
    rfl
  · exact absurd (drop_eq_nil_iff.mp (List.cons.inj here).2.symm) (by omega)
  · cases here

theorem CvKept.returned {w} (kept : CvKept w) (scheduled : Scheduled w.machine) {action m events} (performed : w.machine.perform action = some (m, events)) {a c l}
    (returned : .returned a (.cvWait c l) ∈ events) :
    waitStage a c l w.log = .woken ∧ m.holder l = some a := by
  cases action with
  | exec =>
    obtain ⟨t, call, instr, code, saved, made, current, here, executed, rfl⟩ := exec_cases performed
    have last : t = a ∧ call = some (.cvWait c l) ∧ code = [] := by
      rcases mem_append.mp returned with early | late
      · rcases execute_cases executed with ⟨addr, frame, slept, -⟩ | ⟨-, rfl⟩
        · obtain ⟨-, rfl⟩ := sleep_cases slept
          cases early
        · cases instr <;> simp [Machine.record] at early
      · cases call <;> cases code <;> simp_all [Machine.leave]
    obtain ⟨rfl, rfl, rfl⟩ := last
    have placed := (scheduled.sound t).placed
    rw [here] at placed
    obtain rfl := wait_last placed
    rcases execute_cases executed with ⟨addr, frame, -, blocks, -⟩ | ⟨passed, -⟩
    · simp [Machine.Blocks] at blocks
    · refine ⟨?_, ?_⟩
      · rw [kept.stage, here]
        simp [Frame.stage]
      · rw [passed.holder]
        exact kept.held t c l current (by rw [here]) (.inr (by rw [here]))
  | call call =>
    obtain ⟨t, -, -, -, rfl⟩ := enter_cases performed
    simp at returned
  | preempt =>
    obtain ⟨t, -, -, rfl, -⟩ := preempt_cases performed
    cases returned
  | dispatch t =>
    obtain ⟨-, -, rfl, -⟩ := dispatch_cases performed
    cases returned
  | interruptV s =>
    obtain ⟨-, rfl, -, -⟩ := interruptV_cases performed
    simp at returned

theorem exec_wakeup {m} (scheduled : Scheduled m) {b addr} (about : m.About b (.wakeup addr)) :
    ∃ m' events, m.exec = some (m', events) ∧ m'.threads = threadWakeup addr m.threads := by
  obtain ⟨current, head⟩ := about
  obtain ⟨code, whole⟩ := List.head?_eq_some_iff.mp head
  obtain ⟨call, saved, here⟩ : ∃ call saved, m.frames b = ⟨call, .wakeup addr :: code, saved⟩ :=
    ⟨_, _, by rw [← whole]⟩
  have sound := scheduled.sound b
  have level := scheduled.running b current
  rw [here] at sound level
  refine ⟨{ m with threads := threadWakeup addr m.threads }.setFrame b ⟨(Machine.leave b call code).1, code, saved⟩,
    (m.sleepersOn addr).map (.woken · addr) ++ (Machine.leave b call code).2, ?_, rfl⟩
  simp [Machine.exec, current, here, Machine.execute, level (sound.plain rfl b).1]

/-- However the threads are switched: a thread that released the lock inside `cv_wait` and was not woken since is
made runnable by a broadcast, which with the lock held comes to its wakeup; and `cv_wait` returns only after a
wakeup on the condition variable, with the lock held. -/
theorem no_lost_broadcast (threads : List Nat) (distinct : threads.Nodup) (count : Nat → Nat) (actions : List Action)
    (w : World) (reached : Runs.run step (start threads count) actions = some w) (a c l : Nat) :
    (waitStage a c l w.log = .released → ∀ b,
      (w.machine.About b (.wakeup (.cv c)) → ∃ w', step w .exec = some w' ∧ a ∈ w.machine.threads.sleepers ∧
        a ∉ w'.machine.threads.sleepers ∧ a ∈ w'.machine.threads.runqueue) ∧
      (w.machine.cur = some b → (w.machine.frames b).code = [] → w.machine.holder l = some b →
        ∃ w', Runs.run step w (uninterrupted (.cvBroadcast c l)) = some w' ∧ a ∈ w.machine.threads.sleepers ∧
          a ∉ w'.machine.threads.sleepers ∧ a ∈ w'.machine.threads.runqueue)) ∧
    ∀ action m events, w.machine.perform action = some (m, events) → .returned a (.cvWait c l) ∈ events →
      waitStage a c l w.log = .woken ∧ m.holder l = some a := by
  obtain ⟨scheduled, kept⟩ := run_cvKept distinct reached
  refine ⟨fun released b => ⟨fun about => ?_, fun current free holds => ?_⟩,
    fun action m events performed returned => kept.returned scheduled performed returned⟩
  · obtain ⟨member, sleeps⟩ := kept.asleep_of_released scheduled released about.1 (.inr about.2)
    obtain ⟨m, events, executed, same⟩ := exec_wakeup scheduled about
    refine ⟨⟨m, w.log ++ events⟩, by rw [step, Machine.perform, executed]; rfl, member, ?_⟩
    simp only [same]
    exact threadWakeup_wakes member sleeps
  · obtain ⟨member, sleeps⟩ := kept.asleep_of_released scheduled released current (.inl free)
    obtain ⟨w', run, same⟩ := Option.map_eq_some_iff.mp (cvBroadcast_threads w b c l current free holds)
    refine ⟨w', run, member, ?_⟩
    rw [same]
    exact threadWakeup_wakes member sleeps

/-- Thread 3 waits, thread 1 takes the lock and broadcasts. -/
theorem no_lost_broadcast_waiter :
    let actions := [.dispatch 3, .exec] ++ uninterrupted (.lockAcquire 0) ++ (uninterrupted (.cvWait 0 0)).take 8 ++
      [.dispatch 1, .exec] ++ uninterrupted (.lockAcquire 0)
    ∃ w w', Runs.run step (start [1, 3] fun _ => 0) actions = some w ∧ waitStage 3 0 0 w.log = .released ∧
      Runs.run step w (uninterrupted (.cvBroadcast 0 0)) = some w' ∧ 3 ∉ w'.machine.threads.sleepers ∧
      3 ∈ w'.machine.threads.runqueue := by
  intro actions
  have runs : (Runs.run step (start [1, 3] fun _ => 0) actions).isSome := by decide
  have reached := (Option.some_get runs).symm
  have awakes := (no_lost_broadcast [1, 3] (by decide) (fun _ => 0) actions _ reached 3 0 0).1 rfl 1
  obtain ⟨w', run, -, gone, ready⟩ := awakes.2 rfl rfl rfl
  exact ⟨_, w', reached, rfl, run, gone, ready⟩

end Os161.Synch
