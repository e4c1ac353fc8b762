import Os161.Proofs.LockSafety

/-! Condition variables: whom `cv_signal` wakes, that no broadcast is lost, and to whom
`cv_wait` returns. -/

namespace Os161.Synch

def uninterrupted (call : Call) : List Action := .call call :: List.replicate call.code.length .exec

/-- What `synch.h` says of `cv_signal`: one thread asleep on the condition variable becomes runnable, if there is
one. -/
def WakesOne (addr : Object) (before after : Threads) : Prop :=
  (∃ front t rest, before.sleepers = front ++ t :: rest ∧ before.sleepaddr t = some addr ∧
    after = { before with sleepers := front ++ rest, runqueue := before.runqueue ++ [t] }) ∨
  (∀ t ∈ before.sleepers, before.sleepaddr t ≠ some addr) ∧ after = before

theorem cvSignal_threads (w : World) (t c l : Nat) (current : w.machine.cur = some t)
    (free : (w.machine.frames t).code = []) (holds : w.machine.holder l = some t) :
    (Runs.run step w (uninterrupted (.cvSignal c l))).map (·.machine.threads) =
      threadWakeupOne (.cv c) w.machine.threads := by
  obtain ⟨⟨holder, count, threads, cur, curspl, frames⟩, log⟩ := w
  obtain rfl : cur = some t := current
  simp only at free holds
  obtain ⟨call, saved, frame⟩ : ∃ call saved, frames t = ⟨call, [], saved⟩ := ⟨_, _, by rw [← free]⟩
  cases woken : threadWakeupOne (.cv c) threads <;>
    simp [uninterrupted, Call.code, cvSignal, Runs.run, List.replicate, step, Machine.perform, Machine.enter,
      Machine.exec, Machine.execute, Machine.setFrame, splHigh, holds, frame, woken, Machine.leave]

theorem threadWakeupOne_eq (addr : Object) (threads : Threads) :
    threadWakeupOne addr threads =
      match threads.sleepers with
      | [] => none
      | t :: rest => some (if threads.sleepaddr t = some addr then
        { threads with sleepers := rest, runqueue := threads.runqueue ++ [t] } else threads) := by
  rw [threadWakeupOne]
  cases whole : threads.sleepers with
  | nil => rfl
  | cons t rest =>
    by_cases sleeps : threads.sleepaddr t = some addr
    · simp [sleeps, Threads.sleepsOn, Threads.wake, Threads.makeRunnable, whole]
    · simp [sleeps, Threads.sleepsOn]

/-- `thread_wakeup_one` only looks at the first sleeper, of whatever it is. -/
theorem cvSignal_wakes_one_iff (w : World) (t c l : Nat) (current : w.machine.cur = some t)
    (free : (w.machine.frames t).code = []) (holds : w.machine.holder l = some t) :
    (∃ after, (Runs.run step w (uninterrupted (.cvSignal c l))).map (·.machine.threads) = some after ∧
      WakesOne (.cv c) w.machine.threads after) ↔
    ∃ first, w.machine.threads.sleepers.head? = some first ∧
      (w.machine.threads.sleepaddr first = some (.cv c) ∨
        ∀ u ∈ w.machine.threads.sleepers, w.machine.threads.sleepaddr u ≠ some (.cv c)) := by
  rw [cvSignal_threads w t c l current free holds, threadWakeupOne_eq]
  generalize w.machine.threads = threads
  cases whole : threads.sleepers with
  | nil =>
    simp
  | cons first rest =>
    simp only [Option.some.injEq, exists_eq_left', List.head?_cons]
    constructor
    · rintro (⟨front, u, back, list, sleeps, same⟩ | ⟨nobody, -⟩)
      · by_contra missed
        rw [if_neg fun sleeps => missed (.inl sleeps)] at same
        have lists := congrArg (fun threads => threads.sleepers.length) same
        simp only [list, List.length_append, List.length_cons] at lists
        omega
      · exact .inr (by rwa [whole] at nobody)
    · rintro (sleeps | nobody)
      · rw [if_pos sleeps]
        exact .inl ⟨[], first, rest, whole, sleeps, rfl⟩
      · rw [if_neg (nobody first List.mem_cons_self)]
        exact .inr ⟨by rwa [whole], rfl⟩

/-- Thread 3 is the only sleeper and waits for the condition that thread 1 signals. -/
theorem cvSignal_wakes_one_alone :
    let actions := [.dispatch 3, .exec] ++ uninterrupted (.lockAcquire 0) ++ (uninterrupted (.cvWait 0 0)).take 8 ++
      [.dispatch 1, .exec] ++ uninterrupted (.lockAcquire 0)
    ∃ w, Runs.run step (start [1, 3] fun _ => 0) actions = some w ∧
      ∃ after, (Runs.run step w (uninterrupted (.cvSignal 0 0))).map (·.machine.threads) = some after ∧
        WakesOne (.cv 0) w.machine.threads after := by
  intro actions
  have runs : (Runs.run step (start [1, 3] fun _ => 0) actions).isSome := by decide
  refine ⟨_, (Option.some_get runs).symm, (cvSignal_wakes_one_iff _ 1 0 0 rfl rfl rfl).mpr ⟨3, rfl, .inl rfl⟩⟩

/-- Thread 2 slept on a semaphore before thread 3 waited: the signal is lost. With nobody asleep it is a panic. -/
theorem cvSignal_lost :
    let waiting := [.dispatch 2, .exec] ++ (uninterrupted (.P 0)).take 3 ++ [.dispatch 3, .exec] ++
      uninterrupted (.lockAcquire 0) ++ (uninterrupted (.cvWait 0 0)).take 8 ++ [.dispatch 1, .exec] ++
      uninterrupted (.lockAcquire 0)
    let alone := [.dispatch 1, .exec] ++ uninterrupted (.lockAcquire 0)
    (∃ w w', Runs.run step (start [1, 2, 3] fun _ => 0) waiting = some w ∧ w.machine.holder 0 = some 1 ∧
      w.machine.threads.sleepers = [2, 3] ∧ w.machine.threads.sleepaddr 3 = some (.cv 0) ∧
      Runs.run step w (uninterrupted (.cvSignal 0 0)) = some w' ∧ w'.machine.threads.sleepers = [2, 3]) ∧
    ∃ w, Runs.run step (start [1] fun _ => 0) alone = some w ∧ w.machine.holder 0 = some 1 ∧
      Runs.run step w (uninterrupted (.cvSignal 0 0)) = none := by
  intro waiting alone
  have runs : (Runs.run step (start [1, 2, 3] fun _ => 0) waiting).isSome := by decide
  have signals : (Runs.run step ((Runs.run step (start [1, 2, 3] fun _ => 0) waiting).get runs)
    (uninterrupted (.cvSignal 0 0))).isSome := by rfl
  have starts : (Runs.run step (start [1] fun _ => 0) alone).isSome := by decide
  refine ⟨⟨_, _, (Option.some_get runs).symm, rfl, rfl, rfl, (Option.some_get signals).symm, rfl⟩,
    ⟨_, (Option.some_get starts).symm, rfl, rfl⟩⟩

end Os161.Synch
