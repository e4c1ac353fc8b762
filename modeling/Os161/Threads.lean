import Os161.Containers

/-! The thread system on one processor: `thread.c` and `scheduler.c`. A call is a section with interrupts off, or
something the current thread does with them on; between two the timer may make it yield, and interrupts may wake
threads up. -/

namespace Os161.Threads
open Containers

/-- `sleepaddr` is 0 for NULL, the flags are pointers that are not NULL. `started`: `md_switch` returns to the
thread; `newguy` is the variable of a `thread_fork` in progress, `freed` a structure given to `kfree`. -/
structure Thread where
  sleepaddr : Nat
  vmspace : Bool
  cwd : Bool
  started : Bool
  newguy : Option Nat
  freed : Bool
  deriving DecidableEq, Repr

/-- Threads are numbered by their creation. `forked`: a `thread_fork` has returned 0; `grows` counts the `q_grow` in
`q_addtail`. -/
structure Sched where
  curthread : Option Nat
  runqueue : Queue Nat
  sleepers : Arr Nat
  zombies : Arr Nat
  threads : Nat → Thread
  created : Nat
  numthreads : Nat
  forked : Bool
  grows : Nat

/-- Which of the calls of `kmalloc` in `thread_fork` succeed, after those of `thread_create`. -/
structure ForkMemory where
  stack : Bool
  sleepers : Bool
  zombies : Bool
  runqueue : Bool
  runnable : Bool
  deriving DecidableEq, Repr

inductive Threadstate where
  | ready
  | sleep
  | zomb
  deriving DecidableEq, Repr

/-- `threadCreate` is the part of `thread_fork` with interrupts on and `threadFork` the rest; `setup` is what
`runprogram`, `md_forkentry` or `vfs_chdir` store, and `scheduler` the part of `mi_switch` from the choice of a
thread on. -/
inductive Call where
  | threadCreate (memory : Bool)
  | threadFork (memory : ForkMemory)
  | setup (vmspace cwd : Bool)
  | threadYield (memory : Bool)
  | threadSleep (addr : Nat) (memory : Bool)
  | threadWakeup (addr : Nat) (memory : Bool)
  | threadWakeupOne (addr : Nat) (memory : Bool)
  | threadExit (memory : Bool)
  | scheduler
  deriving DecidableEq, Repr

namespace Sched

def modifyThread (s : Sched) (t : Nat) (change : Thread → Thread) : Sched :=
  { s with threads := fun u => if u = t then change (s.threads u) else s.threads u }

/-- `none` is a failed assertion here and in the definitions below. -/
def makeRunnable (s : Sched) (t : Nat) (memory : Bool) : Option (Except Errno Sched) :=
  (s.runqueue.addtail t memory).map fun result => result.map fun runqueue =>
    { s with runqueue, grows := s.grows + if s.runqueue.Full then 1 else 0 }

/-- The assertion that a result is 0. -/
def asserted : Option (Except Errno Sched) → Option Sched
  | some (.ok s) => some s
  | _ => none

def newThread (cwd : Bool) : Thread := ⟨0, false, cwd, false, none, false⟩

def threadCreate (s : Sched) (t : Nat) : Sched :=
  { s with created := s.created + 1 }.modifyThread t (fun thread => { thread with newguy := some s.created })
    |>.modifyThread s.created fun _ => newThread (s.threads t).cwd

/-- The thread `newguy` of a `thread_fork` that `t` is in is given back. -/
def abandon (s : Sched) (t newguy : Nat) : Sched :=
  (s.modifyThread newguy fun thread => { thread with freed := true }).modifyThread t
    fun thread => { thread with newguy := none }

/-- The part of `thread_fork` after `thread_create`, with its result. -/
def threadFork (s : Sched) (t newguy : Nat) (memory : ForkMemory) : Option (Except Errno Unit × Sched) :=
  if !memory.stack then some (.error .enomem, s.abandon t newguy)
  else match s.sleepers.preallocate (s.numthreads + 1) memory.sleepers with
  | .error code => some (.error code, s.abandon t newguy)
  | .ok sleepers =>
    match s.zombies.preallocate (s.numthreads + 1) memory.zombies with
    | .error code => some (.error code, { s with sleepers }.abandon t newguy)
    | .ok zombies => do
      match ← s.runqueue.preallocate (s.numthreads + 1) memory.runqueue with
      | .error code => some (.error code, { s with sleepers, zombies }.abandon t newguy)
      | .ok runqueue =>
        match ← { s with sleepers, zombies, runqueue }.makeRunnable newguy memory.runnable with
        | .error code => some (.error code, { s with sleepers, zombies, runqueue }.abandon t newguy)
        | .ok next => some (.ok (), { next with numthreads := s.numthreads + 1, forked := true }.modifyThread t
            fun thread => { thread with newguy := none })

/-- The part of `mi_switch` before the call of `scheduler`. -/
def miSwitch (s : Sched) (nextstate : Threadstate) (memory : Bool) : Option Sched :=
  match s.curthread with
  | none => some s
  | some cur =>
    let s := { s with curthread := none }
    match nextstate with
    | .ready => asserted (s.makeRunnable cur memory)
    | .sleep => asserted (some ((s.sleepers.add cur memory).map fun sleepers => { s with sleepers }))
    | .zomb => asserted (some ((s.zombies.add cur memory).map fun zombies => { s with zombies }))

def threadExit (s : Sched) (t : Nat) (memory : Bool) : Option Sched :=
  let s := s.modifyThread t fun thread => { thread with vmspace := false, cwd := false }
  if 0 < s.numthreads then { s with numthreads := s.numthreads - 1 }.miSwitch .zomb memory else none

def wake (s : Sched) (i t : Nat) (memory : Bool) : Option Sched :=
  asserted ({ s with sleepers := s.sleepers.remove i }.makeRunnable t memory)

/-- The loop of `thread_wakeup` from index `i` on, with `left` threads not looked at. -/
def wakeupLoop (addr : Nat) (memory : Bool) : (left i : Nat) → Sched → Option Sched
  | 0, _, s => some s
  | left + 1, i, s =>
    match s.sleepers.guys[i]? with
    | none => none
    | some t =>
      if (s.threads t).sleepaddr = addr then (s.wake i t memory).bind (wakeupLoop addr memory left i)
      else wakeupLoop addr memory left (i + 1) s

def threadWakeup (s : Sched) (addr : Nat) (memory : Bool) : Option Sched :=
  wakeupLoop addr memory s.sleepers.guys.length 0 s

def threadWakeupOne (s : Sched) (addr : Nat) (memory : Bool) : Option Sched :=
  match s.sleepers.guys[0]? with
  | none => none
  | some t => if (s.threads t).sleepaddr = addr then s.wake 0 t memory else some s

def threadDestroy (s : Sched) (z : Nat) : Option Sched :=
  if some z ≠ s.curthread ∧ (s.threads z).vmspace = false ∧ (s.threads z).cwd = false then
    some (s.modifyThread z fun thread => { thread with freed := true })
  else none

def exorcise (s : Sched) : Option Sched :=
  (s.zombies.guys.foldlM threadDestroy s).map fun s => { s with zombies := s.zombies.clear }

/-- `scheduler` and the rest of `mi_switch`, which a new thread skips. A thread that slept clears its address. -/
def resume (s : Sched) : Option Sched := do
  let (next, runqueue) ← s.runqueue.remhead
  let s := { s with curthread := some next, runqueue }
  if (s.threads next).started then (s.modifyThread next fun thread => { thread with sleepaddr := 0 }).exorcise
  else some (s.modifyThread next fun thread => { thread with started := true })

end Sched

/-- `none` is a failed assertion, or a call that is not possible: no current thread, or none for `scheduler` to
return. -/
def threadStep (s : Sched) : Call → Option Sched
  | .threadCreate memory => do
    let t ← s.curthread
    if (s.threads t).newguy.isSome then none else some (if memory then s.threadCreate t else s)
  | .threadFork memory => do
    let t ← s.curthread
    let newguy ← (s.threads t).newguy
    (s.threadFork t newguy memory).map Prod.snd
  | .setup vmspace cwd => do
    let t ← s.curthread
    some (s.modifyThread t fun thread => { thread with vmspace, cwd })
  | .threadYield memory => s.miSwitch .ready memory
  | .threadSleep addr memory => do
    let t ← s.curthread
    (s.modifyThread t fun thread => { thread with sleepaddr := addr }).miSwitch .sleep memory
  | .threadWakeup addr memory => s.threadWakeup addr memory
  | .threadWakeupOne addr memory => s.threadWakeupOne addr memory
  | .threadExit memory => do
    let t ← s.curthread
    if (s.threads t).newguy.isSome then none else s.threadExit t memory
  | .scheduler => if s.curthread.isSome then none else s.resume

def bootstrap : Sched :=
  ⟨some 0, .create 32 Queue.positive_32, .create, .create, fun _ => { Sched.newThread false with started := true }, 1, 1,
    false, 0⟩

end Os161.Threads
