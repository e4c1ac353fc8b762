import Os161.Errno
import Mathlib.Data.List.Basic

/-! The process table with `thread_fork`, `sys_waitpid` and `sys__exit`, interleaved. A step is a section under
`process_lock`, a semaphore operation, or a call that takes neither. -/

namespace Os161.Proc

def maxthreads : Nat := 200

/-- Threads and semaphores are numbered in the order they are allocated. -/
structure Process where
  me : Nat
  parentPid : Int
  exited : Bool
  exitcode : Int
  exitSem : Option Nat
  deriving DecidableEq, Repr

/-- Where a thread is. The waiting phases keep the argument of `sys_waitpid` and the thread that owned the entry
then. -/
inductive Phase where
  | running
  | waiting (pid child : Nat)
  | sleeping (pid child sem : Nat)
  | woken (pid child sem : Nat)
  | collecting (pid child : Nat)
  | exiting (code : Int)
  | signalled (code : Int)
  | exited (code : Int)
  | returned
  | discarded
  deriving DecidableEq, Repr

inductive Start where
  | boot
  | kernel
  | forkentry
  deriving DecidableEq, Repr

/-- `creator` and `collected` are history: who called `thread_fork`, and whether a `sys_waitpid` returned 0 for this
thread. -/
structure Thread where
  pid : Nat
  creator : Option Nat
  start : Start
  phase : Phase
  collected : Bool
  deriving DecidableEq, Repr

/-- `created` counts the threads allocated so far. -/
structure State where
  pTable : Nat → Option Process
  threads : Nat → Option Thread
  created : Nat
  sems : Nat → Option Nat
  lock : Option Nat
  halted : Bool

/-- Which allocations succeed: of `thread_create`, of `sem_create`, and of `thread_fork` once it has the thread. -/
structure Memory where
  create : Bool
  sem : Bool
  rest : Bool
  deriving DecidableEq, Repr

namespace State

def setThread (s : State) (t : Nat) (f : Thread → Thread) : State :=
  { s with threads := fun u => if u = t then (s.threads u).map f else s.threads u }

def setPhase (s : State) (t : Nat) (phase : Phase) : State := s.setThread t fun thread => { thread with phase := phase }

def setSlot (s : State) (pid : Nat) (slot : Option Process) : State :=
  { s with pTable := fun i => if i = pid then slot else s.pTable i }

def setSem (s : State) (sem : Nat) (count : Option Nat) : State :=
  { s with sems := fun i => if i = sem then count else s.sems i }

def halt (s : State) : State := { s with halted := true }

def freeSlot (s : State) : Option Nat := (List.range' 1 (maxthreads - 1)).find? fun i => (s.pTable i).isNone

end State

/-- A thread that `thread_create` has set up and nothing has made runnable yet. -/
def newThread (pid : Nat) (curthread : Option (Nat × Thread)) (start : Start) : Thread where
  pid := pid
  creator := curthread.map Prod.fst
  start := start
  phase := .discarded
  collected := false

def newProcess (me : Nat) (curthread : Option (Nat × Thread)) (sem : Bool) : Process where
  me := me
  parentPid := match curthread with
    | some (_, thread) => thread.pid
    | none => -1
  exited := false
  exitcode := -1
  exitSem := if sem then some me else none

def threadCreate (s : State) (curthread : Option (Nat × Thread)) (start : Start) (memory : Memory) :
    Option (Nat × State) :=
  match s.freeSlot with
  | some i =>
    if memory.create then
      let me := s.created
      let thread := newThread i curthread start
      let added := { s with created := me + 1, threads := fun u => if u = me then some thread else s.threads u }
      let added := if memory.sem then added.setSem me (some 0) else added
      some (me, added.setSlot i (some (newProcess me curthread memory.sem)))
    else none
  | none => none

/-- On a failure after `thread_create` the thread is freed and its entry stays. -/
def threadFork (s : State) (curthread : Nat × Thread) (start : Start) (memory : Memory) : State :=
  match threadCreate s (some curthread) start memory with
  | none => s
  | some (newguy, created) => if memory.rest then created.setPhase newguy .running else created

def Thread.collect (thread : Thread) : Thread := { thread with collected := true }

inductive WaitResult where
  | error (code : Errno)
  | notFound
  | success (status : Int) (retval : Nat)
  deriving DecidableEq, Repr

/-- `sys_waitpid` up to the release of the lock. No result means that the call goes on. -/
def sysWaitpid (s : State) (t : Nat) (thread : Thread) (pid status : Nat) (options : Int) : Option WaitResult × State :=
  if status = 0 then (some (.error .efault), s)
  else if status % 4 ≠ 0 then (some (.error .efault), s)
  else if options ≠ 0 then (some (.error .einval), s)
  else match s.pTable pid with
    | none => (some .notFound, s)
    | some process =>
      if process.parentPid ≠ thread.pid then (some .notFound, s)
      else if process.exited then
        (some (.success process.exitcode pid), s.setThread process.me Thread.collect)
      else (none, s.setPhase t (.waiting pid process.me))

/-- One pass of the loop of `P`. -/
def semWait (s : State) (t pid child sem : Nat) : State :=
  match s.sems sem with
  | none => s.halt
  | some 0 => s.setPhase t (.sleeping pid child sem)
  | some (count + 1) => (s.setSem sem (some count)).setPhase t (.collecting pid child)

/-- `P(p_table[pid]->exit_sem)`, which looks at the table without the lock. -/
def waitSem (s : State) (t pid child : Nat) : State :=
  match s.pTable pid with
  | none => s.halt
  | some process =>
    match process.exitSem with
    | none => s.halt
    | some sem => semWait s t pid child sem

def waitCollect (s : State) (t pid : Nat) : Option WaitResult × State :=
  match s.pTable pid with
  | none => (none, s.halt)
  | some process =>
    let marked := s.setThread process.me Thread.collect
    let freed := match process.exitSem with
      | none => marked
      | some sem => marked.setSem sem none
    (some (.success process.exitcode pid), (freed.setSlot pid none).setPhase t .running)

def exitMark (s : State) (t : Nat) (thread : Thread) (code : Int) : State :=
  match s.pTable thread.pid with
  | none => s.halt
  | some process =>
    let marked := s.setSlot thread.pid (some { process with exited := true, exitcode := code })
    { marked.setPhase t (.exiting code) with lock := some t }

def wake (sem : Nat) (thread : Thread) : Thread :=
  match thread.phase with
  | .sleeping pid child addr => if addr = sem then { thread with phase := .woken pid child sem } else thread
  | _ => thread

/-- `V(p_table[curthread->t_pid]->exit_sem)` with its `thread_wakeup`. -/
def exitSignal (s : State) (t : Nat) (thread : Thread) (code : Int) : State :=
  match s.pTable thread.pid with
  | none => s.halt
  | some process =>
    match process.exitSem with
    | none => s.halt
    | some sem =>
      match s.sems sem with
      | none => s.halt
      | some count =>
        let raised := s.setSem sem (some (count + 1))
        { raised with threads := fun u => (s.threads u).map (wake sem) }.setPhase t (.signalled code)

/-- `lock_release` and `thread_exit`. -/
def exitLeave (s : State) (t : Nat) (code : Int) : State := { s.setPhase t (.exited code) with lock := none }

inductive Step where
  | fork (t : Nat) (start : Start) (memory : Memory)
  | waitpid (t pid status : Nat) (options : Int)
  | semP (t : Nat)
  | collect (t : Nat)
  | exit (t : Nat) (code : Int)
  | semV (t : Nat)
  | leave (t : Nat)
  | threadReturn (t : Nat)
  deriving DecidableEq, Repr

def Step.thread : Step → Nat
  | .fork t _ _ | .waitpid t _ _ _ | .semP t | .collect t | .exit t _ | .semV t | .leave t | .threadReturn t => t

/-- What the thread does next when it is scheduled, if it can do this step. -/
def perform (s : State) (thread : Thread) : Step → Option State
  | .fork t start memory =>
    match thread.phase, start with
    | .running, .boot => none
    | .running, start => some (threadFork s (t, thread) start memory)
    | _, _ => none
  | .waitpid t pid status options =>
    if thread.phase = .running ∧ s.lock = none ∧ pid < maxthreads then
      some (sysWaitpid s t thread pid status options).2
    else none
  | .semP t =>
    match thread.phase with
    | .waiting pid child => some (waitSem s t pid child)
    | .woken pid child sem => some (semWait s t pid child sem)
    | _ => none
  | .collect t =>
    match thread.phase, s.lock with
    | .collecting pid _, none => some (waitCollect s t pid).2
    | _, _ => none
  | .exit t code => if thread.phase = .running ∧ s.lock = none then some (exitMark s t thread code) else none
  | .semV t =>
    match thread.phase with
    | .exiting code => some (exitSignal s t thread code)
    | _ => none
  | .leave t =>
    match thread.phase with
    | .signalled code => some (exitLeave s t code)
    | _ => none
  | .threadReturn t =>
    if thread.phase = .running ∧ thread.start = .kernel then some (s.setPhase t .returned) else none

def step (s : State) (action : Step) : Option State :=
  if s.halted then none
  else (s.threads action.thread).bind fun thread => perform s thread action

def emptyState : State where
  pTable := fun _ => none
  threads := fun _ => none
  created := 0
  sems := fun _ => none
  lock := none
  halted := false

/-- The state `thread_bootstrap` leaves; the boot thread has its entry, with or
without a semaphore. -/
def boot (sem : Bool) : State :=
  match threadCreate emptyState none .boot ⟨true, sem, true⟩ with
  | none => emptyState.halt
  | some (me, created) => created.setPhase me .running

/-- A `sys_waitpid` that returned 0: the thread it was for, the pid and the status. -/
structure Delivery where
  waiter : Nat
  child : Nat
  retval : Nat
  status : Int
  deriving DecidableEq, Repr

def delivery (s : State) : Step → Option Delivery
  | .waitpid t pid status options =>
    match s.threads t, s.pTable pid with
    | some thread, some process =>
      match (sysWaitpid s t thread pid status options).1 with
      | some (.success status retval) => some ⟨t, process.me, retval, status⟩
      | _ => none
    | _, _ => none
  | .collect t =>
    match (s.threads t).map Thread.phase with
    | some (.collecting pid child) =>
      match (waitCollect s t pid).1 with
      | some (.success status retval) => some ⟨t, child, retval, status⟩
      | _ => none
    | _ => none
  | _ => none

end Os161.Proc
