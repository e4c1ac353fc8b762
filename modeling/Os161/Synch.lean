import Mathlib.Algebra.Group.Int.Defs
import Mathlib.Algebra.Group.Nat.Defs
import Mathlib.Data.List.Basic

/-! Semaphores, locks and condition variables on one processor. Another thread gets it only when the current one
sleeps or yields, or when a timer interrupt comes while `curspl` is 0. -/

namespace Os161.Synch

/-- What threads sleep on: the address of a lock, a condition variable, a semaphore
or something else. -/
inductive Object where
  | lock (l : Nat)
  | cv (c : Nat)
  | sem (s : Nat)
  | other (a : Nat)
  deriving DecidableEq, Repr

/-- The lists of `thread.c` and `scheduler.c`, and the `t_sleepaddr` of each thread. -/
structure Threads where
  sleepers : List Nat
  runqueue : List Nat
  sleepaddr : Nat → Option Object

def Threads.setSleepaddr (threads : Threads) (t : Nat) (addr : Option Object) : Threads :=
  { threads with sleepaddr := fun u => if u = t then addr else threads.sleepaddr u }

def Threads.sleepsOn (threads : Threads) (addr : Object) (t : Nat) : Bool := threads.sleepaddr t == some addr

/-- The space for this was allocated by `thread_fork`. -/
def Threads.makeRunnable (threads : Threads) (t : Nat) : Threads := { threads with runqueue := threads.runqueue ++ [t] }

def Threads.wake (threads : Threads) (i t : Nat) : Threads :=
  { threads with sleepers := threads.sleepers.eraseIdx i }.makeRunnable t

def wakeupLoop (addr : Object) : (left i : Nat) → Threads → Threads
  | 0, _, threads => threads
  | left + 1, i, threads =>
    match threads.sleepers[i]? with
    | none => threads
    | some t =>
      if threads.sleepsOn addr t then wakeupLoop addr left i (threads.wake i t)
      else wakeupLoop addr left (i + 1) threads

def threadWakeup (addr : Object) (threads : Threads) : Threads := wakeupLoop addr threads.sleepers.length 0 threads

/-- `array_getguy` panics when there is no thread at index 0. -/
def threadWakeupOne (addr : Object) (threads : Threads) : Option Threads :=
  match threads.sleepers[0]? with
  | none => none
  | some t => if threads.sleepsOn addr t then some (threads.wake 0 t) else some threads

/-- The statements of `synch.c`. A loop around `thread_sleep` is one instruction, which the thread is still at when
it wakes up; `woke` ends `thread_sleep`. -/
inductive Instr where
  | splhigh
  | splx
  | setspl (newspl : Nat)
  | assertNotHolding (l : Nat)
  | awaitLock (l : Nat)
  | takeLock (l : Nat)
  | assertHolding (l : Nat)
  | dropLock (l : Nat)
  | awaitCount (s : Nat)
  | takeCount (s : Nat)
  | addCount (s : Nat)
  | sleep (addr : Object)
  | woke
  | wakeup (addr : Object)
  | wakeupOne (addr : Object)
  | switchReady
  deriving DecidableEq, Repr

/-- The calls a thread makes. `splx` stands for callers that change the level themselves. -/
inductive Call where
  | lockAcquire (l : Nat)
  | lockRelease (l : Nat)
  | cvWait (c l : Nat)
  | cvSignal (c l : Nat)
  | cvBroadcast (c l : Nat)
  | P (s : Nat)
  | V (s : Nat)
  | threadYield
  | splx (newspl : Nat)
  deriving DecidableEq, Repr

def lockAcquire (l : Nat) : List Instr := [.splhigh, .assertNotHolding l, .awaitLock l, .takeLock l, .splx]

def lockRelease (l : Nat) : List Instr := [.splhigh, .assertHolding l, .dropLock l, .wakeup (.lock l), .splx]

def cvWait (c l : Nat) : List Instr :=
  [.splhigh] ++ lockRelease l ++ [.sleep (.cv c), .wakeup (.lock l)] ++ lockAcquire l ++ [.splx]

def cvSignal (c l : Nat) : List Instr := [.splhigh, .assertHolding l, .wakeupOne (.cv c), .splx]

def cvBroadcast (c l : Nat) : List Instr := [.splhigh, .assertHolding l, .wakeup (.cv c), .splx]

def semP (s : Nat) : List Instr := [.splhigh, .awaitCount s, .takeCount s, .splx]

def semV (s : Nat) : List Instr := [.splhigh, .addCount s, .wakeup (.sem s), .splx]

def threadYield : List Instr := [.splhigh, .switchReady, .splx]

def Call.code : Call → List Instr
  | lockAcquire l => Synch.lockAcquire l
  | lockRelease l => Synch.lockRelease l
  | cvWait c l => Synch.cvWait c l
  | cvSignal c l => Synch.cvSignal c l
  | cvBroadcast c l => Synch.cvBroadcast c l
  | P s => semP s
  | V s => semV s
  | threadYield => Synch.threadYield
  | splx newspl => [.setspl newspl]

/-- A thread within a call: the code left, and the levels saved by `splhigh` or a trap. -/
structure Frame where
  call : Option Call
  code : List Instr
  saved : List Nat

/-- `cur` is `curthread`, which is NULL while the scheduler looks for a thread. -/
structure Machine where
  holder : Nat → Option Nat
  count : Nat → Int
  threads : Threads
  cur : Option Nat
  curspl : Nat
  frames : Nat → Frame

/-- What happened: calls and returns, locks taken and dropped, semaphores counted, threads woken. -/
inductive Event where
  | called (t : Nat) (call : Call)
  | returned (t : Nat) (call : Call)
  | took (t l : Nat)
  | dropped (t l : Nat)
  | down (t s : Nat)
  | up (s : Nat)
  | woken (t : Nat) (addr : Object)
  deriving DecidableEq, Repr

def splHigh : Nat := 15

/-- `count++` on an `int`. -/
def increment (count : Int) : Int := (count + 1).bmod (2 ^ 32)

namespace Machine

def setFrame (m : Machine) (t : Nat) (frame : Frame) : Machine :=
  { m with frames := fun u => if u = t then frame else m.frames u }

def setHolder (m : Machine) (l : Nat) (holder : Option Nat) : Machine :=
  { m with holder := fun k => if k = l then holder else m.holder k }

def setCount (m : Machine) (s : Nat) (count : Int) : Machine :=
  { m with count := fun k => if k = s then count else m.count k }

def sleepersOn (m : Machine) (addr : Object) : List Nat :=
  m.threads.sleepers.filter (m.threads.sleepsOn addr)

def firstOn (m : Machine) (addr : Object) : List Nat :=
  (m.threads.sleepers.take 1).filter (m.threads.sleepsOn addr)

/-- `thread_sleep` up to the switch, with what the thread does when it is back. -/
def sleep (m : Machine) (t : Nat) (addr : Object) (frame : Frame) : Option (Machine × List Event) :=
  if 0 < m.curspl then
    let threads := m.threads.setSleepaddr t (some addr)
    let threads := { threads with sleepers := threads.sleepers ++ [t] }
    some ({ m with threads, cur := none }.setFrame t { frame with code := .woke :: frame.code }, [])
  else none

/-- `frame` is the thread's frame behind the instruction; no result is a panic. -/
def execute (m : Machine) (t : Nat) (frame : Frame) : Instr → Option (Machine × List Event)
  | .splhigh => some ({ m with curspl := splHigh }.setFrame t { frame with saved := m.curspl :: frame.saved }, [])
  | .splx =>
    match frame.saved with
    | [] => none
    | old :: saved => some ({ m with curspl := old }.setFrame t { frame with saved }, [])
  | .setspl newspl => some ({ m with curspl := newspl }.setFrame t frame, [])
  | .assertNotHolding l => if m.holder l = some t then none else some (m.setFrame t frame, [])
  | .awaitLock l =>
    if m.holder l ≠ none then m.sleep t (.lock l) { frame with code := .awaitLock l :: frame.code }
    else some (m.setFrame t frame, [])
  | .takeLock l => some ((m.setHolder l (some t)).setFrame t frame, [.took t l])
  | .assertHolding l => if m.holder l = some t then some (m.setFrame t frame, []) else none
  | .dropLock l => some ((m.setHolder l none).setFrame t frame, [.dropped t l])
  | .awaitCount s =>
    if m.count s = 0 then m.sleep t (.sem s) { frame with code := .awaitCount s :: frame.code }
    else some (m.setFrame t frame, [])
  | .takeCount s =>
    if 0 < m.count s then some ((m.setCount s (m.count s - 1)).setFrame t frame, [.down t s]) else none
  | .addCount s =>
    if 0 < increment (m.count s) then some ((m.setCount s (increment (m.count s))).setFrame t frame, [.up s]) else none
  | .sleep addr => m.sleep t addr frame
  | .woke => some ({ m with threads := m.threads.setSleepaddr t none }.setFrame t frame, [])
  | .wakeup addr =>
    if 0 < m.curspl then
      some ({ m with threads := threadWakeup addr m.threads }.setFrame t frame, (m.sleepersOn addr).map (.woken · addr))
    else none
  | .wakeupOne addr =>
    if 0 < m.curspl then
      (threadWakeupOne addr m.threads).map fun threads =>
        ({ m with threads }.setFrame t frame, (m.firstOn addr).map (.woken · addr))
    else none
  | .switchReady =>
    if 0 < m.curspl then some ({ m with threads := m.threads.makeRunnable t, cur := none }.setFrame t frame, []) else none

end Machine

inductive Action where
  | call (call : Call)
  | exec
  | preempt
  | dispatch (t : Nat)
  | interruptV (s : Nat)
  deriving DecidableEq, Repr

structure World where
  machine : Machine
  log : List Event

namespace Machine

/-- The call is over when no code is left. -/
def leave (t : Nat) : Option Call → List Instr → Option Call × List Event
  | some call, [] => (none, [.returned t call])
  | call, _ => (call, [])

def exec (m : Machine) : Option (Machine × List Event) :=
  match m.cur with
  | none => none
  | some t =>
    match m.frames t with
    | ⟨_, [], _⟩ => none
    | ⟨call, instr :: code, saved⟩ =>
      (m.execute t ⟨(leave t call code).1, code, saved⟩ instr).map fun (after, events) =>
        (after, events ++ (leave t call code).2)

def enter (m : Machine) (call : Call) : Option (Machine × List Event) :=
  match m.cur with
  | none => none
  | some t =>
    match m.frames t with
    | ⟨_, [], saved⟩ => some (m.setFrame t ⟨some call, call.code, saved⟩, [.called t call])
    | _ => none

/-- A timer interrupt: the trap saves `curspl` and `thread_yield` switches. -/
def preempt (m : Machine) : Option (Machine × List Event) :=
  match m.cur with
  | none => none
  | some t =>
    if m.curspl = 0 then
      let frame := m.frames t
      some ({ m with curspl := splHigh, threads := m.threads.makeRunnable t, cur := none }.setFrame t
        { frame with code := .splx :: frame.code, saved := m.curspl :: frame.saved }, [])
    else none

/-- The scheduler hands the processor to a thread of the run queue. -/
def dispatch (m : Machine) (t : Nat) : Option (Machine × List Event) :=
  if m.cur = none ∧ t ∈ m.threads.runqueue then
    some ({ m with cur := some t, threads := { m.threads with runqueue := m.threads.runqueue.erase t } }, [])
  else none

/-- An interrupt handler calls `V`: interrupts are on, or the scheduler idles. -/
def interruptV (m : Machine) (s : Nat) : Option (Machine × List Event) :=
  if (m.cur = none ∨ m.curspl = 0) ∧ 0 < increment (m.count s) then
    some ({ m.setCount s (increment (m.count s)) with threads := threadWakeup (.sem s) m.threads },
      .up s :: (m.sleepersOn (.sem s)).map (.woken · (.sem s)))
  else none

def perform (m : Machine) : Action → Option (Machine × List Event)
  | .call call => m.enter call
  | .exec => m.exec
  | .preempt => m.preempt
  | .dispatch t => m.dispatch t
  | .interruptV s => m.interruptV s

end Machine

def step (w : World) (action : Action) : Option World :=
  (w.machine.perform action).map fun (machine, events) => ⟨machine, w.log ++ events⟩

/-- Any number of new threads, which lower the level when they start, and semaphores with initial counts. -/
def start (threads : List Nat) (count : Nat → Nat) : World where
  machine :=
    { holder := fun _ => none
      count := fun s => count s
      threads := ⟨[], threads, fun _ => none⟩
      cur := none
      curspl := splHigh
      frames := fun _ => ⟨none, [.setspl 0], []⟩ }
  log := []

end Os161.Synch
