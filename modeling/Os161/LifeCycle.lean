import Os161.Fork

/-! The life of a process with the memory it holds: `sys_fork`, `sys__exit`, `sys_waitpid` and switches. A step
lasts up to the next point at which another thread can take part. -/

namespace Os161.Fork
open Routine Containers

/-- The assertion that a call succeeds. -/
def asserted {α : Type} (routine : Routine Errno Heap α) : Routine Errno Heap α := do
  match ← attempt routine with
  | .ok value => return value
  | .error _ => halt

def arrayAdd (kind : Kind) (a : HeapArr) (guy : Nat) : Routine Errno Heap HeapArr := do
  if a.arr.guys.length + 1 ≤ a.arr.max then
    let arr ← finish (a.arr.add guy false)
    return { a with arr }
  else
    let grown ← arrayPreallocate kind a (a.arr.guys.length + 1)
    let arr ← finish (grown.arr.add guy false)
    return { grown with arr }

/-- `array_setsize` with 0. -/
def arrayClear (kind : Kind) (a : HeapArr) : Routine Errno Heap HeapArr := do
  if 16 < a.arr.max then
    require (a.v ≠ none)
    kfreeAny kind a.v
    return ⟨a.arr.clear, none⟩
  else return { a with arr := a.arr.clear }

def curthread : Routine Errno Kern (Nat × Thread) := do
  let k ← get
  match k.curthread, k.current with
  | some t, some thread => return (t, thread)
  | _, _ => halt

def ready (t : Nat) : Routine Errno Kern Unit := do
  let k ← get
  let runqueue ← onHeap (asserted (makeRunnable k.runqueue t))
  modify fun k => { k with runqueue }

def threadYield : Routine Errno Kern Unit := do
  let (t, _) ← curthread
  ready t
  modify fun k => { k with curthread := none }

def threadSleep (addr : Nat) : Routine Errno Kern Unit := do
  let (t, _) ← curthread
  let k ← get
  let sleepers ← onHeap (asserted (arrayAdd .sleepers k.sleepers t))
  modify fun k => { k with sleepers, curthread := none }
  modify fun k => k.modifyThread t fun thread => { thread with sleepaddr := some addr }

def Kern.sleepsOn (k : Kern) (addr t : Nat) : Bool := (k.threads t).bind Thread.sleepaddr == some addr

/-- The loop of `thread_wakeup` from index `i` on, with `left` threads not looked at. -/
def wakeupLoop (addr : Nat) : (left i : Nat) → Routine Errno Kern Unit
  | 0, _ => return ()
  | left + 1, i => do
    let k ← get
    match k.sleepers.arr.guys[i]? with
    | none => halt
    | some t =>
      if k.sleepsOn addr t then
        modify fun k => { k with sleepers := { k.sleepers with arr := k.sleepers.arr.remove i } }
        ready t
        wakeupLoop addr left i
      else wakeupLoop addr left (i + 1)

def threadWakeup (addr : Nat) : Routine Errno Kern Unit := do
  let k ← get
  wakeupLoop addr k.sleepers.arr.guys.length 0

def semV : Option Semaphore → Routine Errno Kern Unit
  | none => halt
  | some sem => do
    modify fun k => k.setCount sem.block (k.counts sem.block + 1)
    threadWakeup sem.block

def asDestroyAny : Option SpacePtr → Routine Errno Kern Unit
  | none => return ()
  | some as => asDestroy as

/-- Up to the switch to another thread. -/
def threadExit : Routine Errno Kern Unit := do
  let (t, thread) ← curthread
  modify fun k => k.modifyThread t fun thread => { thread with vmspace := none }
  asDestroyAny thread.vmspace
  vopDecrefAny thread.cwd
  modify fun k => k.modifyThread t fun thread => { thread with cwd := none }
  let k ← get
  require (0 < k.numthreads)
  let zombies ← onHeap (asserted (arrayAdd .zombies k.zombies t))
  modify fun k => { k with zombies, numthreads := k.numthreads - 1, curthread := none }

def sysExit (exitCode : Int) : Routine Errno Kern Unit := do
  let (_, thread) ← curthread
  let k ← get
  match k.pTable thread.pid with
  | none => halt
  | some process =>
    modify fun k => k.setSlot thread.pid (some { process with exited := true, exitcode := exitCode })
    semV process.exitSem
    threadExit

def threadDestroy (t : Nat) : Routine Errno Kern Unit := do
  let k ← get
  match k.threads t with
  | none => halt
  | some thread =>
    require (k.curthread ≠ some t)
    require (thread.vmspace = none)
    require (thread.cwd = none)
    onHeap (kfreeAny .stack thread.stack)
    freeThread t

def destroyAll : List Nat → Routine Errno Kern Unit
  | [] => return ()
  | t :: rest => do
    threadDestroy t
    destroyAll rest

def exorcise : Routine Errno Kern Unit := do
  let k ← get
  destroyAll k.zombies.arr.guys
  let zombies ← onHeap (arrayClear .zombies k.zombies)
  modify fun k => { k with zombies }

/-- `sys_waitpid` with a valid status and no options, up to the release of the lock. -/
def sysWaitpid (pid : Nat) : Routine Errno Kern Unit := do
  let (t, thread) ← curthread
  require (pid < maxthreads)
  let k ← get
  match k.pTable pid with
  | none => return ()
  | some process =>
    if process.parentPid ≠ thread.pid then return ()
    else if process.exited then return ()
    else modify fun k => k.modifyThread t fun thread => { thread with phase := .waiting pid }

/-- The argument of `P` is evaluated. -/
def enterP (pid : Nat) : Routine Errno Kern Unit := do
  let (t, _) ← curthread
  let k ← get
  match (k.pTable pid).bind Process.exitSem with
  | none => halt
  | some sem => modify fun k => k.modifyThread t fun thread => { thread with phase := .inP pid sem.block }

/-- One pass of the loop of `P`. -/
def semP (pid sem : Nat) : Routine Errno Kern Unit := do
  let (t, _) ← curthread
  let k ← get
  if k.counts sem = 0 then threadSleep sem
  else
    modify fun k => k.setCount sem (k.counts sem - 1)
    modify fun k => k.modifyThread t fun thread => { thread with phase := .collecting pid, sleepaddr := none }

/-- The end of `sys_waitpid`. The name of the semaphore is not given back. -/
def collect (pid : Nat) : Routine Errno Kern Unit := do
  let (t, _) ← curthread
  let k ← get
  match k.pTable pid with
  | none => halt
  | some process =>
    onHeap (kfreeAny .semaphore (process.exitSem.map Semaphore.block))
    onHeap (kfree .process process.block)
    modify fun k => k.setSlot pid none
    modify fun k => k.modifyThread t fun thread => { thread with phase := .running }

/-- The scheduler picks a thread. A new one starts in `md_forkentry`, another one comes out of
`mi_switch`. -/
def resume : Routine Errno Kern Unit := do
  let k ← get
  require (k.curthread = none)
  match k.runqueue.queue.remhead with
  | none => halt
  | some (t, queue) =>
    modify fun k => { k with runqueue := { k.runqueue with queue }, curthread := some t }
    match (k.threads t).bind Thread.entry with
    | some (_, as) => modify fun k => k.modifyThread t fun thread => { thread with vmspace := some as, entry := none }
    | none => exorcise

/-- `waits` is what a thread does next that is in `sys_waitpid`. -/
inductive Step where
  | sysFork (ptf : Trapframe) (stale : SpacePtr)
  | sysExit (exitCode : Int)
  | sysWaitpid (pid : Nat)
  | waits
  | threadYield
  | resume

def waits : Routine Errno Kern Unit := do
  let (_, thread) ← curthread
  match thread.phase with
  | .running => halt
  | .waiting pid => enterP pid
  | .inP pid sem => semP pid sem
  | .collecting pid => collect pid

def inUser : Routine Errno Kern Unit := do
  let (_, thread) ← curthread
  require (thread.phase = .running)

def perform : Step → Routine Errno Kern Unit
  | .sysFork ptf stale => do
    inUser
    let _ ← sysFork ptf stale
  | .sysExit exitCode => do
    inUser
    sysExit exitCode
  | .sysWaitpid pid => do
    inUser
    sysWaitpid pid
  | .waits => waits
  | .threadYield => threadYield
  | .resume => resume

/-- The state after a step, whatever the call has returned. -/
def step (k : Kern) (action : Step) : Option Kern := (perform action k).map Prod.snd

end Os161.Fork
