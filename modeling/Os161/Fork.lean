import Os161.Containers
import Os161.Lib.Pool
import Os161.Spaces
import Os161.Trapframe

/-! `thread_create`, `thread_fork` and `sys_fork` with the memory they take. A pointer is the serial number of its
heap block; a `kfree` of a block not allocated is not followed. -/

namespace Os161.Fork
open Routine Containers Vm

/-- What a block of the heap was allocated for. -/
inductive Kind where
  | process | thread | threadName | stack | semaphore | semName | trapframe | addrspace
  | sleepers | zombies | runqueue
  deriving DecidableEq, Repr

abbrev Heap := Pool Kind

def kmalloc (kind : Kind) : Routine Errno Heap (Option Nat) := fun heap =>
  some (.ok (heap.request kind).1, (heap.request kind).2)

def kfree (kind : Kind) (ptr : Nat) : Routine Errno Heap Unit := do
  let heap ← get
  require (⟨kind, ptr⟩ ∈ heap.live)
  modify fun heap => heap.release ⟨kind, ptr⟩

/-- `kfree` unless the pointer is NULL. -/
def kfreeAny (kind : Kind) : Option Nat → Routine Errno Heap Unit
  | none => return ()
  | some ptr => kfree kind ptr

/-- A `struct array` with the block of its pointers. -/
structure HeapArr where
  arr : Arr Nat
  v : Option Nat
  deriving DecidableEq, Repr

/-- A `struct queue` with the block of its pointers. -/
structure HeapQueue where
  queue : Queue Nat
  data : Nat
  deriving DecidableEq, Repr

/-- The old block is given back, also when the new one is no larger. -/
def arrayPreallocate (kind : Kind) (a : HeapArr) (nguys : Nat) : Routine Errno Heap HeapArr := do
  match ← kmalloc kind with
  | none => fail .enomem
  | some newv =>
    let arr ← finish (a.arr.preallocate nguys true)
    kfreeAny kind a.v
    return ⟨arr, some newv⟩

def qGrow (q : HeapQueue) (targetsize : Nat) : Routine Errno Heap HeapQueue := do
  match ← kmalloc .runqueue with
  | none => fail .enomem
  | some ndata =>
    match q.queue.grow targetsize true with
    | some (.ok grown) =>
      kfree .runqueue q.data
      return ⟨grown, ndata⟩
    | _ => halt

def schedulerPreallocate (q : HeapQueue) (nthreads : Nat) : Routine Errno Heap HeapQueue :=
  if q.queue.size < nthreads then qGrow q nthreads else return q

def makeRunnable (q : HeapQueue) (t : Nat) : Routine Errno Heap HeapQueue := do
  if q.queue.Full then
    let grown ← qGrow q (q.queue.size + 1)
    return { grown with queue := grown.queue.store t }
  else return { q with queue := q.queue.store t }

structure Semaphore where
  block : Nat
  name : Nat
  deriving DecidableEq, Repr

def semCreate : Routine Errno Heap (Option Semaphore) := do
  match ← kmalloc .semaphore with
  | none => return none
  | some sem =>
    match ← kmalloc .semName with
    | none =>
      kfree .semaphore sem
      return none
    | some name => return some ⟨sem, name⟩

/-- A `struct addrspace *`: its block, and which address space of the machine is stored there. -/
structure SpacePtr where
  block : Nat
  index : Nat
  deriving DecidableEq, Repr

structure Process where
  block : Nat
  me : Nat
  parentPid : Int
  exited : Bool
  exitcode : Int
  exitSem : Option Semaphore
  deriving DecidableEq, Repr

/-- In `sys_waitpid`: about to wait for the child, in `P`, or out of it. -/
inductive Phase where
  | running
  | waiting (pid : Nat)
  | inP (pid sem : Nat)
  | collecting (pid : Nat)
  deriving DecidableEq, Repr

/-- `entry` are the arguments of the function the thread starts in, as long as it has not. -/
structure Thread where
  name : Nat
  stack : Option Nat
  vmspace : Option SpacePtr
  cwd : Option Nat
  pid : Nat
  sleepaddr : Option Nat
  entry : Option (Nat × SpacePtr)
  phase : Phase
  deriving DecidableEq, Repr

/-- The counts of the semaphores and vnodes and the copied trapframes. The frames of address spaces are the
machine's; heap blocks are not. -/
structure Kern where
  heap : Heap
  pTable : Nat → Option Process
  curthread : Option Nat
  threads : Nat → Option Thread
  numthreads : Nat
  runqueue : HeapQueue
  sleepers : HeapArr
  zombies : HeapArr
  counts : Nat → Nat
  vnodes : Nat → Option Int
  trapframes : Nat → Option Trapframe
  machine : Machine

def maxthreads : Nat := 200

namespace Kern

def current (k : Kern) : Option Thread := k.curthread.bind k.threads

def setThread (k : Kern) (t : Nat) (thread : Option Thread) : Kern :=
  { k with threads := fun u => if u = t then thread else k.threads u }

def modifyThread (k : Kern) (t : Nat) (change : Thread → Thread) : Kern := k.setThread t ((k.threads t).map change)

def setSlot (k : Kern) (pid : Nat) (slot : Option Process) : Kern :=
  { k with pTable := fun i => if i = pid then slot else k.pTable i }

def setCount (k : Kern) (sem count : Nat) : Kern := { k with counts := fun i => if i = sem then count else k.counts i }

def setVnode (k : Kern) (v : Nat) (count : Option Int) : Kern :=
  { k with vnodes := fun w => if w = v then count else k.vnodes w }

def startCount (k : Kern) : Option Semaphore → Kern
  | none => k
  | some sem => k.setCount sem.block 0

def freeSlot (k : Kern) : Option Nat := (List.range' 1 (maxthreads - 1)).find? fun i => (k.pTable i).isNone

def parentPid (k : Kern) : Int :=
  match k.current with
  | some thread => thread.pid
  | none => -1

end Kern

def onHeap (routine : Routine Errno Heap α) : Routine Errno Kern α :=
  routine.zoom Kern.heap fun heap k => { k with heap }

def onMachine (routine : Routine Errno Machine α) : Routine Errno Kern α :=
  routine.zoom Kern.machine fun machine k => { k with machine }

def newThread (name pid : Nat) : Thread := ⟨name, none, none, none, pid, none, none, .running⟩

/-- `thread_create` once it has the process block, which is lost when the thread or its name gets
no memory. -/
def createThread (i process : Nat) : Routine Errno Kern (Option Nat) := do
  match ← onHeap (kmalloc .thread) with
  | none => return none
  | some thread =>
    match ← onHeap (kmalloc .threadName) with
    | none =>
      onHeap (kfree .thread thread)
      return none
    | some name =>
      let exitSem ← onHeap semCreate
      modify fun k => k.startCount exitSem
      modify fun k => (k.setThread thread (some (newThread name i))).setSlot i
        (some ⟨process, thread, k.parentPid, false, -1, exitSem⟩)
      return some thread

def threadCreate : Routine Errno Kern (Option Nat) := do
  let k ← get
  match k.freeSlot with
  | none => return none
  | some i =>
    match ← onHeap (kmalloc .process) with
    | none => return none
    | some process => createThread i process

def vopIncref (v : Nat) : Routine Errno Kern Unit := modify fun k => k.setVnode v ((k.vnodes v).map (· + 1))

/-- The vnode is gone once its last reference is. -/
def vopDecref (v : Nat) : Routine Errno Kern Unit := do
  let k ← get
  match k.vnodes v with
  | none => halt
  | some count =>
    require (0 < count)
    modify fun k => k.setVnode v (if 1 < count then some (count - 1) else none)

def vopDecrefAny : Option Nat → Routine Errno Kern Unit
  | none => return ()
  | some v => vopDecref v

def freeThread (t : Nat) : Routine Errno Kern Unit := do
  let k ← get
  match k.threads t with
  | none => halt
  | some thread =>
    onHeap (kfree .threadName thread.name)
    onHeap (kfree .thread t)
    modify fun k => k.setThread t none

def inheritCwd (newguy : Nat) : Routine Errno Kern Unit := do
  let k ← get
  match k.current with
  | none => halt
  | some thread =>
    match thread.cwd with
    | none => return ()
    | some v =>
      vopIncref v
      modify fun k => k.modifyThread newguy fun thread => { thread with cwd := some v }

/-- The part of `thread_fork` with interrupts off. -/
def enqueue (newguy : Nat) : Routine Errno Kern Unit := do
  let k ← get
  let sleepers ← onHeap (arrayPreallocate .sleepers k.sleepers (k.numthreads + 1))
  modify fun k => { k with sleepers }
  let zombies ← onHeap (arrayPreallocate .zombies k.zombies (k.numthreads + 1))
  modify fun k => { k with zombies }
  let runqueue ← onHeap (schedulerPreallocate k.runqueue (k.numthreads + 1))
  modify fun k => { k with runqueue }
  let runqueue ← onHeap (makeRunnable runqueue newguy)
  modify fun k => { k with runqueue, numthreads := k.numthreads + 1 }

/-- The end of `thread_fork` after `fail`. -/
def failFork (newguy : Nat) (code : Errno) : Routine Errno Kern Nat := do
  let k ← get
  match k.threads newguy with
  | none => halt
  | some thread =>
    vopDecrefAny thread.cwd
    onHeap (kfreeAny .stack thread.stack)
    freeThread newguy
    fail code

/-- `thread_fork` after `thread_create`. -/
def forkRest (newguy data1 : Nat) (data2 : SpacePtr) : Routine Errno Kern Nat := do
  match ← onHeap (kmalloc .stack) with
  | none =>
    freeThread newguy
    fail .enomem
  | some stack =>
    modify fun k => k.modifyThread newguy fun thread => { thread with stack := some stack }
    inheritCwd newguy
    modify fun k => k.modifyThread newguy fun thread => { thread with entry := some (data1, data2) }
    match ← attempt (enqueue newguy) with
    | .ok _ => return newguy
    | .error code => failFork newguy code

def threadFork (data1 : Nat) (data2 : SpacePtr) : Routine Errno Kern Nat := do
  match ← threadCreate with
  | none => fail .enomem
  | some newguy => forkRest newguy data1 data2

def asDestroy (as : SpacePtr) : Routine Errno Kern Unit := onHeap (kfree .addrspace as.block)

/-- `as_copy` of the current address space. -/
def asCopyCurrent : Routine Errno Kern SpacePtr := do
  let k ← get
  match k.current.bind Thread.vmspace with
  | none => halt
  | some old =>
    match ← onHeap (kmalloc .addrspace) with
    | none => fail .enomem
    | some new =>
      match ← attempt (onMachine (asCopy (k.machine.spaces old.index))) with
      | .error code =>
        asDestroy ⟨new, k.machine.created⟩
        fail code
      | .ok _ => return ⟨new, k.machine.created⟩

/-- `stale` is what `child_as` holds before it is assigned. The result is the child, whose pid is looked up later.
-/
def sysFork (ptf : Trapframe) (stale : SpacePtr) : Routine Errno Kern Nat := do
  match ← onHeap (kmalloc .trapframe) with
  | none => fail .enomem
  | some ctf =>
    modify fun k => { k with trapframes := fun p => if p = ctf then some ptf else k.trapframes p }
    let copied ← attempt asCopyCurrent
    let childAs := match copied with
      | .ok as => as
      | .error _ => stale
    match ← attempt (threadFork ctf childAs) with
    | .error _ => fail .enomem
    | .ok child => return child

/-- What is stored through `retval`. `reused` is what the child's freed memory holds, when it is gone before `t_pid`
is read. -/
def forkRetval (k : Kern) (child : Nat) (reused : Option Int) : Option Int :=
  match reused with
  | some value => some value
  | none => (k.threads child).map fun thread => (thread.pid : Int)

/-- The registers and the address space `md_forkentry` enters user mode with. -/
def forkentry (k : Kern) (child : Nat) : Option (Trapframe × SpacePtr) := do
  let thread ← k.threads child
  let (ptf, as) ← thread.entry
  let tf ← k.trapframes ptf
  return (((tf.set .v0 0).set .a3 0).set .epc (tf .epc + 4), as)

end Os161.Fork
