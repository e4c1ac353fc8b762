import Os161.Process

/-! `thread_fork` as two steps: other threads may run between the search of `thread_create` for a free entry and the
store into it, since interrupts are on and `fork_lock` is released. -/

namespace Os161.Proc

/-- `thread_create` once its loop has stopped at entry `i`. -/
def threadStore (s : State) (i : Nat) (curthread : Option (Nat × Thread)) (start : Start) (memory : Memory) :
    Option (Nat × State) :=
  if memory.create then
    let me := s.created
    let thread := newThread i curthread start
    let added := { s with created := me + 1, threads := fun u => if u = me then some thread else s.threads u }
    let added := if memory.sem then added.setSem me (some 0) else added
    some (me, added.setSlot i (some (newProcess me curthread memory.sem)))
  else none

def threadForkAt (s : State) (i : Nat) (curthread : Nat × Thread) (start : Start) (memory : Memory) : State :=
  match threadStore s i (some curthread) start memory with
  | none => s
  | some (newguy, created) => if memory.rest then created.setPhase newguy .running else created

/-- The process table with the entries that threads in `thread_create` have found. -/
structure Forks where
  state : State
  found : Nat → Option Nat

namespace Forks

def setFound (f : Forks) (t : Nat) (slot : Option Nat) : Forks :=
  { f with found := fun u => if u = t then slot else f.found u }

end Forks

inductive ForkStep where
  | find (t : Nat)
  | store (t : Nat) (start : Start) (memory : Memory)
  | other (action : Step)
  deriving DecidableEq, Repr

/-- A thread within `thread_create` does nothing else. -/
def forkStep (f : Forks) : ForkStep → Option Forks
  | .find t =>
    match f.state.halted, f.state.threads t, f.found t with
    | false, some ⟨_, _, _, .running, _⟩, none => some (f.setFound t f.state.freeSlot)
    | _, _, _ => none
  | .store t start memory =>
    match f.state.halted, f.state.threads t, f.found t with
    | false, some thread, some i =>
      if start = .boot then none
      else some ({ f with state := threadForkAt f.state i (t, thread) start memory }.setFound t none)
    | _, _, _ => none
  | .other (.fork _ _ _) => none
  | .other action =>
    match f.found action.thread with
    | none => (step f.state action).map fun next => { f with state := next }
    | some _ => none

def Forks.boot (sem : Bool) : Forks := ⟨Proc.boot sem, fun _ => none⟩

end Os161.Proc
