import Os161.Lib.Routine
import Os161.Process

/-! `sys_waitpid` with every access to `p_table`. The pid is not checked, so that the memory around the table is
part of what the call may look at. -/

namespace Os161.Proc
open Routine

/-- No return: a NULL pointer followed, a NULL semaphore, or a store through `status` that faults. -/
inductive Fault where
  | nullEntry
  | nullSem
  | badStatus
  deriving DecidableEq, Repr

/-- Memory as the table reads it, by index, and the indices that were used. -/
structure TableState where
  table : Int → Option Process
  indices : List Int

/-- A call with the caller's pid, whether `status` can be stored to, and the table when the argument of `P` is
evaluated and when the lock is acquired again. -/
structure WaitCall where
  pid : Int32
  status : UInt32
  options : Int32
  caller : Int
  writable : Bool
  atP : Int → Option Process
  later : Int → Option Process

def TableState.used (s : TableState) (pid : Int) : TableState := { s with indices := pid :: s.indices }

def entry (pid : Int) : Routine Fault TableState (Option Process) := do
  modify fun s => s.used pid
  let s ← get
  return s.table pid

def field {α : Type} (pid : Int) (select : Process → α) : Routine Fault TableState α := do
  match ← entry pid with
  | none => fail .nullEntry
  | some process => return select process

def others (table : Int → Option Process) : Routine Fault TableState Unit := modify fun s => { s with table }

/-- `P` with the semaphore of the entry. -/
def semPEntry (pid : Int) : Routine Fault TableState Unit := do
  match ← field pid Process.exitSem with
  | none => fail .nullSem
  | some _ => return ()

def storeStatus (call : WaitCall) : Routine Fault TableState Unit :=
  if call.writable then return () else fail .badStatus

/-- The last case of `sys_waitpid`, for a child that has not exited. -/
def waitExit (call : WaitCall) : Routine Fault TableState Int := do
  let pid := call.pid.toInt
  others call.atP
  semPEntry pid
  others call.later
  let _ ← field pid Process.exitcode
  storeStatus call
  let _ ← field pid Process.exitSem
  let _ ← entry pid
  modify fun s => { s.used pid with table := fun i => if i = pid then none else s.table i }
  return 0

/-- The value is what the function returns. -/
def waitpid (call : WaitCall) : Routine Fault TableState Int := do
  let pid := call.pid.toInt
  if call.status = 0 then return Errno.efault.code
  else if call.status % 4 ≠ 0 then return Errno.efault.code
  else if call.options ≠ 0 then return Errno.einval.code
  else
    match ← entry pid with
    | none => return -1
    | some _ =>
      let parentPid ← field pid Process.parentPid
      if parentPid ≠ call.caller then return -1
      else
        let exited ← field pid Process.exited
        if exited then
          let _ ← field pid Process.exitcode
          storeStatus call
          return 0
        else waitExit call

end Os161.Proc
