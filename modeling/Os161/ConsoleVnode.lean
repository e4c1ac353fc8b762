import Os161.Console

/-! The counts of the console's vnode through `sys_read` and `sys_write`. Calls hold `cons_lock`, so that they come
one after the other. -/

namespace Os161.Con
open Routine

structure Vnode where
  refcount : Int32
  opencount : Int32
  deriving DecidableEq

/-- `vnode_check`, before any operation but `reclaim`. -/
def Vnode.Checked (vn : Vnode) : Prop := 0 < vn.refcount ∧ 0 ≤ vn.opencount

instance (vn : Vnode) : Decidable vn.Checked := inferInstanceAs (Decidable (_ ∧ _))

def vnodeCheck : Routine Errno Vnode Unit := do
  let vn ← get
  require vn.Checked

def vnodeIncref : Routine Errno Vnode Unit := modify fun vn => { vn with refcount := vn.refcount + 1 }

def vnodeIncopen : Routine Errno Vnode Unit := modify fun vn => { vn with opencount := vn.opencount + 1 }

/-- The vnode of a device stays when its last reference is dropped. -/
def vnodeDecref : Routine Errno Vnode Unit := do
  let vn ← get
  require (0 < vn.refcount)
  if 1 < vn.refcount then modify fun vn => { vn with refcount := vn.refcount - 1 } else vnodeCheck

/-- A call with what it depends on: the results of `vfs_lookup`, of `VOP_OPEN` and of the transfer, which leaves
`resid` bytes; `usable` says whether an unassigned `console_vnode` happens to hold a vnode. -/
structure ConsoleCall where
  rw : UioRw
  fd : UInt32
  size : Nat
  lookup : Except Errno Unit
  opened : Except Errno Unit
  usable : Bool
  transfer : Except Errno Unit
  resid : Nat

/-- `vfs_open` without `O_CREAT` and `O_TRUNC`. -/
def vfsOpen (call : ConsoleCall) : Routine Errno Vnode Unit := do
  match call.lookup with
  | .error code => fail code
  | .ok _ =>
    vnodeIncref
    vnodeCheck
    match call.opened with
    | .error code =>
      vnodeDecref
      fail code
    | .ok _ => vnodeIncopen

def ConsoleCall.fileno (call : ConsoleCall) : UInt32 :=
  match call.rw with
  | .read => stdinFileno
  | .write => stdoutFileno

/-- The check of `console_vnode` before the transfer. -/
def ConsoleCall.check (call : ConsoleCall) : Except Errno Unit → Routine Errno Vnode Unit
  | .ok _ => vnodeCheck
  | .error _ => require call.usable

/-- The result of `vfs_open` is not returned, and the vnode is not closed. -/
def consoleCall (call : ConsoleCall) : Routine Errno Vnode Nat := do
  if call.fd ≠ call.fileno then fail .ebadf
  else
    let ret ← attempt (vfsOpen call)
    call.check ret
    if returned call.transfer = 1 then fail .efault
    else return sizeSub call.size call.resid

def consoleStep (vn : Vnode) (call : ConsoleCall) : Option Vnode := (consoleCall call vn).map Prod.snd

end Os161.Con
