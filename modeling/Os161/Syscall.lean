import Os161.Console
import Os161.Fork
import Os161.Waitpid

/-! The system call dispatcher. The handlers are those of the other modules, each on its own part of the kernel. -/

namespace Os161.Sys

inductive Callno where
  | reboot | write | read | fork | getpid | waitpid | exit | execv
  deriving DecidableEq, Repr

/-- The numbers of `kern/callno.h` that have a case; the others are unknown. -/
def callno (v0 : UInt32) : Option Callno :=
  if v0 = 8 then some .reboot
  else if v0 = 6 then some .write
  else if v0 = 5 then some .read
  else if v0 = 2 then some .fork
  else if v0 = 11 then some .getpid
  else if v0 = 3 then some .waitpid
  else if v0 = 0 then some .exit
  else if v0 = 1 then some .execv
  else none

/-- What the handlers depend on beside the registers: the terminal of the console, for `sys_fork` the threads with
the memory and what its variable held, for `sys_waitpid` the table, its pid and what others do to the table, for
`sys_execv` the files and the user memory. -/
structure Env where
  granted : Bool
  terminal : Con.Terminal
  kern : Fork.Kern
  stale : Fork.SpacePtr
  reused : Option Int
  table : Int → Option Proc.Process
  caller : Int
  writable : Bool
  atP : Int → Option Proc.Process
  later : Int → Option Proc.Process
  kernel : Vm.Kernel
  machine : Vm.Machine

/-- What a handler returns and what it has stored through `retval`, which was 0. -/
structure Return where
  err : Int
  retval : UInt32
  deriving DecidableEq, Repr

def enosys : Int := 23

def failure (code : Errno) : Return := ⟨code.code, 0⟩

/-- `sys_reboot` comes back only for an unknown code. -/
def sysReboot (code : UInt32) : Option Return :=
  if code = 0 ∨ code = 1 ∨ code = 2 then none else some (failure .einval)

def console (outcome : Option (Except Errno Nat × Con.Terminal)) : Option Return :=
  outcome.map fun (result, _) =>
    match result with
    | .error code => failure code
    | .ok count => ⟨0, UInt32.ofNat count⟩

def fork (env : Env) (tf : Trapframe) : Option Return :=
  match Fork.sysFork tf env.stale env.kern with
  | none => none
  | some (.error code, _) => some (failure code)
  | some (.ok child, k) => (Fork.forkRetval k child env.reused).map fun pid => ⟨0, u32 pid⟩

def sysGetpid (env : Env) : Option Return := env.kern.current.map fun thread => ⟨0, UInt32.ofNat thread.pid⟩

def waitCall (env : Env) (tf : Trapframe) : Proc.WaitCall :=
  ⟨(tf .a0).toInt32, tf .a1, (tf .a2).toInt32, env.caller, env.writable, env.atP, env.later⟩

def waitpid (env : Env) (tf : Trapframe) : Option Return :=
  match Proc.waitpid (waitCall env tf) ⟨env.table, []⟩ with
  | some (.ok value, _) => some ⟨value, if value = 0 then tf .a0 else 0⟩
  | _ => none

/-- A program that was started does not come back. -/
def execv (env : Env) (tf : Trapframe) : Option Return :=
  match Vm.sysExecv env.kernel (tf .a0).toNat (tf .a1).toNat env.machine with
  | some (.error code, _) => some (failure code)
  | _ => none

/-- `none` is a call that does not come back, because it has ended the process or the kernel. -/
def handler (env : Env) (tf : Trapframe) : Option Return :=
  match callno (tf .v0) with
  | some .reboot => sysReboot (tf .a0)
  | some .write => console (Con.sysWrite env.granted (tf .a0) (tf .a1) (tf .a2) env.terminal)
  | some .read => console (Con.sysRead env.granted (tf .a0) (tf .a1) (tf .a2) env.terminal)
  | some .fork => fork env tf
  | some .getpid => sysGetpid env
  | some .waitpid => waitpid env tf
  | some .exit => none
  | some .execv => execv env tf
  | none => some ⟨enosys, 0⟩

/-- The end of `mips_syscall`. -/
def answer (tf : Trapframe) (returned : Return) : Trapframe :=
  let tf := if returned.err ≠ 0 then (tf.set .v0 (u32 returned.err)).set .a3 1
    else (tf.set .v0 returned.retval).set .a3 0
  tf.set .epc (tf .epc + 4)

def mipsSyscall (env : Env) (tf : Trapframe) : Option Trapframe := (handler env tf).map (answer tf)

end Os161.Sys
