import Os161.AddrSpace
import Os161.Uio

/-! `SYS_read` and `SYS_write` on the console, down to the accesses at the caller's addresses. -/

namespace Os161.Con
open Vm Routine

/-- `typed` is what `getch` will return, `touched` the addresses of the caller's region accessed so far. -/
structure Terminal where
  machine : Machine
  typed : Nat → UInt8
  printed : List UInt8
  touched : List Nat

/-- The data region starts at the address `base`, in the kernel's or in the user's view. -/
structure Uio where
  base : Nat
  iovLen : Nat
  offset : Int
  resid : Nat
  segflg : UioSeg
  rw : UioRw
  space : Option Nat

def getch : Routine Errno Terminal UInt8 := do
  let t ← get
  modify fun t => { t with typed := fun n => t.typed (n + 1) }
  return t.typed 0

def putch (ch : UInt8) : Routine Errno Terminal Unit := modify fun t => { t with printed := t.printed ++ [ch] }

/-- A kernel access to an address that cannot be translated: a panic unless in `copyin` or `copyout`. -/
def fault (segflg : UioSeg) : Routine Errno Terminal Nat :=
  if segflg = .sysspace then halt else fail .efault

def access (segflg : UioSeg) (vaddr : Nat) : Routine Errno Terminal Nat := do
  let t ← get
  require (Direct vaddr ∨ t.machine.as.Ready)
  match t.machine.kernelPaddr vaddr with
  | none => fault segflg
  | some paddr =>
    modify fun t => { t with touched := vaddr :: t.touched }
    return paddr

def storeBytes (segflg : UioSeg) (dest : Nat) : List UInt8 → Routine Errno Terminal Unit
  | [] => return ()
  | byte :: rest => do
    let paddr ← access segflg dest
    modify fun t => { t with machine := t.machine.setByte paddr byte }
    storeBytes segflg ((dest + 1) % word) rest

def loadBytes (segflg : UioSeg) (src : Nat) : (len : Nat) → Routine Errno Terminal (List UInt8)
  | 0 => return []
  | len + 1 => do
    let paddr ← access segflg src
    let t ← get
    let rest ← loadBytes segflg ((src + 1) % word) len
    return t.machine.ram paddr :: rest

def onTerminal (routine : Routine Errno Terminal α) : Routine Errno (Terminal × Uio) α :=
  routine.zoom Prod.fst fun t both => (t, both.2)

/-- One copy of `size` bytes, by `memmove`, `copyin` or `copyout`. Returns the new contents of the kernel buffer. -/
def uioCopy (buffer : List UInt8) (size : Nat) : Routine Errno (Terminal × Uio) (List UInt8) := do
  let (_, uio) ← get
  if uio.segflg = .sysspace ∨ Copycheck uio.base size then
    match uio.rw with
    | .read =>
      onTerminal (storeBytes uio.segflg uio.base (buffer.take size))
      return buffer
    | .write =>
      let loaded ← onTerminal (loadBytes uio.segflg uio.base size)
      return loaded ++ buffer.drop size
  else fail .efault

def Uio.advance (uio : Uio) (size : Nat) : Uio :=
  { uio with
    base := (uio.base + size) % word
    iovLen := sizeSub uio.iovLen size
    resid := sizeSub uio.resid size
    offset := offT (uio.offset + size) }

/-- The loop of `uiomove`. At most `fuel` bytes of the buffer are left. -/
def uiomoveLoop : (fuel : Nat) → (buffer : List UInt8) → Routine Errno (Terminal × Uio) (List UInt8)
  | 0, buffer => return buffer
  | fuel + 1, buffer => do
    let (_, uio) ← get
    if buffer.length = 0 ∨ uio.resid = 0 then return buffer
    else
      let size := min uio.iovLen buffer.length
      require (size ≠ 0)
      let filled ← uioCopy buffer size
      modify fun (t, uio) => (t, uio.advance size)
      let later ← uiomoveLoop fuel (filled.drop size)
      return filled.take size ++ later

def uiomove (buffer : List UInt8) : Routine Errno (Terminal × Uio) (List UInt8) := do
  let (t, uio) ← get
  require (uio.space = if uio.segflg = .sysspace then none else some t.machine.vmspace)
  uiomoveLoop buffer.length buffer

def mkKuio (kbuf len : Nat) (pos : Int) (rw : UioRw) : Uio where
  base := kbuf
  iovLen := len
  offset := pos
  resid := len
  segflg := .sysspace
  rw := rw
  space := none

/-- The loop of `con_io`, with at most `fuel` characters to go. -/
def conIoLoop : (fuel : Nat) → Routine Errno (Terminal × Uio) Unit
  | 0 => return ()
  | fuel + 1 => do
    let (_, uio) ← get
    if uio.resid = 0 then return ()
    else
      match uio.rw with
      | .read =>
        let typed ← onTerminal getch
        let ch := if typed = 0x0d then 0x0a else typed
        let _ ← uiomove [ch]
        if ch = 0x0a then return () else conIoLoop fuel
      | .write =>
        let buffer ← uiomove [0]
        let ch := buffer.getD 0 0
        if ch = 0x0a then onTerminal (putch 0x0d)
        onTerminal (putch ch)
        conIoLoop fuel

def conIo : Routine Errno (Terminal × Uio) Unit := do
  let (_, uio) ← get
  conIoLoop uio.resid

def stdinFileno : UInt32 := 0

def stdoutFileno : UInt32 := 1

/-- The integer a function returns, 0 for success. -/
def returned : Except Errno α → Nat
  | .ok _ => 0
  | .error code => code.code

/-- Both handlers. `granted`: the heap has room for the console's name and, on the first call, the lock. -/
def sysConsole (granted : Bool) (fileno fd buf size : UInt32) (rw : UioRw) : Routine Errno Terminal Nat := do
  if fd ≠ fileno then fail .ebadf
  else
    require granted
    let (result, user) ← withLocal (mkKuio buf.toNat size.toNat 0 rw) conIo
    if returned result = 1 then fail .efault
    else return sizeSub size.toNat user.resid

def sysWrite (granted : Bool) (fd buf size : UInt32) : Routine Errno Terminal Nat :=
  sysConsole granted stdoutFileno fd buf size .write

def sysRead (granted : Bool) (fd buf size : UInt32) : Routine Errno Terminal Nat :=
  sysConsole granted stdinFileno fd buf size .read

/-- The registers a system call uses; `v0` holds its number. -/
structure Trapframe where
  v0 : UInt32
  a0 : UInt32
  a1 : UInt32
  a2 : UInt32
  a3 : UInt32
  epc : UInt32
  deriving DecidableEq, Repr

def mipsSyscall (granted : Bool) (rw : UioRw) (tf : Trapframe) : Routine Errno Terminal Trapframe := do
  let err ← attempt (match rw with
    | .read => sysRead granted tf.a0 tf.a1 tf.a2
    | .write => sysWrite granted tf.a0 tf.a1 tf.a2)
  match err with
  | .error code => return { tf with v0 := UInt32.ofNat code.code, a3 := 1, epc := tf.epc + 4 }
  | .ok retval => return { tf with v0 := UInt32.ofNat retval, a3 := 0, epc := tf.epc + 4 }

end Os161.Con
