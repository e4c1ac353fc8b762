import Os161.Coremap
import Os161.Errno
import Os161.Lib.Routine
import Os161.Lib.Scan

/-! Address spaces of two regions and a stack, and the kernel's access to user memory. Every translation is the one
`vm_fault` would install; the TLB's size plays no part here. -/

namespace Os161.Vm
open Routine

def userTop : Nat := mipsKseg0

def userStack : Nat := userTop

def dumbvmStackpages : Nat := 24

/-- The mask `PAGE_FRAME`. -/
def pageFrame (vaddr : Nat) : Nat := vaddr / pageSize * pageSize

structure AddrSpace where
  vbase1 : Nat
  pbase1 : Nat
  npages1 : Nat
  vbase2 : Nat
  pbase2 : Nat
  npages2 : Nat
  stackpbase : Nat
  deriving DecidableEq, Repr

def asCreate : AddrSpace := ⟨0, 0, 0, 0, 0, 0, 0⟩

def regionPages (vaddr sz : Nat) : Nat := ((sz + vaddr % pageSize) % word + pageSize - 1) % word / pageSize

def asDefineRegion (as : AddrSpace) (vaddr sz : Nat) : Except Errno AddrSpace :=
  if as.vbase1 = 0 then .ok { as with vbase1 := pageFrame vaddr, npages1 := regionPages vaddr sz }
  else if as.vbase2 = 0 then .ok { as with vbase2 := pageFrame vaddr, npages2 := regionPages vaddr sz }
  else .error .eunimp

/-- The assertions at the start of `vm_fault`. -/
def AddrSpace.Ready (as : AddrSpace) : Prop :=
  (as.vbase1 ≠ 0 ∧ as.pbase1 ≠ 0 ∧ as.npages1 ≠ 0 ∧ as.vbase2 ≠ 0 ∧ as.pbase2 ≠ 0 ∧ as.npages2 ≠ 0 ∧
    as.stackpbase ≠ 0) ∧
  pageFrame as.vbase1 = as.vbase1 ∧ pageFrame as.pbase1 = as.pbase1 ∧ pageFrame as.vbase2 = as.vbase2 ∧
  pageFrame as.pbase2 = as.pbase2 ∧ pageFrame as.stackpbase = as.stackpbase

instance (as : AddrSpace) : Decidable as.Ready := inferInstanceAs (Decidable (_ ∧ _))

def stackBase : Nat := userStack - dumbvmStackpages * pageSize

/-- The physical page `vm_fault` finds for a faulting page. -/
def AddrSpace.frame (as : AddrSpace) (page : Nat) : Option Nat :=
  if as.vbase1 ≤ page ∧ page < (as.vbase1 + as.npages1 * pageSize) % word then some (page - as.vbase1 + as.pbase1)
  else if as.vbase2 ≤ page ∧ page < (as.vbase2 + as.npages2 * pageSize) % word then some (page - as.vbase2 + as.pbase2)
  else if stackBase ≤ page ∧ page < userStack then some (page - stackBase + as.stackpbase)
  else none

def AddrSpace.translate (as : AddrSpace) (vaddr : Nat) : Option Nat :=
  (as.frame (pageFrame vaddr)).map (· + vaddr % pageSize)

/-- `spaces` are the address spaces created, `vmspace` is the current thread's. `ram_bootstrap` cuts memory off at
508 megabytes. -/
structure Machine where
  ram : Nat → UInt8
  ramsize : Nat
  bounded : ramsize ≤ 508 * 1024 * 1024
  cm : Coremap
  spaces : Nat → AddrSpace
  created : Nat
  vmspace : Nat
  current : vmspace < created

def Machine.as (m : Machine) : AddrSpace := m.spaces m.vmspace

def Machine.setAs (m : Machine) (as : AddrSpace) : Machine :=
  { m with spaces := fun i => if i = m.vmspace then as else m.spaces i }

def Machine.setByte (m : Machine) (paddr : Nat) (byte : UInt8) : Machine :=
  { m with ram := fun i => if i = paddr then byte else m.ram i }

def Machine.userByte (m : Machine) (vaddr : Nat) : Option UInt8 :=
  if vaddr < userTop then (m.as.translate vaddr).map m.ram else none

/-- The two segments through which the kernel reaches physical memory directly. -/
def Direct (vaddr : Nat) : Prop := mipsKseg0 ≤ vaddr ∧ vaddr < 0xc0000000

instance (vaddr : Nat) : Decidable (Direct vaddr) := inferInstanceAs (Decidable (_ ∧ _))

/-- The physical address of an access by the kernel, `none` if it faults. -/
def Machine.kernelPaddr (m : Machine) (vaddr : Nat) : Option Nat :=
  if Direct vaddr then if vaddr % 0x20000000 < m.ramsize then some (vaddr % 0x20000000) else none
  else if m.as.Ready then m.as.translate vaddr else none

def Machine.kernelByte (m : Machine) (vaddr : Nat) : Option UInt8 := (m.kernelPaddr vaddr).map m.ram

/-- Big-endian words, which the processor loads from aligned addresses only. -/
def wordAt (byte : Nat → Option UInt8) (vaddr : Nat) : Option Nat := do
  let b0 ← byte vaddr
  let b1 ← byte (vaddr + 1)
  let b2 ← byte (vaddr + 2)
  let b3 ← byte (vaddr + 3)
  return ((b0.toNat * 256 + b1.toNat) * 256 + b2.toNat) * 256 + b3.toNat

def Machine.kernelWord (m : Machine) (vaddr : Nat) : Option Nat :=
  if vaddr % 4 = 0 then wordAt m.kernelByte vaddr else none

/-- The length of a string. Page 0 is never mapped, so no string runs over the end of memory. -/
def Machine.strlen (m : Machine) (vaddr : Nat) : Option Nat :=
  Scan.scan (fun k => m.kernelByte (vaddr + k)) (· = 0) word 0

/-- A load inside `copyout`, where a fault is caught. A failed assertion of
`vm_fault` is not. -/
def loadByte (vaddr : Nat) : Routine Errno Machine UInt8 := do
  let m ← get
  require (Direct vaddr ∨ m.as.Ready)
  match m.kernelByte vaddr with
  | some byte => return byte
  | none => fail .efault

def storeByte (vaddr : Nat) (byte : UInt8) : Routine Errno Machine Unit := do
  let m ← get
  require m.as.Ready
  match m.as.translate vaddr with
  | some paddr => modify fun m => m.setByte paddr byte
  | none => fail .efault

/-- `memcpy` to a user address, byte by byte and upwards; `source` loads byte `k`. -/
def memcpy (source : Nat → Routine Errno Machine UInt8) (dest : Nat) : (k left : Nat) → Routine Errno Machine Unit
  | _, 0 => return ()
  | k, left + 1 => do
    let byte ← source k
    storeByte (dest + k) byte
    memcpy source dest (k + 1) left

/-- `copycheck` accepts the whole block. -/
def Copycheck (userptr len : Nat) : Prop :=
  userptr ≤ (userptr + len + word - 1) % word ∧ userptr < userTop ∧ (userptr + len + word - 1) % word < userTop

instance (userptr len : Nat) : Decidable (Copycheck userptr len) := inferInstanceAs (Decidable (_ ∧ _))

def copyout (source : Nat → Routine Errno Machine UInt8) (userdest len : Nat) : Routine Errno Machine Unit :=
  if Copycheck userdest len then memcpy source userdest 0 len else fail .efault

def fromBuffer (bytes : List UInt8) (k : Nat) : Routine Errno Machine UInt8 := return bytes.getD k 0

def Machine.take (m : Machine) (npages : Nat) (store : AddrSpace → Nat → AddrSpace) : Machine :=
  { m with cm := (cmGetppages m.cm npages).2 }.setAs (store m.as (cmGetppages m.cm npages).1)

def takeFrames (npages : Nat) (store : AddrSpace → Nat → AddrSpace) : Routine Errno Machine Unit := do
  let m ← get
  modify fun m => m.take npages store
  if (cmGetppages m.cm npages).1 = 0 then fail .enomem else return ()

/-- The assertions of `as_prepare_load`. -/
def AddrSpace.Unprepared (as : AddrSpace) : Prop := as.pbase1 = 0 ∧ as.pbase2 = 0 ∧ as.stackpbase = 0

instance (as : AddrSpace) : Decidable as.Unprepared := inferInstanceAs (Decidable (_ ∧ _))

def asPrepareLoad : Routine Errno Machine Unit := do
  let m ← get
  require m.as.Unprepared
  takeFrames m.as.npages1 fun as pbase1 => { as with pbase1 }
  takeFrames m.as.npages2 fun as pbase2 => { as with pbase2 }
  takeFrames dumbvmStackpages fun as stackpbase => { as with stackpbase }

def asDefineStack : Routine Errno Machine Nat := do
  let m ← get
  require (m.as.stackpbase ≠ 0)
  return userStack

end Os161.Vm
