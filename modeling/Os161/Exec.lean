import Os161.LoadElf

/-! The `execv` system call. The file behind a path and the kernel heap are given from outside; kernel structures
are not in the modelled memory. -/

namespace Os161.Vm
open Routine

/-- What the rest of the kernel answers: the file `vfs_open` finds, and the frames free after `as_create`, `none` if
it fails. -/
structure Kernel where
  vfsOpen : List UInt8 → Except Errno File
  heap : Option Coremap
  laid : ∀ cm, heap = some cm → cm.Laid

def Machine.path (m : Machine) (program : Nat) : Option (List UInt8) :=
  (m.strlen program).map fun len => (List.range len).map fun k => (m.kernelByte (program + k)).getD 0

/-- The first colon or slash, when it is a colon that ends a device name. -/
def deviceColon (path : List UInt8) : Option Nat :=
  let i := path.findIdx fun byte => byte = 0x3a ∨ byte = 0x2f
  if path[i]? = some 0x3a ∧ 0 < i then some i else none

/-- `getdevice` ends the device name where its colon was. -/
def cutDevice (program : Nat) (path : List UInt8) (m : Machine) : Machine :=
  match deviceColon path with
  | none => m
  | some colon =>
    match m.kernelPaddr (program + colon) with
    | none => m
    | some paddr => m.setByte paddr 0

/-- `as_create`, and the new address space becomes that of the thread. -/
def Machine.switchAs (m : Machine) (cm : Coremap) : Machine :=
  { m with
    cm
    spaces := fun i => if i = m.created then asCreate else m.spaces i
    created := m.created + 1
    vmspace := m.created
    current := Nat.lt_succ_self _ }

/-- What `md_usermode` starts the program with; the stack pointer is `argv`. -/
structure Usermode where
  argc : Nat
  argv : Nat
  entry : Nat
  deriving DecidableEq, Repr

def below (address size : Nat) : Nat := (address + (word - size % word)) % word

def argumentCount (m : Machine) (args : Nat) : Option Nat :=
  Scan.scan (fun i => m.kernelWord (args + 4 * i)) (· = 0) (word / 4) 0

/-- The loop that copies the strings from string `i` on, whatever `copyout` returns: their addresses and the last of
them. -/
def copyStrings (args : Nat) : (i left place : Nat) → Routine Errno Machine (List Nat × Nat)
  | _, 0, place => return ([], place)
  | i, left + 1, place => do
    let m ← get
    match m.kernelWord (args + 4 * i) with
    | none => halt
    | some string =>
      match m.strlen string with
      | none => halt
      | some len =>
        let place := below place (len + 1)
        let _ ← attempt (copyout (fun k => loadByte (string + k)) place (len + 1))
        let (rest, last) ← copyStrings args (i + 1) left place
        return (place :: rest, last)

def wordBytes (value : Nat) : List UInt8 :=
  [UInt8.ofNat (value / 0x1000000), UInt8.ofNat (value / 0x10000), UInt8.ofNat (value / 0x100), UInt8.ofNat value]

/-- The pointers, with the null pointer that ends them. -/
def pointerBytes (strings : List Nat) : List UInt8 := (strings ++ [0]).flatMap wordBytes

/-- Where an array of the given size goes below `last`; the padding aligns it. -/
def arrayAddress (last space : Nat) : Nat := below (below last space) (below last space % 4)

/-- From the count of the arguments to `md_usermode`. -/
def passArguments (args stackptr entry : Nat) : Routine Errno Machine Usermode := do
  let m ← get
  match argumentCount m args with
  | none => halt
  | some argc =>
    let (strings, last) ← copyStrings args 0 argc stackptr
    let space := 4 * (argc + 1)
    let _ ← attempt (copyout (fromBuffer (pointerBytes strings)) (arrayAddress last space) space)
    return { argc, argv := arrayAddress last space, entry }

/-- `kprintf` and `vfs_open` read the path unprotected, so that an unreadable path halts. -/
def sysExecv (kernel : Kernel) (program args : Nat) : Routine Errno Machine Usermode := do
  let m ← get
  match m.path program with
  | none => halt
  | some path =>
    modify (cutDevice program path)
    let file ← finish (kernel.vfsOpen path)
    match kernel.heap with
    | none => fail .enomem
    | some cm =>
      modify fun m => m.switchAs cm
      let entry ← loadElf file
      let stackptr ← asDefineStack
      passArguments args stackptr entry

end Os161.Vm
