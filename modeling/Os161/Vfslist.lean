import Os161.SfsFormat

/-! The table of named devices. Every function that can fail an assertion returns `none` then. -/

namespace Os161.Vfs

/-- A filesystem object: its identity and what `FSOP_GETVOLNAME` says. -/
structure Fs where
  id : Nat
  volname : Option CString
  deriving DecidableEq

structure Knowndev where
  name : CString
  rawname : Option CString
  device : Option Nat
  fs : Option Fs
  deriving DecidableEq

/-- What a device name stands for. -/
inductive Root where
  | filesystem (fs : Fs)
  | device (dev : Nat)
  deriving DecidableEq

def Knowndev.itself (kd : Knowndev) : Option (Except Errno Root) := kd.device.map fun dev => .ok (.device dev)

/-- The body of the loop of `vfs_getroot`: `some none` is an entry that was not named. -/
def Knowndev.getroot (kd : Knowndev) (devname : CString) : Option (Option (Except Errno Root)) :=
  match kd.fs with
  | some fs =>
    if kd.name = devname ∨ fs.volname = some devname then some (some (.ok (.filesystem fs)))
    else if kd.rawname = some devname then kd.itself.map some
    else some none
  | none =>
    if kd.rawname ≠ none ∧ kd.name = devname then some (some (.error .enxio))
    else if kd.name = devname then kd.itself.map some
    else if kd.rawname = some devname then kd.itself.map some
    else some none

def vfsGetroot (devname : CString) : List Knowndev → Option (Except Errno Root)
  | [] => some (.error .enodev)
  | kd :: rest =>
    match kd.getroot devname with
    | none => none
    | some (some result) => some result
    | some none => vfsGetroot devname rest

def mkrawname (name : CString) : CString :=
  ⟨name.val ++ [114, 97, 119], by simp [name.property]⟩

def samestring (a b : Option CString) : Bool := a.isSome && b.isSome && a = b

def samestring3 (a b c d : Option CString) : Bool := samestring a b || samestring a c || samestring a d

def badnames (devs : List Knowndev) (n1 n2 n3 : Option CString) : Bool :=
  devs.any fun kd =>
    (kd.fs.any fun fs => samestring3 fs.volname n1 n2 n3) ||
      samestring3 kd.rawname n1 n2 n3 || samestring3 (some kd.name) n1 n2 n3

/-- `memory` tells whether the allocations succeed. -/
def vfsDoadd (devs : List Knowndev) (dname : CString) (mountable : Bool) (dev : Option Nat) (fs : Option Fs)
    (memory : Bool) : Except Errno Unit × List Knowndev :=
  let rawname := if mountable then some (mkrawname dname) else none
  if memory then
    if badnames devs (some dname) rawname (fs.bind Fs.volname) then (.error .eexist, devs)
    else (.ok (), devs ++ [⟨dname, rawname, dev, fs⟩])
  else (.error .enomem, devs)

def findmount (devs : List Knowndev) (devname : CString) : Option Nat :=
  devs.findIdx? fun kd => kd.rawname ≠ none ∧ kd.name = devname

/-- `mounted` is what the mount function hands back for the device. -/
def vfsMount (devs : List Knowndev) (devname : CString) (mounted : Except Errno Fs) :
    Option (Except Errno Unit × List Knowndev) :=
  match findmount devs devname with
  | none => some (.error .enodev, devs)
  | some i =>
    match devs[i]? with
    | none => none
    | some kd =>
      if kd.fs ≠ none then some (.error .ebusy, devs)
      else if kd.device = none then none
      else
        match mounted with
        | .error code => some (.error code, devs)
        | .ok fs => some (.ok (), devs.set i { kd with fs := some fs })

/-- `sync` and `unmounted` are the results of the two calls of the filesystem. -/
def vfsUnmount (devs : List Knowndev) (devname : CString) (sync unmounted : Except Errno Unit) :
    Option (Except Errno Unit × List Knowndev) :=
  match findmount devs devname with
  | none => some (.error .enodev, devs)
  | some i =>
    match devs[i]? with
    | none => none
    | some kd =>
      if kd.fs = none then some (.error .einval, devs)
      else if kd.device = none then none
      else
        match sync, unmounted with
        | .error code, _ => some (.error code, devs)
        | .ok _, .error code => some (.error code, devs)
        | .ok _, .ok _ => some (.ok (), devs.set i { kd with fs := none })

inductive DevCall where
  | adddev (devname : CString) (dev : Nat) (mountable memory : Bool)
  | addfs (devname : CString) (fs : Fs) (memory : Bool)
  | mount (devname : CString) (mounted : Except Errno Fs)
  | unmount (devname : CString) (sync unmounted : Except Errno Unit)

def devStep (devs : List Knowndev) : DevCall → Option (List Knowndev)
  | .adddev devname dev mountable memory => some (vfsDoadd devs devname mountable (some dev) none memory).2
  | .addfs devname fs memory => some (vfsDoadd devs devname false none (some fs) memory).2
  | .mount devname mounted => (vfsMount devs devname mounted).map Prod.snd
  | .unmount devname sync unmounted => (vfsUnmount devs devname sync unmounted).map Prod.snd

end Os161.Vfs
