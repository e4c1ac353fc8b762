import Os161.Exec

/-! All address spaces, next to the blocks the kernel holds. `vmspace` is here the one a call is about. The
structures come from the kernel heap, which is not part of the coremap. -/

namespace Os161.Vm
open Routine Frames

def Machine.moved (m : Machine) (dest src len : Nat) : Machine :=
  { m with ram := fun p => if dest ≤ p ∧ p < dest + len then m.ram (src + (p - dest)) else m.ram p }

/-- `memmove` between physical addresses, through the direct segment. -/
def memmove (dest src len : Nat) : Routine Errno Machine Unit := do
  let m ← get
  require (len = 0 ∨ src + len ≤ m.ramsize ∧ dest + len ≤ m.ramsize)
  modify fun m => m.moved dest src len

def AddrSpace.regions (old : AddrSpace) : AddrSpace :=
  { asCreate with vbase1 := old.vbase1, npages1 := old.npages1, vbase2 := old.vbase2, npages2 := old.npages2 }

/-- `as_copy` once `as_create` has returned a structure, which becomes `vmspace`. -/
def asCopy (old : AddrSpace) : Routine Errno Machine Unit := do
  modify fun m => (m.switchAs m.cm).setAs old.regions
  match ← attempt asPrepareLoad with
  | .error _ => fail .enomem
  | .ok _ =>
    let m ← get
    require (m.as.pbase1 ≠ 0)
    require (m.as.pbase2 ≠ 0)
    require (m.as.stackpbase ≠ 0)
    memmove m.as.pbase1 old.pbase1 (old.npages1 * pageSize)
    memmove m.as.pbase2 old.pbase2 (old.npages2 * pageSize)
    memmove m.as.stackpbase old.stackpbase (dumbvmStackpages * pageSize)

/-- The block behind a base address, which is 0 when there is none. -/
def blockAt (freepaddr pbase npages : Nat) : List Block :=
  if pbase = 0 then [] else [⟨(pbase - freepaddr) / pageSize, npages⟩]

def AddrSpace.blocks (as : AddrSpace) (freepaddr : Nat) : List Block :=
  blockAt freepaddr as.stackpbase dumbvmStackpages ++
    (blockAt freepaddr as.pbase2 as.npages2 ++ blockAt freepaddr as.pbase1 as.npages1)

/-- `live` are the address spaces not destroyed, `kernel` the blocks of `alloc_kpages`, `obtained` (history) the
blocks each address space got. -/
structure Spaces where
  machine : Machine
  live : List Nat
  kernel : List Block
  obtained : List (Nat × Block)

/-- The heap grants or refuses the structure of a new address space. -/
inductive SpaceCall where
  | asCreate (granted : Bool)
  | asDefineRegion (a vaddr sz : Nat)
  | asPrepareLoad (a : Nat)
  | asCopy (old : Nat) (granted : Bool)
  | asDestroy (a : Nat)
  | allocKpages (npages : Nat)
  | freeKpages (block : Block)
  | store (a vaddr : Nat) (byte : UInt8)
  deriving DecidableEq, Repr

namespace Spaces

def space (s : Spaces) (a : Nat) : AddrSpace := s.machine.spaces a

/-- What a user address of an address space reads as, when `vm_fault` resolves it. -/
def seen (s : Spaces) (a vaddr : Nat) : Option UInt8 :=
  if (s.space a).Ready then ((s.space a).translate vaddr).map s.machine.ram else none

def select (s : Spaces) (a : Nat) (inside : a < s.machine.created) : Machine :=
  { s.machine with vmspace := a, current := inside }

/-- The state after `as_prepare_load` has returned, successfully or not. -/
def prepared (s : Spaces) (m : Machine) : Spaces :=
  { s with machine := m, obtained := (m.as.blocks m.cm.freepaddr).map (Prod.mk m.vmspace) ++ s.obtained }

def frames (s : Spaces) : System := ⟨s.machine.cm, s.kernel⟩

def setFrames (s : Spaces) (system : System) : Spaces :=
  { s with machine := { s.machine with cm := system.cm }, kernel := system.live }

end Spaces

/-- `none` is a failed assertion or a call that cannot be made. -/
def spaceStep (s : Spaces) : SpaceCall → Option Spaces
  | .asCreate granted =>
    if granted then
      some { s with machine := s.machine.switchAs s.machine.cm, live := s.machine.created :: s.live }
    else some s
  | .asDefineRegion a vaddr sz =>
    if inside : a ∈ s.live ∧ a < s.machine.created then
      match asDefineRegion (s.space a) vaddr sz with
      | .ok as => some { s with machine := (s.select a inside.2).setAs as }
      | .error _ => some s
    else none
  | .asPrepareLoad a =>
    if inside : a ∈ s.live ∧ a < s.machine.created then
      (asPrepareLoad (s.select a inside.2)).map fun (_, m) => s.prepared m
    else none
  | .asCopy old granted =>
    if old ∈ s.live then
      if granted then
        (asCopy (s.space old) s.machine).map fun (result, m) =>
          match result with
          | .ok _ => { s.prepared m with live := m.vmspace :: s.live }
          | .error _ => s.prepared m
      else some s
    else none
  | .asDestroy a => if a ∈ s.live then some { s with live := s.live.erase a } else none
  | .allocKpages npages => (step s.frames (.getppages npages)).map s.setFrames
  | .freeKpages block => (step s.frames (.freekpages block)).map s.setFrames
  | .store a vaddr byte =>
    if a ∈ s.live ∧ (s.space a).Ready then
      ((s.space a).translate vaddr).map fun paddr => { s with machine := s.machine.setByte paddr byte }
    else none

end Os161.Vm
