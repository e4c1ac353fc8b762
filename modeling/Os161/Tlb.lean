import Os161.Spaces

/-! The TLB and the threads that share it. A thread can be interrupted anywhere, also between a TLB miss and
`vm_fault`. -/

namespace Os161.Tlb
open Vm

def numTlb : Nat := 64

/-- A slot: the virtual page, and of the low word the physical page and the valid bit. -/
structure Slot where
  hi : Nat
  lo : Nat
  valid : Bool
  deriving DecidableEq, Repr

def invalidSlot (i : Fin numTlb) : Slot := ⟨(0x80000 + i) * pageSize, 0, false⟩

/-- As far as the TLB is concerned: `stored` is from the store to `t_vmspace` to the end of `as_activate`, `loading`
the part of `load_elf` before frames are taken. -/
inductive Phase where
  | running
  | stored (loads : Bool)
  | loading
  | exited
  deriving DecidableEq, Repr

/-- `missed` is the page of a miss for which `vm_fault` was not called yet, `entry` the address space of
`md_forkentry`. -/
structure Thread where
  vmspace : Option Nat
  phase : Phase
  missed : Option Nat
  entry : Option Nat
  deriving DecidableEq, Repr

structure World where
  tlb : Fin numTlb → Slot
  spaces : Spaces
  threads : Nat → Thread
  forked : Nat
  cur : Nat

inductive Event where
  | touch (vaddr : Nat)
  | vmFault
  | threadFork
  | sysFork
  | mdForkentry
  | asCreate
  | asActivate
  | asDefineRegion (vaddr sz : Nat)
  | asPrepareLoad
  | loadFails
  | miSwitch (next : Nat)
  | threadExit (next : Nat)
  deriving DecidableEq, Repr

namespace World

def me (w : World) : Thread := w.threads w.cur

def setMe (w : World) (thread : Thread) : World :=
  { w with threads := fun t => if t = w.cur then thread else w.threads t }

/-- The current thread is in the given phase, and not on its way to `vm_fault`. -/
def At (w : World) (phase : Phase) : Prop := w.me.phase = phase ∧ w.me.missed = none

instance (w : World) (phase : Phase) : Decidable (w.At phase) := inferInstanceAs (Decidable (_ ∧ _))

def hit (w : World) (page : Nat) : Bool := (List.finRange numTlb).any fun i => (w.tlb i).valid && (w.tlb i).hi = page

/-- The loop of `vm_fault`: the first slot that is not valid. -/
def freeSlot (w : World) : Option (Fin numTlb) := (List.finRange numTlb).find? fun i => !(w.tlb i).valid

/-- `as_activate` does not look at its argument. -/
def asActivate (w : World) : World := { w with tlb := invalidSlot }

/-- The end of `mi_switch`, and the start of `mi_threadstart` for a thread that never ran. -/
def resume (w : World) (next : Nat) : World :=
  if (w.threads next).vmspace.isSome then { w with cur := next }.asActivate else { w with cur := next }

def newThread (entry : Option Nat) : Thread := ⟨none, .running, none, entry⟩

def threadFork (w : World) (entry : Option Nat) : World :=
  { w with threads := fun t => if t = w.forked then newThread entry else w.threads t, forked := w.forked + 1 }

/-- `vm_fault` for the page of the last miss. `none` is a failed assertion. -/
def vmFault (w : World) (page : Nat) : Option World :=
  let done := w.setMe { w.me with missed := none }
  match w.me.vmspace with
  | none => some done
  | some a =>
    if (w.spaces.space a).Ready then
      match (w.spaces.space a).frame page with
      | none => some done
      | some paddr =>
        if pageFrame paddr = paddr then
          match w.freeSlot with
          | none => some done
          | some i => some { done with tlb := fun j => if j = i then ⟨page, paddr, true⟩ else w.tlb j }
        else none
    else none

/-- What `thread_exit` does to the address space of the thread. -/
def dropSpace (w : World) : Option Spaces :=
  match w.me.vmspace with
  | none => some w.spaces
  | some a => spaceStep w.spaces (.asDestroy a)

end World

/-- The codes of faults; `other` is any value that is none of the three. -/
inductive FaultType where
  | read
  | write
  | readonly
  | other
  deriving DecidableEq, Repr

def freeSlot (tlb : Fin numTlb → Slot) : Option (Fin numTlb) := (List.finRange numTlb).find? fun i => !(tlb i).valid

/-- `vm_fault` for a thread with the given address space. `none` is a panic or a failed assertion. -/
def vmFault (as : Option AddrSpace) (tlb : Fin numTlb → Slot) (faulttype : FaultType) (faultaddress : Nat) :
    Option (Except Errno Unit × (Fin numTlb → Slot)) :=
  match faulttype with
  | .readonly => none
  | .other => some (.error .einval, tlb)
  | .read | .write =>
    match as with
    | none => some (.error .efault, tlb)
    | some as =>
      if as.Ready then
        match as.frame (pageFrame faultaddress) with
        | none => some (.error .efault, tlb)
        | some paddr =>
          if pageFrame paddr = paddr then
            match freeSlot tlb with
            | none => some (.error .efault, tlb)
            | some i => some (.ok (), fun j => if j = i then ⟨pageFrame faultaddress, paddr, true⟩ else tlb j)
          else none
      else none

/-- `none` is a failed assertion or an impossible event. A `sys_fork` whose `as_copy` fails goes on with an
uninitialised pointer and is not followed. -/
def tlbStep (w : World) : Event → Option World
  | .touch vaddr =>
    if w.At .running then
      if w.hit (pageFrame vaddr) then some w else some (w.setMe { w.me with missed := some (pageFrame vaddr) })
    else none
  | .vmFault => w.me.missed.bind w.vmFault
  | .threadFork => if w.At .running then some (w.threadFork none) else none
  | .sysFork =>
    if w.At .running then do
      let a ← w.me.vmspace
      let spaces ← spaceStep w.spaces (.asCopy a true)
      if w.spaces.machine.created ∈ spaces.live then
        some ({ w with spaces }.threadFork (some w.spaces.machine.created))
      else none
    else none
  | .mdForkentry =>
    if w.At .running ∧ w.me.entry.isSome then
      some (w.setMe { w.me with vmspace := w.me.entry, entry := none, phase := .stored false })
    else none
  | .asCreate =>
    if w.At .running then do
      let spaces ← spaceStep w.spaces (.asCreate true)
      some ({ w with spaces }.setMe { w.me with vmspace := some w.spaces.machine.created, phase := .stored true })
    else none
  | .asActivate =>
    match w.me.phase with
    | .stored loads => some (w.asActivate.setMe { w.me with phase := if loads then .loading else .running })
    | _ => none
  | .asDefineRegion vaddr sz =>
    if w.At .loading then do
      let a ← w.me.vmspace
      let spaces ← spaceStep w.spaces (.asDefineRegion a vaddr sz)
      some { w with spaces }
    else none
  | .asPrepareLoad =>
    if w.At .loading then do
      let a ← w.me.vmspace
      let spaces ← spaceStep w.spaces (.asPrepareLoad a)
      some ({ w with spaces }.setMe { w.me with phase := .running })
    else none
  | .loadFails => if w.At .loading then some (w.setMe { w.me with phase := .running }) else none
  | .miSwitch next =>
    if next < w.forked ∧ (w.threads next).phase ≠ .exited then some (w.resume next) else none
  | .threadExit next =>
    if w.At .running ∧ next < w.forked ∧ next ≠ w.cur ∧ (w.threads next).phase ≠ .exited then do
      let spaces ← w.dropSpace
      some (({ w with spaces }.setMe { w.me with vmspace := none, phase := .exited }).resume next)
    else none

def start (tlb : Fin numTlb → Slot) (spaces : Spaces) : World :=
  ⟨tlb, spaces, fun _ => World.newThread none, 1, 0⟩

end Os161.Tlb
