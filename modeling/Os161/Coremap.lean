import Mathlib.Algebra.Group.Nat.Defs
import Mathlib.Data.List.Basic

/-! The physical frame allocator. A table tells which frames are free; the length of a block is stored in its first
entry only. -/

namespace Os161.Vm

def pageSize : Nat := 4096

/-- Size of an entry in memory: two addresses and two integers. -/
def sizeofCmEntry : Nat := 16

def mipsKseg0 : Nat := 0x80000000

/-- Addresses and sizes are 32 bits wide. -/
def word : Nat := 2 ^ 32

def paddrToKvaddr (paddr : Nat) : Nat := (paddr + mipsKseg0) % word

def kvaddrToPaddr (vaddr : Nat) : Nat := (vaddr + word - mipsKseg0) % word

/-- The memory `ram_getsize` reports, which `ram_bootstrap` cuts off at 508 megabytes. -/
structure Ram where
  firstpaddr : Nat
  lastpaddr : Nat
  ordered : firstpaddr ≤ lastpaddr
  bounded : lastpaddr ≤ 508 * 1024 * 1024

structure CmEntry where
  pAddr : Nat
  vAddr : Nat
  free : Bool
  length : Int
  deriving DecidableEq, Repr

structure Coremap where
  coremap : List CmEntry
  freepaddr : Nat
  deriving DecidableEq, Repr

def Coremap.cmEnd (cm : Coremap) : Nat := cm.coremap.length

def roundup (a b : Nat) : Nat := (a + b - 1) / b * b

/-- How the loop of `cm_bootstrap` leaves entry `i`. -/
def freshEntry (freepaddr i : Nat) : CmEntry where
  pAddr := freepaddr + i * pageSize
  vAddr := paddrToKvaddr (freepaddr + i * pageSize)
  free := true
  length := 0

/-- `none` is a failed assertion. -/
def cmBootstrap (ram : Ram) : Option Coremap :=
  if ram.firstpaddr % pageSize ≠ 0 ∨ ram.lastpaddr % pageSize ≠ 0 then none
  else
    let numPages := (ram.lastpaddr - ram.firstpaddr) / pageSize
    let cmSize := roundup (numPages * sizeofCmEntry) pageSize
    let freepaddr := ram.firstpaddr + cmSize
    if ram.lastpaddr ≤ freepaddr then none
    else
      let cmEnd := (ram.lastpaddr - freepaddr) / pageSize
      some { coremap := (List.range cmEnd).map (freshEntry freepaddr), freepaddr }

/-- The first-fit search of `cm_getppages`: the first and last index of a run of `npages` free entries. -/
def findBlock (npages : Int) : List CmEntry → (i blockStart freeCount : Nat) → Option (Nat × Nat)
  | [], _, _, _ => none
  | entry :: rest, i, blockStart, freeCount =>
    if entry.free then
      let blockStart := if freeCount + 1 = 1 then i else blockStart
      if ((freeCount + 1 : Nat) : Int) = npages then some (blockStart, i)
      else findBlock npages rest (i + 1) blockStart (freeCount + 1)
    else findBlock npages rest (i + 1) blockStart 0

/-- Both loops that store a flag into `count` consecutive entries. -/
def setFree (flag : Bool) (entries : List CmEntry) (start count : Nat) : List CmEntry :=
  (List.range' start count).foldl (fun entries j => entries.modify j fun entry => { entry with free := flag }) entries

/-- Returns the physical address of the block, 0 if there is none. -/
def cmGetppages (cm : Coremap) (npages : Int) : Nat × Coremap :=
  match findBlock npages cm.coremap 0 0 0 with
  | none => (0, cm)
  | some (blockStart, last) =>
    let entries := cm.coremap.modify blockStart fun entry => { entry with length := npages }
    let entries := setFree false entries blockStart (last + 1 - blockStart)
    ((entries[blockStart]?.map CmEntry.pAddr).getD 0, { cm with coremap := entries })

/-- `none` is a failed assertion. The loop runs while `i` is below the stored length of the block. -/
def cmFreekpages (cm : Coremap) (addr : Nat) : Option Coremap :=
  let pAddress := kvaddrToPaddr addr
  let cmIndex := (pAddress + word - cm.freepaddr) % word / pageSize
  match cm.coremap[cmIndex]? with
  | none => none
  | some entry =>
    if entry.length ≤ 0 then none
    else
      let entries := setFree true cm.coremap cmIndex (entry.length.toNat - cmIndex)
      some { cm with coremap := entries.modify cmIndex fun entry => { entry with length := 0 } }

def Coremap.frame (cm : Coremap) (i : Nat) : Nat := cm.freepaddr + i * pageSize

/-- What `cm_bootstrap` sets up and no call changes: addresses determine indices. -/
structure Coremap.Laid (cm : Coremap) : Prop where
  address : ∀ i entry, cm.coremap[i]? = some entry → entry.pAddr = cm.frame i
  positive : 0 < cm.freepaddr
  aligned : cm.freepaddr % pageSize = 0
  fits : cm.frame cm.cmEnd ≤ 508 * 1024 * 1024

namespace Frames

/-- A block some caller holds: the frames `start` up to `start + length`. -/
structure Block where
  start : Nat
  length : Nat
  deriving DecidableEq, Repr

def Block.Covers (block : Block) (i : Nat) : Prop := block.start ≤ i ∧ i < block.start + block.length

instance (block : Block) (i : Nat) : Decidable (block.Covers i) := inferInstanceAs (Decidable (_ ∧ _))

/-- The allocator together with the blocks that were handed out and not freed. -/
structure System where
  cm : Coremap
  live : List Block
  deriving DecidableEq, Repr

inductive Call where
  | getppages (npages : Nat)
  | freekpages (block : Block)
  deriving DecidableEq, Repr

/-- Callers ask for at least one page and free what they hold, by the kernel
address of its first frame. -/
def step (system : System) : Call → Option System
  | .getppages npages =>
    if npages = 0 then none
    else
      let (paddr, cm) := cmGetppages system.cm npages
      if paddr = 0 then some { system with cm }
      else some { cm, live := ⟨(paddr - cm.freepaddr) / pageSize, npages⟩ :: system.live }
  | .freekpages block =>
    if block ∈ system.live then
      (cmFreekpages system.cm (paddrToKvaddr (system.cm.frame block.start))).map fun cm =>
        { cm, live := system.live.erase block }
    else none

def boot (ram : Ram) : Option System := (cmBootstrap ram).map fun cm => { cm, live := [] }

end Frames

end Os161.Vm
