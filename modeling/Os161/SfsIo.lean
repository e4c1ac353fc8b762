import Os161.Uio

/-! The disk driver and the block I/O of SFS on top of it. -/

namespace Os161
open Routine

/-- Both the sector size of the disk and the block size of the file system. -/
def sfsBlocksize : Nat := 512

abbrev Block := Fin 512 → UInt8

def Block.toList (block : Block) : List UInt8 := List.ofFn block

def Block.ofList (bytes : List UInt8) : Block := fun i => bytes.getD i 0

def Block.zeros : Block := fun _ => 0

theorem Block.length_toList (block : Block) : block.toList.length = 512 := List.length_ofFn

theorem Block.ofList_toList (block : Block) : Block.ofList block.toList = block := by
  funext i
  simp [Block.ofList, Block.toList, -List.ofFn_succ]

theorem Block.toList_ofList {bytes} (full : bytes.length = 512) : (Block.ofList bytes).toList = bytes := by
  apply List.ext_getElem
  · rw [Block.length_toList, full]
  · intro i first last
    simp [Block.toList, Block.ofList, List.getElem?_eq_getElem last, -List.ofFn_succ]

attribute [irreducible] Block.toList

/-- The disk. `outcomes` tells the coming sector operations which succeed; the others end with a media error and
transfer nothing. -/
structure Lhd where
  dBlocks : UInt32
  sectors : UInt32 → Block
  outcomes : Nat → Bool

def Lhd.store (lh : Lhd) (sector : UInt32) (data : Block) : Lhd :=
  { lh with sectors := fun other => if other = sector then data else lh.sectors other }

/-- Start a sector operation and wait for its interrupt: the on-card buffer, or what `lhd_code_to_errno` makes of
the status. -/
def lhdStart (rw : UioRw) (sector : UInt32) (buffer : Block) : Routine Errno Lhd Block := do
  let lh ← get
  if lh.dBlocks ≤ sector then fail .einval
  else
    modify fun lh => { lh with outcomes := fun n => lh.outcomes (n + 1) }
    if lh.outcomes 0 then
      match rw with
      | .read => return lh.sectors sector
      | .write =>
        modify fun lh => lh.store sector buffer
        return buffer
    else fail .eio

def onDisk (routine : Routine Errno Lhd α) : Routine Errno (Lhd × Uio) α :=
  routine.zoom Prod.fst fun lh both => (lh, both.2)

def onUio {σ : Type} (routine : Routine Errno Uio α) : Routine Errno (σ × Uio) α :=
  routine.zoom Prod.snd fun uio both => (both.1, uio)

def lhdSector (sector : UInt32) : Routine Errno (Lhd × Uio) Unit := do
  let (_, uio) ← get
  match uio.rw with
  | .write =>
    let buffer ← onUio (uiomove Block.zeros.toList)
    let _ ← onDisk (lhdStart .write sector (Block.ofList buffer))
    return ()
  | .read =>
    let buffer ← onDisk (lhdStart .read sector Block.zeros)
    let _ ← onUio (uiomove buffer.toList)
    return ()

def lhdLoop : (len : Nat) → (sector : UInt32) → Routine Errno (Lhd × Uio) Unit
  | 0, _ => return ()
  | len + 1, sector => do
    lhdSector sector
    lhdLoop len (sector + 1)

def lhdIo : Routine Errno (Lhd × Uio) Unit := do
  let (lh, uio) ← get
  let sector := u32 (uio.offset.tdiv 512)
  let sectoff := u32 (uio.offset.tmod 512)
  let len := uio.resid / 512
  let lenoff := uio.resid % 512
  if sectoff ≠ 0 ∨ lenoff ≠ 0 then fail .einval
  else if lh.dBlocks < sector + UInt32.ofNat len then fail .einval
  else lhdLoop len sector

/-- One pass from the label `retry`; `again` is where an I/O error leads. -/
def sfsAttempt (again : Routine Errno (Lhd × Uio) Unit) : Routine Errno (Lhd × Uio) Unit := do
  match ← attempt lhdIo with
  | .error .einval => halt
  | .error .eio => again
  | result => finish result

def sfsRetry : (left : Nat) → Routine Errno (Lhd × Uio) Unit
  | 0 => sfsAttempt (fail .eio)
  | left + 1 => sfsAttempt (sfsRetry left)

def sfsRwblock : Routine Errno (Lhd × Uio) Unit := sfsRetry 10

def sfsuio (data : Block) (block : UInt32) (rw : UioRw) : Uio :=
  mkKuio data.toList (offT (block.toNat * 512)) rw

/-- Returns the contents of the buffer after the read. -/
def sfsRblock (data : Block) (block : UInt32) : Routine Errno Lhd Block := do
  let (result, ku) ← withLocal (sfsuio data block .read) sfsRwblock
  finish (result.map fun _ => Block.ofList (ku.moved ++ ku.rest))

def sfsWblock (data : Block) (block : UInt32) : Routine Errno Lhd Unit := do
  let (result, _) ← withLocal (sfsuio data block .write) sfsRwblock
  finish result

end Os161
