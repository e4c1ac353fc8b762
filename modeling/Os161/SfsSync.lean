import Os161.SfsMount

/-! `sfs_sync`, with the superblock that is kept in memory. -/

namespace Os161
open Routine

structure SfsFs where
  sfs : Sfs
  super : Block
  superdirty : Bool

/-- `sfs_domount` ends the volume name with a null character and does not mark the superblock as changed. -/
def mountedFs (disk : Lhd) (sfs : Sfs) : SfsFs where
  sfs := sfs
  super := Function.update (disk.sectors sfsSbLocation) 39 0
  superdirty := false

def onVolume (routine : Routine Errno Sfs α) : Routine Errno SfsFs α :=
  routine.zoom SfsFs.sfs fun sfs fs => { fs with sfs }

/-- The loop over the loaded vnodes. The result of `VOP_FSYNC` is not looked at. -/
def syncVnodes : List UInt32 → Routine Errno Sfs Unit
  | [] => return ()
  | sv :: rest => do
    let _ ← attempt (sfsSyncInode sv)
    syncVnodes rest

/-- `sfs_mapio` for writing, from block `j` of the bitmap on. -/
def sfsMapioWrite (bitdata : List UInt8) : (left j : Nat) → Routine Errno Lhd Unit
  | 0, _ => return ()
  | left + 1, j => do
    sfsWblock (Block.ofList (bitdata.drop (j * 512))) (sfsMapLocation + UInt32.ofNat j)
    sfsMapioWrite bitdata left (j + 1)

def syncFreemap : Routine Errno Sfs Unit := do
  let sfs ← get
  if sfs.freemapdirty then
    onDevice (sfsMapioWrite sfs.freemap.v (sfsBitblocks sfs.nblocks).toNat 0)
    modify fun sfs => { sfs with freemapdirty := false }
  else return ()

def syncSuper : Routine Errno SfsFs Unit := do
  let fs ← get
  if fs.superdirty then
    onVolume (onDevice (sfsWblock fs.super sfsSbLocation))
    modify fun fs => { fs with superdirty := false }
  else return ()

def sfsSync : Routine Errno SfsFs Unit := do
  let fs ← get
  onVolume (syncVnodes (fs.sfs.vnodes.map (·.ino)))
  onVolume syncFreemap
  syncSuper

end Os161
