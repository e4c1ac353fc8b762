import Os161.SfsVnode

/-! Making a volume with `mksfs` and mounting it. -/

namespace Os161
open Routine

/-- The errors `mksfs` exits with. -/
inductive MksfsError where
  | illegalVolname
  | volnameTooLong
  | fsTooLarge
  | diskwrite
  deriving DecidableEq, Repr

def sfsVolnameSize : Nat := 32
def maxbitblocks : UInt32 := 32

/-- Write to the raw device, which has no sectors beyond its end. -/
def diskwrite (data : Block) (block : UInt32) : Routine MksfsError Lhd Unit := do
  let disk ← get
  if block < disk.dBlocks then modify (·.store block data) else fail .diskwrite

def superBlock (volname : CString) (nblocks : UInt32) : Block := fun i =>
  if i.val < 4 then byteOf sfsMagic i
  else if i.val < 8 then byteOf nblocks (i - 4)
  else volname.val.getD (i - 8) 0

def writesuper (volname : CString) (nblocks : UInt32) : Routine MksfsError Lhd Unit := do
  if sfsVolnameSize ≤ volname.val.length then fail .volnameTooLong
  else diskwrite (superBlock volname nblocks) sfsSbLocation

def rootInode : SfsInode where
  size := 0
  type := sfsTypeDir
  linkcount := 1
  direct := fun _ => 0
  indirect := 0
  waste := fun _ => 0

def writerootdir : Routine MksfsError Lhd Unit := diskwrite rootInode.toBlock sfsRootLocation

/-- Mark a bit that must be clear; an assertion that fails is `none`. -/
def doallocbit (bitbuf : List UInt8) (bit : Nat) : Option (List UInt8) :=
  if bitbuf.getD (bit / 8) 0 &&& bitMask (bit % 8) = 0 then
    some (bitbuf.set (bit / 8) (bitbuf.getD (bit / 8) 0 ||| bitMask (bit % 8)))
  else none

def doallocbits : (left bit : Nat) → List UInt8 → Option (List UInt8)
  | 0, _, bitbuf => some bitbuf
  | left + 1, bit, bitbuf => (doallocbit bitbuf bit).bind (doallocbits left (bit + 1))

def freshBitbuf (fsblocks : UInt32) : Option (List UInt8) := do
  let nbits := sfsBitmapsize fsblocks
  let nblocks := sfsBitblocks fsblocks
  let bitbuf := List.replicate (32 * 512) 0
  let bitbuf ← doallocbit bitbuf sfsSbLocation.toNat
  let bitbuf ← doallocbit bitbuf sfsRootLocation.toNat
  let bitbuf ← doallocbits nblocks.toNat sfsMapLocation.toNat bitbuf
  doallocbits (nbits.toNat - fsblocks.toNat) fsblocks.toNat bitbuf

def writebitblocks (bitbuf : List UInt8) : (left i : Nat) → Routine MksfsError Lhd Unit
  | 0, _ => return ()
  | left + 1, i => do
    diskwrite (Block.ofList (bitbuf.drop (i * 512))) (sfsMapLocation + UInt32.ofNat i)
    writebitblocks bitbuf left (i + 1)

def writebitmap (fsblocks : UInt32) : Routine MksfsError Lhd Unit := do
  let nblocks := sfsBitblocks fsblocks
  if maxbitblocks < nblocks then fail .fsTooLarge
  else
    match freshBitbuf fsblocks with
    | none => halt
    | some bitbuf => writebitblocks bitbuf nblocks.toNat 0

/-- Remove one trailing colon from the volume name, and allow no other and no slash. -/
def checkVolname (volname : CString) : Option CString :=
  let stem := volname.val.takeWhile (· ≠ 58)
  if 1 < volname.val.length - stem.length then none
  else if 47 ∈ stem then none
  else some ⟨stem, fun zero => volname.property (List.takeWhile_subset _ zero)⟩

def mksfs (volname : CString) : Routine MksfsError Lhd Unit := do
  match checkVolname volname with
  | none => fail .illegalVolname
  | some volname =>
    let disk ← get
    writesuper volname disk.dBlocks
    writerootdir
    writebitmap disk.dBlocks

/-- `sfs_mapio` for reading: fill the bitmap data from block `j` of the bitmap on. -/
def sfsMapioRead : (left j : Nat) → (bitdata : List UInt8) → Routine Errno Lhd (List UInt8)
  | 0, _, bitdata => return bitdata
  | left + 1, j, bitdata => do
    let block ← sfsRblock (Block.ofList (bitdata.drop (j * 512))) (sfsMapLocation + UInt32.ofNat j)
    sfsMapioRead left (j + 1) (bitdata.take (j * 512) ++ block.toList ++ bitdata.drop ((j + 1) * 512))

/-- `nospace` and `heap` describe the environment from the mount on. -/
def sfsDomount (nospace heap : Nat → Bool) : Routine Errno Lhd Sfs := do
  if heap 0 = false ∨ heap 1 = false then fail .enomem
  else
    let data ← sfsRblock Block.zeros sfsSbLocation
    let nblocks := Words.ofBlock data 1
    if Words.ofBlock data 0 ≠ sfsMagic then fail .einval
    else if heap 2 = false then fail .enomem
    else
      let freemap := bitmapCreate (sfsBitmapsize nblocks)
      let v ← sfsMapioRead (sfsBitblocks nblocks).toNat 0 freemap.v
      let device ← get
      return {
        nblocks
        device
        vnodes := []
        freemap := { freemap with v }
        freemapdirty := false
        nospace
        heap := fun n => heap (n + 3) }

end Os161
