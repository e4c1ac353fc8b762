import Os161.Bitmap
import Os161.SfsFormat

/-! A mounted SFS volume: space allocation, block mapping and file I/O. -/

namespace Os161
open Routine

structure SfsVnode where
  ino : UInt32
  inode : SfsInode
  dirty : Bool
  refcount : Nat
  opencount : Nat

/-- A mounted volume. `nospace` tells the coming calls of `bitmap_alloc` which find no block, whatever the bitmap
says, `heap` those of `kmalloc` which succeed. -/
structure Sfs where
  nblocks : UInt32
  device : Lhd
  vnodes : List SfsVnode
  freemap : Bitmap
  freemapdirty : Bool
  nospace : Nat → Bool
  heap : Nat → Bool

def onDevice (routine : Routine Errno Lhd α) : Routine Errno Sfs α :=
  routine.zoom Sfs.device fun device sfs => { sfs with device }

def onFreemap (routine : Routine Errno Bitmap α) : Routine Errno Sfs α :=
  routine.zoom Sfs.freemap fun freemap sfs => { sfs with freemap }

def onSfs (routine : Routine Errno Sfs α) : Routine Errno (Sfs × Uio) α :=
  routine.zoom Prod.fst fun sfs both => (sfs, both.2)

def onTransfer (routine : Routine Errno (Lhd × Uio) α) : Routine Errno (Sfs × Uio) α :=
  routine.zoom (fun both => (both.1.device, both.2)) fun after both => ({ both.1 with device := after.1 }, after.2)

def Sfs.vnode? (sfs : Sfs) (ino : UInt32) : Option SfsVnode := sfs.vnodes.find? (·.ino = ino)

/-- Follow a vnode pointer. A vnode is loaded at most once, so pointers are
represented by inode numbers. -/
def theVnode (sv : UInt32) : Routine Errno Sfs SfsVnode := do
  let sfs ← get
  match sfs.vnode? sv with
  | some vnode => return vnode
  | none => halt

def Sfs.setVnode (sfs : Sfs) (sv : UInt32) (f : SfsVnode → SfsVnode) : Sfs :=
  { sfs with vnodes := sfs.vnodes.map fun vnode => if vnode.ino = sv then f vnode else vnode }

def changeVnode (sv : UInt32) (f : SfsVnode → SfsVnode) : Routine Errno Sfs Unit := modify (·.setVnode sv f)

def changeInode (sv : UInt32) (f : SfsInode → SfsInode) : Routine Errno Sfs Unit :=
  changeVnode sv fun vnode => { vnode with inode := f vnode.inode, dirty := true }

def sfsClearblock (block : UInt32) : Routine Errno Sfs Unit := onDevice (sfsWblock Block.zeros block)

def sfsSyncInode (sv : UInt32) : Routine Errno Sfs Unit := do
  let vnode ← theVnode sv
  if vnode.dirty then
    onDevice (sfsWblock vnode.inode.toBlock vnode.ino)
    changeVnode sv fun vnode => { vnode with dirty := false }
  else return ()

def sfsBitmapAlloc : Routine Errno Sfs UInt32 := do
  let sfs ← get
  modify fun sfs => { sfs with nospace := fun n => sfs.nospace (n + 1) }
  if sfs.nospace 0 then fail .enospc else onFreemap bitmapAlloc

def sfsBalloc : Routine Errno Sfs UInt32 := do
  let diskblock ← sfsBitmapAlloc
  modify fun sfs => { sfs with freemapdirty := true }
  let sfs ← get
  require (diskblock < sfs.nblocks)
  sfsClearblock diskblock
  return diskblock

def sfsBfree (diskblock : UInt32) : Routine Errno Sfs Unit := do
  onFreemap (bitmapUnmark diskblock)
  modify fun sfs => { sfs with freemapdirty := true }

def sfsBused (diskblock : UInt32) : Routine Errno Sfs Bool := do
  let sfs ← get
  require (diskblock < sfs.nblocks)
  return sfs.freemap.isset diskblock

def SfsInode.setDirect (inode : SfsInode) (i : Fin 15) (block : UInt32) : SfsInode :=
  { inode with direct := Function.update inode.direct i block }

/-- The end of `sfs_bmap`: a block that is handed back must be in use. -/
def bmapResult (block : UInt32) : Routine Errno Sfs UInt32 := do
  if block ≠ 0 then
    let used ← sfsBused block
    require (used = true)
    return block
  else return block

def bmapDirect (sv : UInt32) (fileblock : Fin 15) (doalloc : Bool) : Routine Errno Sfs UInt32 := do
  let vnode ← theVnode sv
  if vnode.inode.direct fileblock = 0 ∧ doalloc = true then
    let block ← sfsBalloc
    changeInode sv (·.setDirect fileblock block)
    bmapResult block
  else bmapResult (vnode.inode.direct fileblock)

/-- The number and the contents of the indirect block, which is allocated when it is missing. -/
def bmapIndirectBlock (sv : UInt32) (idblock : UInt32) : Routine Errno Sfs (UInt32 × Words) := do
  if idblock = 0 then
    let idblock ← sfsBalloc
    changeInode sv fun inode => { inode with indirect := idblock }
    return (idblock, Words.zeros)
  else
    let data ← onDevice (sfsRblock Block.zeros idblock)
    return (idblock, Words.ofBlock data)

def bmapIndirect (sv : UInt32) (idoff : Fin 128) (doalloc : Bool) : Routine Errno Sfs UInt32 := do
  let vnode ← theVnode sv
  if vnode.inode.indirect = 0 ∧ doalloc = false then return 0
  else
    let (idblock, idbuf) ← bmapIndirectBlock sv vnode.inode.indirect
    if idbuf idoff = 0 ∧ doalloc = true then
      let block ← sfsBalloc
      onDevice (sfsWblock (Words.toBlock (Function.update idbuf idoff block)) idblock)
      bmapResult block
    else bmapResult (idbuf idoff)

def sfsBmap (sv : UInt32) (fileblock : UInt32) (doalloc : Bool) : Routine Errno Sfs UInt32 :=
  if direct : fileblock.toNat < sfsNdirect then bmapDirect sv ⟨fileblock.toNat, direct⟩ doalloc
  else
    let fileblock := fileblock.toNat - sfsNdirect
    let idnum := fileblock / sfsDbperidb
    let idoff := fileblock % sfsDbperidb
    if idnum > 0 then fail .einval
    else bmapIndirect sv ⟨idoff, Nat.mod_lt _ (by decide)⟩ doalloc

/-- The buffer of `sfs_partialio`: the block, or zeros for a hole. -/
def partialBuffer (diskblock : UInt32) (rw : UioRw) : Routine Errno Sfs Block := do
  if diskblock = 0 then
    require (rw = .read)
    return Block.zeros
  else onDevice (sfsRblock Block.zeros diskblock)

def sfsPartialio (sv : UInt32) (skipstart len : UInt32) : Routine Errno (Sfs × Uio) Unit := do
  let (_, uio) ← get
  require (skipstart + len ≤ 512)
  let fileblock := u32 (uio.offset.tdiv 512)
  let diskblock ← onSfs (sfsBmap sv fileblock (uio.rw = .write))
  let iobuf ← onSfs (partialBuffer diskblock uio.rw)
  let bytes := iobuf.toList
  let moved ← onUio (uiomove ((bytes.drop skipstart.toNat).take len.toNat))
  match uio.rw with
  | .read => return ()
  | .write =>
    let filled := bytes.take skipstart.toNat ++ moved ++ bytes.drop (skipstart.toNat + len.toNat)
    onSfs (onDevice (sfsWblock (Block.ofList filled) diskblock))

def sfsBlockio (sv : UInt32) : Routine Errno (Sfs × Uio) Unit := do
  let (_, uio) ← get
  let fileblock := u32 (uio.offset.tdiv 512)
  let diskblock ← onSfs (sfsBmap sv fileblock (uio.rw = .write))
  if diskblock = 0 then
    require (uio.rw = .read)
    onUio (uiomovezeros sfsBlocksize)
  else
    let saveoff := uio.offset
    let diskoff := offT (diskblock * 512).toNat
    require (sfsBlocksize ≤ uio.resid)
    let saveres := uio.resid
    onUio (modify fun uio => { uio with offset := diskoff, resid := sfsBlocksize })
    let result ← attempt (onTransfer sfsRwblock)
    onUio (modify fun uio =>
      { uio with
        offset := offT (offT (uio.offset - diskoff) + saveoff)
        resid := (sizeSub uio.resid sfsBlocksize + saveres) % 2 ^ 32 })
    finish result

def sfsBlocks (sv : UInt32) : (nblocks : Nat) → Routine Errno (Sfs × Uio) Unit
  | 0 => return ()
  | nblocks + 1 => do
    sfsBlockio sv
    sfsBlocks sv nblocks

def sfsLeading (sv : UInt32) : Routine Errno (Sfs × Uio) Unit := do
  let (_, uio) ← get
  let blkoff := u32 (uio.offset.tmod 512)
  if blkoff ≠ 0 then
    let len := 512 - blkoff
    sfsPartialio sv blkoff (if uio.resid < len.toNat then UInt32.ofNat uio.resid else len)
  else return ()

def sfsAligned (sv : UInt32) : Routine Errno (Sfs × Uio) Unit := do
  let (_, uio) ← get
  if uio.resid = 0 then return ()
  else
    require (uio.offset.tmod 512 = 0)
    sfsBlocks sv (uio.resid / sfsBlocksize)
    let (_, uio) ← get
    require (uio.resid < sfsBlocksize)
    if 0 < uio.resid then sfsPartialio sv 0 (UInt32.ofNat uio.resid) else return ()

def sfsExtend (sv : UInt32) : Routine Errno (Sfs × Uio) Unit := do
  let (_, uio) ← get
  let vnode ← onSfs (theVnode sv)
  if uio.rw = .write ∧ offT vnode.inode.size.toNat < uio.offset then
    onSfs (changeInode sv fun inode => { inode with size := u32 uio.offset })
  else return ()

/-- `sfs_io` behind the check for the end of the file. -/
def sfsTransfer (sv : UInt32) (extraresid : UInt32) : Routine Errno (Sfs × Uio) Unit := do
  let result ← attempt (do sfsLeading sv; sfsAligned sv)
  sfsExtend sv
  onUio (modify fun uio => { uio with resid := (uio.resid + extraresid.toNat) % 2 ^ 32 })
  finish result

def sfsIo (sv : UInt32) : Routine Errno (Sfs × Uio) Unit := do
  let (_, uio) ← get
  let vnode ← onSfs (theVnode sv)
  match uio.rw with
  | .write => sfsTransfer sv 0
  | .read =>
    let size := offT vnode.inode.size.toNat
    let endpos := offT (uio.offset + uio.resid)
    if size ≤ uio.offset then return ()
    else if size < endpos then
      let extraresid := u32 (endpos - size)
      require (extraresid.toNat < uio.resid)
      onUio (modify fun uio => { uio with resid := uio.resid - extraresid.toNat })
      sfsTransfer sv extraresid
    else sfsTransfer sv 0

def truncateDirect (sv : UInt32) (blocklen : UInt32) : List (Fin 15) → Routine Errno Sfs Unit
  | [] => return ()
  | i :: rest => do
    let vnode ← theVnode sv
    let block := vnode.inode.direct i
    if blocklen.toNat ≤ i ∧ block ≠ 0 then
      sfsBfree block
      changeInode sv (·.setDirect i 0)
      truncateDirect sv blocklen rest
    else truncateDirect sv blocklen rest

/-- The loop over the indirect block: what is left in the buffer and whether anything was taken out. -/
def truncateListed (blocklen : UInt32) : List (Fin 128) → Words → (iddirty : Bool) → Routine Errno Sfs (Words × Bool)
  | [], idbuf, iddirty => return (idbuf, iddirty)
  | j :: rest, idbuf, iddirty => do
    if blocklen.toNat < sfsNdirect + j ∧ idbuf j ≠ 0 then
      sfsBfree (idbuf j)
      truncateListed blocklen rest (Function.update idbuf j 0) true
    else truncateListed blocklen rest idbuf iddirty

def truncateIndirect (sv : UInt32) (blocklen : UInt32) : Routine Errno Sfs Unit := do
  let vnode ← theVnode sv
  let idblock := vnode.inode.indirect
  if blocklen.toNat < sfsNdirect + sfsDbperidb - 1 ∧ idblock ≠ 0 then
    let data ← onDevice (sfsRblock Block.zeros idblock)
    let (idbuf, iddirty) ← truncateListed blocklen (List.finRange 128) (Words.ofBlock data) false
    let hasnonzero := (List.finRange 128).any fun j => idbuf j ≠ 0
    if hasnonzero = false then
      sfsBfree idblock
      changeInode sv fun inode => { inode with indirect := 0 }
    else if iddirty then onDevice (sfsWblock idbuf.toBlock idblock)
    else return ()
  else return ()

def sfsTruncate (sv : UInt32) (len : Int) : Routine Errno Sfs Unit := do
  let blocklen := u32 ((offT (len + 512 - 1)).tdiv 512)
  truncateDirect sv blocklen (List.finRange 15)
  truncateIndirect sv blocklen
  changeInode sv fun inode => { inode with size := u32 len }

end Os161
