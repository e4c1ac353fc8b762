import Os161.SfsFile

/-! The SFS directory and the vnode operations. -/

namespace Os161
open Routine

def sfsReaddir (sv : UInt32) (slot : Nat) : Routine Errno Sfs SfsDir := do
  let actualpos := offT (slot * 64)
  let (result, ku) ← withLocal (mkKuio (List.replicate 64 0) actualpos .read) (sfsIo sv)
  finish result
  require (ku.resid = 0)
  return SfsDir.ofBytes (ku.moved ++ ku.rest)

def sfsWritedir (sv : UInt32) (sd : SfsDir) (slot : Nat) : Routine Errno Sfs Unit := do
  let actualpos := offT (slot * 64)
  let (result, ku) ← withLocal (mkKuio sd.toBytes actualpos .write) (sfsIo sv)
  finish result
  require (ku.resid = 0)

def sfsDirNentries (sv : UInt32) : Routine Errno Sfs Nat := do
  let vnode ← theVnode sv
  require (vnode.inode.type = sfsTypeDir)
  let size := vnode.inode.size.toNat
  require (size % 64 = 0)
  return size / 64

/-- What a search of the directory reports: the inode and slot of the name, and an
empty slot. -/
structure FoundName where
  entry : Option (UInt32 × Nat)
  emptyslot : Option Nat

/-- The loop of `sfs_dir_findname` from slot `i` on, `left` slots. -/
def findnameLoop (sv : UInt32) (name : CString) : (left i : Nat) → FoundName → Routine Errno Sfs FoundName
  | 0, _, found => return found
  | left + 1, i, found => do
    let tsd ← sfsReaddir sv i
    if tsd.ino = sfsNoino then findnameLoop sv name left (i + 1) { found with emptyslot := some i }
    else if tsd.cname = name.val then
      require (found.entry = none)
      findnameLoop sv name left (i + 1) { found with entry := some (tsd.ino, i) }
    else findnameLoop sv name left (i + 1) found

/-- Where the C function returns `ENOENT` the result has no entry. -/
def sfsDirFindname (sv : UInt32) (name : CString) : Routine Errno Sfs FoundName := do
  let nentries ← sfsDirNentries sv
  findnameLoop sv name nentries 0 ⟨none, none⟩

def linkSlot (sv : UInt32) (emptyslot : Option Nat) : Routine Errno Sfs Nat :=
  match emptyslot with
  | some slot => return slot
  | none => sfsDirNentries sv

def sfsDirLink (sv : UInt32) (name : CString) (ino : UInt32) : Routine Errno Sfs Nat := do
  let found ← sfsDirFindname sv name
  if found.entry ≠ none then fail .eexist
  else if sfsNamelen < name.val.length + 1 then fail .enametoolong
  else
    let slot ← linkSlot sv found.emptyslot
    sfsWritedir sv (SfsDir.link ino name) slot
    return slot

def sfsDirUnlink (sv : UInt32) (slot : Nat) : Routine Errno Sfs Unit :=
  sfsWritedir sv ⟨sfsNoino, List.replicate 60 0⟩ slot

def kmalloc : Routine Errno Sfs Unit := do
  let sfs ← get
  modify fun sfs => { sfs with heap := fun n => sfs.heap (n + 1) }
  if sfs.heap 0 then return () else fail .enomem

def vnodeIncref (vn : UInt32) : Routine Errno Sfs Unit := do
  let _ ← theVnode vn
  changeVnode vn fun vnode => { vnode with refcount := vnode.refcount + 1 }

def loadedVnode (ino : UInt32) : List SfsVnode → Routine Errno Sfs Bool
  | [] => return false
  | sv :: rest => do
    let used ← sfsBused sv.ino
    require (used = true)
    if sv.ino = ino then return true else loadedVnode ino rest

/-- The inode as read, or of the type that is forced on a new object. -/
def forceType (inode : SfsInode) (forcetype : UInt16) : Routine Errno Sfs (SfsInode × Bool) :=
  if forcetype ≠ sfsTypeInval then do
    require (inode.type = sfsTypeInval)
    return ({ inode with type := forcetype }, true)
  else return (inode, false)

/-- Load an inode that is not in memory, with the `kmalloc` of `VOP_INIT` and `array_add` too. -/
def readVnode (ino : UInt32) (forcetype : UInt16) : Routine Errno Sfs Unit := do
  kmalloc
  let used ← sfsBused ino
  require (used = true)
  let data ← onDevice (sfsRblock Block.zeros ino)
  let (inode, dirty) ← forceType (SfsInode.ofBlock data) forcetype
  require (inode.type = sfsTypeFile ∨ inode.type = sfsTypeDir)
  kmalloc
  kmalloc
  modify fun sfs => { sfs with vnodes := sfs.vnodes ++ [⟨ino, inode, dirty, 1, 0⟩] }

def sfsLoadvnode (ino : UInt32) (forcetype : UInt16) : Routine Errno Sfs UInt32 := do
  let sfs ← get
  let loaded ← loadedVnode ino sfs.vnodes
  if loaded then
    require (forcetype = sfsTypeInval)
    vnodeIncref ino
    return ino
  else
    readVnode ino forcetype
    return ino

def sfsGetroot : Routine Errno Sfs UInt32 := do
  match ← attempt (sfsLoadvnode sfsRootLocation sfsTypeInval) with
  | .ok sv => return sv
  | .error _ => halt

def sfsLookonce (sv : UInt32) (name : CString) : Routine Errno Sfs (UInt32 × Nat) := do
  let found ← sfsDirFindname sv name
  match found.entry with
  | none => fail .enoent
  | some (ino, slot) =>
    let target ← sfsLoadvnode ino sfsTypeInval
    let vnode ← theVnode target
    require (vnode.inode.linkcount ≠ 0)
    return (target, slot)

def sfsMakeobj (type : UInt16) : Routine Errno Sfs UInt32 := do
  let ino ← sfsBalloc
  sfsLoadvnode ino type

/-- An operation that only the table of files has. -/
def fileOnly {α : Type} (v : UInt32) (operation : Routine Errno Sfs α) : Routine Errno Sfs α := do
  let vnode ← theVnode v
  if vnode.inode.type = sfsTypeDir then fail .eisdir else operation

/-- An operation that only the table of the directory has. -/
def dirOnly {α : Type} (v : UInt32) (operation : Routine Errno Sfs α) : Routine Errno Sfs α := do
  let vnode ← theVnode v
  if vnode.inode.type = sfsTypeDir then operation else fail .enotdir

def vopTruncate (v : UInt32) (len : Int) : Routine Errno Sfs Unit := fileOnly v (sfsTruncate v len)

/-- An inode without on-disk references is erased. -/
def reclaimErase (sv : UInt32) : Routine Errno Sfs Unit := do
  let vnode ← theVnode sv
  if vnode.inode.linkcount = 0 then vopTruncate sv 0 else return ()

/-- An inode without on-disk references is discarded. -/
def reclaimDiscard (sv : UInt32) : Routine Errno Sfs Unit := do
  let vnode ← theVnode sv
  if vnode.inode.linkcount = 0 then sfsBfree sv else return ()

/-- The assertions of `vnode_kill`. -/
def vnodeKill (vnode : SfsVnode) : Routine Errno Sfs Unit := do
  require (vnode.refcount = 1)
  require (vnode.opencount = 0)

def sfsReclaim (sv : UInt32) : Routine Errno Sfs Unit := do
  let vnode ← theVnode sv
  if vnode.refcount ≠ 1 then
    require (1 < vnode.refcount)
    changeVnode sv fun vnode => { vnode with refcount := vnode.refcount - 1 }
    fail .ebusy
  else
    reclaimErase sv
    sfsSyncInode sv
    reclaimDiscard sv
    let vnode ← theVnode sv
    modify fun sfs => { sfs with vnodes := sfs.vnodes.eraseP (·.ino = sv) }
    vnodeKill vnode

def vnodeDecref (vn : UInt32) : Routine Errno Sfs Unit := do
  let vnode ← theVnode vn
  require (0 < vnode.refcount)
  if 1 < vnode.refcount then changeVnode vn fun vnode => { vnode with refcount := vnode.refcount - 1 }
  else
    let _ ← attempt (sfsReclaim vn)
    return ()

def addLink (sv : UInt32) : Routine Errno Sfs Unit :=
  changeInode sv fun inode => { inode with linkcount := inode.linkcount + 1 }

def dropLink (sv : UInt32) : Routine Errno Sfs Unit := do
  let vnode ← theVnode sv
  require (0 < vnode.inode.linkcount)
  changeInode sv fun inode => { inode with linkcount := inode.linkcount - 1 }

def sfsCreat (v : UInt32) (name : CString) (excl : Bool) : Routine Errno Sfs UInt32 := do
  let found ← sfsDirFindname v name
  match found.entry with
  | some (ino, _) => if excl then fail .eexist else sfsLoadvnode ino sfsTypeInval
  | none =>
    let newguy ← sfsMakeobj sfsTypeFile
    match ← attempt (sfsDirLink v name newguy) with
    | .error code =>
      vnodeDecref newguy
      fail code
    | .ok _ =>
      addLink newguy
      return newguy

def sfsLink (dir : UInt32) (name : CString) (file : UInt32) : Routine Errno Sfs Unit := do
  let _ ← theVnode file
  let _ ← sfsDirLink dir name file
  addLink file

def sfsRemove (dir : UInt32) (name : CString) : Routine Errno Sfs Unit := do
  let (victim, slot) ← sfsLookonce dir name
  match ← attempt (sfsDirUnlink dir slot) with
  | .ok _ =>
    dropLink victim
    vnodeDecref victim
  | .error code =>
    vnodeDecref victim
    fail code

/-- The part of `sfs_rename` behind the link under the new name, which is in `slot2`. -/
def renameUnlink (d1 g1 : UInt32) (slot1 slot2 : Nat) : Routine Errno Sfs Unit := do
  match ← attempt (sfsDirUnlink d1 slot1) with
  | .ok _ =>
    dropLink g1
    vnodeDecref g1
  | .error code =>
    match ← attempt (sfsDirUnlink d1 slot2) with
    | .error _ => halt
    | .ok _ =>
      changeVnode g1 fun vnode => { vnode with inode := { vnode.inode with linkcount := vnode.inode.linkcount - 1 } }
      vnodeDecref g1
      fail code

def sfsRename (d1 : UInt32) (n1 : CString) (d2 : UInt32) (n2 : CString) : Routine Errno Sfs Unit := do
  require (d1 = d2)
  require (d1 = sfsRootLocation)
  let (g1, slot1) ← sfsLookonce d1 n1
  let vnode ← theVnode g1
  require (vnode.inode.type = sfsTypeFile)
  match ← attempt (sfsDirLink d1 n2 g1) with
  | .error code =>
    vnodeDecref g1
    fail code
  | .ok slot2 =>
    addLink g1
    renameUnlink d1 g1 slot1 slot2

def sfsLookup (v : UInt32) (path : CString) : Routine Errno Sfs UInt32 := do
  let (final, _) ← sfsLookonce v path
  return final

/-- A uio as a system call sets it up: `sfs_tryseek` accepts the position, and the residue counts bytes of the
buffer. -/
structure IoRequest where
  uio : Uio
  seekable : 0 ≤ uio.offset
  position : uio.offset < 2 ^ 31
  buffer : uio.resid ≤ uio.rest.length
  size : uio.resid < 2 ^ 32

/-- A call at the vnode interface, on vnodes that are loaded. -/
inductive SfsCall where
  | getroot
  | lookup (dir : UInt32) (name : CString)
  | creat (dir : UInt32) (name : CString) (excl : Bool)
  | link (dir : UInt32) (name : CString) (file : UInt32)
  | remove (dir : UInt32) (name : CString)
  | rename (d1 : UInt32) (n1 : CString) (d2 : UInt32) (n2 : CString)
  | read (v : UInt32) (request : IoRequest)
  | write (v : UInt32) (request : IoRequest)
  | truncate (v : UInt32) (len : Int)
  | fsync (v : UInt32)
  | incref (v : UInt32)
  | decref (v : UInt32)

/-- What a call hands back besides its return value. -/
inductive SfsReply where
  | nothing
  | vnode (v : UInt32)
  | transfer (result : Except Errno Unit) (uio : Uio)

def vopRead (v : UInt32) : Routine Errno (Sfs × Uio) Unit := do
  let (_, uio) ← get
  let vnode ← onSfs (theVnode v)
  if vnode.inode.type = sfsTypeDir then fail .eisdir
  else
    require (uio.rw = .read)
    sfsIo v

def vopWrite (v : UInt32) : Routine Errno (Sfs × Uio) Unit := do
  let (_, uio) ← get
  let vnode ← onSfs (theVnode v)
  if vnode.inode.type = sfsTypeDir then fail .eisdir
  else
    require (uio.rw = .write)
    sfsIo v

def replyVnode (operation : Routine Errno Sfs UInt32) : Routine Errno Sfs SfsReply := do
  let v ← operation
  return .vnode v

def replyNothing (operation : Routine Errno Sfs Unit) : Routine Errno Sfs SfsReply := do
  operation
  return .nothing

def replyTransfer (uio : Uio) (operation : Routine Errno (Sfs × Uio) Unit) : Routine Errno Sfs SfsReply := do
  let (result, uio) ← withLocal uio operation
  return .transfer result uio

def SfsCall.perform : SfsCall → Routine Errno Sfs SfsReply
  | getroot => replyVnode sfsGetroot
  | lookup dir name => replyVnode (dirOnly dir (sfsLookup dir name))
  | creat dir name excl => replyVnode (dirOnly dir (sfsCreat dir name excl))
  | link dir name file => replyNothing (dirOnly dir (sfsLink dir name file))
  | remove dir name => replyNothing (dirOnly dir (sfsRemove dir name))
  | rename d1 n1 d2 n2 => replyNothing (dirOnly d1 (sfsRename d1 n1 d2 n2))
  | read v request => replyTransfer request.uio (vopRead v)
  | write v request => replyTransfer request.uio (vopWrite v)
  | truncate v len => replyNothing (vopTruncate v len)
  | fsync v => replyNothing (sfsSyncInode v)
  | incref v => replyNothing (vnodeIncref v)
  | decref v => replyNothing (vnodeDecref v)

end Os161
