import Mathlib.Algebra.Group.Int.Defs
import Mathlib.Algebra.GroupWithZero.Nat
import Mathlib.Data.Fin.Basic

/-! The allocator of the user library: a row of blocks, each with a header that gives the distance to both
neighbours. Sizes and addresses are 32-bit and wrap around. -/

namespace Os161.Malloc

def addressSpace : Nat := 2 ^ 32

def plus (a b : Nat) : Nat := (a + b) % addressSpace

def minus (a b : Nat) : Nat := (a + addressSpace - b) % addressSpace

def minusOne : Nat := addressSpace - 1

def mBlockSize : Nat := 8

def mBlockShift : Nat := 3

def mMagic : Fin 4 := 2

/-- A word of memory, cut as both words of `struct mheader` are. -/
structure Word where
  block : Fin (2 ^ 29)
  flag : Bool
  magic : Fin 4
  deriving DecidableEq, Repr

instance blocks_positive : NeZero (2 ^ 29) := ⟨by decide⟩

def Word.ofNat (value : Nat) : Word where
  block := Fin.ofNat (2 ^ 29) (value / 8)
  flag := value / 4 % 2 = 1
  magic := Fin.ofNat 4 value

abbrev Memory := Nat → Word

def sizeofMheader : Nat := 8

/-! The header at an address: `mh_prevblock`, `mh_pad` and `mh_magic1` share the first word, `mh_nextblock`,
`mh_inuse` and `mh_magic2` the second. -/

def mhPrevblock (memory : Memory) (mh : Nat) : Nat := (memory mh).block

def mhMagic1 (memory : Memory) (mh : Nat) : Fin 4 := (memory mh).magic

def mhNextblock (memory : Memory) (mh : Nat) : Nat := (memory (mh + 4)).block

def mhInuse (memory : Memory) (mh : Nat) : Bool := (memory (mh + 4)).flag

def mhMagic2 (memory : Memory) (mh : Nat) : Fin 4 := (memory (mh + 4)).magic

def setPrevblock (memory : Memory) (mh value : Nat) : Memory :=
  Function.update memory mh { memory mh with block := Fin.ofNat (2 ^ 29) value }

def setPad (memory : Memory) (mh : Nat) (value : Bool) : Memory :=
  Function.update memory mh { memory mh with flag := value }

def setMagic1 (memory : Memory) (mh : Nat) (value : Fin 4) : Memory :=
  Function.update memory mh { memory mh with magic := value }

def setNextblock (memory : Memory) (mh value : Nat) : Memory :=
  Function.update memory (mh + 4) { memory (mh + 4) with block := Fin.ofNat (2 ^ 29) value }

def setInuse (memory : Memory) (mh : Nat) (value : Bool) : Memory :=
  Function.update memory (mh + 4) { memory (mh + 4) with flag := value }

def setMagic2 (memory : Memory) (mh : Nat) (value : Fin 4) : Memory :=
  Function.update memory (mh + 4) { memory (mh + 4) with magic := value }

def mNextoff (memory : Memory) (mh : Nat) : Nat := mhNextblock memory mh * 2 ^ mBlockShift

def mPrevoff (memory : Memory) (mh : Nat) : Nat := mhPrevblock memory mh * 2 ^ mBlockShift

def mNext (memory : Memory) (mh : Nat) : Nat := plus mh (mNextoff memory mh)

def mPrev (memory : Memory) (mh : Nat) : Nat := minus mh (mPrevoff memory mh)

def mData (mh : Nat) : Nat := plus mh sizeofMheader

def mSize (memory : Memory) (mh : Nat) : Nat := minus (mNextoff memory mh) mBlockSize

def mOk (memory : Memory) (mh : Nat) : Bool := mhMagic1 memory mh == mMagic && mhMagic2 memory mh == mMagic

def mMkfield (off : Nat) : Nat := off / 2 ^ mBlockShift

/-- How a call ends the program, with the text and values printed; `hangs` is an endless search. -/
inductive Exit where
  | err (text : String)
  | errx (text : String) (values : List Nat)
  | hangs
  deriving DecidableEq, Repr

/-- The static variables, the memory of the program and the break the kernel keeps for it. -/
structure Heap where
  memory : Memory
  heapbase : Nat
  heaptop : Nat
  brk : Nat

/-- The change is signed. When granted, the kernel moves the break to another address. -/
def sbrk (grants : Nat → Bool) (change : Nat) (heap : Heap) : Nat × Heap :=
  let brk := heap.brk + (change : Int).bmod addressSpace
  if grants change ∧ 0 ≤ brk ∧ brk < addressSpace then (heap.brk, { heap with brk := brk.toNat })
  else (minusOne, heap)

def initialSbrkFailed : Exit := .err "malloc: initial sbrk failed"

def heapBeganAtZero : Exit := .errx "malloc: Internal error - heap began at 0" []

def sbrkFailedAligning : Exit := .err "malloc: sbrk failed aligning heap base"

def mallocInit (grants : Nat → Bool) (heap : Heap) : Except Exit Heap :=
  if sizeofMheader ≠ mBlockSize then .error (.errx "malloc: Internal error - MBLOCKSIZE wrong" [])
  else if mBlockSize &&& (mBlockSize - 1) ≠ 0 then
    .error (.errx "malloc: Internal error - MBLOCKSIZE not power of 2" [])
  else if 2 ^ mBlockShift ≠ mBlockSize then .error (.errx "malloc: Internal error - MBLOCKSHIFT wrong" [])
  else if heap.heapbase ≠ 0 ∨ heap.heaptop ≠ 0 then
    .error (.errx "malloc: Internal error - bad init call" [])
  else
    let (x, heap) := sbrk grants 0 heap
    if x = minusOne then .error initialSbrkFailed
    else if x = 0 then .error heapBeganAtZero
    else
      let heap := { heap with heapbase := x, heaptop := x }
      if heap.heapbase % mBlockSize ≠ 0 then
        let adjust := mBlockSize - heap.heapbase % mBlockSize
        let (x, heap) := sbrk grants adjust heap
        if x = minusOne then .error sbrkFailedAligning
        else if x ≠ heap.heapbase then .error (.err "malloc: heap base moved during init")
        else
          let base := plus heap.heapbase adjust
          .ok { heap with heapbase := base, heaptop := base }
      else .ok heap

/-- The address of the new memory, 0 when there is none. -/
def mallocSbrk (grants : Nat → Bool) (size : Nat) (heap : Heap) : Except Exit (Nat × Heap) :=
  let (x, heap) := sbrk grants size heap
  if x = minusOne then .ok (0, heap)
  else if x ≠ heap.heaptop then
    .error (.errx "malloc: Internal error - heap top moved itself from 0x%lx to 0x%lx" [heap.heaptop, x])
  else .ok (x, { heap with heaptop := plus heap.heaptop size })

def mallocSplit (heap : Heap) (mh size : Nat) : Except Exit Heap :=
  if size % mBlockSize ≠ 0 then
    .error (.errx "malloc: Internal error (size %lu passed to split)" [size])
  else if minus (mSize heap.memory mh) size < 2 * mBlockSize then .ok heap
  else
    let mhnext := mNext heap.memory mh
    let oldsize := mSize heap.memory mh
    let memory := setNextblock heap.memory mh (mMkfield (plus size mBlockSize))
    let mhnew := mNext memory mh
    if mhnew = mhnext then .error (.errx "malloc: Internal error (split screwed up?)" [])
    else
      let memory := setPrevblock memory mhnew (mMkfield (plus size mBlockSize))
      let memory := setPad memory mhnew false
      let memory := setMagic1 memory mhnew mMagic
      let memory := setNextblock memory mhnew (mMkfield (minus oldsize size))
      let memory := setInuse memory mhnew false
      let memory := setMagic2 memory mhnew mMagic
      let memory := if mhnext ≠ heap.heaptop then setPrevblock memory mhnext (mhNextblock memory mhnew) else memory
      .ok { heap with memory := memory }

/-- What the loop of `malloc` comes to: a block, or the end of the heap with the size of the last block. -/
inductive Search where
  | found (mh : Nat)
  | exhausted (rightprevblock : Nat)
  deriving DecidableEq, Repr

/-- The loop of `malloc` and the check after it. An address that comes up again comes up for ever, so that `heaptop
+ 1` passes decide. -/
def search (heap : Heap) (size : Nat) : Nat → Nat → Nat → Except Exit Search
  | 0, _, _ => .error .hangs
  | fuel + 1, i, rightprevblock =>
    if i < heap.heaptop then
      if ¬ mOk heap.memory i then
        .error (.errx "malloc: Heap corrupt; header at 0x%lx has bad magic bits" [i])
      else if mhPrevblock heap.memory i ≠ rightprevblock then
        .error (.errx "malloc: Heap corrupt; header at 0x%lx has bad previous-block size %lu (should be %lu)"
          [i, mhPrevblock heap.memory i * 2 ^ mBlockShift, rightprevblock * 2 ^ mBlockShift])
      else if mhInuse heap.memory i ∨ mSize heap.memory i < size then
        search heap size fuel (plus i (mNextoff heap.memory i)) (mhNextblock heap.memory i)
      else .ok (.found i)
    else if i ≠ heap.heaptop then .error (.errx "malloc: Heap corrupt; ran off end" [])
    else .ok (.exhausted rightprevblock)

/-- The mask clears the low bits. -/
def roundUp (size : Nat) : Nat := plus size (mBlockSize - 1) / mBlockSize * mBlockSize

/-- The pointer, 0 for `NULL`. -/
def malloc (grants : Nat → Bool) (heap : Heap) (size : Nat) : Except Exit (Nat × Heap) := do
  let heap ← if heap.heapbase = 0 then mallocInit grants heap else .ok heap
  if heap.heapbase = 0 ∨ heap.heaptop = 0 ∨ heap.heapbase > heap.heaptop then
    .error (.errx "malloc: heapbase 0x%lx; heaptop 0x%lx" [heap.heapbase, heap.heaptop])
  else
    let size := roundUp size
    match ← search heap size (heap.heaptop + 1) heap.heapbase 0 with
    | .found mh =>
      let heap ← mallocSplit heap mh size
      .ok (mData mh, { heap with memory := setInuse heap.memory mh true })
    | .exhausted rightprevblock =>
      let (mh, heap) ← mallocSbrk grants (plus size mBlockSize) heap
      if mh = 0 then .ok (0, heap)
      else
        let memory := setPrevblock heap.memory mh rightprevblock
        let memory := setMagic1 memory mh mMagic
        let memory := setMagic2 memory mh mMagic
        let memory := setPad memory mh false
        let memory := setInuse memory mh true
        let memory := setNextblock memory mh (mMkfield (plus size mBlockSize))
        .ok (mData mh, { heap with memory := memory })

def deadbeefWords (memory : Memory) (x : Nat) : Nat → Memory
  | 0 => memory
  | i + 1 => Function.update (deadbeefWords memory x i) (plus x (4 * i)) (Word.ofNat 0xdeadbeef)

def mallocDeadbeef (memory : Memory) (ptr size : Nat) : Memory := deadbeefWords memory ptr (size / 4)

def mallocTrymerge (heap : Heap) (mh mhnext : Nat) : Except Exit Heap :=
  if mhNextblock heap.memory mh ≠ mhPrevblock heap.memory mhnext then
    .error (.errx "free: Heap corrupt (%p and %p inconsistent)" [mh, mhnext])
  else if mhInuse heap.memory mh ∨ mhInuse heap.memory mhnext then .ok heap
  else
    let mhnextnext := mNext heap.memory mhnext
    let memory := setNextblock heap.memory mh
      (mMkfield (plus (plus (plus mBlockSize (mSize heap.memory mh)) mBlockSize) (mSize heap.memory mhnext)))
    let memory := if mhnextnext ≠ heap.heaptop then setPrevblock memory mhnextnext (mhNextblock memory mh) else memory
    .ok { heap with memory := mallocDeadbeef memory mhnext sizeofMheader }

def free (heap : Heap) (x : Nat) : Except Exit Heap :=
  if x = 0 then .ok heap
  else if heap.heapbase = 0 ∨ heap.heaptop = 0 ∨ heap.heapbase > heap.heaptop then
    .error (.errx "free: heapbase 0x%lx; heaptop 0x%lx" [heap.heapbase, heap.heaptop])
  else if x < heap.heapbase ∨ heap.heaptop ≤ x then
    .error (.errx "free: Invalid pointer %p freed (out of range)" [x])
  else
    let mh := minus x sizeofMheader
    if ¬ mOk heap.memory mh then .error (.errx "free: Invalid pointer %p freed (corrupt header)" [x])
    else if ¬ mhInuse heap.memory mh then .error (.errx "free: Invalid pointer %p freed (already free)" [x])
    else do
      let memory := setInuse heap.memory mh false
      let memory := mallocDeadbeef memory (mData mh) (mSize memory mh)
      let heap := { heap with memory := memory }
      let mhnext := mNext heap.memory mh
      let heap ← if mhnext ≠ heap.heaptop then mallocTrymerge heap mh mhnext else .ok heap
      if mh ≠ heap.heapbase then mallocTrymerge heap (mPrev heap.memory mh) mh else .ok heap

/-! A program that uses the allocator. -/

/-- A pointer that `malloc` returned for a request of `size` bytes. -/
structure Allocation where
  pointer : Nat
  size : Nat
  deriving DecidableEq, Repr

structure World where
  heap : Heap
  live : List Allocation
  exited : Option Exit

def World.start (memory : Memory) (brk : Fin addressSpace) : World where
  heap := { memory := memory, heapbase := 0, heaptop := 0, brk := brk }
  live := []
  exited := none

/-- The calls of the program, with the kernel's answers to the `sbrk` inside (no two of one `malloc` are for the
same change), and the stores between them. -/
inductive Action where
  | malloc (size : Nat) (grants : Nat → Bool)
  | free (x : Nat)
  | store (address : Nat) (value : Word)

/-- The word at the address begins in the bytes asked for. -/
def Allocation.covers (allocation : Allocation) (address : Nat) : Bool :=
  allocation.pointer ≤ address && address < allocation.pointer + allocation.size

/-- Only pointers that are live or `NULL` are freed, and only live memory is written. -/
def World.step (world : World) (action : Action) : Option World :=
  if world.exited.isSome then none
  else
    match action with
    | .malloc size grants =>
      if 1 ≤ size ∧ size ≤ 2 ^ 31 - 16 then
        match Malloc.malloc grants world.heap size with
        | .error exit => some { world with exited := some exit }
        | .ok (x, heap) =>
          some { world with heap := heap, live := if x = 0 then world.live else ⟨x, size⟩ :: world.live }
      else none
    | .free x =>
      if x = 0 ∨ x ∈ world.live.map Allocation.pointer then
        match Malloc.free world.heap x with
        | .error exit => some { world with exited := some exit }
        | .ok heap =>
          some { world with
            heap := heap
            live := world.live.filter fun allocation => allocation.pointer ≠ x }
      else none
    | .store address value =>
      if address % 4 = 0 ∧ world.live.any fun allocation => allocation.covers address then
        some { world with heap := { world.heap with memory := Function.update world.heap.memory address value } }
      else none

/-- The same for a program that also asks for no bytes at all. -/
def World.stepAny (world : World) : Action → Option World
  | .malloc 0 grants =>
    if world.exited.isSome then none
    else
      match Malloc.malloc grants world.heap 0 with
      | .error exit => some { world with exited := some exit }
      | .ok (x, heap) => some { world with heap := heap, live := if x = 0 then world.live else ⟨x, 0⟩ :: world.live }
  | action => world.step action

end Os161.Malloc
