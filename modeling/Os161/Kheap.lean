import Mathlib.Data.BitVec
import Os161.AddrSpace
import Os161.Lib.Linked

/-! The kernel heap. Small blocks come from pages cut into blocks of one size, with a free list in the blocks; large
ones are whole pages. `none` is a failed assertion or a panic. -/

namespace Os161.Heap
open Vm

def nsizes : Nat := 8

def sizes (blktype : Fin nsizes) : Nat := [16, 32, 64, 128, 256, 512, 1024, 2048].getD blktype 0

def largestSubpageSize : Nat := 2048

/-- A page holds this many structures of 16 bytes. -/
def npagerefs : Nat := 256

def inuseWords : Nat := 8

def invalidOffset : Nat := 0xffff

structure Pageref where
  nextSamesize : Option (Fin npagerefs)
  nextAll : Option (Fin npagerefs)
  pageaddrAndBlocktype : Nat
  freelistOffset : Nat
  nfree : Nat
  deriving DecidableEq, Repr

def Pageref.pageaddr (ref : Pageref) : Nat := pageFrame ref.pageaddrAndBlocktype

def Pageref.blocktype (ref : Pageref) : Nat := ref.pageaddrAndBlocktype % pageSize

/-- `MKPAB`: the two parts have no bit in common. -/
def mkpab (pa blk : Nat) : Nat := pageFrame pa + blk % pageSize

/-- The allocator's variables, the words of the memory it hands out, and the coremap. -/
structure Kheap where
  pagerefs : Fin npagerefs → Pageref
  pagerefsInuse : Fin inuseWords → BitVec 32
  sizebases : Fin nsizes → Option (Fin npagerefs)
  allbase : Option (Fin npagerefs)
  memory : Nat → Nat
  cm : Coremap

def Kheap.setRef (h : Kheap) (pr : Fin npagerefs) (ref : Pageref) : Kheap :=
  { h with pagerefs := Function.update h.pagerefs pr ref }

def allocKpages (cm : Coremap) (npages : Nat) : Nat × Coremap :=
  let (pa, cm) := cmGetppages cm npages
  (if pa = 0 then 0 else paddrToKvaddr pa, cm)

theorem pageref_lt (i : Fin inuseWords) (j : Fin 32) : i.val * 32 + j.val < npagerefs := by
  have := i.isLt
  simp only [inuseWords, npagerefs] at *
  omega

def bit (j : Nat) : BitVec 32 := 1#32 <<< j

/-- The descriptor and the new bitmap, `some none` when all are in use. -/
def allocpageref (inuse : Fin inuseWords → BitVec 32) :
    Option (Option (Fin npagerefs × (Fin inuseWords → BitVec 32))) :=
  match (List.finRange inuseWords).find? fun i => inuse i ≠ BitVec.allOnes 32 with
  | none => some none
  | some i =>
    match (List.finRange 32).find? fun j : Fin 32 => !(inuse i).getLsbD j.val with
    | none => none
    | some j => some (some (⟨i.val * 32 + j.val, pageref_lt i j⟩, Function.update inuse i (inuse i ||| bit j.val)))

def inuseWord (p : Fin npagerefs) : Fin inuseWords := ⟨p.val / 32, Nat.div_lt_of_lt_mul p.isLt⟩

def freepageref (inuse : Fin inuseWords → BitVec 32) (p : Fin npagerefs) : Option (Fin inuseWords → BitVec 32) :=
  let k := bit (p.val % 32)
  if inuse (inuseWord p) &&& k = 0 then none
  else some (Function.update inuse (inuseWord p) (inuse (inuseWord p) &&& ~~~k))

def Kheap.removeLists (h : Kheap) (pr : Fin npagerefs) (blktype : Fin nsizes) : Kheap :=
  let same := Linked.unlink (fun p => (h.pagerefs p).nextSamesize) pr npagerefs (h.sizebases blktype)
  let all := Linked.unlink (fun p => (h.pagerefs p).nextAll) pr npagerefs h.allbase
  { h with
    pagerefs := fun p => { h.pagerefs p with nextSamesize := same.1 p, nextAll := all.1 p }
    sizebases := Function.update h.sizebases blktype same.2
    allbase := all.2 }

def blocktype (sz : Nat) : Option (Fin nsizes) := (List.finRange nsizes).find? fun i => sz ≤ sizes i

def Kheap.doalloc (h : Kheap) (pr : Fin npagerefs) : Option (Nat × Kheap) :=
  let ref := h.pagerefs pr
  let fla := ref.pageaddr + ref.freelistOffset
  let fl := h.memory fla
  let nfree := (ref.nfree + 2 ^ 16 - 1) % 2 ^ 16
  let offset := (fl + word - ref.pageaddr) % word
  if ref.freelistOffset < pageSize then
    if fl ≠ 0 then
      if 0 < nfree ∧ offset < pageSize then some (fla, h.setRef pr { ref with nfree, freelistOffset := offset })
      else none
    else
      if nfree = 0 then some (fla, h.setRef pr { ref with nfree, freelistOffset := invalidOffset })
      else none
  else none

/-- The loop that links the blocks up to number `i` of a fresh page. -/
def linkBlocks (fla size : Nat) (memory : Nat → Nat) : (i : Nat) → Option (Nat → Nat)
  | 0 => some (Function.update memory fla 0)
  | i + 1 =>
    match linkBlocks fla size memory i with
    | none => none
    | some memory =>
      if fla + (i + 1) * size = fla + i * size then none
      else some (Function.update memory (fla + (i + 1) * size) (fla + i * size))

/-- A fresh page of blocks, in front of both lists, unless descriptors or pages have run out. -/
def Kheap.newPage (h : Kheap) (blktype : Fin nsizes) : Option (Option (Fin npagerefs) × Kheap) :=
  match allocpageref h.pagerefsInuse with
  | none => none
  | some none => some (none, h)
  | some (some (pr, inuse)) =>
    let (prpage, cm) := allocKpages h.cm 1
    if prpage = 0 then (freepageref inuse pr).map fun inuse => (none, { h with pagerefsInuse := inuse, cm })
    else
      let nfree := pageSize / sizes blktype
      let offset := (prpage + (nfree - 1) * sizes blktype + word - prpage) % word
      match linkBlocks prpage (sizes blktype) h.memory (nfree - 1) with
      | none => none
      | some memory =>
        if offset % 2 ^ 16 = (nfree - 1) * sizes blktype then
          let ref := ⟨h.sizebases blktype, h.allbase, mkpab prpage blktype, offset % 2 ^ 16, nfree⟩
          some (some pr,
            { h with
              pagerefs := Function.update h.pagerefs pr ref
              pagerefsInuse := inuse
              sizebases := Function.update h.sizebases blktype (some pr)
              allbase := some pr
              memory
              cm })
        else none

def Kheap.findPage (h : Kheap) (blktype : Fin nsizes) : Option (Option (Fin npagerefs)) :=
  Linked.search (fun p => (h.pagerefs p).nextSamesize)
    (fun p => if (h.pagerefs p).blocktype = blktype then some (0 < (h.pagerefs p).nfree) else none)
    npagerefs (h.sizebases blktype)

/-- The result is 0 for `NULL`. -/
def Kheap.subpageKmalloc (h : Kheap) (sz : Nat) : Option (Nat × Kheap) :=
  match blocktype sz with
  | none => none
  | some blktype =>
    match h.findPage blktype with
    | none => none
    | some (some pr) => h.doalloc pr
    | some none =>
      match h.newPage blktype with
      | none => none
      | some (none, h) => some (0, h)
      | some (some pr, h) => h.doalloc pr

def fillDeadbeef (memory : Nat → Nat) (ptr len : Nat) : Nat → Nat := fun a =>
  if ptr ≤ a ∧ a < ptr + len / 4 * 4 ∧ (a - ptr) % 4 = 0 then 0xdeadbeef else memory a

def Kheap.releasePage (h : Kheap) (pr : Fin npagerefs) (blktype : Fin nsizes) : Option Kheap :=
  let removed := h.removeLists pr blktype
  match cmFreekpages h.cm (h.pagerefs pr).pageaddr with
  | none => none
  | some cm => (freepageref h.pagerefsInuse pr).map fun inuse => { removed with pagerefsInuse := inuse, cm }

def Kheap.pageOf (h : Kheap) (ptr : Nat) : Option (Option (Fin npagerefs)) :=
  Linked.search (fun p => (h.pagerefs p).nextAll)
    (fun p => if (h.pagerefs p).blocktype < nsizes then
      some ((h.pagerefs p).pageaddr ≤ ptr ∧ ptr < (h.pagerefs p).pageaddr + pageSize) else none)
    npagerefs h.allbase

def Kheap.pushBlock (h : Kheap) (pr : Fin npagerefs) (size offset : Nat) : Kheap :=
  let ref := h.pagerefs pr
  let memory := fillDeadbeef h.memory (ref.pageaddr + offset) size
  let next := if ref.freelistOffset = invalidOffset then 0 else ref.pageaddr + ref.freelistOffset
  { h with memory := Function.update memory (ref.pageaddr + offset) next }.setRef pr
    { ref with freelistOffset := offset, nfree := (ref.nfree + 1) % 2 ^ 16 }

/-- `none` in the result stands for -1: the address is on no page of the allocator. -/
def Kheap.subpageKfree (h : Kheap) (ptr : Nat) : Option (Option Kheap) :=
  match h.pageOf ptr with
  | none => none
  | some none => some none
  | some (some pr) =>
    let ref := h.pagerefs pr
    if small : ref.blocktype < nsizes then
      let size := sizes ⟨ref.blocktype, small⟩
      let offset := (ptr + word - ref.pageaddr) % word
      if pageSize ≤ offset ∨ offset % size ≠ 0 then none
      else
        let h := h.pushBlock pr size offset
        if (h.pagerefs pr).nfree ≤ pageSize / size then
          if (h.pagerefs pr).nfree = pageSize / size then (h.releasePage pr ⟨ref.blocktype, small⟩).map some
          else some (some h)
        else none
    else none

def Kheap.kmalloc (h : Kheap) (sz : Nat) : Option (Nat × Kheap) :=
  if largestSubpageSize ≤ sz then
    let npages := (sz + pageSize - 1) % word / pageSize
    let (address, cm) := allocKpages h.cm npages
    some (address, { h with cm })
  else h.subpageKmalloc sz

def Kheap.kfree (h : Kheap) (ptr : Nat) : Option Kheap :=
  if ptr = 0 then some h
  else
    match h.subpageKfree ptr with
    | none => none
    | some (some h) => some h
    | some none => if ptr % pageSize = 0 then (cmFreekpages h.cm ptr).map fun cm => { h with cm } else none

/-- `live` are the pointers not freed yet, with the sizes asked for, `foreign` the blocks of frames that others
hold. -/
structure Clients where
  kheap : Kheap
  live : Nat → Option Nat
  foreign : List Frames.Block

inductive HeapCall where
  | kmalloc (sz : UInt32)
  | kfree (ptr : Nat)
  | write (address value : Nat)
  | other (call : Frames.Call)
  deriving DecidableEq, Repr

/-- Users free what they were given and write to what they were given. -/
def Clients.Allowed (s : Clients) : HeapCall → Prop
  | .kmalloc _ => True
  | .kfree ptr => ptr = 0 ∨ s.live ptr ≠ none
  | .write address _ => ∃ ptr sz, s.live ptr = some sz ∧ ptr ≤ address ∧ address < ptr + sz
  | .other call => Frames.step ⟨s.kheap.cm, s.foreign⟩ call ≠ none

def heapStep (s : Clients) : HeapCall → Option Clients
  | .kmalloc sz => (s.kheap.kmalloc sz.toNat).map fun (ptr, kheap) =>
      { s with kheap, live := if ptr = 0 then s.live else Function.update s.live ptr (some sz.toNat) }
  | .kfree ptr => (s.kheap.kfree ptr).map fun kheap => { s with kheap, live := Function.update s.live ptr none }
  | .write address value =>
    some { s with kheap := { s.kheap with memory := Function.update s.kheap.memory address value } }
  | .other call => (Frames.step ⟨s.kheap.cm, s.foreign⟩ call).map fun system =>
      { s with kheap := { s.kheap with cm := system.cm }, foreign := system.live }

def bootKheap (cm : Coremap) (memory : Nat → Nat) : Kheap :=
  ⟨fun _ => ⟨none, none, 0, 0, 0⟩, fun _ => 0, fun _ => none, none, memory, cm⟩

def bootHeap (cm : Coremap) (memory : Nat → Nat) (foreign : List Frames.Block) : Clients :=
  ⟨bootKheap cm memory, fun _ => none, foreign⟩

end Os161.Heap
