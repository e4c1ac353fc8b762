import Os161.Proofs.CoremapFrames
import Os161.Proofs.KheapBlocks

/-! The shape of the heap: which descriptors are on which list, which blocks are free, and where the pages are.
Taking a block and giving it back keep a page in shape. -/

namespace Os161.Heap
open Vm Linked Function List

abbrev Ref := Fin npagerefs

def kbase (cm : Coremap) : Nat := mipsKseg0 + cm.freepaddr

def kaddr (cm : Coremap) (start : Nat) : Nat := kbase cm + start * pageSize

theorem kaddr_congr {cm cm'} (base : cm'.freepaddr = cm.freepaddr) : kaddr cm' = kaddr cm := by
  funext start
  simp only [kaddr, kbase, base]

section Place

variable {cm : Coremap} {blocks : List Frames.Block} {block : Frames.Block}

theorem held_inside (held : Frames.Held ⟨cm, blocks⟩) (member : block ∈ blocks) :
    block.start + block.length ≤ cm.cmEnd := by
  obtain ⟨nonempty, _⟩ := held.sized block member
  obtain ⟨entry, found, _⟩ := held.used block member (block.start + block.length - 1)
    ⟨by omega, by omega⟩
  have inside : block.start + block.length - 1 < cm.cmEnd := (List.getElem?_eq_some_iff.mp found).1
  omega

theorem kaddr_fits (held : Frames.Held ⟨cm, blocks⟩) (member : block ∈ blocks) :
    kaddr cm block.start + block.length * pageSize < word := by
  have inside := held_inside held member
  have fits : cm.frame cm.cmEnd ≤ 508 * 1024 * 1024 := held.fits
  simp only [Coremap.frame, kaddr, kbase, mipsKseg0, word, pageSize] at *
  omega

theorem kaddr_pos (cm : Coremap) (start : Nat) : 0 < kaddr cm start := by
  simp only [kaddr, kbase, mipsKseg0]
  omega

theorem kaddr_aligned (held : Frames.Held ⟨cm, blocks⟩) (start : Nat) : kaddr cm start % pageSize = 0 := by
  have aligned : cm.freepaddr % pageSize = 0 := held.aligned
  simp only [kaddr, kbase, mipsKseg0, pageSize] at *
  omega

theorem paddrToKvaddr_frame (held : Frames.Held ⟨cm, blocks⟩) (member : block ∈ blocks) :
    paddrToKvaddr (cm.frame block.start) = kaddr cm block.start := by
  have fits := kaddr_fits held member
  rw [paddrToKvaddr, show cm.frame block.start + mipsKseg0 = kaddr cm block.start by
    simp only [Coremap.frame, kaddr, kbase]
    omega]
  exact Nat.mod_eq_of_lt (by omega)

end Place

def Pageref.first (ref : Pageref) (page : Nat) : Option Nat :=
  if ref.freelistOffset = invalidOffset then none else some (page + ref.freelistOffset)

/-- A descriptor of a page of blocks of one size, with its free list; users have the other blocks. -/
structure PageOk (memory : Nat → Nat) (live : Nat → Option Nat) (page : Nat) (k : Fin nsizes) (ref : Pageref)
    (free : List Nat) : Prop where
  nonzero : 0 < page
  aligned : page % pageSize = 0
  below : page + pageSize < word
  described : ref.pageaddrAndBlocktype = page + k.val
  chain : Chain (link memory) (ref.first page) free
  count : ref.nfree = free.length
  distinct : free.Nodup
  blocks : ∀ b ∈ free, IsBlock page (sizes k) b
  partition : ∀ b, IsBlock page (sizes k) b → (b ∈ free ↔ live b = none)

section Page

variable {memory : Nat → Nat} {live : Nat → Option Nat} {page : Nat} {k : Fin nsizes} {ref : Pageref} {free : List Nat}

variable (ok : PageOk memory live page k ref free)
include ok

theorem PageOk.pageaddr : ref.pageaddr = page := by
  have aligned := ok.aligned
  have small : k.val < 8 := k.isLt
  rw [Pageref.pageaddr, ok.described, pageFrame]
  simp only [pageSize] at *
  omega

theorem PageOk.blocktype : ref.blocktype = k.val := by
  have aligned := ok.aligned
  have small : k.val < 8 := k.isLt
  rw [Pageref.blocktype, ok.described]
  simp only [pageSize] at *
  omega

theorem PageOk.congr {memory' live'} (words : ∀ b ∈ free, memory' b = memory b)
    (users : ∀ b, IsBlock page (sizes k) b → (live' b = none ↔ live b = none)) :
    PageOk memory' live' page k ref free := by
  refine { ok with chain := ?_, partition := ?_ }
  · exact ok.chain.congr fun b member => link_congr (words b member)
  · intro b block
    rw [users b block]
    exact ok.partition b block

theorem PageOk.relink (nextSamesize nextAll : Option Ref) :
    PageOk memory live page k { ref with nextSamesize, nextAll } free :=
  ⟨ok.nonzero, ok.aligned, ok.below, ok.described, ok.chain, ok.count, ok.distinct, ok.blocks, ok.partition⟩

theorem PageOk.count_le : free.length ≤ pageSize / sizes k :=
  (blocks_count ok.distinct ok.blocks).1

theorem PageOk.invalid_iff : ref.freelistOffset = invalidOffset ↔ ref.nfree = 0 := by
  have chain := ok.chain
  rw [ok.count, length_eq_zero_iff]
  cases free with
  | nil =>
    have ended : ref.first page = none := chain
    simpa [Pageref.first] using ended
  | cons b rest =>
    have started : ref.first page = some b := chain.1
    simp only [Pageref.first] at started
    split at started
    · cases started
    next valid => simp [valid]

end Page

section Doalloc

variable {h : Kheap} {live : Nat → Option Nat} {page : Nat} {k : Fin nsizes} {p : Ref} {ptr : Nat} {rest : List Nat}

theorem doalloc_pops (ok : PageOk h.memory live page k (h.pagerefs p) (ptr :: rest)) :
    ∃ offset, h.doalloc p =
        some (ptr, h.setRef p { h.pagerefs p with freelistOffset := offset, nfree := rest.length }) ∧
      ∀ sz, PageOk h.memory (update live ptr (some sz)) page k
        { h.pagerefs p with freelistOffset := offset, nfree := rest.length } rest := by
  have started : (h.pagerefs p).first page = some ptr := ok.chain.1
  have valid : (h.pagerefs p).freelistOffset ≠ invalidOffset := by
    intro invalid
    simp [Pageref.first, invalid] at started
  have here : page + (h.pagerefs p).freelistOffset = ptr := by
    simpa [Pageref.first, valid] using started
  have block := ok.blocks ptr mem_cons_self
  have room := ok.count_le
  have few := blocks_le k
  have count : ((h.pagerefs p).nfree + 2 ^ 16 - 1) % 2 ^ 16 = rest.length := by
    rw [ok.count]
    rw [length_cons] at room ⊢
    omega
  have inside : (h.pagerefs p).freelistOffset < pageSize := by
    have := block.2.1
    omega
  have unused : ptr ∉ rest := (nodup_cons.mp ok.distinct).1
  have partition (sz : Nat) (b : Nat) (isBlock : IsBlock page (sizes k) b) :
      b ∈ rest ↔ update live ptr (some sz) b = none := by
    have before := ok.partition b isBlock
    by_cases same : b = ptr
    · subst same
      simp [unused]
    · rw [update_of_ne same, ← before, mem_cons]
      simp [same]
  have fill (offset : Nat) (chain : Chain (link h.memory)
        (Pageref.first { h.pagerefs p with freelistOffset := offset, nfree := rest.length } page) rest) (sz : Nat) :
      PageOk h.memory (update live ptr (some sz)) page k
        { h.pagerefs p with freelistOffset := offset, nfree := rest.length } rest :=
    ⟨ok.nonzero, ok.aligned, ok.below, ok.described, chain, rfl, (nodup_cons.mp ok.distinct).2,
      fun b member => ok.blocks b (mem_cons_of_mem _ member), partition sz⟩
  have after : Chain (link h.memory) (link h.memory ptr) rest := ok.chain.2
  cases rest with
  | nil =>
    have last : h.memory ptr = 0 := by
      have ended : link h.memory ptr = none := after
      by_contra more
      simp [link, more] at ended
    refine ⟨invalidOffset, ?_, fill invalidOffset ?_⟩
    · simp only [Kheap.doalloc, ok.pageaddr, here, last, count, if_pos inside]
      rfl
    · exact if_pos rfl
  | cons second later =>
    have linked : link h.memory ptr = some second := after.1
    have value : h.memory ptr ≠ 0 ∧ h.memory ptr = second := by
      simp only [link] at linked
      split at linked
      · cases linked
      next more => exact ⟨more, Option.some.inj linked⟩
    obtain ⟨low, high, _⟩ := ok.blocks second (mem_cons_of_mem _ mem_cons_self)
    have below := ok.below
    have offset : (second + word - page) % word = second - page := by
      rw [show second + word - page = second - page + word by omega, Nat.add_mod_right]
      exact Nat.mod_eq_of_lt (by omega)
    refine ⟨second - page, ?_, fill (second - page) ⟨?_, after.2⟩⟩
    · have more : h.memory ptr ≠ 0 := value.1
      have positive : 0 < (second :: later).length ∧ second - page < pageSize := by
        constructor
        · exact Nat.succ_pos _
        · omega
      simp only [Kheap.doalloc, ok.pageaddr, here, count, if_pos inside]
      rw [if_pos more, value.2, offset, if_pos positive]
    · have small : second - page ≠ invalidOffset := by
        simp only [invalidOffset, pageSize] at *
        omega
      have place : page + (second - page) = second := Nat.add_sub_cancel' low
      simp only [Pageref.first, if_neg small, place]

end Doalloc

theorem fillDeadbeef_outside (memory : Nat → Nat) {ptr len a} (outside : a < ptr ∨ ptr + len ≤ a) :
    fillDeadbeef memory ptr len a = memory a := by
  rw [fillDeadbeef, if_neg (by omega)]

section Push

variable {h : Kheap} {live : Nat → Option Nat} {page : Nat} {k : Fin nsizes} {p : Ref} {ptr sz : Nat} {free : List Nat}

variable (ok : PageOk h.memory live page k (h.pagerefs p) free) (block : IsBlock page (sizes k) ptr)
include ok block

theorem pushBlock_frame {a} (outside : a < ptr ∨ ptr + sizes k ≤ a) :
    (h.pushBlock p (sizes k) (ptr - page)).memory a = h.memory a := by
  have here : page + (ptr - page) = ptr := Nat.add_sub_cancel' block.1
  have positive := sizes_pos k
  have different : a ≠ ptr := by omega
  simp only [Kheap.pushBlock, Kheap.setRef, ok.pageaddr, here]
  rw [update_of_ne different]
  exact fillDeadbeef_outside _ outside

theorem pushBlock_pushes (taken : live ptr = some sz) :
    PageOk (h.pushBlock p (sizes k) (ptr - page)).memory (update live ptr none) page k
      { h.pagerefs p with freelistOffset := ptr - page, nfree := free.length + 1 } (ptr :: free) ∧
    h.pushBlock p (sizes k) (ptr - page) =
      { h with memory := (h.pushBlock p (sizes k) (ptr - page)).memory }.setRef p
        { h.pagerefs p with freelistOffset := ptr - page, nfree := free.length + 1 } := by
  have here : page + (ptr - page) = ptr := Nat.add_sub_cancel' block.1
  have used : ptr ∉ free := by
    rw [ok.partition ptr block, taken]
    exact nofun
  have distinct : (ptr :: free).Nodup := nodup_cons.mpr ⟨used, ok.distinct⟩
  have blocks : ∀ b ∈ ptr :: free, IsBlock page (sizes k) b := by
    intro b member
    rcases mem_cons.mp member with rfl | old
    · exact block
    · exact ok.blocks b old
  have room := (blocks_count distinct blocks).1
  have few := blocks_le k
  rw [length_cons] at room
  have count : ((h.pagerefs p).nfree + 1) % 2 ^ 16 = free.length + 1 := by
    rw [ok.count]
    omega
  have linked : link (h.pushBlock p (sizes k) (ptr - page)).memory ptr = (h.pagerefs p).first page := by
    have nonzero := ok.nonzero
    simp only [Kheap.pushBlock, Kheap.setRef, ok.pageaddr, here, link, update_self, Pageref.first]
    by_cases invalid : (h.pagerefs p).freelistOffset = invalidOffset
    · simp [invalid]
    · rw [if_neg invalid, if_neg invalid, if_neg (by omega)]
  refine ⟨⟨ok.nonzero, ok.aligned, ok.below, ok.described, ⟨?_, ?_⟩, rfl, distinct, blocks, fun b isBlock => ?_⟩, ?_⟩
  · have high := block.2.1
    have small : ptr - page ≠ invalidOffset := by
      simp only [invalidOffset, pageSize] at *
      omega
    simp only [Pageref.first, if_neg small, here]
  · rw [linked]
    refine ok.chain.congr fun b member => link_congr (pushBlock_frame ok block ?_)
    have different : ptr ≠ b := by
      rintro rfl
      exact used member
    rcases block.apart (ok.blocks b member) different with above | below
    · exact .inr above
    · exact .inl (by omega)
  · have before := ok.partition b isBlock
    by_cases same : b = ptr
    · subst same
      simp
    · rw [update_of_ne same, ← before, mem_cons]
      simp [same]
  · simp only [Kheap.pushBlock, count]
    rfl

end Push

end Os161.Heap
