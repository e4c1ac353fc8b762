import Os161.Proofs.KheapShape

/-! The invariant of the heap and its users, and that allocation keeps it. -/

namespace Os161.Heap
open Vm Linked Function List

/-- The descriptors on the list of all pages and on those of the sizes, and the frame, size and free blocks of each
page. `large` are the runs of whole pages. -/
structure Shape where
  all : List Ref
  same : Fin nsizes → List Ref
  start : Ref → Nat
  kind : Ref → Fin nsizes
  free : Ref → List Nat
  large : List Frames.Block

namespace Shape

def run (g : Shape) (p : Ref) : Frames.Block := ⟨g.start p, 1⟩

def page (g : Shape) (cm : Coremap) (p : Ref) : Nat := kaddr cm (g.start p)

def Owned (g : Shape) (cm : Coremap) (ptr sz : Nat) : Prop :=
  (∃ p ∈ g.all, IsBlock (g.page cm p) (sizes (g.kind p)) ptr ∧ sz ≤ sizes (g.kind p)) ∨
  ∃ block ∈ g.large, ptr = kaddr cm block.start ∧ sz ≤ block.length * pageSize

def insert (g : Shape) (p : Ref) (k : Fin nsizes) (start : Nat) (free : List Nat) : Shape where
  all := p :: g.all
  same := update g.same k (p :: g.same k)
  start := update g.start p start
  kind := update g.kind p k
  free := update g.free p free
  large := g.large

end Shape

/-- The descriptors in use are those on the list of all pages, and each is on the list of its
own size. -/
structure Listed (h : Kheap) (all : List Ref) (same : Fin nsizes → List Ref) (kind : Ref → Fin nsizes) : Prop where
  chainAll : Chain (fun p => (h.pagerefs p).nextAll) h.allbase all
  chainSame : ∀ k, Chain (fun p => (h.pagerefs p).nextSamesize) (h.sizebases k) (same k)
  distinctAll : all.Nodup
  distinctSame : ∀ k, (same k).Nodup
  mem_same : ∀ k p, p ∈ same k ↔ p ∈ all ∧ kind p = k
  inuse : ∀ p, InUse h.pagerefsInuse p ↔ p ∈ all

structure Sound (s : Clients) (g : Shape) : Prop where
  listed : Listed s.kheap g.all g.same g.kind
  pages : ∀ p ∈ g.all,
    PageOk s.kheap.memory s.live (g.page s.kheap.cm p) (g.kind p) (s.kheap.pagerefs p) (g.free p)
  held : Frames.Held ⟨s.kheap.cm, g.all.map g.run ++ (g.large ++ s.foreign)⟩
  owners : ∀ ptr sz, s.live ptr = some sz → g.Owned s.kheap.cm ptr sz

section Lists

variable {h : Kheap} {all : List Ref} {same : Fin nsizes → List Ref} {kind : Ref → Fin nsizes} {p : Ref}

theorem refs_length {list : List Ref} (distinct : list.Nodup) : list.length ≤ npagerefs := by
  have bound := distinct.length_le_card
  rwa [Fintype.card_fin] at bound

theorem Listed.setRef (listed : Listed h all same kind) {ref}
    (same_ : ref.nextSamesize = (h.pagerefs p).nextSamesize) (all_ : ref.nextAll = (h.pagerefs p).nextAll) :
    Listed (h.setRef p ref) all same kind := by
  have links (q : Ref) : ((h.setRef p ref).pagerefs q).nextAll = (h.pagerefs q).nextAll ∧
      ((h.setRef p ref).pagerefs q).nextSamesize = (h.pagerefs q).nextSamesize := by
    by_cases here : q = p
    · subst here
      simp [Kheap.setRef, same_, all_]
    · simp [Kheap.setRef, here]
  exact { listed with
    chainAll := listed.chainAll.congr fun q _ => (links q).1
    chainSame := fun k => (listed.chainSame k).congr fun q _ => (links q).2 }

theorem Listed.insert (listed : Listed h all same kind) (fresh : p ∉ all) {inuse}
    (bits : ∀ q, InUse inuse q ↔ InUse h.pagerefsInuse q ∨ q = p) {k ref}
    (same_ : ref.nextSamesize = h.sizebases k) (all_ : ref.nextAll = h.allbase) (memory : Nat → Nat) (cm : Coremap) :
    Listed ⟨update h.pagerefs p ref, inuse, update h.sizebases k (some p), some p, memory, cm⟩
      (p :: all) (update same k (p :: same k)) (update kind p k) := by
  have nextAll : (fun q => (update h.pagerefs p ref q).nextAll) =
      update (fun q => (h.pagerefs q).nextAll) p h.allbase := by
    rw [← all_]
    exact comp_update Pageref.nextAll _ _ _
  have nextSamesize : (fun q => (update h.pagerefs p ref q).nextSamesize) =
      update (fun q => (h.pagerefs q).nextSamesize) p (h.sizebases k) := by
    rw [← same_]
    exact comp_update Pageref.nextSamesize _ _ _
  have outside (j : Fin nsizes) : p ∉ same j := fun member => fresh ((listed.mem_same j p).mp member).1
  refine ⟨?_, fun j => ?_, nodup_cons.mpr ⟨fresh, listed.distinctAll⟩, fun j => ?_, fun j q => ?_, fun q => ?_⟩
  · simp only [nextAll]
    exact listed.chainAll.insert fresh
  · simp only [nextSamesize]
    by_cases here : j = k
    · subst here
      rw [update_self, update_self]
      exact (listed.chainSame j).insert (outside j)
    · rw [update_of_ne here, update_of_ne here]
      refine (listed.chainSame j).congr fun q member => update_of_ne ?_ _ _
      rintro rfl
      exact outside j member
  · by_cases here : j = k
    · subst here
      rw [update_self]
      exact nodup_cons.mpr ⟨outside j, listed.distinctSame j⟩
    · rw [update_of_ne here]
      exact listed.distinctSame j
  · by_cases first : q = p
    · subst first
      by_cases here : j = k
      · subst here
        simp
      · simp [here, outside j, Ne.symm here]
    · by_cases here : j = k
      · subst here
        simp [first, listed.mem_same]
      · simp [here, first, listed.mem_same]
  · rw [bits, listed.inuse, mem_cons, or_comm]

theorem Listed.remove (listed : Listed h all same kind) (member : p ∈ all) {inuse : Fin inuseWords → BitVec 32}
    (bits : ∀ q, InUse inuse q ↔ InUse h.pagerefsInuse q ∧ q ≠ p) (cm : Coremap) :
    Listed { h.removeLists p (kind p) with pagerefsInuse := inuse, cm } (all.erase p)
      (update same (kind p) ((same (kind p)).erase p)) kind := by
  have onSame : p ∈ same (kind p) := (listed.mem_same _ _).mpr ⟨member, rfl⟩
  obtain ⟨chainAll, _⟩ := unlink_chain listed.chainAll listed.distinctAll member (refs_length listed.distinctAll)
  obtain ⟨chainSame, frame⟩ := unlink_chain (listed.chainSame (kind p)) (listed.distinctSame _) onSame
    (refs_length (listed.distinctSame _))
  refine ⟨chainAll, fun j => ?_, listed.distinctAll.erase p, fun j => ?_, fun j q => ?_, fun q => ?_⟩
  · simp only [Kheap.removeLists]
    by_cases here : j = kind p
    · subst here
      rw [update_self, update_self]
      exact chainSame
    · rw [update_of_ne here, update_of_ne here]
      refine (listed.chainSame j).congr fun q onOther => frame q fun also => here ?_
      exact ((listed.mem_same _ _).mp onOther).2.symm.trans ((listed.mem_same _ _).mp also).2
  · by_cases here : j = kind p
    · subst here
      rw [update_self]
      exact (listed.distinctSame _).erase p
    · rw [update_of_ne here]
      exact listed.distinctSame j
  · rw [listed.distinctAll.mem_erase_iff]
    by_cases here : j = kind p
    · subst here
      rw [update_self, (listed.distinctSame _).mem_erase_iff, listed.mem_same, and_assoc]
    · rw [update_of_ne here, listed.mem_same, and_assoc]
      constructor
      · rintro ⟨onAll, rfl⟩
        exact ⟨fun equal => here (congrArg kind equal), onAll, rfl⟩
      · exact fun found => found.2
  · rw [bits, listed.inuse, listed.distinctAll.mem_erase_iff, and_comm]

end Lists

section Geometry

variable {s : Clients} {g : Shape} {p q : Ref} {a : Nat} {block other : Frames.Block} {cm : Coremap}

theorem run_spans : (g.run p).Spans (kbase cm) a ↔ g.page cm p ≤ a ∧ a < g.page cm p + pageSize := by
  simp only [Frames.Block.Spans, Shape.run, Shape.page, kaddr, Nat.succ_mul, Nat.add_assoc]

theorem IsBlock.spans {size} (isBlock : IsBlock (g.page cm p) size a) : (g.run p).Spans (kbase cm) a :=
  run_spans.mpr ⟨isBlock.1, isBlock.2.1⟩

theorem kaddr_spans (nonempty : 0 < block.length) : block.Spans (kbase cm) (kaddr cm block.start) := by
  simp only [Frames.Block.Spans, kaddr, Nat.add_mul, pageSize]
  omega

theorem Sound.run_mem (_ : Sound s g) (member : p ∈ g.all) : g.run p ∈ g.all.map g.run ++ (g.large ++ s.foreign) :=
  mem_append_left _ (mem_map_of_mem member)

theorem Sound.large_mem (_ : Sound s g) (member : block ∈ g.large) :
    block ∈ g.all.map g.run ++ (g.large ++ s.foreign) :=
  mem_append_right _ (mem_append_left _ member)

variable (sound : Sound s g)
include sound

theorem Sound.pages_apart (left : p ∈ g.all) (right : q ∈ g.all) (different : p ≠ q) :
    Frames.Apart (g.run p) (g.run q) := by
  have symmetric : Std.Symm fun p q => Frames.Apart (g.run p) (g.run q) := ⟨fun a b apart i both => apart i both.symm⟩
  have disjoint := (pairwise_append.mp sound.held.disjoint).1
  exact (pairwise_map.mp disjoint).forall left right different

theorem Sound.large_apart (left : p ∈ g.all) (right : block ∈ g.large) : Frames.Apart (g.run p) block :=
  (pairwise_append.mp sound.held.disjoint).2.2 _ (mem_map_of_mem left) _ (mem_append_left _ right)

theorem Sound.larges_apart (left : block ∈ g.large) (right : other ∈ g.large)
    (different : block ≠ other) : Frames.Apart block other := by
  have symmetric : Std.Symm Frames.Apart := ⟨fun a b apart i both => apart i both.symm⟩
  exact sound.held.disjoint.forall (sound.large_mem left) (sound.large_mem right) different

theorem Sound.page_unique (left : p ∈ g.all) (right : q ∈ g.all)
    (one : (g.run p).Spans (kbase s.kheap.cm) a) (two : (g.run q).Spans (kbase s.kheap.cm) a) : p = q := by
  by_contra different
  exact (sound.pages_apart left right different).not_spans one two

theorem Sound.live_spans {sz} (live : s.live a = some sz) :
    (∃ p ∈ g.all, (g.run p).Spans (kbase s.kheap.cm) a) ∨ ∃ block ∈ g.large, block.Spans (kbase s.kheap.cm) a := by
  rcases sound.owners a sz live with ⟨p, member, isBlock, _⟩ | ⟨block, member, rfl, _⟩
  · exact .inl ⟨p, member, isBlock.spans⟩
  · exact .inr ⟨block, member, kaddr_spans (sound.held.sized block (sound.large_mem member)).1⟩

theorem Sound.not_live (outside : block.Spans (kbase s.kheap.cm) a)
    (apart : ∀ other ∈ g.all.map g.run ++ (g.large ++ s.foreign), Frames.Apart block other) : s.live a = none := by
  cases live : s.live a with
  | none => rfl
  | some sz =>
    exfalso
    rcases sound.live_spans live with ⟨p, member, inside⟩ | ⟨large, member, inside⟩
    · exact (apart _ (sound.run_mem member)).not_spans outside inside
    · exact (apart _ (sound.large_mem member)).not_spans outside inside

end Geometry

theorem live_update {live} {property : Nat → Nat → Prop} {ptr sz}
    (old : ∀ other size, live other = some size → property other size) (new : property ptr sz) (other size : Nat)
    (found : update live ptr (some sz) other = some size) : property other size := by
  by_cases here : other = ptr
  · subst here
    rw [update_self] at found
    cases found
    exact new
  · rw [update_of_ne here] at found
    exact old other size found

section Allocation

variable {s : Clients} {g : Shape} {p : Ref} {sz : Nat}

theorem Sound.other_page (sound : Sound s g) (member : p ∈ g.all) {q} (right : q ∈ g.all) (different : q ≠ p)
    {ptr} (inside : (g.run p).Spans (kbase s.kheap.cm) ptr) (user : Option Nat) {memory}
    (words : ∀ b, ¬ (g.run p).Spans (kbase s.kheap.cm) b → memory b = s.kheap.memory b) :
    PageOk memory (update s.live ptr user) (g.page s.kheap.cm q) (g.kind q) (s.kheap.pagerefs q)
      (g.free q) := by
  have apart (b : Nat) (isBlock : IsBlock (g.page s.kheap.cm q) (sizes (g.kind q)) b) :
      ¬ (g.run p).Spans (kbase s.kheap.cm) b :=
    (sound.pages_apart right member different).not_spans isBlock.spans
  refine (sound.pages q right).congr (fun b free => words b (apart b ((sound.pages q right).blocks b free))) ?_
  intro b isBlock
  rw [update_of_ne]
  rintro rfl
  exact apart b isBlock inside

theorem Sound.doalloc (sound : Sound s g) (member : p ∈ g.all) (available : g.free p ≠ [])
    (enough : sz ≤ sizes (g.kind p)) :
    ∃ ptr kheap g', s.kheap.doalloc p = some (ptr, kheap) ∧ ptr ≠ 0 ∧ s.live ptr = none ∧
      Sound { s with kheap, live := update s.live ptr (some sz) } g' := by
  obtain ⟨ptr, rest, free⟩ := exists_cons_of_ne_nil available
  have ok := sound.pages p member
  rw [free] at ok
  obtain ⟨offset, popped, after⟩ := doalloc_pops ok
  have isBlock := ok.blocks ptr mem_cons_self
  have positive := ok.nonzero
  have low := isBlock.1
  refine ⟨ptr, _, { g with free := update g.free p rest }, popped, by omega,
    (ok.partition ptr isBlock).mp mem_cons_self, ?_, ?_, sound.held, ?_⟩
  · exact sound.listed.setRef rfl rfl
  · intro q onAll
    simp only [Kheap.setRef]
    by_cases here : q = p
    · subst here
      rw [update_self, update_self]
      exact after sz
    · rw [update_of_ne here, update_of_ne here]
      exact sound.other_page member onAll here isBlock.spans _ fun _ _ => rfl
  · exact live_update sound.owners (.inl ⟨p, member, isBlock, enough⟩)

theorem fresh_page {memory memory' live page} {k : Fin nsizes}
    {ref} (nonzero : 0 < page) (aligned : page % pageSize = 0) (below : page + pageSize < word)
    (described : ref.pageaddrAndBlocktype = mkpab page k)
    (offset : ref.freelistOffset = (pageSize / sizes k - 1) * sizes k) (count : ref.nfree = pageSize / sizes k)
    (linked : linkBlocks page (sizes k) memory (pageSize / sizes k - 1) = some memory')
    (unused : ∀ b, IsBlock page (sizes k) b → live b = none) :
    PageOk memory' live page k ref (blocksDown page (sizes k) (pageSize / sizes k - 1)) := by
  have some_ := blocks_pos k
  have whole := sizes_mul k
  obtain ⟨_, same, chain, _⟩ := linkBlocks_chain (Nat.ne_of_gt nonzero) (sizes_pos k) memory (pageSize / sizes k - 1)
  rw [linked] at same
  cases same
  refine ⟨nonzero, aligned, below, ?_, ?_, ?_, nodup_blocksDown _ _ (sizes_pos k), fun b => mem_allBlocks.mp, ?_⟩
  · have small : k.val < 8 := k.isLt
    rw [described, mkpab, pageFrame]
    simp only [pageSize] at *
    omega
  · have last : (pageSize / sizes k - 1) * sizes k ≤ pageSize := by
      rw [Nat.sub_mul, whole]
      omega
    have valid : ref.freelistOffset ≠ invalidOffset := by
      simp only [invalidOffset, pageSize] at *
      omega
    rw [Pageref.first, if_neg valid, offset]
    exact chain
  · rw [count, length_blocksDown]
    omega
  · intro b isBlock
    simp only [mem_allBlocks, isBlock, unused b isBlock]

/-- The bits of the descriptors matter, not the words they are in. -/
theorem Sound.bits (sound : Sound s g) {inuse}
    (bits : ∀ q, InUse inuse q ↔ InUse s.kheap.pagerefsInuse q) :
    Sound { s with kheap := { s.kheap with pagerefsInuse := inuse } } g :=
  { sound with
    listed := { sound.listed with inuse := fun p => (bits p).trans (sound.listed.inuse p) } }

theorem newPage_offset (page : Nat) (k : Fin nsizes) :
    (page + (pageSize / sizes k - 1) * sizes k + word - page) % word % 2 ^ 16 = (pageSize / sizes k - 1) * sizes k := by
  have whole := sizes_mul k
  have last : (pageSize / sizes k - 1) * sizes k ≤ pageSize := by
    rw [Nat.sub_mul, whole]
    omega
  simp only [word, pageSize] at *
  omega

theorem newPage_granted {h : Kheap} {inuse start blocks}
    (found : allocpageref h.pagerefsInuse = some (some (p, inuse)))
    (address : (cmGetppages h.cm 1).1 = h.cm.frame start) (nonzero : h.cm.frame start ≠ 0)
    (base : (cmGetppages h.cm 1).2.freepaddr = h.cm.freepaddr)
    (held : Frames.Held ⟨(cmGetppages h.cm 1).2, ⟨start, 1⟩ :: blocks⟩) (k : Fin nsizes) :
    ∃ memory, linkBlocks (kaddr h.cm start) (sizes k) h.memory (pageSize / sizes k - 1) = some memory ∧
      h.newPage k = some (some p,
        ⟨update h.pagerefs p ⟨h.sizebases k, h.allbase, mkpab (kaddr h.cm start) k,
            (pageSize / sizes k - 1) * sizes k, pageSize / sizes k⟩,
          inuse, update h.sizebases k (some p), some p, memory, (cmGetppages h.cm 1).2⟩) ∧
      ∀ a, a ∉ blocksDown (kaddr h.cm start) (sizes k) (pageSize / sizes k - 1) → memory a = h.memory a := by
  have positive := kaddr_pos h.cm start
  obtain ⟨memory, linked, _, frame⟩ :=
    linkBlocks_chain (Nat.ne_of_gt positive) (sizes_pos k) h.memory (pageSize / sizes k - 1)
  have place : paddrToKvaddr (h.cm.frame start) = kaddr h.cm start := by
    have placed := paddrToKvaddr_frame held mem_cons_self
    rwa [kaddr_congr base, Coremap.frame, base] at placed
  have granted : allocKpages h.cm 1 = (kaddr h.cm start, (cmGetppages h.cm 1).2) := by
    simp only [allocKpages, Nat.cast_one, address, if_neg nonzero, place]
  refine ⟨memory, linked, ?_, frame⟩
  simp only [Kheap.newPage, found, granted, if_neg (Nat.ne_of_gt positive), linked, newPage_offset, if_true]

/-- A fresh page is fully free; without one nothing has changed. -/
theorem Sound.newPage (sound : Sound s g) (k : Fin nsizes) :
    (∃ kheap, s.kheap.newPage k = some (none, kheap) ∧ Sound { s with kheap } g) ∨
    ∃ p kheap g', s.kheap.newPage k = some (some p, kheap) ∧ Sound { s with kheap } g' ∧
      p ∈ g'.all ∧ g'.kind p = k ∧ g'.free p ≠ [] := by
  rcases allocpageref_cases s.kheap.pagerefsInuse with full | ⟨p, inuse, found, unused, bits⟩
  · exact .inl ⟨s.kheap, by simp only [Kheap.newPage, full], sound⟩
  have grants := Frames.getppages_grants sound.held 1
  simp only [Nat.cast_one] at grants
  rcases grants with ⟨none_, unchanged⟩ | ⟨start, address, nonzero, base, held⟩
  · left
    obtain ⟨inuse', cleared, bits'⟩ := freepageref_clears ((bits p).mpr (.inr rfl))
    have restored (q : Ref) : InUse inuse' q ↔ InUse s.kheap.pagerefsInuse q := by
      rw [bits', bits]
      constructor
      · rintro ⟨old | same, different⟩
        · exact old
        · exact absurd same different
      · intro old
        refine ⟨.inl old, ?_⟩
        rintro rfl
        exact unused old
    refine ⟨{ s.kheap with pagerefsInuse := inuse' }, ?_, sound.bits restored⟩
    simp only [Kheap.newPage, found, allocKpages, Nat.cast_one, none_, unchanged, if_true, cleared, Option.map_some]
  · right
    have fresh : p ∉ g.all := fun member => unused ((sound.listed.inuse p).mpr member)
    have others : ∀ q ∈ g.all, q ≠ p := by
      rintro q member rfl
      exact fresh member
    obtain ⟨memory, linked, computed, words⟩ := newPage_granted found address nonzero base held k
    have same := kaddr_congr base
    have aligned : kaddr s.kheap.cm start % pageSize = 0 := kaddr_aligned sound.held start
    have below : kaddr s.kheap.cm start + pageSize < word := by
      have fits := kaddr_fits held mem_cons_self
      rwa [same, Nat.one_mul] at fits
    have runs (free : List Nat) : g.all.map (g.insert p k start free).run = g.all.map g.run := by
      refine map_congr_left fun q member => ?_
      simp only [Shape.run, Shape.insert, update_of_ne (others q member)]
    have inside (b : Nat) (isBlock : IsBlock (kaddr s.kheap.cm start) (sizes k) b) :
        Frames.Block.Spans ⟨start, 1⟩ (kbase s.kheap.cm) b := by
      obtain ⟨low, high, _⟩ := isBlock
      simp only [Frames.Block.Spans, kaddr, Nat.succ_mul, Nat.add_assoc] at *
      exact ⟨low, high⟩
    have apart := (pairwise_cons.mp held.disjoint).1
    refine ⟨p, _, g.insert p k start (blocksDown (kaddr s.kheap.cm start) (sizes k) (pageSize / sizes k - 1)), computed,
      ⟨?_, ?_, ?_, ?_⟩, mem_cons_self, update_self _ _ _, ?_⟩
    · exact sound.listed.insert fresh bits rfl rfl _ _
    · intro q member
      rcases mem_cons.mp member with rfl | old
      · simp only [Shape.page, Shape.insert, update_self, same]
        refine fresh_page (kaddr_pos _ _) aligned below rfl rfl rfl linked fun b isBlock => ?_
        exact sound.not_live (inside b isBlock) apart
      · have different := others q old
        simp only [Shape.page, Shape.insert, update_of_ne different, same]
        refine (sound.pages q old).congr (fun b free => words b fun taken => ?_) fun _ _ => Iff.rfl
        have isBlock := (sound.pages q old).blocks b free
        exact (apart _ (sound.run_mem old)).not_spans (inside b (mem_allBlocks.mp taken)) isBlock.spans
    · have first (free : List Nat) : (g.insert p k start free).run p = ⟨start, 1⟩ := by
        simp only [Shape.run, Shape.insert, update_self]
      rw [show (g.insert p k start _).all = p :: g.all from rfl, map_cons, runs, first]
      exact held
    · intro ptr sz live
      rcases sound.owners ptr sz live with ⟨q, member, isBlock, enough⟩ | large
      · refine .inl ⟨q, mem_cons_of_mem _ member, ?_⟩
        simp only [Shape.page, Shape.insert, update_of_ne (others q member), same]
        exact ⟨isBlock, enough⟩
      · right
        simp only [same]
        exact large
    · intro empty
      have length := length_blocksDown (kaddr s.kheap.cm start) (sizes k) (pageSize / sizes k - 1)
      simp only [Shape.insert, update_self] at empty
      rw [empty] at length
      cases length

theorem blocktype_fits (small : sz < largestSubpageSize) : ∃ k, blocktype sz = some k ∧ sz ≤ sizes k := by
  cases found : blocktype sz with
  | none =>
    exfalso
    have largest : sizes ⟨7, by decide⟩ = 2048 := rfl
    have misses := List.find?_eq_none.mp found ⟨7, by decide⟩ (mem_finRange _)
    rw [largest, decide_eq_true_eq] at misses
    exact misses (Nat.le_of_lt small)
  | some k => exact ⟨k, rfl, by simpa using List.find?_some found⟩

theorem Sound.findPage (sound : Sound s g) (k : Fin nsizes) :
    s.kheap.findPage k = some none ∨
    ∃ p, s.kheap.findPage k = some (some p) ∧ p ∈ g.all ∧ g.kind p = k ∧ g.free p ≠ [] := by
  have walked : s.kheap.findPage k = some ((g.same k).find? fun p => 0 < (s.kheap.pagerefs p).nfree) := by
    refine search_chain (sound.listed.chainSame k) (refs_length (sound.listed.distinctSame k)) fun p member => ?_
    obtain ⟨onAll, kind⟩ := (sound.listed.mem_same k p).mp member
    rw [if_pos (by rw [(sound.pages p onAll).blocktype, kind])]
  cases found : (g.same k).find? fun p => 0 < (s.kheap.pagerefs p).nfree with
  | none => exact .inl (by rw [walked, found])
  | some p =>
    obtain ⟨onAll, kind⟩ := (sound.listed.mem_same k p).mp (mem_of_find?_eq_some found)
    refine .inr ⟨p, by rw [walked, found], onAll, kind, fun empty => ?_⟩
    have some_ : 0 < (s.kheap.pagerefs p).nfree := by simpa using List.find?_some found
    rw [(sound.pages p onAll).count, empty] at some_
    cases some_

/-- What an allocation leaves behind: `NULL` and no new pointer, or a pointer that was not live. -/
def Grants (s : Clients) (sz ptr : Nat) (kheap : Kheap) : Prop :=
  (ptr = 0 ∧ ∃ g, Sound { s with kheap } g) ∨
  (ptr ≠ 0 ∧ s.live ptr = none ∧ ∃ g, Sound { s with kheap, live := update s.live ptr (some sz) } g)

theorem Sound.subpageKmalloc (sound : Sound s g) (small : sz < largestSubpageSize) :
    ∃ ptr kheap, s.kheap.subpageKmalloc sz = some (ptr, kheap) ∧ Grants s sz ptr kheap := by
  obtain ⟨k, type, enough⟩ := blocktype_fits small
  rcases sound.findPage k with none_ | ⟨p, found, member, kind, available⟩
  · rcases sound.newPage k with ⟨kheap, failed, after⟩ | ⟨p, kheap, g', added, after, member, kind, available⟩
    · refine ⟨0, kheap, ?_, .inl ⟨rfl, g, after⟩⟩
      simp only [Kheap.subpageKmalloc, type, none_, failed]
    · obtain ⟨ptr, final, g'', taken, nonzero, unused, done⟩ := after.doalloc member available (kind ▸ enough)
      refine ⟨ptr, final, ?_, .inr ⟨nonzero, unused, g'', done⟩⟩
      simp only [Kheap.subpageKmalloc, type, none_, added]
      exact taken
  · obtain ⟨ptr, final, g', taken, nonzero, unused, done⟩ := sound.doalloc member available (kind ▸ enough)
    refine ⟨ptr, final, ?_, .inr ⟨nonzero, unused, g', done⟩⟩
    simp only [Kheap.subpageKmalloc, type, found]
    exact taken

/-- A size that wraps asks for no page, and there is no block of no pages. -/
theorem pages_enough (small : sz < word) (some_ : 0 < (sz + pageSize - 1) % word / pageSize) :
    sz ≤ (sz + pageSize - 1) % word / pageSize * pageSize := by
  simp only [word, pageSize] at *
  omega

theorem Sound.largeKmalloc (sound : Sound s g) (fits : sz < word) {npages}
    (pages : npages = (sz + pageSize - 1) % word / pageSize) :
    Grants s sz (allocKpages s.kheap.cm npages).1 { s.kheap with cm := (allocKpages s.kheap.cm npages).2 } := by
  rcases Frames.getppages_grants sound.held npages with ⟨none_, unchanged⟩ | ⟨start, address, nonzero, base, held⟩
  · have refused : allocKpages s.kheap.cm npages = (0, s.kheap.cm) := by
      simp only [allocKpages, none_, unchanged, if_true]
    rw [refused]
    exact .inl ⟨rfl, g, sound⟩
  have same := kaddr_congr base
  have place : paddrToKvaddr (s.kheap.cm.frame start) = kaddr s.kheap.cm start := by
    have placed := paddrToKvaddr_frame held mem_cons_self
    rwa [same, Coremap.frame, base] at placed
  have granted : allocKpages s.kheap.cm npages = (kaddr s.kheap.cm start, (cmGetppages s.kheap.cm npages).2) := by
    simp only [allocKpages, address, if_neg nonzero, place]
  have positive : 0 < npages := (held.sized _ mem_cons_self).1
  have apart := (pairwise_cons.mp held.disjoint).1
  have inside : Frames.Block.Spans ⟨start, npages⟩ (kbase s.kheap.cm) (kaddr s.kheap.cm start) :=
    @kaddr_spans ⟨start, npages⟩ s.kheap.cm positive
  rw [granted]
  refine .inr ⟨Nat.ne_of_gt (kaddr_pos _ _), sound.not_live inside apart,
    { g with large := ⟨start, npages⟩ :: g.large }, ⟨?_, ?_, ?_, ?_⟩⟩
  · exact { sound.listed with }
  · intro p member
    simp only [Shape.page, same]
    refine (sound.pages p member).congr (fun _ _ => rfl) fun b isBlock => ?_
    rw [update_of_ne]
    rintro rfl
    exact (apart _ (sound.run_mem member)).not_spans inside isBlock.spans
  · exact held.perm perm_middle.symm
  · have owned : ∀ other size, s.live other = some size →
        Shape.Owned { g with large := ⟨start, npages⟩ :: g.large } (cmGetppages s.kheap.cm npages).2 other size := by
      intro other size live
      simp only [Shape.Owned, Shape.page, same]
      rcases sound.owners other size live with small | ⟨block, member, large⟩
      · exact .inl small
      · exact .inr ⟨block, mem_cons_of_mem _ member, large⟩
    refine live_update owned (.inr ⟨⟨start, npages⟩, mem_cons_self, by rw [same], ?_⟩)
    rw [pages] at positive ⊢
    exact pages_enough fits positive

theorem Sound.kmalloc (sound : Sound s g) (fits : sz < word) :
    ∃ ptr kheap, s.kheap.kmalloc sz = some (ptr, kheap) ∧ Grants s sz ptr kheap := by
  by_cases large : largestSubpageSize ≤ sz
  · refine ⟨_, _, ?_, sound.largeKmalloc fits rfl⟩
    simp only [Kheap.kmalloc, if_pos large]
  · obtain ⟨ptr, kheap, computed, grants⟩ := sound.subpageKmalloc (Nat.lt_of_not_le large)
    refine ⟨ptr, kheap, ?_, grants⟩
    simp only [Kheap.kmalloc, if_neg large, computed]

end Allocation

end Os161.Heap
