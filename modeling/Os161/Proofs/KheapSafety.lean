import Os161.Proofs.KheapSound

/-! Every call keeps the heap in order: nothing asserts, and new memory meets no memory that
is in use. -/

namespace Os161.Heap
open Vm Linked Runs Function List Option

/-- A page by its descriptor: in use, on the list of its own size only, its blocks free or live. -/
structure PageInOrder (s : Clients) (same : Fin nsizes → List Ref) (p : Ref) (free : List Nat) (k : Fin nsizes) :
    Prop where
  inUse : InUse s.kheap.pagerefsInuse p
  blocktype : (s.kheap.pagerefs p).blocktype = k.val
  ownList : ∀ j, p ∈ same j ↔ j = k
  freelist : Chain (link s.kheap.memory) ((s.kheap.pagerefs p).first (s.kheap.pagerefs p).pageaddr) free
  nfree : (s.kheap.pagerefs p).nfree = free.length
  invalid : (s.kheap.pagerefs p).freelistOffset = invalidOffset ↔ (s.kheap.pagerefs p).nfree = 0
  distinct : free.Nodup
  freeBlocks : ∀ b ∈ free, IsBlock (s.kheap.pagerefs p).pageaddr (sizes k) b
  liveBlocks : ∀ b, s.live b ≠ none → (s.kheap.pagerefs p).pageaddr ≤ b → b < (s.kheap.pagerefs p).pageaddr + pageSize →
    IsBlock (s.kheap.pagerefs p).pageaddr (sizes k) b
  partition : ∀ b, IsBlock (s.kheap.pagerefs p).pageaddr (sizes k) b → (b ∈ free ↔ s.live b = none)

structure ListsInOrder (s : Clients) (all : List Ref) (same : Fin nsizes → List Ref) (free : Ref → List Nat) : Prop where
  chainAll : Chain (fun p => (s.kheap.pagerefs p).nextAll) s.kheap.allbase all
  chainSame : ∀ k, Chain (fun p => (s.kheap.pagerefs p).nextSamesize) (s.kheap.sizebases k) (same k)
  once : all.Nodup
  onceSame : ∀ k, (same k).Nodup
  within : ∀ k, ∀ p ∈ same k, p ∈ all
  pages : ∀ p ∈ all, ∃ k, PageInOrder s same p (free p) k

def InOrder (s : Clients) : Prop := ∃ all same free, ListsInOrder s all same free

def Proceeds (s : Clients) : Prop := ∀ call, s.Allowed call → heapStep s call ≠ none

/-- A pointer `kmalloc` returns is new, and its range meets no live range and no frames of others. -/
def GivesNewRanges (s : Clients) : Prop :=
  ∀ (sz : UInt32) (ptr : Nat) (kheap : Kheap), s.kheap.kmalloc sz.toNat = some (ptr, kheap) → ptr ≠ 0 →
    s.live ptr = none ∧ ∀ a, ptr ≤ a ∧ a < ptr + sz.toNat →
      (∀ other size, s.live other = some size → ¬ (other ≤ a ∧ a < other + size)) ∧
      ∀ block ∈ s.foreign, ¬ block.Spans (kbase kheap.cm) a

section Free

variable {s : Clients} {g : Shape} {p : Ref} {ptr sz : Nat}

variable (sound : Sound s g)
include sound

/-- The walk along all pages finds the page of a block, and no page for a run of pages. -/
theorem Sound.pageOf (ptr : Nat) :
    s.kheap.pageOf ptr = some none ∧ (∀ p ∈ g.all, ¬ (g.run p).Spans (kbase s.kheap.cm) ptr) ∨
    ∃ p ∈ g.all, s.kheap.pageOf ptr = some (some p) ∧ (g.run p).Spans (kbase s.kheap.cm) ptr := by
  have walked : s.kheap.pageOf ptr =
      some (g.all.find? fun p => g.page s.kheap.cm p ≤ ptr ∧ ptr < g.page s.kheap.cm p + pageSize) := by
    refine search_chain sound.listed.chainAll (refs_length sound.listed.distinctAll) fun p member => ?_
    have ok := sound.pages p member
    rw [if_pos (by rw [ok.blocktype]; exact (g.kind p).isLt), ok.pageaddr]
  cases found : g.all.find? fun p => g.page s.kheap.cm p ≤ ptr ∧ ptr < g.page s.kheap.cm p + pageSize with
  | none =>
    refine .inl ⟨by rw [walked, found], fun p member inside => ?_⟩
    have misses := List.find?_eq_none.mp found p member
    rw [decide_eq_true_eq] at misses
    exact misses (run_spans.mp inside)
  | some p =>
    refine .inr ⟨p, mem_of_find?_eq_some found, by rw [walked, found], run_spans.mpr ?_⟩
    simpa using List.find?_some found

theorem Sound.pushBlock (member : p ∈ g.all)
    (isBlock : IsBlock (g.page s.kheap.cm p) (sizes (g.kind p)) ptr) (live : s.live ptr = some sz) : Sound { s with
        kheap := s.kheap.pushBlock p (sizes (g.kind p)) (ptr - g.page s.kheap.cm p)
        live := update s.live ptr none }
      { g with free := update g.free p (ptr :: g.free p) } := by
  obtain ⟨after, shape⟩ := pushBlock_pushes (sound.pages p member) isBlock live
  have words (b : Nat) (outside : ¬ (g.run p).Spans (kbase s.kheap.cm) b) :
      (s.kheap.pushBlock p (sizes (g.kind p)) (ptr - g.page s.kheap.cm p)).memory b = s.kheap.memory b := by
    refine pushBlock_frame (sound.pages p member) isBlock ?_
    have fits := isBlock.fits
    have low := isBlock.1
    rw [run_spans] at outside
    omega
  generalize (s.kheap.pushBlock p (sizes (g.kind p)) (ptr - g.page s.kheap.cm p)).memory = memory at *
  rw [shape]
  refine ⟨?_, ?_, sound.held, ?_⟩
  · have listed : Listed { s.kheap with memory } g.all g.same g.kind := { sound.listed with }
    exact listed.setRef rfl rfl
  · intro q onAll
    simp only [Kheap.setRef]
    by_cases here : q = p
    · subst here
      rw [update_self, update_self]
      exact after
    · rw [update_of_ne here, update_of_ne here]
      exact sound.other_page member onAll here isBlock.spans _ words
  · intro other size found
    by_cases here : other = ptr
    · simp [here] at found
    · exact sound.owners other size (by simpa [here] using found)

theorem Sound.releasePage (member : p ∈ g.all)
    (unused : ∀ b, IsBlock (g.page s.kheap.cm p) (sizes (g.kind p)) b → s.live b = none) :
    ∃ kheap g', s.kheap.releasePage p (g.kind p) = some kheap ∧ Sound { s with kheap } g' := by
  have place := paddrToKvaddr_frame sound.held (sound.run_mem member)
  obtain ⟨cm, freed, taken⟩ := Frames.freekpages_passes sound.held (sound.run_mem member)
  obtain ⟨inuse, cleared, bits⟩ := freepageref_clears ((sound.listed.inuse p).mpr member)
  have held := Frames.step_held sound.held taken
  have base : cm.freepaddr = s.kheap.cm.freepaddr := (Frames.step_freekpages sound.held taken).2.2.1
  have same := kaddr_congr base
  have released : s.kheap.releasePage p (g.kind p) =
      some { s.kheap.removeLists p (g.kind p) with pagerefsInuse := inuse, cm } := by
    simp only [place] at freed
    have address : (s.kheap.pagerefs p).pageaddr = kaddr s.kheap.cm (g.run p).start := (sound.pages p member).pageaddr
    simp only [Kheap.releasePage, address, freed, cleared, map_some]
  have remaining (q : Ref) : q ∈ g.all.erase p ↔ q ≠ p ∧ q ∈ g.all := sound.listed.distinctAll.mem_erase_iff
  refine ⟨_, { g with
    all := g.all.erase p
    same := update g.same (g.kind p) ((g.same (g.kind p)).erase p) }, released, ?_, ?_, ?_, ?_⟩
  · exact sound.listed.remove member bits cm
  · intro q still
    simp only [Shape.page, same]
    exact (sound.pages q ((remaining q).mp still).2).relink _ _
  · refine held.perm ?_
    have moved : (g.all.map g.run ++ (g.large ++ s.foreign)).Perm
        (g.run p :: ((g.all.erase p).map g.run ++ (g.large ++ s.foreign))) :=
      ((perm_cons_erase member).map g.run).append_right _
    have erased := moved.erase (g.run p)
    rwa [erase_cons_head] at erased
  · intro other size live
    simp only [Shape.Owned, Shape.page, same]
    rcases sound.owners other size live with ⟨q, onAll, isBlock, enough⟩ | large
    · refine .inl ⟨q, (remaining q).mpr ⟨?_, onAll⟩, isBlock, enough⟩
      rintro rfl
      have gone := unused other isBlock
      rw [live] at gone
      cases gone
    · exact .inr large

theorem Sound.subpageKfree (member : p ∈ g.all)
    (isBlock : IsBlock (g.page s.kheap.cm p) (sizes (g.kind p)) ptr) (live : s.live ptr = some sz) :
    ∃ kheap g', s.kheap.subpageKfree ptr = some (some kheap) ∧
      Sound { s with kheap, live := update s.live ptr none } g' := by
  rcases sound.pageOf ptr with ⟨_, nowhere⟩ | ⟨q, onAll, found, inside⟩
  · exact absurd isBlock.spans (nowhere p member)
  obtain rfl := sound.page_unique onAll member inside isBlock.spans
  have ok := sound.pages q member
  have after := sound.pushBlock member isBlock live
  obtain ⟨pushed, shape⟩ := pushBlock_pushes ok isBlock live
  have below := ok.below
  have offset : (ptr + word - g.page s.kheap.cm q) % word = ptr - g.page s.kheap.cm q := by
    have low := isBlock.1
    have high := isBlock.2.1
    rw [show ptr + word - g.page s.kheap.cm q = ptr - g.page s.kheap.cm q + word by omega, Nat.add_mod_right]
    exact Nat.mod_eq_of_lt (by omega)
  have onPage : ¬ (pageSize ≤ ptr - g.page s.kheap.cm q ∨ (ptr - g.page s.kheap.cm q) % sizes (g.kind q) ≠ 0) := by
    obtain ⟨low, high, aligned⟩ := isBlock
    omega
  have nfree : ((s.kheap.pushBlock q (sizes (g.kind q)) (ptr - g.page s.kheap.cm q)).pagerefs q).nfree =
      (ptr :: g.free q).length := by
    rw [shape]
    simp [Kheap.setRef]
  have small : (s.kheap.pagerefs q).blocktype < nsizes := ok.blocktype ▸ (g.kind q).isLt
  have kind : (⟨(s.kheap.pagerefs q).blocktype, small⟩ : Fin nsizes) = g.kind q := Fin.ext ok.blocktype
  have bound := pushed.count_le
  by_cases full : (ptr :: g.free q).length = pageSize / sizes (g.kind q)
  · have unused : ∀ b, IsBlock (g.page s.kheap.cm q) (sizes (g.kind q)) b →
        update s.live ptr none b = none := fun b onThis =>
      (pushed.partition b onThis).mp ((blocks_count pushed.distinct pushed.blocks).2 full b onThis)
    obtain ⟨kheap, g', released, done⟩ := after.releasePage member unused
    refine ⟨kheap, g', ?_, done⟩
    simp only [Kheap.subpageKfree, found, dif_pos small, kind, ok.pageaddr, offset, if_neg onPage, nfree, if_pos bound,
      if_pos full]
    exact congrArg (Option.map some) released
  · refine ⟨_, _, ?_, after⟩
    simp only [Kheap.subpageKfree, found, dif_pos small, kind, ok.pageaddr, offset, if_neg onPage, nfree, if_pos bound,
      if_neg full]

theorem Sound.live_zero : s.live 0 = none := by
  cases live : s.live 0 with
  | none => rfl
  | some sz =>
    exfalso
    rcases sound.owners 0 sz live with ⟨p, member, isBlock, _⟩ | ⟨block, _, zero, _⟩
    · have positive := (sound.pages p member).nonzero
      have low := isBlock.1
      omega
    · have positive := kaddr_pos s.kheap.cm block.start
      omega

theorem Sound.largeKfree {block} (member : block ∈ g.large)
    (nowhere : ∀ p ∈ g.all, ¬ (g.run p).Spans (kbase s.kheap.cm) (kaddr s.kheap.cm block.start)) :
    ∃ cm g', cmFreekpages s.kheap.cm (kaddr s.kheap.cm block.start) = some cm ∧
      Sound { s with kheap := { s.kheap with cm }, live := update s.live (kaddr s.kheap.cm block.start) none }
        g' := by
  have onHeld := sound.large_mem member
  obtain ⟨cm, freed, taken⟩ := Frames.freekpages_passes sound.held onHeld
  have held := Frames.step_held sound.held taken
  have base : cm.freepaddr = s.kheap.cm.freepaddr := (Frames.step_freekpages sound.held taken).2.2.1
  have same := kaddr_congr base
  rw [paddrToKvaddr_frame sound.held onHeld] at freed
  refine ⟨cm, { g with large := g.large.erase block }, freed, { sound.listed with }, ?_, ?_, ?_⟩
  · intro p onAll
    simp only [Shape.page, same]
    refine (sound.pages p onAll).congr (fun _ _ => rfl) fun b isBlock => ?_
    rw [update_of_ne]
    rintro rfl
    exact nowhere p onAll isBlock.spans
  · refine held.perm ?_
    have moved : (g.all.map g.run ++ (g.large ++ s.foreign)).Perm
        (block :: (g.all.map g.run ++ (g.large.erase block ++ s.foreign))) :=
      (((perm_cons_erase member).append_right _).append_left _).trans perm_middle
    have erased := moved.erase block
    rwa [erase_cons_head] at erased
  · intro other size found
    simp only [Shape.Owned, Shape.page, same]
    by_cases here : other = kaddr s.kheap.cm block.start
    · simp [here] at found
    rcases sound.owners other size (by simpa [here] using found) with small | ⟨run, onLarge, rfl, enough⟩
    · exact .inl small
    · refine .inr ⟨run, (mem_erase_of_ne ?_).mpr onLarge, rfl, enough⟩
      rintro rfl
      exact here rfl

theorem Sound.kfree (allowed : ptr = 0 ∨ s.live ptr ≠ none) :
    ∃ kheap g', s.kheap.kfree ptr = some kheap ∧ Sound { s with kheap, live := update s.live ptr none } g' := by
  by_cases null : ptr = 0
  · subst null
    refine ⟨s.kheap, g, if_pos rfl, ?_⟩
    rw [← sound.live_zero, update_eq_self]
    exact sound
  obtain ⟨sz, live⟩ := ne_none_iff_exists'.mp (allowed.resolve_left null)
  rcases sound.owners ptr sz live with ⟨p, member, isBlock, _⟩ | ⟨block, member, rfl, _⟩
  · obtain ⟨kheap, g', freed, after⟩ := sound.subpageKfree member isBlock live
    refine ⟨kheap, g', ?_, after⟩
    simp only [Kheap.kfree, if_neg null, freed]
  · have inside := @kaddr_spans block s.kheap.cm (sound.held.sized block (sound.large_mem member)).1
    have nowhere : ∀ p ∈ g.all, ¬ (g.run p).Spans (kbase s.kheap.cm) (kaddr s.kheap.cm block.start) :=
      fun p onAll onPage => (sound.large_apart onAll member).not_spans onPage inside
    obtain ⟨cm, g', freed, after⟩ := sound.largeKfree member nowhere
    refine ⟨_, g', ?_, after⟩
    have missed : s.kheap.subpageKfree (kaddr s.kheap.cm block.start) = some none := by
      rcases sound.pageOf (kaddr s.kheap.cm block.start) with ⟨none_, _⟩ | ⟨p, onAll, _, onPage⟩
      · simp only [Kheap.subpageKfree, none_]
      · exact absurd onPage (nowhere p onAll)
    simp only [Kheap.kfree, if_neg null, missed, if_pos (kaddr_aligned sound.held block.start), freed, map_some]

end Free

section Ranges

variable {s : Clients} {g : Shape} {a ptr sz : Nat}

variable (sound : Sound s g) (live : s.live ptr = some sz)
include sound live

theorem Sound.range_spans (low : ptr ≤ a) (high : a < ptr + sz) :
    (∃ p ∈ g.all, IsBlock (g.page s.kheap.cm p) (sizes (g.kind p)) ptr ∧ a < ptr + sizes (g.kind p) ∧
      (g.run p).Spans (kbase s.kheap.cm) a) ∨
    ∃ block ∈ g.large, ptr = kaddr s.kheap.cm block.start ∧ block.Spans (kbase s.kheap.cm) a := by
  rcases sound.owners ptr sz live with ⟨p, member, isBlock, enough⟩ | ⟨block, member, rfl, enough⟩
  · have fits := isBlock.fits
    have start := isBlock.1
    exact .inl ⟨p, member, isBlock, by omega, run_spans.mpr ⟨by omega, by omega⟩⟩
  · refine .inr ⟨block, member, rfl, ?_⟩
    simp only [Frames.Block.Spans, kaddr, Nat.add_mul] at *
    omega

theorem Sound.ranges_disjoint {other size}
    (also : s.live other = some size) (one : ptr ≤ a ∧ a < ptr + sz) (two : other ≤ a ∧ a < other + size) :
    ptr = other := by
  rcases sound.range_spans live one.1 one.2 with ⟨p, onP, isBlock, below, inP⟩ | ⟨block, onLarge, rfl, inBlock⟩
  · rcases sound.range_spans also two.1 two.2 with ⟨q, onQ, isOther, below', inQ⟩ | ⟨run, onRun, _, inRun⟩
    · obtain rfl := sound.page_unique onP onQ inP inQ
      by_contra different
      have apart := isBlock.apart isOther different
      omega
    · exact absurd inRun ((sound.large_apart onP onRun).not_spans inP)
  · rcases sound.range_spans also two.1 two.2 with ⟨q, onQ, _, _, inQ⟩ | ⟨run, onRun, rfl, inRun⟩
    · exact absurd inBlock ((sound.large_apart onQ onLarge).not_spans inQ)
    · by_contra different
      have apart : block ≠ run := by
        rintro rfl
        exact different rfl
      exact (sound.larges_apart onLarge onRun apart).not_spans inBlock inRun

theorem Sound.range_own (range : ptr ≤ a ∧ a < ptr + sz)
    {block} (foreign : block ∈ s.foreign) : ¬ block.Spans (kbase s.kheap.cm) a := by
  obtain ⟨_, rest, cross⟩ := pairwise_append.mp sound.held.disjoint
  rcases sound.range_spans live range.1 range.2 with ⟨p, onAll, _, _, inside⟩ | ⟨run, onLarge, _, inside⟩
  · exact (cross _ (mem_map_of_mem onAll) _ (mem_append_right _ foreign)).not_spans inside
  · exact ((pairwise_append.mp rest).2.2 _ onLarge _ foreign).not_spans inside

theorem Sound.range_not_free (range : ptr ≤ a ∧ a < ptr + sz) {p} (member : p ∈ g.all) : a ∉ g.free p := by
  intro free
  have ok := sound.pages p member
  have isFree := ok.blocks a free
  rcases sound.range_spans live range.1 range.2 with ⟨q, onAll, isBlock, below, inside⟩ | ⟨run, onLarge, _, inside⟩
  · obtain rfl := sound.page_unique member onAll isFree.spans inside
    have different : ptr ≠ a := by
      rintro rfl
      have unused := (ok.partition ptr isFree).mp free
      rw [live] at unused
      cases unused
    have apart := isBlock.apart isFree different
    omega
  · exact (sound.large_apart member onLarge).not_spans isFree.spans inside

end Ranges

section Steps

variable {s : Clients} {g : Shape}

theorem Sound.write (sound : Sound s g) {address} (value : Nat)
    (outside : ∀ p ∈ g.all, address ∉ g.free p) :
    Sound { s with kheap := { s.kheap with memory := update s.kheap.memory address value } } g := by
  refine { sound with listed := { sound.listed with }, pages := fun p member => ?_ }
  refine (sound.pages p member).congr (fun b free => update_of_ne ?_ _ _) fun _ _ => Iff.rfl
  rintro rfl
  exact outside p member free

theorem Sound.other (sound : Sound s g) {call system}
    (taken : Frames.step ⟨s.kheap.cm, s.foreign⟩ call = some system) :
    Sound { s with kheap := { s.kheap with cm := system.cm }, foreign := system.live } g := by
  have held : Frames.Held ⟨s.kheap.cm, (g.all.map g.run ++ g.large) ++ s.foreign⟩ := by
    rw [append_assoc]
    exact sound.held
  have same := kaddr_congr (Frames.step_base held taken)
  have apart : Frames.Held ⟨s.kheap.cm, s.foreign ++ (g.all.map g.run ++ g.large)⟩ := held.perm perm_append_comm
  have after := Frames.step_held apart (Frames.step_append taken)
  refine ⟨{ sound.listed with }, fun p member => ?_, ?_, fun ptr sz live => ?_⟩
  · simp only [Shape.page, same]
    exact sound.pages p member
  · rw [← append_assoc]
    exact after.perm perm_append_comm
  · simp only [Shape.Owned, Shape.page, same]
    exact sound.owners ptr sz live

theorem Sound.step (sound : Sound s g) {call} (allowed : s.Allowed call) :
    ∃ next g', heapStep s call = some next ∧ Sound next g' := by
  cases call with
  | kmalloc sz =>
    obtain ⟨ptr, kheap, computed, grants⟩ := sound.kmalloc sz.toNat_lt
    rcases grants with ⟨rfl, g', after⟩ | ⟨nonzero, _, g', after⟩
    · exact ⟨_, g', by simp only [heapStep, computed, map_some, if_true], after⟩
    · exact ⟨_, g', by simp only [heapStep, computed, map_some, if_neg nonzero], after⟩
  | kfree ptr =>
    obtain ⟨kheap, g', computed, after⟩ := sound.kfree allowed
    exact ⟨_, g', by simp only [heapStep, computed, map_some], after⟩
  | write address value =>
    obtain ⟨ptr, sz, live, low, high⟩ := allowed
    exact ⟨_, g, rfl, sound.write value fun p member => sound.range_not_free live ⟨low, high⟩ member⟩
  | other call =>
    obtain ⟨system, taken⟩ := ne_none_iff_exists'.mp allowed
    exact ⟨_, g, by simp only [heapStep, taken, map_some], sound.other taken⟩

end Steps

theorem bootHeap_sound {cm foreign} (held : Frames.Held ⟨cm, foreign⟩)
    (memory : Nat → Nat) :
    Sound (bootHeap cm memory foreign) ⟨[], fun _ => [], fun _ => 0, fun _ => ⟨0, by decide⟩, fun _ => [], []⟩ := by
  refine ⟨⟨rfl, fun _ => rfl, nodup_nil, fun _ => nodup_nil, by simp, fun p => ?_⟩, by simp, held, by simp [bootHeap]⟩
  simp [InUse, bootHeap, bootKheap]

section Order

variable {s : Clients} {g : Shape}

theorem Sound.page_in_order (sound : Sound s g) {p} (member : p ∈ g.all) :
    PageInOrder s g.same p (g.free p) (g.kind p) := by
  have ok := sound.pages p member
  refine ⟨(sound.listed.inuse p).mpr member, ok.blocktype, fun j => ?_, ?_, ok.count, ok.invalid_iff, ok.distinct, ?_, ?_, ?_⟩
  · rw [sound.listed.mem_same]
    exact ⟨fun found => found.2.symm, fun same => ⟨member, same.symm⟩⟩
  · rw [ok.pageaddr]
    exact ok.chain
  · rw [ok.pageaddr]
    exact ok.blocks
  · rw [ok.pageaddr]
    intro b used low high
    obtain ⟨sz, live⟩ := ne_none_iff_exists'.mp used
    have onPage : (g.run p).Spans (kbase s.kheap.cm) b := run_spans.mpr ⟨low, high⟩
    rcases sound.owners b sz live with ⟨q, onAll, isBlock, _⟩ | ⟨block, onLarge, rfl, _⟩
    · obtain rfl := sound.page_unique member onAll onPage isBlock.spans
      exact isBlock
    · have nonempty := (sound.held.sized block (sound.large_mem onLarge)).1
      exact absurd (kaddr_spans nonempty) ((sound.large_apart member onLarge).not_spans onPage)
  · rw [ok.pageaddr]
    exact ok.partition

theorem Sound.in_order (sound : Sound s g) : InOrder s := by
  refine ⟨g.all, g.same, g.free, sound.listed.chainAll, sound.listed.chainSame, sound.listed.distinctAll,
    sound.listed.distinctSame, fun k p member => ?_, fun p member => ⟨g.kind p, sound.page_in_order member⟩⟩
  exact ((sound.listed.mem_same k p).mp member).1

theorem Sound.proceeds (sound : Sound s g) : Proceeds s := by
  intro call allowed failed
  obtain ⟨next, _, taken, _⟩ := sound.step allowed
  rw [failed] at taken
  cases taken

theorem Sound.gives_new_ranges (sound : Sound s g) : GivesNewRanges s := by
  intro sz ptr kheap computed nonzero
  obtain ⟨_, _, same, grants⟩ := sound.kmalloc sz.toNat_lt
  rw [computed] at same
  cases same
  rcases grants with ⟨zero, _⟩ | ⟨_, unused, g', after⟩
  · exact absurd zero nonzero
  refine ⟨unused, fun a range => ⟨fun other size live inside => ?_, fun block foreign => ?_⟩⟩
  · have different : other ≠ ptr := by
      rintro rfl
      rw [unused] at live
      cases live
    have still : update s.live ptr (some sz.toNat) other = some size := by
      rwa [update_of_ne different]
    exact different (after.ranges_disjoint still (update_self _ _ _) inside range)
  · exact after.range_own (update_self _ _ _) range foreign

end Order

/-- The heap, from any state of the coremap, under any calls of its users and of the other
users of frames. -/
theorem heap_safety (cm : Coremap) (foreign : List Frames.Block) (held : Frames.Held ⟨cm, foreign⟩)
    (memory : Nat → Nat) (calls : List HeapCall)
    (allowed : EachStep heapStep Clients.Allowed (bootHeap cm memory foreign) calls) :
    Always heapStep (fun s => InOrder s ∧ Proceeds s ∧ GivesNewRanges s) (bootHeap cm memory foreign) calls := by
  have always : Always heapStep (fun s => ∃ g, Sound s g) (bootHeap cm memory foreign) calls := by
    refine always_of_steps ?_ ⟨_, bootHeap_sound held memory⟩ allowed
    rintro before call after ⟨g, sound⟩ taken allowed
    obtain ⟨next, g', computed, done⟩ := sound.step allowed
    rw [taken] at computed
    cases computed
    exact ⟨g', done⟩
  exact always.mono fun s ⟨g, sound⟩ => ⟨sound.in_order, sound.proceeds, sound.gives_new_ranges⟩

def smallAndLarge : List HeapCall := [.kmalloc 24, .kmalloc 5000, .write 0x80001fe4 7, .kfree 0x80001fe0, .kfree 0]

theorem heap_safety_small_and_large :
    ∃ system, Frames.boot Frames.sixPages = some system ∧ Frames.Held ⟨system.cm, []⟩ ∧
      EachStep heapStep Clients.Allowed (bootHeap system.cm (fun _ => 0) []) smallAndLarge ∧
      Always heapStep (fun s => InOrder s ∧ Proceeds s ∧ GivesNewRanges s) (bootHeap system.cm (fun _ => 0) [])
        smallAndLarge := by
  have computed : ((Frames.boot Frames.sixPages).bind fun system =>
      run heapStep (bootHeap system.cm (fun _ => 0) []) [.kmalloc 24, .kmalloc 5000]).map (fun s => s.live 0x80001fe0) =
        some (some 24) := by decide +kernel
  obtain ⟨final, reached, seen⟩ := map_eq_some_iff.mp computed
  obtain ⟨system, booted, reached⟩ := bind_eq_some_iff.mp reached
  have empty : system.live = [] := by
    obtain ⟨cm, _, rfl⟩ := map_eq_some_iff.mp booted
    rfl
  have held : Frames.Held ⟨system.cm, []⟩ := by
    rw [← empty]
    exact (Frames.boot_sound booted).held
  have allowed : EachStep heapStep Clients.Allowed (bootHeap system.cm (fun _ => 0) []) smallAndLarge := by
    refine fun first took => ⟨trivial, fun second took' => ?_⟩
    obtain rfl : second = final := by
      simpa [run, took, took'] using reached
    refine ⟨trivial, fun written took => ?_⟩
    cases took
    refine ⟨⟨0x80001fe0, 24, seen, by decide, by decide⟩, fun freed took => ⟨.inr ?_, fun _ _ => ⟨.inl rfl, trivial⟩⟩⟩
    rw [seen]
    exact some_ne_none 24
  exact ⟨system, booted, held, allowed, heap_safety system.cm [] held _ _ allowed⟩

end Os161.Heap
