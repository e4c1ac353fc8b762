import Mathlib.Data.List.Chain
import Os161.Lib.Runs
import Os161.Proofs.MallocBlocks

/-! The heap of a program that allocates and frees in any order: no two free blocks meet, and every live allocation
has its own. -/

namespace Os161.Malloc
open Runs List Option
open Tiling (extent picked placed)

variable {heap heap' : Heap} {mh previous size : Nat} {block above : Block}
  {before after blocks blocks' : List Block} {grants : Nat → Bool}

def Coalesced (blocks : List Block) : Prop :=
  blocks.IsChain fun lower upper => lower.inuse = true ∨ upper.inuse = true

abbrev Heap.used (heap : Heap) (blocks : List Block) : List (Nat × Block) :=
  picked Block.bytes Block.inuse heap.heapbase blocks

theorem coalesced_around :
    Coalesced (before ++ block :: after) ↔ Coalesced before ∧ Coalesced after ∧
      (block.inuse = true ∨
        (∀ lower ∈ before.getLast?, lower.inuse = true) ∧ ∀ upper ∈ after.head?, upper.inuse = true) := by
  rw [Coalesced, isChain_append, isChain_cons]
  simp only [List.head?_cons, mem_some_iff]
  constructor
  · rintro ⟨first, ⟨next, second⟩, junction⟩
    refine ⟨first, second, ?_⟩
    cases inuse : block.inuse with
    | true => exact .inl rfl
    | false =>
      refine .inr ⟨fun lower last => ?_, fun upper head => ?_⟩
      · exact (junction lower last block rfl).resolve_right (by simp [inuse])
      · exact (next upper head).resolve_left (by simp [inuse])
  · rintro ⟨first, second, inuse | ⟨last, head⟩⟩
    · exact ⟨first, ⟨fun _ _ => .inl inuse, second⟩, fun _ _ _ same => .inr (same ▸ inuse)⟩
    · exact ⟨first, ⟨fun upper member => .inr (head upper member), second⟩,
        fun lower member _ _ => .inl (last lower member)⟩

/-! The search. -/

theorem search_spec (units : Nat) {rest fuel i} (divided : heap.Divided before i rest)
    (enough : rest.length < fuel) :
    search heap (mBlockSize * units) fuel i (below 0 before) = .ok (.exhausted (below 0 (before ++ rest))) ∨
      ∃ passed block after, rest = passed ++ block :: after ∧ block.inuse = false ∧ units + 1 ≤ block.units ∧
        search heap (mBlockSize * units) fuel i (below 0 before) = .ok (.found (i + extent Block.bytes passed)) := by
  induction rest generalizing before i fuel with
  | nil =>
    obtain ⟨fuel, rfl⟩ := Nat.exists_eq_add_one_of_ne_zero (Nat.ne_zero_of_lt enough)
    have top := divided.eq_top.mpr rfl
    refine .inl ?_
    rw [search, if_neg (by omega), if_neg (not_not_intro top), append_nil]
  | cons block rest again =>
    obtain ⟨fuel, rfl⟩ := Nat.exists_eq_add_one_of_ne_zero (Nat.ne_zero_of_lt enough)
    have headed := divided.headed
    have inside : i < heap.heaptop := by
      have ends := divided.ends
      have room := block.bytes_pos
      have unit : 0 < mBlockSize := by decide
      rw [Tiling.extent_cons] at ends
      omega
    have body : search heap (mBlockSize * units) (fuel + 1) i (below 0 before) =
        if block.inuse = true ∨ block.bytes - mBlockSize < mBlockSize * units then
          search heap (mBlockSize * units) fuel (i + block.bytes) (below 0 (before ++ [block]))
        else .ok (.found i) := by
      rw [search, if_pos inside, headed.mOk, if_neg (by decide), headed.prevblock, if_neg (not_not_intro rfl),
        headed.inuse, divided.mSize_eq, headed.mNextoff, plus_eq divided.bound, headed.nextblock, below_append]
      rfl
    rw [body]
    split
    next passed =>
      have later := again divided.next (Nat.lt_of_succ_lt_succ enough)
      rw [append_assoc] at later
      rcases later with exhausted | ⟨passed, found, after, rfl, free, fits, result⟩
      · exact .inl exhausted
      · refine .inr ⟨block :: passed, found, after, rfl, free, fits, ?_⟩
        rw [result, Tiling.extent_cons, Nat.add_assoc]
    next stop =>
      have fits : units + 1 ≤ block.units := by
        have room := block.room
        have large := (not_or.mp stop).2
        simp only [Block.bytes, mBlockSize] at large
        omega
      exact .inr ⟨[], block, rest, rfl, by simpa using (not_or.mp stop).1, fits, rfl⟩

/-! What a call of `malloc` gives. -/

structure Handed (base : Nat) (blocks blocks' : List Block) (mh : Nat) (block : Block) : Prop where
  member : (mh, block) ∈ picked Block.bytes Block.inuse base blocks'
  kept : ∀ place ∈ picked Block.bytes Block.inuse base blocks, place ∈ picked Block.bytes Block.inuse base blocks'
  fresh : ∀ place ∈ picked Block.bytes Block.inuse base blocks, place.1 ≠ mh

variable {base address units x : Nat}

theorem picked_place (member : (address, block) ∈ picked Block.bytes Block.inuse base blocks) :
    block.inuse = true ∧ base ≤ address ∧ address + block.bytes ≤ base + extent Block.bytes blocks := by
  obtain ⟨member, inuse⟩ := mem_filter.mp member
  exact ⟨inuse, Tiling.placed_bounds _ member⟩

theorem picked_free (free : block.inuse = false) : picked Block.bytes Block.inuse base (before ++ block :: after) =
    picked Block.bytes Block.inuse base before ++
      picked Block.bytes Block.inuse (base + extent Block.bytes before + block.bytes) after := by
  rw [← singleton_append, Tiling.picked_append, Tiling.picked_append, Tiling.picked_none _ (show ∀ other ∈ [block], other.inuse = false by simpa using free), Tiling.extent_cons]
  rfl

theorem handed_found {lower spare} (free : block.inuse = false)
    (inuse : lower.inuse = true) (room : lower.bytes + extent Block.bytes spare = block.bytes)
    (spareFree : ∀ upper ∈ spare, upper.inuse = false) :
    Handed base (before ++ block :: after) (before ++ lower :: (spare ++ after))
      (base + extent Block.bytes before) lower := by
  have new : picked Block.bytes Block.inuse base (before ++ lower :: (spare ++ after)) =
      picked Block.bytes Block.inuse base before ++ (base + extent Block.bytes before, lower) ::
        picked Block.bytes Block.inuse (base + extent Block.bytes before + block.bytes) after := by
    rw [← singleton_append, Tiling.picked_append, Tiling.picked_append, Tiling.picked_append,
      Tiling.picked_none _ spareFree, Tiling.picked_one _ inuse, Tiling.extent_cons, Tiling.extent_nil, Nat.add_zero,
      Nat.add_assoc _ lower.bytes, room]
    rfl
  refine ⟨?_, ?_, ?_⟩
  · rw [new]
    exact mem_append_right _ mem_cons_self
  · rw [picked_free free, new]
    intro place member
    rcases mem_append.mp member with first | second
    · exact mem_append_left _ first
    · exact mem_append_right _ (mem_cons_of_mem _ second)
  · rw [picked_free free]
    rintro ⟨address, other⟩ member
    have otherRoom := other.bytes_pos
    have blockRoom := block.bytes_pos
    rw [mBlockSize] at otherRoom blockRoom
    rcases mem_append.mp member with first | second
    · have bounds := picked_place first
      omega
    · have bounds := picked_place second
      omega

theorem handed_extended (inuse : block.inuse = true) :
    Handed base blocks (blocks ++ [block]) (base + extent Block.bytes blocks) block := by
  have new : picked Block.bytes Block.inuse base (blocks ++ [block]) =
      picked Block.bytes Block.inuse base blocks ++ [(base + extent Block.bytes blocks, block)] := by
    rw [Tiling.picked_append, Tiling.picked_one _ inuse]
  refine ⟨?_, ?_, ?_⟩
  · rw [new]
    exact mem_append_right _ mem_cons_self
  · rw [new]
    exact fun place member => mem_append_left _ member
  · rintro ⟨address, other⟩ member
    have bounds := picked_place member
    have otherRoom := other.bytes_pos
    rw [mBlockSize] at otherRoom
    omega

theorem roundUp_spec (positive : 1 ≤ size) (small : size ≤ 2 ^ 31 - 16) :
    ∃ units, roundUp size = mBlockSize * units ∧ 1 ≤ units ∧ size ≤ mBlockSize * units ∧
      mBlockSize * units + mBlockSize < 2 ^ 31 := by
  have bound : size + (mBlockSize - 1) < addressSpace := by
    rw [mBlockSize, addressSpace]
    omega
  refine ⟨(size + (mBlockSize - 1)) / mBlockSize, ?_, ?_, ?_, ?_⟩
  · rw [roundUp, plus_eq bound, Nat.mul_comm]
  all_goals
    simp only [mBlockSize]
    omega

theorem length_le_extent (blocks : List Block) : blocks.length ≤ extent Block.bytes blocks := by
  induction blocks with
  | nil => rfl
  | cons block rest again =>
    have room := block.bytes_pos
    rw [mBlockSize] at room
    rw [length_cons, Tiling.extent_cons]
    omega

theorem malloc_of_found (tiled : heap.Tiled blocks)
    (searched : search heap (roundUp size) (heap.heaptop + 1) heap.heapbase 0 = .ok (.found mh))
    (split : mallocSplit heap mh (roundUp size) = .ok heap') :
    malloc grants heap size = .ok (mData mh, { heap' with memory := setInuse heap'.memory mh true }) := by
  have positive := tiled.positive
  have top := tiled.top
  rw [malloc, if_neg (by omega)]
  simp only [bind, Except.bind]
  rw [if_neg (by omega), searched]
  simp only [split]

theorem malloc_of_exhausted (tiled : heap.Tiled blocks)
    (searched : search heap (roundUp size) (heap.heaptop + 1) heap.heapbase 0 = .ok (.exhausted previous))
    (grown : mallocSbrk grants (plus (roundUp size) mBlockSize) heap = .ok (mh, heap')) :
    malloc grants heap size = .ok (if mh = 0 then (0, heap') else (mData mh, { heap' with
      memory := written heap'.memory mh previous (mMkfield (plus (roundUp size) mBlockSize)) true })) := by
  have positive := tiled.positive
  have top := tiled.top
  rw [malloc, if_neg (by omega)]
  simp only [bind, Except.bind, malloc_written]
  rw [if_neg (by omega), searched]
  simp only [grown]
  split <;> rfl

theorem bmod_small {change : Nat} (small : change < 2 ^ 31) : (change : Int).bmod addressSpace = change := by
  rw [addressSpace, Int.bmod_eq_of_le_mul_two (by omega) (by omega)]

theorem sbrk_small {change : Nat} (small : change < 2 ^ 31) : sbrk grants change heap =
    if grants change ∧ heap.brk + change < addressSpace then (heap.brk, { heap with brk := heap.brk + change })
    else (minusOne, heap) := by
  simp only [sbrk, bmod_small small]
  by_cases granted : grants change ∧ heap.brk + change < addressSpace
  · rw [if_pos granted, if_pos ⟨granted.1, by omega, by omega⟩]
    rfl
  · rw [if_neg granted, if_neg fun all => granted ⟨all.1, by omega⟩]

theorem Heap.Tiled.top_aligned (tiled : heap.Tiled blocks) : heap.heaptop % mBlockSize = 0 := by
  rw [tiled.top, Nat.add_mod, tiled.aligned, extent_aligned]
  rfl

theorem mallocSbrk_spec (grants : Nat → Bool) (size : Nat) (tiled : heap.Tiled blocks) :
    mallocSbrk grants size heap = .ok (0, heap) ∨
      ∃ top < addressSpace, (top : Int) = heap.heaptop + (size : Int).bmod addressSpace ∧
        mallocSbrk grants size heap = .ok (heap.heaptop, { heap with heaptop := top, brk := top }) := by
  have regular : heap.heaptop ≠ minusOne := by
    intro same
    have aligned := tiled.top_aligned
    rw [same] at aligned
    exact absurd aligned (by decide)
  simp only [mallocSbrk, sbrk, tiled.brk]
  by_cases granted : grants size = true ∧ 0 ≤ (heap.heaptop : Int) + (size : Int).bmod addressSpace ∧
      (heap.heaptop : Int) + (size : Int).bmod addressSpace < addressSpace
  · obtain ⟨top, moved⟩ := Int.eq_ofNat_of_zero_le granted.2.1
    have bound : top < addressSpace := by
      omega
    have same : plus heap.heaptop size = top := by
      have sum : ((heap.heaptop : Int) + size) % addressSpace = top := by
        rw [Int.add_emod, ← Int.bmod_emod (x := size), ← Int.add_emod, moved]
        exact Int.emod_eq_of_lt (Int.natCast_nonneg top) (Int.ofNat_lt.mpr bound)
      exact_mod_cast sum
    refine .inr ⟨top, bound, moved.symm, ?_⟩
    simp only [if_pos granted]
    simp only [if_neg regular, moved, Int.toNat_natCast, same]
    exact if_neg (not_not_intro rfl)
  · rw [if_neg granted]
    exact .inl rfl

theorem mData_eq (room : 2 * mBlockSize ≤ size) (small : mh + size < addressSpace) : mData mh = mh + mBlockSize := by
  have space : mh + sizeofMheader < addressSpace := by
    rw [sizeofMheader]
    rw [mBlockSize] at room
    omega
  exact plus_eq space

/-- The heap after a call: the row of before, or a new block for the request at the pointer. -/
structure Served (heap : Heap) (blocks : List Block) (size x : Nat) (heap' : Heap) (blocks' : List Block) : Prop where
  tiled : heap'.Tiled blocks'
  coalesced : Coalesced blocks'
  base : heap'.heapbase = heap.heapbase
  pointer : x = 0 ∧ blocks' = blocks ∨ ∃ mh block, x = mh + mBlockSize ∧ size + mBlockSize ≤ block.bytes ∧
    Handed heap.heapbase blocks blocks' mh block

theorem serve_found (tiled : heap.Tiled (before ++ block :: after))
    (coalesced : Coalesced (before ++ block :: after)) (free : block.inuse = false) (one : 1 ≤ units)
    (room : units + 1 ≤ block.units) (rounded : roundUp size = mBlockSize * units) (fits : size ≤ mBlockSize * units)
    (searched : search heap (roundUp size) (heap.heaptop + 1) heap.heapbase 0 =
      .ok (.found (heap.heapbase + extent Block.bytes before))) :
    ∃ x heap' blocks', malloc grants heap size = .ok (x, heap') ∧
      Served heap (before ++ block :: after) size x heap' blocks' := by
  have divided : heap.Divided before (heap.heapbase + extent Block.bytes before) (block :: after) := ⟨tiled, rfl⟩
  obtain ⟨memory, lower, spare, split, cut, -, large, total, spare_cases⟩ := mallocSplit_spec divided one room
  have spareFree : ∀ upper ∈ spare, upper.inuse = false := by
    rcases spare_cases with rfl | ⟨upper, rfl, upperFree⟩
    · simp
    · simpa using upperFree
  rw [← rounded] at split
  refine ⟨_, _, _, malloc_of_found tiled searched split, (cut.mark true fun _ _ => rfl).tiled, ?_, rfl, .inr
    ⟨heap.heapbase + extent Block.bytes before, lower.marked true, mData_eq block.bytes_pos divided.bound, ?_,
      handed_found free rfl total spareFree⟩⟩
  · -- the spare block was part of a free one, so the block above it is in use
    obtain ⟨first, second, around⟩ := coalesced_around.mp coalesced
    have above := (around.resolve_left (by simp [free])).2
    refine coalesced_around.mpr ⟨first, ?_, .inl rfl⟩
    rcases spare_cases with rfl | ⟨upper, rfl, upperFree⟩
    · exact second
    · have whole : Coalesced ([] ++ upper :: after) :=
        coalesced_around.mpr ⟨List.IsChain.nil, second, .inr ⟨by simp, above⟩⟩
      exact whole
  · change size + mBlockSize ≤ mBlockSize * lower.units
    have grown := Nat.mul_le_mul_left mBlockSize large
    rw [Nat.mul_succ] at grown
    omega

theorem serve_exhausted (tiled : heap.Tiled blocks) (coalesced : Coalesced blocks) (one : 1 ≤ units)
    (rounded : roundUp size = mBlockSize * units) (fits : size ≤ mBlockSize * units)
    (bound : mBlockSize * units + mBlockSize < 2 ^ 31)
    (searched : search heap (roundUp size) (heap.heaptop + 1) heap.heapbase 0 = .ok (.exhausted (below 0 blocks))) :
    ∃ x heap' blocks', malloc grants heap size = .ok (x, heap') ∧ Served heap blocks size x heap' blocks' := by
  have sum : plus (roundUp size) mBlockSize = mBlockSize * units + mBlockSize := by
    rw [rounded]
    exact plus_eq (Nat.lt_trans bound (by decide))
  rcases mallocSbrk_spec grants (plus (roundUp size) mBlockSize) tiled with refused | ⟨top, space, moved, grown⟩
  · exact ⟨0, heap, blocks, malloc_of_exhausted tiled searched refused, tiled, coalesced, rfl, .inl ⟨rfl, rfl⟩⟩
  · rw [bmod_small (sum ▸ bound)] at moved
    obtain rfl : top = heap.heaptop + (mBlockSize * units + mBlockSize) := by omega
    have result := malloc_of_exhausted tiled searched grown
    have nonzero : heap.heaptop ≠ 0 := by
      have top := tiled.top
      have base := tiled.positive
      omega
    obtain ⟨block, large, inuse⟩ : ∃ block : Block, block.units = units + 1 ∧ block.inuse = true :=
      ⟨⟨units + 1, true, by omega⟩, rfl, rfl⟩
    have bytes : mBlockSize * units + mBlockSize = block.bytes := by
      rw [Block.bytes, large, Nat.mul_succ]
    rw [if_neg nonzero, sum, bytes, mMkfield_bytes, ← inuse] at result
    rw [bytes] at space
    refine ⟨_, _, blocks ++ [block], result, tiled.extend block space, ?_, rfl, .inr
      ⟨heap.heaptop, block, mData_eq block.bytes_pos space, by omega, ?_⟩⟩
    · exact coalesced_around.mpr ⟨coalesced, List.IsChain.nil, .inl inuse⟩
    · rw [tiled.top]
      exact handed_extended inuse

theorem malloc_ready (grants : Nat → Bool) (tiled : heap.Tiled blocks) (coalesced : Coalesced blocks)
    (positive : 1 ≤ size) (small : size ≤ 2 ^ 31 - 16) :
    ∃ x heap' blocks', malloc grants heap size = .ok (x, heap') ∧ Served heap blocks size x heap' blocks' := by
  obtain ⟨units, rounded, one, fits, bound⟩ := roundUp_spec positive small
  have start : heap.Divided [] heap.heapbase blocks := ⟨tiled, rfl⟩
  have enough : blocks.length < heap.heaptop + 1 := by
    have short := length_le_extent blocks
    have top := tiled.top
    omega
  rcases search_spec units start enough with searched | ⟨passed, block, after, rfl, free, room, searched⟩
  · rw [← rounded] at searched
    exact serve_exhausted tiled coalesced one rounded fits bound searched
  · rw [← rounded] at searched
    exact serve_found tiled coalesced free one room rounded fits searched

/-! The first call. -/

/-- How the setup can end the program: the kernel refuses, or has put the heap at address 0. -/
def initExits : List Exit := [initialSbrkFailed, heapBeganAtZero, sbrkFailedAligning]

theorem mallocInit_spec (grants : Nat → Bool) (base : heap.heapbase = 0) (top : heap.heaptop = 0) :
    (∃ exit ∈ initExits, mallocInit grants heap = .error exit) ∨
      ∃ heap', mallocInit grants heap = .ok heap' ∧ heap'.Tiled [] := by
  rw [mallocInit, if_neg (by decide), if_neg (by decide), if_neg (by decide), if_neg (by simp [base, top])]
  by_cases granted : grants 0 = true ∧ heap.brk + 0 < addressSpace
  · rw [sbrk_small (by decide), if_pos granted]
    by_cases refused : heap.brk = minusOne
    · exact .inl ⟨_, mem_cons_self, if_pos refused⟩
    · by_cases zero : heap.brk = 0
      · refine .inl ⟨heapBeganAtZero, by simp [initExits], ?_⟩
        simp only [if_neg refused, if_pos zero]
      · simp only [if_neg refused, if_neg zero]
        by_cases aligned : heap.brk % mBlockSize = 0
        · rw [if_neg (not_not_intro aligned)]
          exact .inr ⟨_, rfl, aligned, Nat.pos_of_ne_zero zero, rfl, granted.2, rfl, trivial⟩
        · have tiny : mBlockSize - heap.brk % mBlockSize < 2 ^ 31 := Nat.lt_of_le_of_lt (Nat.sub_le ..) (by decide)
          rw [if_pos aligned]
          by_cases more : grants (mBlockSize - heap.brk % mBlockSize) = true ∧
              heap.brk + (mBlockSize - heap.brk % mBlockSize) < addressSpace
          · have boundary : (heap.brk + (mBlockSize - heap.brk % mBlockSize)) % mBlockSize = 0 := by
              simp only [mBlockSize] at aligned ⊢
              omega
            simp only [sbrk_small tiny, Nat.add_zero, if_pos more, if_neg refused, plus_eq more.2]
            rw [if_neg (not_not_intro rfl)]
            exact .inr ⟨_, rfl, boundary, Nat.add_pos_left (Nat.pos_of_ne_zero zero) _, rfl, more.2, rfl, trivial⟩
          · simp only [sbrk_small tiny, Nat.add_zero, if_neg more]
            exact .inl ⟨sbrkFailedAligning, by simp [initExits], if_pos trivial⟩
  · rw [sbrk_small (by decide), if_neg granted]
    exact .inl ⟨_, mem_cons_self, if_pos rfl⟩

theorem malloc_of_init (base : heap.heapbase = 0) (ready : mallocInit grants heap = .ok heap')
    (tiled : heap'.Tiled blocks) : malloc grants heap size = malloc grants heap' size := by
  have positive := tiled.positive
  rw [malloc, malloc, if_pos base, ready, if_neg (by omega)]

theorem malloc_of_refused {exit} (base : heap.heapbase = 0)
    (refused : mallocInit grants heap = .error exit) : malloc grants heap size = .error exit := by
  rw [malloc, if_pos base, refused]
  rfl

/-! What a call of `free` does. -/

def Released (base : Nat) (blocks blocks' : List Block) (mh : Nat) : Prop :=
  ∀ place ∈ picked Block.bytes Block.inuse base blocks, place.1 ≠ mh →
    place ∈ picked Block.bytes Block.inuse base blocks'

theorem used_joined (free : block.inuse = false) (aboveFree : above.inuse = false) :
    heap.used (before ++ block.joined above :: after) = heap.used (before ++ block :: above :: after) := by
  have relaid : heap.used (before ++ [block.joined above] ++ after) = heap.used (before ++ [block, above] ++ after) :=
    Tiling.picked_relaid Block.bytes heap.heapbase before [block, above] [block.joined above] after
      (by simp [free, aboveFree]) (by simp [Block.joined]) (by simp [Block.bytes, Block.joined, Nat.mul_add])
  rw [append_assoc, append_assoc] at relaid
  exact relaid

section

variable (divided : heap.Divided before mh (block :: after)) (free : block.inuse = false)
include divided free

theorem merge_above (coalesced : Coalesced after) : ∃ memory' whole rest,
      (if mNext heap.memory mh ≠ heap.heaptop then mallocTrymerge heap mh (mNext heap.memory mh) else .ok heap) =
        .ok { heap with memory := memory' } ∧
      { heap with memory := memory' }.Divided before mh (whole :: rest) ∧
      whole.inuse = false ∧ Coalesced rest ∧ (∀ upper ∈ rest.head?, upper.inuse = true) ∧
      heap.used (before ++ whole :: rest) = heap.used (before ++ block :: after) := by
  rw [divided.mNext_eq]
  cases after with
  | nil =>
    rw [if_neg (not_not_intro (divided.next.eq_top.mpr rfl))]
    exact ⟨heap.memory, block, [], rfl, divided, free, coalesced, by simp, rfl⟩
  | cons above after =>
    rw [if_pos (fun same => cons_ne_nil above after (divided.next.eq_top.mp same))]
    cases aboveFree : above.inuse with
    | true =>
      refine ⟨heap.memory, block, above :: after, mallocTrymerge_used divided (by simp [aboveFree]), divided, free,
        coalesced, by simpa using aboveFree, rfl⟩
    | false =>
      obtain ⟨-, second, around⟩ := coalesced_around.mp (show Coalesced ([] ++ above :: after) from coalesced)
      exact ⟨_, block.joined above, after, mallocTrymerge_free divided free aboveFree, joinMemory_divided divided free,
        rfl, second, (around.resolve_left (by simp [aboveFree])).2, used_joined free aboveFree⟩

theorem merge_below
    (coalesced : Coalesced before) (rest : Coalesced after) (head : ∀ upper ∈ after.head?, upper.inuse = true) :
    ∃ memory' blocks', (if mh ≠ heap.heapbase then mallocTrymerge heap (mPrev heap.memory mh) mh else .ok heap) =
        .ok { heap with memory := memory' } ∧
      { heap with memory := memory' }.Tiled blocks' ∧ Coalesced blocks' ∧
      heap.used blocks' = heap.used (before ++ block :: after) := by
  rcases before.eq_nil_or_concat' with rfl | ⟨before, lower, rfl⟩
  · have bottom : mh = heap.heapbase := divided.place
    rw [if_neg (not_not_intro bottom)]
    exact ⟨heap.memory, _, rfl, divided.tiled, coalesced_around.mpr ⟨coalesced, rest, .inr ⟨by simp, head⟩⟩, rfl⟩
  · obtain ⟨mhprev, prev, rfl, lowerDivided⟩ := divided.prior
    have above : mhprev + lower.bytes ≠ heap.heapbase := by
      have room := lower.bytes_pos
      have place := lowerDivided.place
      rw [mBlockSize] at room
      omega
    rw [if_pos above, prev]
    cases lowerFree : lower.inuse with
    | true =>
      refine ⟨heap.memory, _, mallocTrymerge_used lowerDivided (by simp [lowerFree]), divided.tiled,
        coalesced_around.mpr ⟨coalesced, rest, .inr ⟨by simpa using lowerFree, head⟩⟩, rfl⟩
    | false =>
      obtain ⟨first, -, around⟩ := coalesced_around.mp coalesced
      have last := (around.resolve_left (by simp [lowerFree])).1
      refine ⟨_, _, mallocTrymerge_free lowerDivided lowerFree free, (joinMemory_divided lowerDivided lowerFree).tiled,
        coalesced_around.mpr ⟨first, rest, .inr ⟨last, head⟩⟩, ?_⟩
      rw [← append_cons]
      exact used_joined lowerFree free

end

theorem picked_marked (place : Nat × Block) :
    place ∈ picked Block.bytes Block.inuse base (before ++ block.marked false :: after) ↔
      place ∈ picked Block.bytes Block.inuse base (before ++ block :: after) ∧
        place.1 ≠ base + extent Block.bytes before := by
  obtain ⟨address, other⟩ := place
  have room := other.bytes_pos
  have size := block.bytes_pos
  rw [mBlockSize] at room size
  rw [Tiling.picked_append, Tiling.picked_append, mem_append, mem_append]
  constructor
  · rintro (low | high)
    · have bounds := picked_place low
      exact ⟨.inl low, Nat.ne_of_lt (by omega)⟩
    · obtain ⟨high, inuse⟩ := mem_filter.mp high
      rcases mem_cons.mp high with same | later
      · cases same
        cases inuse
      · have bounds := Tiling.placed_bounds _ later
        change _ + block.bytes ≤ address ∧ _ at bounds
        exact ⟨.inr (mem_filter.mpr ⟨mem_cons_of_mem _ later, inuse⟩), Nat.ne_of_gt (by omega)⟩
  · rintro ⟨low | high, apart⟩
    · exact .inl low
    · obtain ⟨high, inuse⟩ := mem_filter.mp high
      rcases mem_cons.mp high with same | later
      · exact absurd (congrArg Prod.fst same) apart
      · exact .inr (mem_filter.mpr ⟨mem_cons_of_mem _ later, inuse⟩)

def Heap.wiped (heap : Heap) (mh : Nat) (block : Block) : Heap :=
  { heap with
    memory := mallocDeadbeef (setInuse heap.memory mh false) (mh + mBlockSize) (block.bytes - mBlockSize) }

theorem wiped_divided (divided : heap.Divided before mh (block :: after)) :
    (heap.wiped mh block).Divided before mh (block.marked false :: after) := by
  have room := block.bytes_pos
  have bound := divided.bound
  exact divided.mark false fun word far => mallocDeadbeef_other (by omega) (by omega)

theorem free_of_merges {heap2 heap3} (divided : heap.Divided before mh (block :: after))
    (inuse : block.inuse = true)
    (upward : (if mNext (heap.wiped mh block).memory mh ≠ (heap.wiped mh block).heaptop then
      mallocTrymerge (heap.wiped mh block) mh (mNext (heap.wiped mh block).memory mh)
      else .ok (heap.wiped mh block)) = .ok heap2)
    (downward : (if mh ≠ heap2.heapbase then mallocTrymerge heap2 (mPrev heap2.memory mh) mh else .ok heap2) =
      .ok heap3) : free heap (mh + mBlockSize) = .ok heap3 := by
  have room := block.bytes_pos
  have bound := divided.bound
  have ends := divided.ends
  have place := divided.place
  have positive := divided.tiled.positive
  have unit : 0 < mBlockSize := by decide
  have header : minus (mh + mBlockSize) sizeofMheader = mh := by
    change minus (mh + mBlockSize) mBlockSize = mh
    rw [minus_eq (Nat.le_add_left ..) (by omega), Nat.add_sub_cancel]
  have marked := divided.mark false (fun _ _ => rfl)
  have size : mSize (setInuse heap.memory mh false) mh = block.bytes - mBlockSize := marked.mSize_eq
  rw [Tiling.extent_cons] at ends
  rw [free, if_neg (by omega), if_neg (by omega), if_neg (by omega)]
  simp only [header, divided.headed.mOk, divided.headed.inuse, inuse, mData_eq room bound, size]
  by_cases below : mNext (heap.wiped mh block).memory mh ≠ (heap.wiped mh block).heaptop
  · rw [if_pos below] at upward
    refine (if_pos below).trans ?_
    change mallocTrymerge (heap.wiped mh block) mh (mNext (heap.wiped mh block).memory mh) >>= _ = _
    rw [upward]
    exact downward
  · rw [if_neg below] at upward
    cases upward
    exact (if_neg below).trans downward

theorem free_spec (tiled : heap.Tiled blocks) (coalesced : Coalesced blocks) (member : (mh, block) ∈ heap.used blocks) :
    ∃ heap' blocks', free heap (mh + mBlockSize) = .ok heap' ∧ heap'.Tiled blocks' ∧ Coalesced blocks' ∧
      heap'.heapbase = heap.heapbase ∧ Released heap.heapbase blocks blocks' mh ∧
      ∀ place ∈ heap.used blocks', place.1 ≠ mh := by
  obtain ⟨member, inuse⟩ := mem_filter.mp member
  obtain ⟨before, after, rfl, place⟩ := Tiling.placed_split _ member
  have divided : heap.Divided before mh (block :: after) := ⟨tiled, place⟩
  obtain ⟨first, second, -⟩ := coalesced_around.mp coalesced
  obtain ⟨memory2, whole, rest, upward, divided2, wholeFree, coalesced2, head, used2⟩ :=
    merge_above (wiped_divided divided) rfl second
  obtain ⟨memory3, blocks', downward, tiled3, coalesced3, used3⟩ :=
    merge_below divided2 wholeFree first coalesced2 head
  have kept : heap.used blocks' = heap.used (before ++ block.marked false :: after) := used3.trans used2
  refine ⟨_, blocks', free_of_merges divided inuse upward downward, tiled3, coalesced3, rfl, ?_, ?_⟩
  · intro other otherMember apart
    rw [place] at apart
    change other ∈ heap.used blocks'
    rw [kept]
    exact (picked_marked other).mpr ⟨otherMember, apart⟩
  · rw [kept, place]
    exact fun other member => ((picked_marked other).mp member).2

/-! Runs. -/

/-- The heap is a row of blocks in which every live allocation has its own. -/
structure Sound (heap : Heap) (live : List Allocation) (blocks : List Block) : Prop where
  tiled : heap.Tiled blocks
  coalesced : Coalesced blocks
  owned : ∀ allocation ∈ live, ∃ mh block, (mh, block) ∈ heap.used blocks ∧
    allocation.pointer = mh + mBlockSize ∧ allocation.size + mBlockSize ≤ block.bytes
  distinct : live.Pairwise fun first second => first.pointer ≠ second.pointer

structure World.Untouched (world : World) : Prop where
  heapbase : world.heap.heapbase = 0
  heaptop : world.heap.heaptop = 0
  live : world.live = []

structure World.Consistent (world : World) : Prop where
  exits : ∀ exit, world.exited = some exit → exit ∈ initExits
  heap : world.Untouched ∨ ∃ blocks, Sound world.heap world.live blocks

variable {world next : World} {live : List Allocation}

theorem Sound.handed (sound : Sound heap live blocks) (served : Served heap blocks size x heap' blocks') :
    Sound heap' (if x = 0 then live else ⟨x, size⟩ :: live) blocks' := by
  obtain ⟨tiled, coalesced, base, pointer⟩ := served
  rcases pointer with ⟨rfl, rfl⟩ | ⟨mh, block, rfl, large, handed⟩
  · refine ⟨tiled, coalesced, ?_, sound.distinct⟩
    rw [Heap.used, base]
    exact sound.owned
  · refine ⟨tiled, coalesced, ?_, ?_⟩
    · rw [Heap.used, base]
      intro allocation member
      rcases mem_cons.mp member with rfl | member
      · exact ⟨mh, block, handed.member, rfl, large⟩
      · obtain ⟨address, owner, place, fits⟩ := sound.owned allocation member
        exact ⟨address, owner, handed.kept _ place, fits⟩
    · refine pairwise_cons.mpr ⟨fun allocation member same => ?_, sound.distinct⟩
      obtain ⟨address, owner, place, pointer, -⟩ := sound.owned allocation member
      exact handed.fresh _ place (Nat.add_right_cancel (pointer.symm.trans same.symm))

theorem Sound.released (sound : Sound heap live blocks) (tiled : heap'.Tiled blocks') (coalesced : Coalesced blocks')
    (base : heap'.heapbase = heap.heapbase) (released : Released heap.heapbase blocks blocks' mh) :
    Sound heap' (live.filter fun allocation => allocation.pointer ≠ mh + mBlockSize) blocks' := by
  refine ⟨tiled, coalesced, ?_, sound.distinct.filter _⟩
  rw [Heap.used, base]
  intro allocation member
  obtain ⟨member, other⟩ := mem_filter.mp member
  obtain ⟨address, owner, place, pointer, fits⟩ := sound.owned allocation member
  refine ⟨address, owner, released _ place ?_, pointer, fits⟩
  intro same
  subst same
  exact of_decide_eq_true other pointer

theorem Sound.stored (sound : Sound heap live blocks) (value : Word)
    (covered : live.any (fun allocation => allocation.covers address) = true) :
    Sound { heap with memory := Function.update heap.memory address value } live blocks := by
  obtain ⟨allocation, member, covers⟩ := any_eq_true.mp covered
  obtain ⟨mh, block, place, pointer, fits⟩ := sound.owned allocation member
  obtain ⟨place, inuse⟩ := mem_filter.mp place
  obtain ⟨before, after, rfl, spot⟩ := Tiling.placed_split _ place
  have divided : heap.Divided before mh (block :: after) := ⟨sound.tiled, spot⟩
  rw [Allocation.covers, Bool.and_eq_true, decide_eq_true_eq, decide_eq_true_eq] at covers
  have same : block.marked true = block := by
    cases block
    cases inuse
    rfl
  have header : mhInuse heap.memory mh = true := divided.headed.inuse.trans inuse
  have outside : ∀ word, word < mh + mBlockSize ∨ mh + block.bytes ≤ word →
      Function.update heap.memory address value word = setInuse heap.memory mh true word := by
    intro word far
    rw [Function.update_of_ne (by omega), ← header]
    exact congrFun (Function.update_eq_self _ _).symm word
  have marked := divided.mark true outside
  rw [same] at marked
  exact ⟨marked.tiled, sound.coalesced, sound.owned, sound.distinct⟩

theorem World.Consistent.malloc {grants} (consistent : world.Consistent) (running : world.exited = none)
    (taken : world.step (.malloc size grants) = some next) : next.Consistent := by
  rw [World.step, running] at taken
  simp only [isSome_none, Bool.false_eq_true, if_false, ite_none_right_eq_some] at taken
  obtain ⟨⟨positive, small⟩, taken⟩ := taken
  rcases consistent.heap with untouched | ⟨blocks, sound⟩
  · rcases mallocInit_spec grants untouched.heapbase untouched.heaptop with
      ⟨exit, member, refused⟩ | ⟨heap, ready, tiled⟩
    · rw [malloc_of_refused untouched.heapbase refused] at taken
      cases taken
      refine ⟨fun other same => ?_, .inl ⟨untouched.heapbase, untouched.heaptop, untouched.live⟩⟩
      cases same
      exact member
    · have sound : Sound heap world.live [] := by
        rw [untouched.live]
        exact ⟨tiled, List.IsChain.nil, by simp, List.Pairwise.nil⟩
      obtain ⟨x, heap', blocks', result, served⟩ := malloc_ready grants tiled sound.coalesced positive small
      rw [malloc_of_init untouched.heapbase ready tiled, result] at taken
      cases taken
      exact ⟨nofun, .inr ⟨blocks', sound.handed served⟩⟩
  · obtain ⟨x, heap', blocks', result, served⟩ := malloc_ready grants sound.tiled sound.coalesced positive small
    rw [result] at taken
    cases taken
    exact ⟨nofun, .inr ⟨blocks', sound.handed served⟩⟩

theorem World.Consistent.free (consistent : world.Consistent) (running : world.exited = none)
    (taken : world.step (.free x) = some next) : next.Consistent := by
  rw [World.step, running] at taken
  simp only [isSome_none, Bool.false_eq_true, if_false, ite_none_right_eq_some] at taken
  obtain ⟨allowed, taken⟩ := taken
  rcases allowed with rfl | live
  · cases taken
    refine ⟨nofun, ?_⟩
    rcases consistent.heap with untouched | ⟨blocks, sound⟩
    · exact .inl ⟨untouched.heapbase, untouched.heaptop, by rw [untouched.live]; rfl⟩
    · refine .inr ⟨blocks, sound.tiled, sound.coalesced, fun allocation member => ?_, sound.distinct.filter _⟩
      exact sound.owned allocation (mem_of_mem_filter member)
  · obtain ⟨allocation, member, rfl⟩ := mem_map.mp live
    rcases consistent.heap with untouched | ⟨blocks, sound⟩
    · rw [untouched.live] at member
      cases member
    · obtain ⟨mh, block, place, pointer, -⟩ := sound.owned allocation member
      obtain ⟨heap', blocks', result, tiled, coalesced, base, released, -⟩ :=
        free_spec sound.tiled sound.coalesced place
      rw [pointer, result] at taken
      cases taken
      exact ⟨nofun, .inr ⟨blocks', sound.released tiled coalesced base released⟩⟩

theorem World.Consistent.step {action} (consistent : world.Consistent)
    (taken : world.step action = some next) : next.Consistent := by
  have running : world.exited = none := by
    cases exited : world.exited with
    | none => rfl
    | some exit =>
      simp [World.step, exited] at taken
  cases action with
  | malloc size grants => exact consistent.malloc running taken
  | free x => exact consistent.free running taken
  | store address value =>
    rw [World.step, running] at taken
    simp only [isSome_none, Bool.false_eq_true, if_false, ite_none_right_eq_some] at taken
    obtain ⟨⟨-, covered⟩, taken⟩ := taken
    cases taken
    rcases consistent.heap with untouched | ⟨blocks, sound⟩
    · rw [untouched.live] at covered
      cases covered
    · exact ⟨nofun, .inr ⟨blocks, sound.stored value covered⟩⟩

/-- The heap is in order: tiled by blocks with right headers, no two free neighbours, every live allocation aligned
in the data of a block in use, no two overlapping, and no exit but in the setup. -/
structure World.InOrder (world : World) : Prop where
  exits : ∀ exit, world.exited = some exit → exit ∈ initExits
  heap : world.Untouched ∨ ∃ blocks, world.heap.Tiled blocks ∧ Coalesced blocks ∧
    ∀ allocation ∈ world.live, ∃ mh block, (mh, block) ∈ world.heap.used blocks ∧
      allocation.pointer = mh + mBlockSize ∧ allocation.size + mBlockSize ≤ block.bytes
  aligned : ∀ allocation ∈ world.live, allocation.pointer % mBlockSize = 0
  disjoint : world.live.Pairwise fun first second =>
    first.pointer + first.size ≤ second.pointer ∨ second.pointer + second.size ≤ first.pointer

theorem Sound.aligned (sound : Sound heap live blocks) {allocation} (member : allocation ∈ live) :
    allocation.pointer % mBlockSize = 0 := by
  obtain ⟨mh, block, place, pointer, -⟩ := sound.owned allocation member
  obtain ⟨before, after, -, spot⟩ := Tiling.placed_split _ (mem_filter.mp place).1
  have base := sound.tiled.aligned
  have offset := extent_aligned before
  rw [pointer, spot, Nat.add_mod_right, Nat.add_mod, base, offset]
  rfl

theorem Sound.apart (sound : Sound heap live blocks) {first second} (one : first ∈ live)
    (two : second ∈ live) (distinct : first.pointer ≠ second.pointer) :
    first.pointer + first.size ≤ second.pointer ∨ second.pointer + second.size ≤ first.pointer := by
  obtain ⟨mh1, block1, place1, pointer1, fits1⟩ := sound.owned first one
  obtain ⟨mh2, block2, place2, pointer2, fits2⟩ := sound.owned second two
  have apart := Tiling.placed_apart Block.bytes (mem_filter.mp place1).1 (mem_filter.mp place2).1
    (by omega)
  omega

theorem World.Consistent.inOrder (consistent : world.Consistent) : world.InOrder := by
  obtain ⟨exits, untouched | ⟨blocks, sound⟩⟩ := consistent
  · refine ⟨exits, .inl untouched, ?_, ?_⟩
    · rw [untouched.live]
      nofun
    · rw [untouched.live]
      exact List.Pairwise.nil
  · refine ⟨exits, .inr ⟨blocks, sound.tiled, sound.coalesced, sound.owned⟩, fun _ member => sound.aligned member, ?_⟩
    exact sound.distinct.imp_of_mem fun one two distinct => sound.apart one two distinct

/-- Whatever the program allocates, frees and stores, and whatever the kernel grants. -/
theorem heap_in_order (memory : Memory) (brk : Fin addressSpace) (actions : List Action) :
    Always World.step World.InOrder (World.start memory brk) actions := by
  have start : (World.start memory brk).Consistent := ⟨nofun, .inl ⟨rfl, rfl, rfl⟩⟩
  have always : Always World.step World.Consistent (World.start memory brk) actions :=
    always_of_invariant (fun _ _ _ consistent taken => consistent.step taken) start actions
  exact always.mono fun _ consistent => consistent.inOrder

end Os161.Malloc
