import Os161.Proofs.MallocHeap

/-! The sizes a program may ask for: the pointer for 0 bytes may be the top of the heap, which `free` does not take,
and from 2 ^ 31 - 15 on the arithmetic wraps around. -/

namespace Os161.Malloc
open Runs List Option
open Tiling (extent)

variable {heap heap' : Heap} {world next : World} {blocks : List Block} {live : List Allocation}
  {grants : Nat → Bool} {mh n x : Nat}

/-! Every live pointer can be freed. -/

def World.Freeable (world : World) : Prop :=
  ∀ allocation ∈ world.live, ∃ heap' blocks', free world.heap allocation.pointer = .ok heap' ∧
    heap'.Tiled blocks' ∧ ∀ place ∈ heap'.used blocks', place.1 + mBlockSize ≠ allocation.pointer

def asksSome (_ : World) : Action → Prop
  | .malloc size _ => size ≠ 0
  | _ => True

theorem World.stepAny_eq {action} (asked : asksSome world action) : world.stepAny action = world.step action := by
  cases action with
  | malloc size grants =>
    obtain ⟨size, rfl⟩ := Nat.exists_eq_add_one_of_ne_zero asked
    rfl
  | free x => rfl
  | store address value => rfl

theorem World.Consistent.freeable (consistent : world.Consistent) : world.Freeable := by
  intro allocation member
  rcases consistent.heap with untouched | ⟨blocks, sound⟩
  · rw [untouched.live] at member
    cases member
  · obtain ⟨mh, block, place, pointer, -⟩ := sound.owned allocation member
    obtain ⟨heap', blocks', freed, tiled, -, base, -, gone⟩ := free_spec sound.tiled sound.coalesced place
    refine ⟨heap', blocks', pointer ▸ freed, tiled, fun other used same => ?_⟩
    rw [Heap.used, base] at used
    exact gone other used (Nat.add_right_cancel (same.trans pointer))

theorem World.start_consistent (memory : Memory) (brk : Fin addressSpace) : (World.start memory brk).Consistent :=
  ⟨nofun, .inl ⟨rfl, rfl, rfl⟩⟩

/-- As long as no call asks for nothing. -/
theorem live_pointers_freeable (memory : Memory) (brk : Fin addressSpace) (actions : List Action)
    (asks : EachStep World.stepAny asksSome (World.start memory brk) actions) :
    Always World.stepAny World.Freeable (World.start memory brk) actions := by
  have always : Always World.stepAny World.Consistent (World.start memory brk) actions := by
    refine always_of_steps (fun world action next consistent taken asked => ?_)
      (World.start_consistent memory brk) asks
    rw [World.stepAny_eq asked] at taken
    exact consistent.step taken
  exact always.mono fun _ consistent => consistent.freeable

theorem live_pointers_freeable_one : Always World.stepAny World.Freeable
    (World.start (fun _ => Word.ofNat 0) ⟨8, by decide⟩) [.malloc 1 fun _ => true] :=
  live_pointers_freeable _ _ _ fun _ _ => ⟨Nat.one_ne_zero, trivial⟩

/-- The header of an empty block at the top of the heap ends where the heap ends. -/
theorem empty_block_not_freeable : ∃ world, (World.start (fun _ => Word.ofNat 0) ⟨8, by decide⟩).stepAny
      (.malloc 0 fun _ => true) = some world ∧ ⟨16, 0⟩ ∈ world.live ∧
    free world.heap 16 = .error (.errx "free: Invalid pointer %p freed (out of range)" [16]) :=
  ⟨_, rfl, mem_cons_self, rfl⟩

/-! The sizes for which a pointer has room. -/

/-- The bytes asked for lie in the heap, clear of the live ones. -/
def Enough (live : List Allocation) (n x : Nat) (heap : Heap) : Prop :=
  heap.heapbase ≤ x ∧ x + n ≤ heap.heaptop ∧
    ∀ allocation ∈ live, x + n ≤ allocation.pointer ∨ allocation.pointer + allocation.size ≤ x

/-- The search of `malloc` comes to a free block. -/
def Heap.Finds (heap : Heap) (n : Nat) : Prop :=
  ∃ mh, search heap (roundUp n) (heap.heaptop + 1) heap.heapbase 0 = .ok (.found mh)

theorem mallocSplit_keeps {size} (split : mallocSplit heap mh size = .ok heap') :
    heap'.heapbase = heap.heapbase ∧ heap'.heaptop = heap.heaptop := by
  simp only [mallocSplit] at split
  split_ifs at split <;> cases split <;> exact ⟨rfl, rfl⟩

theorem malloc_found_keeps (tiled : heap.Tiled blocks)
    (searched : search heap (roundUp n) (heap.heaptop + 1) heap.heapbase 0 = .ok (.found mh))
    (done : malloc grants heap n = .ok (x, heap')) :
    x = mData mh ∧ heap'.heapbase = heap.heapbase ∧ heap'.heaptop = heap.heaptop := by
  have positive := tiled.positive
  have top := tiled.top
  rw [malloc, if_neg (by omega)] at done
  simp only [bind, Except.bind] at done
  rw [if_neg (by omega), searched] at done
  cases split : mallocSplit heap mh (roundUp n) with
  | error exit =>
    simp only [split] at done
    cases done
  | ok middle =>
    simp only [split] at done
    cases done
    exact ⟨rfl, (mallocSplit_keeps split).1, (mallocSplit_keeps split).2⟩

/-- The block handed out was free, so that nothing live is in it. -/
theorem Sound.enough_found {passed block after} (sound : Sound heap live (passed ++ block :: after))
    (free : block.inuse = false) (room : n + mBlockSize ≤ block.bytes)
    (base : heap'.heapbase = heap.heapbase) (top : heap'.heaptop = heap.heaptop) :
    Enough live n (heap.heapbase + extent Block.bytes passed + mBlockSize) heap' := by
  have divided : heap.Divided passed _ (block :: after) := ⟨sound.tiled, rfl⟩
  have ends := divided.ends
  rw [Tiling.extent_cons] at ends
  refine ⟨by omega, by omega, fun allocation member => ?_⟩
  obtain ⟨mh, owner, place, pointer, fits⟩ := sound.owned allocation member
  rw [Heap.used, picked_free free, mem_append] at place
  rcases place with low | high
  · have bounds := picked_place low
    omega
  · have bounds := picked_place high
    omega

theorem Sound.below_top (sound : Sound heap live blocks) {allocation} (member : allocation ∈ live) :
    allocation.pointer + allocation.size ≤ heap.heaptop := by
  obtain ⟨mh, block, place, pointer, fits⟩ := sound.owned allocation member
  have bounds := picked_place place
  have top := sound.tiled.top
  omega

/-- The top moves down when the size with the header is no positive integer of 32 bits. -/
theorem bmod_large (large : 2 ^ 31 - 16 < n) (small : n ≤ 2 ^ 32 - 8) :
    (plus (roundUp n) mBlockSize : Int).bmod addressSpace ≤ 0 := by
  simp only [roundUp, plus, mBlockSize, addressSpace, Int.bmod_def]
  split_ifs
  · omega
  · omega

theorem Sound.enough_exhausted {top} (sound : Sound heap live blocks) (bound : top < addressSpace)
    (pointer : mData heap.heaptop ≠ 0)
    (moved : (top : Int) = heap.heaptop + (plus (roundUp n) mBlockSize : Int).bmod addressSpace)
    (base : heap'.heapbase = heap.heapbase) (new : heap'.heaptop = top) :
    Enough live n (mData heap.heaptop) heap' ↔ n ≤ 2 ^ 31 - 16 := by
  have old := sound.tiled.top
  have data : mData heap.heaptop = heap.heaptop + mBlockSize := by
    have below := sound.tiled.bound
    have aligned := sound.tiled.top_aligned
    simp only [mData, plus, sizeofMheader, mBlockSize, addressSpace] at pointer below aligned ⊢
    omega
  rw [data, Enough, new, base]
  constructor
  · rintro ⟨-, inside, -⟩
    by_contra large
    by_cases wraps : n ≤ 2 ^ 32 - 8
    · have down := bmod_large (Nat.lt_of_not_le large) wraps
      omega
    · simp only [mBlockSize, addressSpace] at inside bound
      omega
  · intro small
    have sum : plus (roundUp n) mBlockSize = (n + 7) / 8 * 8 + 8 := by
      simp only [roundUp, plus, mBlockSize, addressSpace]
      omega
    rw [sum, bmod_small (by omega)] at moved
    refine ⟨by omega, ?_, fun allocation member => .inr ?_⟩
    · rw [mBlockSize]
      omega
    · have low := sound.below_top member
      omega

theorem Heap.not_finds (level : heap.heapbase = heap.heaptop) : ¬ heap.Finds n := by
  rintro ⟨mh, searched⟩
  rw [search, if_neg (by omega), if_neg (not_not_intro level)] at searched
  cases searched

theorem Sound.enough_iff (sound : Sound heap live blocks)
    (done : malloc grants heap n = .ok (x, heap')) (pointer : x ≠ 0) :
    Enough live n x heap' ↔ n ≤ 2 ^ 31 - 16 ∨ n ≤ 2 ^ 32 - 8 ∧ heap.Finds n := by
  have start : heap.Divided [] heap.heapbase blocks := ⟨sound.tiled, rfl⟩
  have enough : blocks.length < heap.heaptop + 1 := by
    have short := length_le_extent blocks
    have top := sound.tiled.top
    omega
  have rounded : roundUp n = mBlockSize * (plus n (mBlockSize - 1) / mBlockSize) := Nat.mul_comm ..
  rcases search_spec (plus n (mBlockSize - 1) / mBlockSize) start enough with
    searched | ⟨passed, block, after, rfl, free, room, searched⟩
  · rw [← rounded] at searched
    have missed : ¬ heap.Finds n := fun ⟨_, found⟩ => by cases searched.symm.trans found
    rcases mallocSbrk_spec grants (plus (roundUp n) mBlockSize) sound.tiled with refused | ⟨top, bound, moved, grown⟩
    · rw [malloc_of_exhausted sound.tiled searched refused] at done
      cases done
      exact absurd rfl pointer
    · have nonzero : heap.heaptop ≠ 0 := by
        have top := sound.tiled.top
        have base := sound.tiled.positive
        omega
      rw [malloc_of_exhausted sound.tiled searched grown, if_neg nonzero] at done
      cases done
      rw [or_iff_left fun both => missed both.2]
      exact sound.enough_exhausted bound pointer moved rfl rfl
  · rw [← rounded] at searched
    have divided : heap.Divided passed _ (block :: after) := ⟨sound.tiled, rfl⟩
    obtain ⟨rfl, base, top⟩ := malloc_found_keeps sound.tiled searched done
    rw [mData_eq block.bytes_pos divided.bound]
    by_cases wraps : n ≤ 2 ^ 32 - 8
    · refine ⟨fun _ => .inr ⟨wraps, _, searched⟩, fun _ => sound.enough_found free ?_ base top⟩
      rw [Block.bytes]
      simp only [plus, mBlockSize, addressSpace] at room ⊢
      omega
    · constructor
      · rintro ⟨-, inside, -⟩
        have bound := sound.tiled.bound
        simp only [mBlockSize, addressSpace, top] at inside bound
        omega
      · omega

theorem malloc_returns {top} (evaluated :
    ((malloc grants heap n).toOption.map fun result => (result.1, result.2.heaptop)) = some (x, top)) :
    ∃ heap', malloc grants heap n = .ok (x, heap') ∧ heap'.heaptop = top := by
  cases result : malloc grants heap n with
  | error exit =>
    rw [result] at evaluated
    cases evaluated
  | ok pair =>
    rw [result] at evaluated
    cases evaluated
    exact ⟨pair.2, rfl, rfl⟩

/-- A pointer has room for the request exactly if the size with its header is a positive 32-bit integer, or a free
block was found and the rounding did not wrap around. -/
theorem malloc_enough_iff (memory : Memory) (brk : Fin addressSpace) (actions : List Action) {world : World}
    (reached : run World.step (World.start memory brk) actions = some world) {n x : Nat} {grants : Nat → Bool}
    {heap : Heap} (done : malloc grants world.heap n = .ok (x, heap)) (pointer : x ≠ 0) :
    Enough world.live n x heap ↔ n ≤ 2 ^ 31 - 16 ∨ n ≤ 2 ^ 32 - 8 ∧ world.heap.Finds n := by
  have consistent : world.Consistent :=
    run_preserves (fun _ _ _ consistent taken => consistent.step taken) (World.start_consistent memory brk) reached
  rcases consistent.heap with untouched | ⟨blocks, sound⟩
  · rcases mallocInit_spec grants untouched.heapbase untouched.heaptop with
      ⟨exit, -, refused⟩ | ⟨ready, initialised, tiled⟩
    · rw [malloc_of_refused untouched.heapbase refused] at done
      cases done
    · rw [malloc_of_init untouched.heapbase initialised tiled] at done
      have sound : Sound ready world.live [] := by
        rw [untouched.live]
        exact ⟨tiled, List.IsChain.nil, by simp, List.Pairwise.nil⟩
      have before : ¬ world.heap.Finds n := Heap.not_finds (untouched.heapbase.trans untouched.heaptop.symm)
      have after : ¬ ready.Finds n := Heap.not_finds tiled.top.symm
      rw [sound.enough_iff done pointer, or_iff_left fun both => after both.2,
        or_iff_left fun both => before both.2]
  · exact sound.enough_iff done pointer

theorem malloc_enough_iff_one : ∃ heap,
    malloc (fun _ => true) (World.start (fun _ => Word.ofNat 0) ⟨8, by decide⟩).heap 1 = .ok (16, heap) ∧
      Enough [] 1 16 heap := by
  obtain ⟨heap, done, -⟩ := @malloc_returns (World.start (fun _ => Word.ofNat 0) ⟨8, by decide⟩).heap
    (fun _ => true) 1 16 24 (by decide +kernel)
  exact ⟨heap, done, (malloc_enough_iff _ _ [] rfl done (by decide)).mpr (.inl (by decide))⟩

/-- The rounded size is 0, so that the whole block is a header. -/
theorem largest_size_not_enough : ∃ heap,
    malloc (fun _ => true) (World.start (fun _ => Word.ofNat 0) ⟨8, by decide⟩).heap 0xffffffff = .ok (16, heap) ∧
      ¬ Enough [] 0xffffffff 16 heap := by
  obtain ⟨heap, done, top⟩ := @malloc_returns (World.start (fun _ => Word.ofNat 0) ⟨8, by decide⟩).heap
    (fun _ => true) 0xffffffff 16 16 (by decide +kernel)
  refine ⟨heap, done, fun enough => ?_⟩
  have inside := enough.2.1
  omega

end Os161.Malloc
