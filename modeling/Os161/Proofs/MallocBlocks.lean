import Os161.Lib.Tiling
import Os161.Malloc

/-! The heap as a row of blocks, and what the functions on neighbouring headers do to it: a cut, a join, a change of
owner. -/

namespace Os161.Malloc
open Function

open Tiling (extent)

structure Block where
  units : Nat
  inuse : Bool
  room : 2 ≤ units

def Block.bytes (block : Block) : Nat := mBlockSize * block.units

def Block.marked (block : Block) (inuse : Bool) : Block := { block with inuse := inuse }

def Block.joined (block above : Block) : Block where
  units := block.units + above.units
  inuse := false
  room := Nat.le_add_right_of_le block.room

def below (previous : Nat) : List Block → Nat
  | [] => previous
  | block :: rest => below block.units rest

structure Headed (memory : Memory) (mh previous : Nat) (block : Block) : Prop where
  magic1 : mhMagic1 memory mh = mMagic
  magic2 : mhMagic2 memory mh = mMagic
  prevblock : mhPrevblock memory mh = previous
  nextblock : mhNextblock memory mh = block.units
  inuse : mhInuse memory mh = block.inuse

/-- The headers of the whole row are in memory, the first with `previous` below it. -/
def Holds (memory : Memory) (address previous : Nat) : List Block → Prop
  | [] => True
  | block :: rest =>
    Headed memory address previous block ∧ Holds memory (address + block.bytes) block.units rest

structure Heap.Tiled (heap : Heap) (blocks : List Block) : Prop where
  aligned : heap.heapbase % mBlockSize = 0
  positive : 0 < heap.heapbase
  top : heap.heaptop = heap.heapbase + extent Block.bytes blocks
  bound : heap.heaptop < addressSpace
  brk : heap.brk = heap.heaptop
  headers : Holds heap.memory heap.heapbase 0 blocks

structure Heap.Divided (heap : Heap) (before : List Block) (mh : Nat) (rest : List Block) : Prop where
  tiled : heap.Tiled (before ++ rest)
  place : mh = heap.heapbase + extent Block.bytes before

variable {memory memory' : Memory} {heap : Heap} {mh address previous size : Nat} {block above : Block}
  {before old new after blocks : List Block}

theorem plus_eq {a b} (small : a + b < addressSpace) : plus a b = a + b := Nat.mod_eq_of_lt small

theorem minus_eq {a b} (le : b ≤ a) (small : a < addressSpace) : minus a b = a - b := by
  have wraps : a + addressSpace - b = (a - b) + addressSpace := by omega
  rw [minus, wraps, Nat.add_mod_right]
  exact Nat.mod_eq_of_lt (by omega)

theorem field_val {value} (small : mBlockSize * value < addressSpace) :
    (Fin.ofNat (2 ^ 29) value).val = value := by
  rw [mBlockSize, addressSpace] at small
  exact Nat.mod_eq_of_lt (by omega)

theorem mMkfield_bytes (block : Block) : mMkfield block.bytes = block.units :=
  Nat.mul_div_cancel_left block.units (by decide)

theorem Block.bytes_pos (block : Block) : 2 * mBlockSize ≤ block.bytes := by
  have room := block.room
  rw [Block.bytes, mBlockSize]
  omega

theorem extent_aligned (blocks : List Block) : extent Block.bytes blocks % mBlockSize = 0 := by
  induction blocks with
  | nil => rfl
  | cons block rest again =>
    rw [Tiling.extent_cons, Block.bytes, Nat.mul_add_mod]
    exact again

theorem extent_eq_zero : extent Block.bytes blocks = 0 ↔ blocks = [] := by
  cases blocks with
  | nil => simp
  | cons block rest =>
    have room := block.bytes_pos
    simp only [Tiling.extent_cons, mBlockSize] at room ⊢
    constructor
    · intro zero
      omega
    · intro empty
      cases empty

/-! The header of a block. -/

section

variable (headed : Headed memory mh previous block)
include headed

theorem Headed.mOk : mOk memory mh = true := by
  rw [Malloc.mOk, headed.magic1, headed.magic2]
  rfl

theorem Headed.mNextoff : mNextoff memory mh = block.bytes := by
  rw [Malloc.mNextoff, headed.nextblock, Nat.mul_comm]
  rfl

theorem Headed.mNext (small : mh + block.bytes < addressSpace) : mNext memory mh = mh + block.bytes := by
  rw [Malloc.mNext, headed.mNextoff, plus_eq small]

theorem Headed.mSize (small : mh + block.bytes < addressSpace) : mSize memory mh = block.bytes - mBlockSize := by
  have room := block.bytes_pos
  rw [Malloc.mSize, headed.mNextoff, minus_eq (by omega) (by omega)]

theorem Headed.congr (first : memory' mh = memory mh)
    (second : memory' (mh + 4) = memory (mh + 4)) : Headed memory' mh previous block := by
  obtain ⟨magic1, magic2, prevblock, nextblock, inuse⟩ := headed
  refine ⟨?_, ?_, ?_, ?_, ?_⟩
  · rwa [mhMagic1, first]
  · rwa [mhMagic2, second]
  · rwa [mhPrevblock, first]
  · rwa [mhNextblock, second]
  · rwa [mhInuse, second]

end

/-! Rows of headers. -/

theorem below_append (previous : Nat) (first second : List Block) :
    below previous (first ++ second) = below (below previous first) second := by
  induction first generalizing previous with
  | nil => rfl
  | cons block rest again => exact again block.units

theorem holds_append (first second : List Block) :
    Holds memory address previous (first ++ second) ↔
      Holds memory address previous first ∧
        Holds memory (address + extent Block.bytes first) (below previous first) second := by
  induction first generalizing address previous with
  | nil => simp [Holds, below]
  | cons block rest again =>
    rw [List.cons_append, Holds, again, Holds, below, Tiling.extent_cons, ← Nat.add_assoc, and_assoc]

theorem Holds.congr (holds : Holds memory address previous blocks)
    (same : ∀ word, address ≤ word → word < address + extent Block.bytes blocks → memory' word = memory word) :
    Holds memory' address previous blocks := by
  induction blocks generalizing address previous with
  | nil => trivial
  | cons block rest again =>
    have room := block.bytes_pos
    rw [Tiling.extent_cons] at same
    rw [mBlockSize] at room
    refine ⟨holds.1.congr (same _ (Nat.le_refl _) (by omega)) (same _ (by omega) (by omega)), ?_⟩
    exact again holds.2 fun word low high => same word (by omega) (by omega)

theorem Holds.relink {previous'} (holds : Holds memory address previous blocks)
    (same : ∀ word, address < word → memory' word = memory word)
    (small : mBlockSize * previous' < addressSpace)
    (link : blocks ≠ [] → memory' address = { memory address with block := Fin.ofNat (2 ^ 29) previous' }) :
    Holds memory' address previous' blocks := by
  cases blocks with
  | nil => trivial
  | cons block rest =>
    obtain ⟨headed, holds⟩ := holds
    have room := block.bytes_pos
    rw [mBlockSize] at room
    have first := link (List.cons_ne_nil block rest)
    have second : memory' (address + 4) = memory (address + 4) := same _ (by omega)
    refine ⟨⟨?_, ?_, ?_, ?_, ?_⟩, holds.congr fun word low _ => same word (by omega)⟩
    · rw [mhMagic1, first]
      exact headed.magic1
    · rw [mhMagic2, second]
      exact headed.magic2
    · rw [mhPrevblock, first]
      exact field_val small
    · rw [mhNextblock, second]
      exact headed.nextblock
    · rw [mhInuse, second]
      exact headed.inuse

theorem below_small (small : mBlockSize * previous < addressSpace) (fits : extent Block.bytes blocks < addressSpace) :
    mBlockSize * below previous blocks < addressSpace := by
  induction blocks generalizing previous with
  | nil => exact small
  | cons block rest again =>
    rw [Tiling.extent_cons] at fits
    refine again ?_ (by omega)
    rw [Block.bytes] at fits
    omega

namespace Heap.Divided

theorem relay (old new : List Block) (divided : heap.Divided before mh (old ++ after))
    (room : extent Block.bytes new = extent Block.bytes old)
    (outside : ∀ word, word < mh ∨ mh + extent Block.bytes old < word → memory' word = heap.memory word)
    (link : after ≠ [] → memory' (mh + extent Block.bytes old) =
      { heap.memory (mh + extent Block.bytes old) with
        block := Fin.ofNat (2 ^ 29) (below (below 0 before) new) })
    (laid : Holds memory' mh (below 0 before) new) :
    { heap with memory := memory' }.Divided before mh (new ++ after) := by
  obtain ⟨⟨aligned, positive, top, bound, brk, headers⟩, rfl⟩ := divided
  rw [holds_append, holds_append] at headers
  obtain ⟨headers, -, rest⟩ := headers
  simp only [Tiling.extent_append] at top rest
  have fits : extent Block.bytes (before ++ new) < addressSpace := by
    rw [Tiling.extent_append]
    omega
  refine ⟨⟨aligned, positive, by simp only [Tiling.extent_append]; omega, bound, brk, ?_⟩, rfl⟩
  rw [holds_append, holds_append]
  refine ⟨headers.congr fun word _ high => outside word (.inl high), laid, ?_⟩
  rw [room]
  refine rest.relink (fun word above => outside word (.inr above)) ?_ link
  rw [← below_append]
  exact below_small (by decide) fits

theorem headed (divided : heap.Divided before mh (block :: after)) :
    Headed heap.memory mh (below 0 before) block := by
  obtain ⟨⟨-, -, -, -, -, headers⟩, rfl⟩ := divided
  rw [holds_append] at headers
  exact headers.2.1

theorem next (divided : heap.Divided before mh (block :: after)) :
    heap.Divided (before ++ [block]) (mh + block.bytes) after := by
  obtain ⟨tiled, rfl⟩ := divided
  rw [List.append_cons] at tiled
  refine ⟨tiled, ?_⟩
  rw [Tiling.extent_append, Tiling.extent_cons, Tiling.extent_nil, Nat.add_zero, Nat.add_assoc]

theorem ends (divided : heap.Divided before mh after) : mh + extent Block.bytes after = heap.heaptop := by
  rw [divided.tiled.top, divided.place, Tiling.extent_append, Nat.add_assoc]

theorem eq_top (divided : heap.Divided before mh after) : mh = heap.heaptop ↔ after = [] := by
  rw [← extent_eq_zero, ← divided.ends]
  omega

section

variable (divided : heap.Divided before mh (block :: after))
include divided

theorem bound : mh + block.bytes < addressSpace := by
  have ends := divided.ends
  have bound := divided.tiled.bound
  rw [Tiling.extent_cons] at ends
  omega

theorem mNext_eq : mNext heap.memory mh = mh + block.bytes :=
  divided.headed.mNext divided.bound

theorem mSize_eq : mSize heap.memory mh = block.bytes - mBlockSize :=
  divided.headed.mSize divided.bound

end

theorem prior (divided : heap.Divided (before ++ [block]) mh (above :: after)) :
    ∃ mhprev, mPrev heap.memory mh = mhprev ∧ mhprev + block.bytes = mh ∧
      heap.Divided before mhprev (block :: above :: after) := by
  have headed := divided.headed
  have bound := divided.bound
  obtain ⟨tiled, rfl⟩ := divided
  rw [below_append] at headed
  rw [Tiling.extent_append, Tiling.extent_cons, Tiling.extent_nil, Nat.add_zero, ← Nat.add_assoc] at headed bound ⊢
  rw [← List.append_cons] at tiled
  refine ⟨_, ?_, rfl, tiled, rfl⟩
  have offset : mPrevoff heap.memory (heap.heapbase + extent Block.bytes before + block.bytes) = block.bytes := by
    rw [mPrevoff, headed.prevblock, Nat.mul_comm]
    rfl
  rw [mPrev, offset, minus_eq (by omega) (by omega), Nat.add_sub_cancel]

theorem mark (divided : heap.Divided before mh (block :: after)) (inuse : Bool)
    (outside : ∀ word, word < mh + mBlockSize ∨ mh + block.bytes ≤ word →
      memory' word = setInuse heap.memory mh inuse word) :
    { heap with memory := memory' }.Divided before mh (block.marked inuse :: after) := by
  have headed := divided.headed
  have room := block.bytes_pos
  rw [mBlockSize] at room outside
  have other : ∀ word, word < mh + 4 ∨ mh + block.bytes ≤ word → memory' word = heap.memory word := by
    intro word far
    rw [outside word (by omega), setInuse, update_of_ne (by omega)]
  have size : extent Block.bytes [block] = block.bytes := by simp
  refine relay [block] [block.marked inuse] divided rfl
    (fun word far => other word (by omega)) (fun nonempty => ?_) ⟨?_, trivial⟩
  · -- the header above keeps its link
    rw [size, other _ (.inr (Nat.le_refl _))]
    cases after with
    | nil => exact absurd rfl nonempty
    | cons above after =>
      have linked := divided.next.headed.prevblock
      rw [below_append, mhPrevblock] at linked
      have small := (heap.memory (mh + block.bytes)).block.isLt
      have link : Fin.ofNat (2 ^ 29) (below (below 0 before) [block.marked inuse]) =
          (heap.memory (mh + block.bytes)).block := by
        rw [← Fin.val_inj, linked]
        rw [linked] at small
        exact Nat.mod_eq_of_lt small
      rw [link]
  · have second : memory' (mh + 4) = { heap.memory (mh + 4) with flag := inuse } := by
      rw [outside _ (by omega), setInuse, update_self]
    have first : memory' mh = heap.memory mh := other mh (by omega)
    refine ⟨?_, ?_, ?_, ?_, ?_⟩
    · rw [mhMagic1, first]
      exact headed.magic1
    · rw [mhMagic2, second]
      exact headed.magic2
    · rw [mhPrevblock, first]
      exact headed.prevblock
    · rw [mhNextblock, second]
      exact headed.nextblock
    · rw [mhInuse, second]
      rfl

end Heap.Divided

/-! Writes to headers. -/

variable {top mhnext value word units : Nat}

theorem linked_above (ends : mhnext = top ↔ after = []) (nonempty : after ≠ []) :
    (if mhnext ≠ top then setPrevblock memory mhnext value else memory) mhnext =
      { memory mhnext with block := Fin.ofNat (2 ^ 29) value } := by
  rw [if_pos (fun same => nonempty (ends.mp same)), setPrevblock, update_self]

theorem linked_other (other : word ≠ mhnext) :
    (if mhnext ≠ top then setPrevblock memory mhnext value else memory) word = memory word := by
  split
  · rw [setPrevblock, update_of_ne other]
  · rfl

def written (memory : Memory) (mh prevblock nextblock : Nat) (inuse : Bool) : Memory :=
  update (update memory mh ⟨Fin.ofNat (2 ^ 29) prevblock, false, mMagic⟩) (mh + 4)
    ⟨Fin.ofNat (2 ^ 29) nextblock, inuse, mMagic⟩

theorem written_other {prevblock nextblock inuse} (first : word ≠ mh) (second : word ≠ mh + 4) :
    written memory mh prevblock nextblock inuse word = memory word := by
  rw [written, update_of_ne second, update_of_ne first]

theorem written_headed (below : mBlockSize * previous < addressSpace) (small : block.bytes < addressSpace) :
    Headed (written memory mh previous block.units block.inuse) mh previous block := by
  have first : written memory mh previous block.units block.inuse mh = ⟨Fin.ofNat (2 ^ 29) previous, false, mMagic⟩ := by
    rw [written, update_of_ne (by omega), update_self]
  have second : written memory mh previous block.units block.inuse (mh + 4) =
      ⟨Fin.ofNat (2 ^ 29) block.units, block.inuse, mMagic⟩ := by
    rw [written, update_self]
  refine ⟨?_, ?_, ?_, ?_, ?_⟩
  · rw [mhMagic1, first]
  · rw [mhMagic2, second]
  · rw [mhPrevblock, first]
    exact field_val below
  · rw [mhNextblock, second]
    exact field_val small
  · rw [mhInuse, second]

theorem split_written (prevblock nextblock : Nat) :
    setMagic2 (setInuse (setNextblock (setMagic1 (setPad (setPrevblock memory mh prevblock) mh false) mh mMagic)
      mh nextblock) mh false) mh mMagic = written memory mh prevblock nextblock false := by
  funext word
  by_cases second : word = mh + 4
  · subst second
    simp [setMagic2, setInuse, setNextblock, written]
  · by_cases first : word = mh
    · simp [setMagic2, setInuse, setNextblock, setMagic1, setPad, setPrevblock, written]
    · simp [setMagic2, setInuse, setNextblock, setMagic1, setPad, setPrevblock, written, first, second]

theorem malloc_written (prevblock nextblock : Nat) :
    setNextblock (setInuse (setPad (setMagic2 (setMagic1 (setPrevblock memory mh prevblock) mh mMagic) mh mMagic)
      mh false) mh true) mh nextblock = written memory mh prevblock nextblock true := by
  funext word
  by_cases second : word = mh + 4
  · subst second
    simp [setMagic2, setInuse, setNextblock, setPad, written]
  · by_cases first : word = mh
    · subst first
      simp [setMagic2, setInuse, setNextblock, setMagic1, setPad, setPrevblock, written]
    · simp [setMagic2, setInuse, setNextblock, setMagic1, setPad, setPrevblock, written, first, second]

theorem mMkfield_plus (small : mBlockSize * units + mBlockSize < addressSpace) :
    mMkfield (plus (mBlockSize * units) mBlockSize) = units + 1 := by
  rw [plus_eq small, ← Nat.mul_succ]
  exact Nat.mul_div_cancel_left (units + 1) (by decide)

theorem Headed.setNextblock (resized : Block) (headed : Headed memory mh previous block)
    (inuse : resized.inuse = block.inuse) (small : resized.bytes < addressSpace) :
    Headed (setNextblock memory mh resized.units) mh previous resized := by
  have first : Malloc.setNextblock memory mh resized.units mh = memory mh := update_of_ne (by omega) ..
  have second : Malloc.setNextblock memory mh resized.units (mh + 4) =
    { memory (mh + 4) with block := Fin.ofNat (2 ^ 29) resized.units } := update_self ..
  refine ⟨?_, ?_, ?_, ?_, ?_⟩
  · rw [mhMagic1, first]
    exact headed.magic1
  · rw [mhMagic2, second]
    exact headed.magic2
  · rw [mhPrevblock, first]
    exact headed.prevblock
  · rw [mhNextblock, second]
    exact field_val small
  · rw [mhInuse, second, inuse]
    exact headed.inuse

/-! Cuts and joins. -/

def Block.lower (block : Block) (units : Nat) (positive : 1 ≤ units) : Block where
  units := units + 1
  inuse := block.inuse
  room := by omega

def Block.upper (block : Block) (units : Nat) (spare : units + 3 ≤ block.units) : Block where
  units := block.units - (units + 1)
  inuse := false
  room := by omega

theorem Block.cut_bytes (positive : 1 ≤ units) (spare : units + 3 ≤ block.units) :
    (block.lower units positive).bytes + (block.upper units spare).bytes = block.bytes := by
  simp only [Block.bytes, Block.lower, Block.upper, mBlockSize]
  omega

section

variable (divided : heap.Divided before mh (block :: after))
include divided

theorem mallocSplit_small (fits : units + 1 ≤ block.units) (small : block.units < units + 3) :
    mallocSplit heap mh (mBlockSize * units) = .ok heap := by
  have bound := divided.bound
  have size := divided.mSize_eq
  simp only [Block.bytes, mBlockSize] at bound size
  rw [mallocSplit, if_neg (by rw [Nat.mul_mod_right]; decide), size, minus_eq (by rw [mBlockSize]; omega) (by omega),
    if_pos (by rw [mBlockSize]; omega)]

def cutMemory (heap : Heap) (mh : Nat) (lower upper : Block) : Memory :=
  let mhnew := mh + lower.bytes
  let memory := written (setNextblock heap.memory mh lower.units) mhnew lower.units upper.units false
  if mhnew + upper.bytes ≠ heap.heaptop then setPrevblock memory (mhnew + upper.bytes) upper.units else memory

theorem cutMemory_divided {lower upper}
    (lowerInuse : lower.inuse = block.inuse) (upperFree : upper.inuse = false)
    (cut : lower.bytes + upper.bytes = block.bytes) :
    { heap with memory := cutMemory heap mh lower upper }.Divided before mh (lower :: upper :: after) := by
  have bound := divided.bound
  have lowerRoom := lower.bytes_pos
  have upperRoom := upper.bytes_pos
  rw [mBlockSize] at lowerRoom upperRoom
  have size : extent Block.bytes [block] = block.bytes := by simp
  have ends := divided.next.eq_top
  have next : mh + lower.bytes + upper.bytes = mh + block.bytes := by omega
  have other : ∀ word, word ≠ mh + 4 → word ≠ mh + lower.bytes → word ≠ mh + lower.bytes + 4 →
      word ≠ mh + block.bytes → cutMemory heap mh lower upper word = heap.memory word := by
    intro word nextblock first second above
    rw [cutMemory, next, linked_other above, written_other first second]
    exact update_of_ne nextblock ..
  have lowerHeaded : Headed (cutMemory heap mh lower upper) mh (below 0 before) lower := by
    refine (divided.headed.setNextblock lower lowerInuse (by omega)).congr ?_ ?_ <;>
    · rw [cutMemory, next, linked_other (by omega), written_other (by omega) (by omega)]
  have upperHeaded : Headed (cutMemory heap mh lower upper) (mh + lower.bytes) lower.units upper := by
    have headed : Headed (written (setNextblock heap.memory mh lower.units) (mh + lower.bytes) lower.units
        upper.units upper.inuse) (mh + lower.bytes) lower.units upper :=
      written_headed (by rw [← Block.bytes]; omega) (by omega)
    rw [upperFree] at headed
    refine headed.congr ?_ ?_ <;>
    · rw [cutMemory, next, linked_other (by omega)]
  refine Heap.Divided.relay [block] [lower, upper] divided ?_ ?_ ?_ ⟨lowerHeaded, upperHeaded, trivial⟩
  · simp only [Tiling.extent_cons, Tiling.extent_nil]
    omega
  · intro word far
    exact other word (by omega) (by omega) (by omega) (by omega)
  · intro nonempty
    rw [size, cutMemory, next, linked_above ends nonempty, written_other (by omega) (by omega)]
    rw [setNextblock, update_of_ne (by omega)]
    rfl

theorem mallocSplit_large (positive : 1 ≤ units) (spare : units + 3 ≤ block.units) :
    mallocSplit heap mh (mBlockSize * units) = .ok { heap with
      memory := cutMemory heap mh (block.lower units positive) (block.upper units spare) } := by
  have bound := divided.bound
  have size := divided.mSize_eq
  have cut := Block.cut_bytes positive spare
  have upperRoom := (block.upper units spare).bytes_pos
  have unit : 0 < mBlockSize := by decide
  have lowerBytes : (block.lower units positive).bytes = mBlockSize * units + mBlockSize := rfl
  have newPlace := (divided.headed.setNextblock (block.lower units positive) rfl (by omega)).mNext (by omega)
  have excess : minus (block.bytes - mBlockSize) (mBlockSize * units) = (block.upper units spare).bytes := by
    rw [minus_eq (by omega) (by omega)]
    omega
  have upperUnits (memory : Memory) (mhnew prevblock : Nat) :
      mhNextblock (written memory mhnew prevblock (block.upper units spare).units false) mhnew =
        (block.upper units spare).units := by
    rw [mhNextblock, written, update_self]
    exact field_val (by rw [← Block.bytes]; omega)
  change mNext (setNextblock heap.memory mh (units + 1)) mh = _ at newPlace
  simp only [mallocSplit, size, excess, divided.mNext_eq, newPlace, split_written,
    mMkfield_plus (show mBlockSize * units + mBlockSize < addressSpace by omega)]
  rw [if_neg (by rw [Nat.mul_mod_right]; decide), if_neg (by omega), if_neg (by omega)]
  rw [mMkfield_bytes, upperUnits, ← cut, ← Nat.add_assoc]
  rfl

theorem mallocSplit_spec (positive : 1 ≤ units) (fits : units + 1 ≤ block.units) :
    ∃ memory' lower spare, mallocSplit heap mh (mBlockSize * units) = .ok { heap with memory := memory' } ∧
      { heap with memory := memory' }.Divided before mh (lower :: (spare ++ after)) ∧
      lower.inuse = block.inuse ∧ units + 1 ≤ lower.units ∧
      lower.bytes + extent Block.bytes spare = block.bytes ∧
      (spare = [] ∨ ∃ upper : Block, spare = [upper] ∧ upper.inuse = false) := by
  rcases Nat.lt_or_ge block.units (units + 3) with small | large
  · exact ⟨heap.memory, block, [], mallocSplit_small divided fits small, divided, rfl, fits, rfl, .inl rfl⟩
  · have cut := Block.cut_bytes positive large
    refine ⟨_, block.lower units positive, [block.upper units large], mallocSplit_large divided positive large,
      cutMemory_divided divided rfl rfl cut, rfl, Nat.le_refl _, ?_, .inr ⟨_, rfl, rfl⟩⟩
    rw [Tiling.extent_cons, Tiling.extent_nil, Nat.add_zero, cut]

end

theorem Heap.Tiled.extend (tiled : heap.Tiled blocks) (block : Block)
    (bound : heap.heaptop + block.bytes < addressSpace) :
    { heap with
      memory := written heap.memory heap.heaptop (below 0 blocks) block.units block.inuse
      heaptop := heap.heaptop + block.bytes
      brk := heap.heaptop + block.bytes }.Tiled (blocks ++ [block]) := by
  obtain ⟨aligned, positive, top, -, -, headers⟩ := tiled
  refine ⟨aligned, positive, ?_, bound, rfl, ?_⟩
  · rw [Tiling.extent_append, Tiling.extent_cons, Tiling.extent_nil, Nat.add_zero, ← Nat.add_assoc, ← top]
  · rw [holds_append, ← top]
    refine ⟨headers.congr fun word _ high => written_other (by omega) (by omega), written_headed ?_ (by omega), trivial⟩
    exact below_small (by decide) (by omega)

theorem deadbeefWords_other {x words} (fits : x + 4 * words ≤ addressSpace)
    (far : word < x ∨ x + 4 * words ≤ word) : deadbeefWords memory x words word = memory word := by
  induction words with
  | zero => rfl
  | succ words again =>
    rw [deadbeefWords, plus_eq (by omega), update_of_ne (by omega)]
    exact again (by omega) (by omega)

theorem mallocDeadbeef_other {ptr} (fits : ptr + size ≤ addressSpace)
    (far : word < ptr ∨ ptr + size ≤ word) : mallocDeadbeef memory ptr size word = memory word := by
  exact deadbeefWords_other (by omega) (by omega)

/-- Memory after the join: the header of the whole block, the link above it, and the old header
wiped. -/
def joinMemory (heap : Heap) (mh : Nat) (block above : Block) : Memory :=
  let memory := setNextblock heap.memory mh (block.joined above).units
  let mhnextnext := mh + block.bytes + above.bytes
  mallocDeadbeef
    (if mhnextnext ≠ heap.heaptop then setPrevblock memory mhnextnext (block.joined above).units else memory)
    (mh + block.bytes) sizeofMheader

variable (divided : heap.Divided before mh (block :: above :: after))
include divided

theorem joinMemory_divided (free : block.inuse = false) :
    { heap with memory := joinMemory heap mh block above }.Divided before mh (block.joined above :: after) := by
  have bound := divided.next.bound
  have room := block.bytes_pos
  have aboveRoom := above.bytes_pos
  have joined : (block.joined above).bytes = block.bytes + above.bytes := Nat.mul_add ..
  rw [mBlockSize] at room aboveRoom
  have size : extent Block.bytes [block, above] = block.bytes + above.bytes := by simp
  have kept : ∀ {memory : Memory} {word : Nat}, word < mh + block.bytes ∨ mh + block.bytes + 8 ≤ word →
      mallocDeadbeef memory (mh + block.bytes) sizeofMheader word = memory word :=
    fun far => mallocDeadbeef_other (by rw [sizeofMheader]; omega) far
  refine Heap.Divided.relay [block, above] [block.joined above] divided ?_ ?_ ?_ ⟨?_, trivial⟩
  · simp [joined]
  · intro word far
    rw [joinMemory, kept (by omega), linked_other (by omega)]
    exact update_of_ne (by omega) ..
  · intro nonempty
    rw [size, ← Nat.add_assoc, joinMemory, kept (by omega), linked_above divided.next.next.eq_top nonempty]
    rw [setNextblock, update_of_ne (by omega)]
    rfl
  · refine (divided.headed.setNextblock (block.joined above) free.symm (by omega)).congr ?_ ?_ <;>
    · rw [joinMemory, kept (by omega), linked_other (by omega)]

theorem mallocTrymerge_free (free : block.inuse = false) (aboveFree : above.inuse = false) :
    mallocTrymerge heap mh (mh + block.bytes) = .ok { heap with memory := joinMemory heap mh block above } := by
  have headed := divided.headed
  have nextHeaded := divided.next.headed
  have bound := divided.next.bound
  have room := block.bytes_pos
  have aboveRoom := above.bytes_pos
  have joined : (block.joined above).bytes = block.bytes + above.bytes := Nat.mul_add ..
  have total : plus (plus (plus mBlockSize (block.bytes - mBlockSize)) mBlockSize) (above.bytes - mBlockSize) =
      (block.joined above).bytes := by
    have lower : plus mBlockSize (block.bytes - mBlockSize) = block.bytes := by
      rw [plus_eq (by omega)]
      omega
    rw [lower, plus_eq (a := block.bytes) (b := mBlockSize) (by omega), plus_eq (by omega), joined]
    omega
  have whole : mhNextblock (setNextblock heap.memory mh (block.joined above).units) mh = (block.joined above).units :=
    (headed.setNextblock (block.joined above) free.symm (by omega)).nextblock
  simp only [mallocTrymerge, divided.next.mNext_eq, divided.mSize_eq, divided.next.mSize_eq, total, mMkfield_bytes, whole]
  rw [headed.nextblock, nextHeaded.prevblock, below_append, headed.inuse, nextHeaded.inuse, free, aboveFree,
    if_neg (by simp [below]), if_neg (by decide)]
  rfl

theorem mallocTrymerge_used
    (used : (block.inuse || above.inuse) = true) : mallocTrymerge heap mh (mh + block.bytes) = .ok heap := by
  have headed := divided.headed
  have nextHeaded := divided.next.headed
  rw [mallocTrymerge, headed.nextblock, nextHeaded.prevblock, below_append, headed.inuse, nextHeaded.inuse,
    if_neg (by simp [below]), if_pos (by simpa using used)]

end Os161.Malloc
