import Os161.Coremap
import Os161.Lib.Runs
import Mathlib.Data.List.Pairwise

/-! Frame conservation holds as long as every freed block starts at the first frame: the loop of `cm_freekpages`
stops at the length of the block, not at its end. -/

namespace Os161.Vm.Frames
open Runs List Option

theorem setFree_getElem? (flag : Bool) (entries : List CmEntry) (start count i : Nat) :
    (setFree flag entries start count)[i]? =
      entries[i]?.map fun entry => if start ≤ i ∧ i < start + count then { entry with free := flag } else entry := by
  induction count generalizing entries start with
  | zero =>
    have outside : ¬ (start ≤ i ∧ i < start + 0) := by omega
    simp only [outside, ite_false]
    simp [setFree]
  | succ count ih =>
    have unfolded : setFree flag entries start (count + 1) =
        setFree flag (entries.modify start fun entry => { entry with free := flag }) (start + 1) count := by
      simp [setFree, List.range'_succ]
    rw [unfolded, ih, List.getElem?_modify]
    cases entries[i]? with
    | none => rfl
    | some entry =>
      simp only [Option.map_eq_map, Option.map_some, Option.some.injEq]
      by_cases first : start = i
      · subst first
        simp
      · by_cases inside : start + 1 ≤ i ∧ i < start + 1 + count
        · have wide : start ≤ i ∧ i < start + (count + 1) := by omega
          simp only [if_neg first, if_pos inside, if_pos wide]
        · have wide : ¬ (start ≤ i ∧ i < start + (count + 1)) := by omega
          simp only [if_neg first, if_neg inside, if_neg wide]

theorem setFree_length (flag : Bool) (entries : List CmEntry) (start count : Nat) :
    (setFree flag entries start count).length = entries.length := by
  induction count generalizing entries start with
  | zero => rfl
  | succ count ih =>
    have unfolded : setFree flag entries start (count + 1) =
        setFree flag (entries.modify start fun entry => { entry with free := flag }) (start + 1) count := by
      simp [setFree, List.range'_succ]
    rw [unfolded, ih, length_modify]

/-- Through the search the current run of free entries ends just below `i` and began at `blockStart`. -/
private theorem findBlock_found (all : List CmEntry) (npages : Int) {start last} (entries : List CmEntry) :
    ∀ i blockStart freeCount, all.drop i = entries → freeCount ≤ i → (0 < freeCount → blockStart = i - freeCount) →
      (∀ j, i - freeCount ≤ j → j < i → ∃ entry, all[j]? = some entry ∧ entry.free = true) →
      findBlock npages entries i blockStart freeCount = some (start, last) →
      (start : Int) + npages = last + 1 ∧ start ≤ last ∧
        ∀ j, start ≤ j → j ≤ last → ∃ entry, all[j]? = some entry ∧ entry.free = true := by
  induction entries with
  | nil =>
    intro i blockStart freeCount _ _ _ _ found
    cases found
  | cons entry rest ih =>
    intro i blockStart freeCount shape bound origin free found
    have here : all[i]? = some entry := by
      have := congrArg (·[0]?) shape
      simpa using this
    have tail : all.drop (i + 1) = rest := by
      rw [← drop_drop, shape]
      rfl
    simp only [findBlock] at found
    split at found
    next isFree =>
      have extended : ∀ j, i + 1 - (freeCount + 1) ≤ j → j < i + 1 →
          ∃ entry, all[j]? = some entry ∧ entry.free = true := by
        intro j low high
        by_cases last : j = i
        · subst last
          exact ⟨entry, here, isFree⟩
        · exact free j (by omega) (by omega)
      have began : (if freeCount + 1 = 1 then i else blockStart) = i + 1 - (freeCount + 1) := by
        split
        · omega
        · omega
      split at found
      next enough =>
        cases found
        refine ⟨by omega, by omega, ?_⟩
        intro j low high
        exact extended j (by omega) (by omega)
      next =>
        exact ih (i + 1) _ (freeCount + 1) tail (by omega) (fun _ => began) extended found
    next =>
      exact ih (i + 1) blockStart 0 tail (by omega) (fun impossible => absurd impossible (by omega))
        (fun j low high => absurd high (by omega)) found

def System.Used (system : System) (i : Nat) : Prop :=
  ∃ entry, system.cm.coremap[i]? = some entry ∧ entry.free = false

def Apart (first second : Block) : Prop := ∀ i, ¬ (first.Covers i ∧ second.Covers i)

/-- The frames in use are the disjoint union of the blocks callers hold. -/
structure Conserved (system : System) : Prop where
  exact_ : ∀ i, system.Used i ↔ ∃ block ∈ system.live, block.Covers i
  disjoint : system.live.Pairwise Apart

/-- A freed block becomes free frame by frame, nothing else does, and a new block meets none that is held. -/
def Faithful (system : System) : Call → Prop
  | .getppages npages => ∀ next, step system (.getppages npages) = some next →
    next.live = system.live ∨ ∃ block : Block, next.live = block :: system.live ∧ block.length = npages ∧
      ∀ held ∈ system.live, Apart block held
  | .freekpages block => ∀ next, step system (.freekpages block) = some next →
    ∀ i, next.Used i ↔ system.Used i ∧ ¬ block.Covers i

def FreesFirst (_ : System) : Call → Prop
  | .getppages _ => True
  | .freekpages block => block.start = 0

/-- The bookkeeping behind conservation: the first entry of every block that is held
stores its length. -/
structure Sound (system : System) : Prop extends Coremap.Laid system.cm where
  sized : ∀ block ∈ system.live, 0 < block.length ∧
    ∃ entry, system.cm.coremap[block.start]? = some entry ∧ entry.length = block.length
  conserved : Conserved system

/-- What every call keeps: frames of blocks that are held are in use and in no other block. -/
structure Held (system : System) : Prop extends Coremap.Laid system.cm where
  sized : ∀ block ∈ system.live, 0 < block.length ∧
    ∃ entry, system.cm.coremap[block.start]? = some entry ∧ entry.length = block.length
  used : ∀ block ∈ system.live, ∀ i, block.Covers i → system.Used i
  disjoint : system.live.Pairwise Apart

def Block.Spans (block : Block) (freepaddr paddr : Nat) : Prop :=
  freepaddr + block.start * pageSize ≤ paddr ∧ paddr < freepaddr + (block.start + block.length) * pageSize

theorem Apart.not_spans {first second} (apart : Apart first second) {freepaddr paddr}
    (one : first.Spans freepaddr paddr) : ¬ second.Spans freepaddr paddr := by
  intro other
  apply apart ((paddr - freepaddr) / pageSize)
  simp only [Block.Spans, Block.Covers, pageSize] at *
  omega

theorem Sound.held {system} (sound : Sound system) : Held system :=
  ⟨sound.toLaid, sound.sized, fun block member i covered => (sound.conserved.exact_ i).mpr ⟨block, member, covered⟩,
    sound.conserved.disjoint⟩

theorem freshEntry_getElem? {base count i entry}
    (found : ((List.range count).map (freshEntry base))[i]? = some entry) : entry = freshEntry base i := by
  simp only [List.getElem?_map, map_eq_some_iff] at found
  obtain ⟨j, inside, rfl⟩ := found
  have same := (List.getElem?_eq_some_iff.mp inside).2
  simp only [getElem_range] at same
  rw [same]

theorem laid_of_entries {cm next : Coremap} (laid : cm.Laid) {update : Nat → CmEntry → CmEntry}
    (base : next.freepaddr = cm.freepaddr) (size : next.cmEnd = cm.cmEnd)
    (entries : ∀ j, next.coremap[j]? = cm.coremap[j]?.map (update j))
    (address : ∀ j entry, (update j entry).pAddr = entry.pAddr) : next.Laid := by
  refine ⟨?_, base ▸ laid.positive, base ▸ laid.aligned, ?_⟩
  · intro i entry found
    rw [entries i] at found
    obtain ⟨old, here, rfl⟩ := map_eq_some_iff.mp found
    rw [address, laid.address i old here, Coremap.frame, Coremap.frame, base]
  · rw [Coremap.frame, base, size]
    exact laid.fits

theorem boot_sound {ram system} (booted : boot ram = some system) : Sound system := by
  have bounded := ram.bounded
  simp only [boot, cmBootstrap] at booted
  split at booted
  · cases booted
  · split at booted
    · cases booted
    next aligned room =>
      simp only [map_some, Option.some.injEq] at booted
      subst booted
      refine ⟨⟨fun i entry found => ?_, ?_, ?_, ?_⟩, by simp, ⟨fun i => ⟨?_, by simp⟩, List.Pairwise.nil⟩⟩
      · rw [freshEntry_getElem? found]
        rfl
      · simp only [pageSize, not_or, not_not] at aligned
        simp only [roundup, pageSize, sizeofCmEntry] at room ⊢
        omega
      · simp only [pageSize, not_or, not_not] at aligned
        simp only [roundup, pageSize]
        omega
      · simp only [Coremap.frame, Coremap.cmEnd, length_map, length_range, roundup, pageSize,
          sizeofCmEntry] at room ⊢
        omega
      · rintro ⟨entry, found, used⟩
        rw [freshEntry_getElem? found] at used
        cases used

def occupied (start npages j : Nat) (entry : CmEntry) : CmEntry :=
  { entry with
    free := if start ≤ j ∧ j < start + npages then false else entry.free
    length := if start = j then npages else entry.length }

/-- Allocation marks the found entries, which were all free, and records the
length in the first of them. -/
theorem getppages_found {cm} {npages : Nat} {start last}
    (found : findBlock npages cm.coremap 0 0 0 = some (start, last)) :
    start + npages = last + 1 ∧ 0 < npages ∧
    (∀ j, start ≤ j → j < start + npages → ∃ entry, cm.coremap[j]? = some entry ∧ entry.free = true) ∧
    ∀ j, (cmGetppages cm npages).2.coremap[j]? = cm.coremap[j]?.map (occupied start npages j) := by
  obtain ⟨size, order, free⟩ := findBlock_found cm.coremap npages cm.coremap 0 0 0 rfl (Nat.le_refl 0)
    (fun impossible => absurd impossible (by omega)) (fun j _ high => absurd high (by omega)) found
  refine ⟨by omega, by omega, fun j low high => free j low (by omega), fun j => ?_⟩
  have count : last + 1 - start = npages := by omega
  simp only [cmGetppages, found, setFree_getElem?, List.getElem?_modify, count]
  cases cm.coremap[j]? with
  | none => rfl
  | some entry =>
    simp only [Option.map_eq_map, Option.map_some, Option.some.injEq, occupied]
    by_cases inside : start ≤ j ∧ j < start + npages
    · simp only [if_pos inside]
      split <;> rfl
    · simp only [if_neg inside]
      split <;> rfl

theorem getppages_address {cm} (laid : cm.Laid) {npages start last : Nat}
    (found : findBlock npages cm.coremap 0 0 0 = some (start, last)) :
    (cmGetppages cm npages).1 = cm.frame start := by
  obtain ⟨size, positive, free, entries⟩ := getppages_found found
  obtain ⟨entry, here, _⟩ := free start (Nat.le_refl _) (by omega)
  have updated := entries start
  rw [here] at updated
  simp only [cmGetppages, found] at updated ⊢
  rw [updated]
  exact laid.address start entry here

theorem frame_index (cm : Coremap) (i : Nat) : (cm.frame i - cm.freepaddr) / pageSize = i := by
  simp only [Coremap.frame, Nat.add_sub_cancel_left]
  exact Nat.mul_div_cancel i (by decide)

theorem step_getppages {system next} (laid : system.cm.Laid) {npages : Nat}
    (taken : step system (.getppages npages) = some next) :
    next = system ∨
    ∃ start, next.live = ⟨start, npages⟩ :: system.live ∧ 0 < npages ∧
      next.cm.freepaddr = system.cm.freepaddr ∧ next.cm.cmEnd = system.cm.cmEnd ∧
      (∀ j, start ≤ j → j < start + npages → ∃ entry, system.cm.coremap[j]? = some entry ∧ entry.free = true) ∧
      ∀ j, next.cm.coremap[j]? = system.cm.coremap[j]?.map (occupied start npages j) := by
  simp only [step] at taken
  split at taken
  · cases taken
  · cases found : findBlock npages system.cm.coremap 0 0 0 with
    | none =>
      left
      simpa [cmGetppages, found] using taken.symm
    | some block =>
      obtain ⟨start, last⟩ := block
      right
      obtain ⟨_, positive, free, entries⟩ := getppages_found found
      have address := getppages_address laid found
      have base : (cmGetppages system.cm npages).2.freepaddr = system.cm.freepaddr := by
        simp [cmGetppages, found]
      have size : (cmGetppages system.cm npages).2.cmEnd = system.cm.cmEnd := by
        simp [cmGetppages, found, Coremap.cmEnd, setFree_length]
      have nonzero : system.cm.frame start ≠ 0 := by
        have := laid.positive
        simp only [Coremap.frame]
        omega
      rw [if_neg (by rw [address]; exact nonzero)] at taken
      cases taken
      refine ⟨start, ?_, positive, base, size, free, entries⟩
      rw [address, base, frame_index]

private theorem used_occupied {system next : System} {start npages}
    (entries : ∀ j, next.cm.coremap[j]? = system.cm.coremap[j]?.map (occupied start npages j))
    (free : ∀ j, start ≤ j → j < start + npages → ∃ entry, system.cm.coremap[j]? = some entry ∧ entry.free = true)
    (i : Nat) : next.Used i ↔ (start ≤ i ∧ i < start + npages) ∨ system.Used i := by
  simp only [System.Used, entries i]
  constructor
  · rintro ⟨entry, found, used⟩
    obtain ⟨old, here, rfl⟩ := map_eq_some_iff.mp found
    by_cases inside : start ≤ i ∧ i < start + npages
    · exact .inl inside
    · exact .inr ⟨old, here, by simpa only [occupied, if_neg inside] using used⟩
  · rintro (inside | ⟨entry, here, used⟩)
    · obtain ⟨entry, here, _⟩ := free i inside.1 inside.2
      exact ⟨occupied start npages i entry, by rw [here]; rfl, by simp only [occupied, if_pos inside]⟩
    · refine ⟨occupied start npages i entry, by rw [here]; rfl, ?_⟩
      simp only [occupied]
      split
      · rfl
      · exact used

private theorem apart_of_free {system} (held : Held system) {start npages}
    (free : ∀ j, start ≤ j → j < start + npages → ∃ entry, system.cm.coremap[j]? = some entry ∧ entry.free = true)
    {other} (member : other ∈ system.live) : Apart ⟨start, npages⟩ other := by
  rintro i ⟨inside, covered⟩
  obtain ⟨entry, here, isFree⟩ := free i inside.1 inside.2
  obtain ⟨entry', found, used⟩ := held.used other member i covered
  rw [here] at found
  cases found
  rw [isFree] at used
  cases used

theorem getppages_held {system next : System} (held : Held system) {npages : Nat}
    (taken : step system (.getppages npages) = some next) : Held next := by
  obtain rfl | ⟨start, live, positive, base, size, free, entries⟩ := step_getppages held.toLaid taken
  · exact held
  have apart (other : Block) (member : other ∈ system.live) : Apart ⟨start, npages⟩ other :=
    apart_of_free held free member
  refine ⟨laid_of_entries held.toLaid base size entries fun _ _ => rfl, ?_, ?_, ?_⟩
  · intro block member
    rw [live] at member
    rcases mem_cons.mp member with rfl | old
    · obtain ⟨entry, here, _⟩ := free start (Nat.le_refl _) (by omega)
      exact ⟨positive, occupied start npages start entry, by rw [entries, here]; rfl, by simp [occupied]⟩
    · obtain ⟨nonempty, entry, here, length⟩ := held.sized block old
      have different : start ≠ block.start := by
        rintro rfl
        exact apart block old block.start ⟨⟨Nat.le_refl _, by simp; omega⟩, ⟨Nat.le_refl _, by omega⟩⟩
      refine ⟨nonempty, occupied start npages block.start entry, by rw [entries, here]; rfl, ?_⟩
      simpa only [occupied, if_neg different] using length
  · intro block member i covered
    rw [live] at member
    rw [used_occupied entries free i]
    rcases mem_cons.mp member with rfl | old
    · exact .inl covered
    · exact .inr (held.used block old i covered)
  · rw [live]
    exact List.Pairwise.cons apart held.disjoint

theorem getppages_sound {system next : System} (sound : Sound system) {npages}
    (taken : step system (.getppages npages) = some next) : Sound next := by
  have after := getppages_held sound.held taken
  obtain rfl | ⟨start, live, positive, base, size, free, entries⟩ := step_getppages sound.toLaid taken
  · exact sound
  refine ⟨after.toLaid, after.sized, fun i => ?_, after.disjoint⟩
  rw [used_occupied entries free i, sound.conserved.exact_ i, live]
  simp [Block.Covers]

theorem kvaddr_index {cm : Coremap} (laid : cm.Laid) {i} (inside : i < cm.cmEnd) :
    (kvaddrToPaddr (paddrToKvaddr (cm.frame i)) + word - cm.freepaddr) % word / pageSize = i := by
  have fits := laid.fits
  have recovered : kvaddrToPaddr (paddrToKvaddr (cm.frame i)) = cm.frame i := by
    simp only [kvaddrToPaddr, paddrToKvaddr, Coremap.frame, word, mipsKseg0, pageSize] at fits ⊢
    omega
  rw [recovered]
  simp only [Coremap.frame, word, pageSize] at fits ⊢
  omega

def released (block : Block) (j : Nat) (entry : CmEntry) : CmEntry :=
  { entry with
    free := if block.start ≤ j ∧ j < block.length then true else entry.free
    length := if block.start = j then 0 else entry.length }

/-- `cm_freekpages` frees the indices of the block that are below its length. -/
theorem step_freekpages {system next : System} (held : Held system) {block}
    (taken : step system (.freekpages block) = some next) :
    block ∈ system.live ∧ next.live = system.live.erase block ∧
      next.cm.freepaddr = system.cm.freepaddr ∧ next.cm.cmEnd = system.cm.cmEnd ∧
      ∀ j, next.cm.coremap[j]? = system.cm.coremap[j]?.map (released block j) := by
  simp only [step] at taken
  split at taken
  next member =>
    obtain ⟨nonempty, entry, here, length⟩ := held.sized block member
    have inside : block.start < system.cm.cmEnd := (List.getElem?_eq_some_iff.mp here).1
    have positive : ¬ entry.length ≤ 0 := by omega
    simp only [cmFreekpages, kvaddr_index held.toLaid inside, here, if_neg positive, map_some,
      Option.some.injEq] at taken
    subst taken
    refine ⟨member, rfl, rfl, by simp [Coremap.cmEnd, setFree_length], fun j => ?_⟩
    have count : entry.length.toNat = block.length := by omega
    rw [List.getElem?_modify, setFree_getElem?, count]
    cases system.cm.coremap[j]? with
    | none => rfl
    | some entry =>
      have range : (block.start ≤ j ∧ j < block.start + (block.length - block.start)) ↔
          (block.start ≤ j ∧ j < block.length) := by omega
      simp only [Option.map_eq_map, Option.map_some, Option.some.injEq, released, range]
      by_cases covered : block.start ≤ j ∧ j < block.length
      · split <;> rfl
      · split <;> rfl
  next => cases taken

theorem freekpages_passes {system : System} (held : Held system) {block} (member : block ∈ system.live) :
    ∃ cm, cmFreekpages system.cm (paddrToKvaddr (system.cm.frame block.start)) = some cm ∧
      step system (.freekpages block) = some ⟨cm, system.live.erase block⟩ := by
  obtain ⟨nonempty, entry, here, length⟩ := held.sized block member
  have inside : block.start < system.cm.cmEnd := (List.getElem?_eq_some_iff.mp here).1
  have positive : ¬ entry.length ≤ 0 := by omega
  have freed : ∃ cm, cmFreekpages system.cm (paddrToKvaddr (system.cm.frame block.start)) = some cm := by
    simp only [cmFreekpages, kvaddr_index held.toLaid inside, here, if_neg positive]
    exact ⟨_, rfl⟩
  obtain ⟨cm, freed⟩ := freed
  refine ⟨cm, freed, ?_⟩
  simp only [step, if_pos member, freed, map_some]

private theorem used_released {system next : System} {block}
    (entries : ∀ j, next.cm.coremap[j]? = system.cm.coremap[j]?.map (released block j)) (i : Nat) :
    next.Used i ↔ system.Used i ∧ ¬ (block.start ≤ i ∧ i < block.length) := by
  simp only [System.Used, entries i]
  constructor
  · rintro ⟨entry, found, used⟩
    obtain ⟨old, here, rfl⟩ := map_eq_some_iff.mp found
    simp only [released] at used
    split at used
    · cases used
    next outside => exact ⟨⟨old, here, used⟩, outside⟩
  · rintro ⟨⟨entry, here, used⟩, outside⟩
    exact ⟨released block i entry, by rw [here]; rfl, by simpa only [released, if_neg outside] using used⟩

theorem Held.nodup {system} (held : Held system) : system.live.Nodup := by
  refine List.Pairwise.imp_of_mem ?_ held.disjoint
  rintro first second member _ apart rfl
  have nonempty := (held.sized first member).1
  exact apart first.start ⟨⟨Nat.le_refl _, by omega⟩, ⟨Nat.le_refl _, by omega⟩⟩

theorem Held.covers_unique {system} (held : Held system) {first second i}
    (left : first ∈ system.live) (right : second ∈ system.live)
    (inFirst : first.Covers i) (inSecond : second.Covers i) : first = second := by
  by_contra different
  have symmetric : Std.Symm Apart := ⟨fun a b apart i both => apart i both.symm⟩
  exact held.disjoint.forall left right different i ⟨inFirst, inSecond⟩

theorem freekpages_held {system next : System} (held : Held system) {block : Block}
    (taken : step system (.freekpages block) = some next) : Held next := by
  obtain ⟨member, live, base, size, entries⟩ := step_freekpages held taken
  have stays (other : Block) : other ∈ next.live ↔ other ≠ block ∧ other ∈ system.live := by
    rw [live, held.nodup.mem_erase_iff]
  refine ⟨laid_of_entries held.toLaid base size entries fun _ _ => rfl, ?_, ?_, ?_⟩
  · intro other still
    obtain ⟨different, old⟩ := (stays other).mp still
    obtain ⟨nonempty, entry, here, length⟩ := held.sized other old
    have apart : block.start ≠ other.start := by
      intro same
      have positive := (held.sized block member).1
      exact different (held.covers_unique old member ⟨Nat.le_refl _, by omega⟩ ⟨by omega, by omega⟩)
    exact ⟨nonempty, released block other.start entry, by rw [entries, here]; rfl,
      by simpa only [released, if_neg apart] using length⟩
  · intro other still i covered
    obtain ⟨different, old⟩ := (stays other).mp still
    rw [used_released entries i]
    refine ⟨held.used other old i covered, fun inside => different ?_⟩
    exact held.covers_unique old member covered ⟨inside.1, by omega⟩
  · rw [live]
    exact held.disjoint.sublist erase_sublist

theorem step_held {system next call} (held : Held system) (taken : step system call = some next) :
    Held next := by
  cases call with
  | getppages npages => exact getppages_held held taken
  | freekpages block => exact freekpages_held held taken

theorem Held.perm {cm live other} (held : Held ⟨cm, live⟩) (same : live.Perm other) :
    Held ⟨cm, other⟩ := by
  refine ⟨held.toLaid, fun block member => held.sized block (same.mem_iff.mpr member),
    fun block member => held.used block (same.mem_iff.mpr member), ?_⟩
  refine (same.pairwise_iff ?_).mp held.disjoint
  intro first second apart i both
  exact apart i both.symm

theorem step_append {cm live rest call next}
    (taken : step ⟨cm, live⟩ call = some next) :
    step ⟨cm, live ++ rest⟩ call = some ⟨next.cm, next.live ++ rest⟩ := by
  cases call with
  | getppages npages =>
    simp only [step] at taken ⊢
    split at taken
    · cases taken
    next nonempty =>
      rw [if_neg nonempty]
      split at taken
      next none =>
        cases taken
        rw [if_pos none]
      next found =>
        cases taken
        rw [if_neg found]
        rfl
  | freekpages block =>
    simp only [step] at taken ⊢
    split at taken
    next member =>
      obtain ⟨cm', freed, rfl⟩ := map_eq_some_iff.mp taken
      rw [if_pos (mem_append_left _ member), freed, erase_append_left _ member]
      rfl
    next => cases taken

theorem step_base {cm live rest} (held : Held ⟨cm, rest ++ live⟩) {call next} (taken : step ⟨cm, live⟩ call = some next) : next.cm.freepaddr = cm.freepaddr := by
  have before : Held ⟨cm, live ++ rest⟩ := held.perm perm_append_comm
  have taken' := @step_append cm live rest call next taken
  cases call with
  | getppages npages =>
    rcases step_getppages before.toLaid taken' with same | ⟨_, _, _, base, _⟩
    · exact congrArg (fun system : System => system.cm.freepaddr) same
    · exact base
  | freekpages block =>
    obtain ⟨_, _, base, _⟩ := step_freekpages before taken'
    exact base

theorem getppages_grants {cm live} (held : Held ⟨cm, live⟩) (npages : Nat) :
    ((cmGetppages cm npages).1 = 0 ∧ (cmGetppages cm npages).2 = cm) ∨
    ∃ start, (cmGetppages cm npages).1 = cm.frame start ∧ cm.frame start ≠ 0 ∧
      (cmGetppages cm npages).2.freepaddr = cm.freepaddr ∧
      Held ⟨(cmGetppages cm npages).2, ⟨start, npages⟩ :: live⟩ := by
  cases search : findBlock npages cm.coremap 0 0 0 with
  | none =>
    left
    simp [cmGetppages, search]
  | some block =>
    obtain ⟨start, last⟩ := block
    right
    have address := getppages_address held.toLaid search
    have base : (cmGetppages cm npages).2.freepaddr = cm.freepaddr := by simp [cmGetppages, search]
    have nonzero : cm.frame start ≠ 0 := by
      have positive : 0 < cm.freepaddr := held.positive
      simp only [Coremap.frame]
      omega
    have positive : npages ≠ 0 := by
      have := (getppages_found search).2.1
      omega
    have taken : step ⟨cm, live⟩ (.getppages npages) =
        some ⟨(cmGetppages cm npages).2, ⟨start, npages⟩ :: live⟩ := by
      simp only [step, if_neg positive, address, base, if_neg nonzero, frame_index]
    exact ⟨start, address, nonzero, base, getppages_held held taken⟩

theorem freekpages_sound {system next : System} (sound : Sound system) {block} (first : block.start = 0)
    (taken : step system (.freekpages block) = some next) : Sound next := by
  have after := freekpages_held sound.held taken
  obtain ⟨member, live, base, size, entries⟩ := step_freekpages sound.held taken
  refine ⟨after.toLaid, after.sized, fun i => ?_, after.disjoint⟩
  rw [used_released entries i, sound.conserved.exact_ i, live]
  constructor
  · rintro ⟨⟨other, old, covered⟩, outside⟩
    refine ⟨other, sound.held.nodup.mem_erase_iff.mpr ⟨?_, old⟩, covered⟩
    rintro rfl
    simp only [Block.Covers] at covered
    omega
  · rintro ⟨other, still, covered⟩
    obtain ⟨different, old⟩ := sound.held.nodup.mem_erase_iff.mp still
    refine ⟨⟨other, old, covered⟩, fun inside => different ?_⟩
    exact sound.held.covers_unique old member covered ⟨inside.1, by omega⟩

/-- The last frame of a block that starts higher stays marked, and no block that is
still held covers it. -/
theorem freekpages_exact {system next : System} (sound : Sound system) {block}
    (taken : step system (.freekpages block) = some next) (conserved : Conserved next) : block.start = 0 := by
  obtain ⟨member, live, _, _, entries⟩ := step_freekpages sound.held taken
  by_contra high
  have nonempty := (sound.sized block member).1
  have last : block.Covers (block.start + block.length - 1) := ⟨by omega, by omega⟩
  have used := (sound.conserved.exact_ _).mpr ⟨block, member, last⟩
  have stuck : next.Used (block.start + block.length - 1) := by
    refine (used_released entries _).mpr ⟨used, fun below => ?_⟩
    omega
  obtain ⟨other, still, covered⟩ := (conserved.exact_ _).mp stuck
  rw [live, sound.held.nodup.mem_erase_iff] at still
  exact still.1 (sound.held.covers_unique still.2 member covered last)

theorem step_sound {system next call} (sound : Sound system)
    (taken : step system call = some next) (first : FreesFirst system call) : Sound next := by
  cases call with
  | getppages npages => exact getppages_sound sound taken
  | freekpages block => exact freekpages_sound sound first taken

theorem faithful_of_conserved {system next : System} {call} (sound : Sound system)
    (taken : step system call = some next) (after : Sound next) : Faithful system call := by
  cases call with
  | getppages npages =>
    intro other again
    obtain rfl | ⟨start, live, _, _, _, free, _⟩ := step_getppages sound.toLaid again
    · exact .inl rfl
    · exact .inr ⟨⟨start, npages⟩, live, rfl, fun other member => apart_of_free sound.held free member⟩
  | freekpages block =>
    intro other again i
    cases taken.symm.trans again
    obtain ⟨member, live, _, _, entries⟩ := step_freekpages sound.held taken
    have first := freekpages_exact sound taken after.conserved
    rw [used_released entries i]
    simp [Block.Covers, first]

theorem conserved_iff_frees_first {ram system} (booted : boot ram = some system) (calls : List Call) :
    Always step Conserved system calls ↔ EachStep step FreesFirst system calls := by
  refine always_iff_steps (fun _ sound => sound.conserved) (fun _ _ _ sound taken first => step_sound sound taken first)
    ?_ (boot_sound booted)
  intro before call next sound taken conserved
  cases call with
  | getppages npages => trivial
  | freekpages block => exact freekpages_exact sound taken conserved

/-- A run conserves frames exactly when every block it frees starts at frame 0. -/
theorem frame_conservation (ram : Ram) (system : System) (booted : boot ram = some system) (calls : List Call) :
    (Always step Conserved system calls ∧ EachStep step Faithful system calls) ↔
      EachStep step FreesFirst system calls := by
  refine ⟨fun kept => (conserved_iff_frees_first booted calls).mp kept.1, fun first => ?_⟩
  refine ⟨(conserved_iff_frees_first booted calls).mpr first, ?_⟩
  have always : Always step Sound system calls :=
    always_of_steps (fun _ _ _ sound taken first => step_sound sound taken first) (boot_sound booted) first
  refine EachStep.of_always ?_ always
  intro before call next sound taken after
  exact faithful_of_conserved sound taken after

def sixPages : Ram := ⟨0, 6 * 4096, by decide, by decide⟩

theorem frame_conservation_six_pages :
    ∃ system, boot sixPages = some system ∧
      ((Always step Conserved system [.getppages 2, .getppages 1, .freekpages ⟨0, 2⟩] ∧
          EachStep step Faithful system [.getppages 2, .getppages 1, .freekpages ⟨0, 2⟩]) ↔
        EachStep step FreesFirst system [.getppages 2, .getppages 1, .freekpages ⟨0, 2⟩]) :=
  ⟨_, rfl, frame_conservation sixPages _ rfl _⟩

/-- Two one-page blocks: freeing the second one frees nothing. -/
theorem second_block_never_freed :
    ∃ system final, boot sixPages = some system ∧
      run step system [.getppages 1, .getppages 1, .freekpages ⟨1, 1⟩] = some final ∧ ¬ Conserved final := by
  have computed : ((boot sixPages).bind (run step · [.getppages 1, .getppages 1, .freekpages ⟨1, 1⟩])).map
      (fun final => (final.live, final.cm.coremap.map CmEntry.free)) =
        some ([⟨0, 1⟩], [false, false, true, true, true]) := by decide
  obtain ⟨final, reached, seen⟩ := map_eq_some_iff.mp computed
  obtain ⟨system, booted, reached⟩ := bind_eq_some_iff.mp reached
  obtain ⟨live, flags⟩ := Prod.mk.inj seen
  refine ⟨system, final, booted, reached, fun conserved => ?_⟩
  have marked : (final.cm.coremap.map CmEntry.free)[1]? = some false := by rw [flags]; rfl
  rw [List.getElem?_map, map_eq_some_iff] at marked
  obtain ⟨block, held, covered⟩ := (conserved.exact_ 1).mp marked
  simp only [live, mem_singleton] at held
  subst held
  exact absurd covered (by decide)

end Os161.Vm.Frames
