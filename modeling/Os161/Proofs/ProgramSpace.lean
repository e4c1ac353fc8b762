import Os161.Proofs.LoadOutcome

/-! The address space a program is started in: its pages lie in different frames, and it
is too small for a string of 2^31 bytes. Which segments its regions cover. -/

namespace Os161.Vm
open Frames List

def Coremap.Free (cm : Coremap) (j : Nat) : Prop := ∃ entry, cm.coremap[j]? = some entry ∧ entry.free = true

/-- A block that was handed out: its frames were free and are not free any more. -/
structure Handed (cm : Coremap) (npages start : Nat) : Prop where
  nonempty : 0 < npages
  inside : start + npages ≤ cm.cmEnd
  address : (cmGetppages cm npages).1 = cm.frame start
  free : ∀ j, start ≤ j → j < start + npages → cm.Free j
  taken : ∀ j, (cmGetppages cm npages).2.Free j → cm.Free j ∧ ¬ (start ≤ j ∧ j < start + npages)
  laid : (cmGetppages cm npages).2.Laid
  base : (cmGetppages cm npages).2.freepaddr = cm.freepaddr
  size : (cmGetppages cm npages).2.cmEnd = cm.cmEnd

theorem handed_of_found {cm} (laid : cm.Laid) {npages : Nat} (found : (cmGetppages cm npages).1 ≠ 0) :
    ∃ start, Handed cm npages start := by
  cases search : findBlock npages cm.coremap 0 0 0 with
  | none => exact absurd (by rw [cmGetppages, search]) found
  | some block =>
    obtain ⟨start, last⟩ := block
    obtain ⟨_, positive, free, entries⟩ := getppages_found search
    have base : (cmGetppages cm npages).2.freepaddr = cm.freepaddr := by simp [cmGetppages, search]
    have size : (cmGetppages cm npages).2.cmEnd = cm.cmEnd := by
      simp [cmGetppages, search, Coremap.cmEnd, setFree_length]
    have inside : start + npages ≤ cm.cmEnd := by
      obtain ⟨entry, here, _⟩ := free (start + npages - 1) (by omega) (by omega)
      have bound := (List.getElem?_eq_some_iff.mp here).1
      simp only [Coremap.cmEnd]
      omega
    refine ⟨start, positive, inside, getppages_address laid search, free, ?_,
      laid_of_entries laid base size entries fun _ _ => rfl, base, size⟩
    rintro j ⟨entry, here, isFree⟩
    rw [entries j] at here
    obtain ⟨old, before, rfl⟩ := Option.map_eq_some_iff.mp here
    by_cases covered : start ≤ j ∧ j < start + npages
    · simp only [occupied, if_pos covered] at isFree
      cases isFree
    · simp only [occupied, if_neg covered] at isFree
      exact ⟨⟨old, before, isFree⟩, covered⟩

theorem blocks_apart {first second firstLength secondLength} (left : 0 < firstLength) (right : 0 < secondLength)
    (apart : ∀ j, first ≤ j → j < first + firstLength → ¬ (second ≤ j ∧ j < second + secondLength)) :
    first + firstLength ≤ second ∨ second + secondLength ≤ first := by
  by_contra meet
  have common := apart (max first second) (by omega) (by omega)
  omega

structure Placed (as : AddrSpace) (base start1 start2 start3 : Nat) : Prop where
  pbase1 : as.pbase1 = base + start1 * pageSize
  pbase2 : as.pbase2 = base + start2 * pageSize
  stackpbase : as.stackpbase = base + start3 * pageSize
  apart12 : start1 + as.npages1 ≤ start2 ∨ start2 + as.npages2 ≤ start1
  apart13 : start1 + as.npages1 ≤ start3 ∨ start3 + dumbvmStackpages ≤ start1
  apart23 : start2 + as.npages2 ≤ start3 ∨ start3 + dumbvmStackpages ≤ start2
  small1 : as.npages1 * pageSize ≤ 508 * 1024 * 1024
  small2 : as.npages2 * pageSize ≤ 508 * 1024 * 1024

theorem placed_of_prepared {cm table as} (laid : cm.Laid) (found : prepared cm table = some as) :
    ∃ start1 start2 start3, Placed as cm.freepaddr start1 start2 start3 := by
  simp only [prepared] at found
  split at found
  · cases found
  next all =>
    simp only [not_or] at all
    obtain ⟨one, two, three⟩ := all
    cases found
    obtain ⟨start1, first⟩ := handed_of_found laid one
    obtain ⟨start2, second⟩ := handed_of_found first.laid two
    obtain ⟨start3, third⟩ := handed_of_found second.laid three
    have room := laid.fits
    have inside1 := first.inside
    have inside2 := second.inside
    rw [first.size] at inside2
    simp only [Coremap.frame, pageSize] at room
    refine ⟨start1, start2, start3, first.address, ?_, ?_, ?_, ?_, ?_, ?_, ?_⟩
    · rw [second.address, Coremap.frame, first.base]
    · rw [third.address, Coremap.frame, second.base, first.base]
    · apply (blocks_apart second.nonempty first.nonempty _).symm
      intro j low high
      exact (first.taken j (second.free j low high)).2
    · apply (blocks_apart third.nonempty first.nonempty _).symm
      intro j low high
      exact (first.taken j (second.taken j (third.free j low high)).1).2
    · apply (blocks_apart third.nonempty second.nonempty _).symm
      intro j low high
      exact (second.taken j (third.free j low high)).2
    · simp only [pageSize]
      omega
    · simp only [pageSize]
      omega

structure Program (as : AddrSpace) : Prop where
  ready : as.Ready
  separate : as.Separate
  small1 : as.npages1 * pageSize ≤ 508 * 1024 * 1024
  small2 : as.npages2 * pageSize ≤ 508 * 1024 * 1024

section Translate

variable {as : AddrSpace} {vaddr paddr : Nat}

theorem translate_region (ready : as.Ready) (mapped : as.translate vaddr = some paddr) :
    (as.vbase1 ≤ vaddr ∧ vaddr < as.vbase1 + as.npages1 * pageSize ∧ paddr = vaddr - as.vbase1 + as.pbase1) ∨
    (as.vbase2 ≤ vaddr ∧ vaddr < as.vbase2 + as.npages2 * pageSize ∧ paddr = vaddr - as.vbase2 + as.pbase2) ∨
    (stackBase ≤ vaddr ∧ vaddr < userStack ∧ paddr = vaddr - stackBase + as.stackpbase) := by
  obtain ⟨_, aligned1, _, aligned2, _, _⟩ := ready
  obtain ⟨page, found, rfl⟩ := Option.map_eq_some_iff.mp mapped
  rcases frame_cases found with one | two | three
  · left
    simp only [pageFrame, pageSize, word] at *
    omega
  · right
    left
    simp only [pageFrame, pageSize, word] at *
    omega
  · right
    right
    simp only [pageFrame, pageSize, stackBase, userStack, userTop, mipsKseg0, dumbvmStackpages] at *
    omega

end Translate

theorem program_of_prepared {cm table as} (laid : cm.Laid) (found : prepared cm table = some as)
    (ready : as.Ready) : Program as := by
  obtain ⟨start1, start2, start3, placed⟩ := placed_of_prepared laid found
  obtain ⟨pbase1, pbase2, stackpbase, apart12, apart13, apart23, small1, small2⟩ := placed
  refine ⟨ready, ?_, small1, small2⟩
  intro first second paddr one other
  have left := translate_region ready one
  have right := translate_region ready other
  simp only [pageSize, dumbvmStackpages, stackBase, userStack, userTop, mipsKseg0] at *
  omega

theorem Program.region {as} (program : Program as) {vaddr} (mapped : as.Mapped vaddr) :
    (as.vbase1 ≤ vaddr ∧ vaddr < as.vbase1 + as.npages1 * pageSize) ∨
    (as.vbase2 ≤ vaddr ∧ vaddr < as.vbase2 + as.npages2 * pageSize) ∨ (stackBase ≤ vaddr ∧ vaddr < userStack) := by
  obtain ⟨paddr, found⟩ := mapped
  rcases translate_region program.ready found with one | two | three
  · exact .inl ⟨one.1, one.2.1⟩
  · exact .inr (.inl ⟨two.1, two.2.1⟩)
  · exact .inr (.inr ⟨three.1, three.2.1⟩)

theorem Program.null_unmapped {as} (program : Program as) : ¬ as.Mapped 0 := by
  intro mapped
  have region := program.region mapped
  obtain ⟨⟨vbase1, _, _, vbase2, _⟩, _⟩ := program.ready
  simp only [stackBase, userStack, userTop, mipsKseg0, dumbvmStackpages, pageSize] at region
  omega

section Kernel

variable {m : Machine} {vaddr : Nat}

theorem translate_lt {as : AddrSpace} (mapped : as.Mapped vaddr) : vaddr < word := by
  obtain ⟨paddr, found⟩ := mapped
  obtain ⟨page, here, _⟩ := Option.map_eq_some_iff.mp found
  have cases := frame_cases here
  simp only [pageFrame, pageSize, word, userStack, userTop, mipsKseg0] at cases ⊢
  omega

def Machine.Readable (m : Machine) (vaddr : Nat) : Prop := ∃ paddr, m.kernelPaddr vaddr = some paddr

theorem readable_cases (readable : m.Readable vaddr) :
    Direct vaddr ∧ vaddr % 0x20000000 < m.ramsize ∨ ¬ Direct vaddr ∧ m.as.Ready ∧ m.as.Mapped vaddr := by
  obtain ⟨paddr, found⟩ := readable
  rw [Machine.kernelPaddr] at found
  split at found
  next direct =>
    split at found
    next inside => exact .inl ⟨direct, inside⟩
    next => cases found
  next indirect =>
    split at found
    next ready => exact .inr ⟨indirect, ready, paddr, found⟩
    next => cases found

theorem readable_lt (readable : m.Readable vaddr) : vaddr < word := by
  rcases readable_cases readable with ⟨direct, _⟩ | ⟨_, _, mapped⟩
  · exact Nat.lt_trans direct.2 (by decide)
  · exact translate_lt mapped

theorem readable_of_byte {byte} (found : m.kernelByte vaddr = some byte) : m.Readable vaddr := by
  obtain ⟨paddr, here, _⟩ := Option.map_eq_some_iff.mp found
  exact ⟨paddr, here⟩

/-- A stretch of 2^31 bytes runs into an address that is not mapped. -/
theorem stretch_short (program : Program m.as) {len} (readable : ∀ k, k < len → m.Readable (vaddr + k)) :
    len ≤ 0x80000000 := by
  by_contra long
  have bounded := m.bounded
  have small1 := program.small1
  have small2 := program.small2
  have within (address : Nat) (low : vaddr ≤ address) (high : address < vaddr + 0x80000001) : m.Readable address := by
    have here := readable (address - vaddr) (by omega)
    rwa [Nat.add_sub_cancel' low] at here
  have last := readable_lt (within (vaddr + 0x80000000) (by omega) (by omega))
  simp only [word] at last
  -- physical memory ends before this address of the first direct segment
  have gap : vaddr ≤ 0x80000000 + 508 * 1024 * 1024 → ¬ 0x80000000 + 508 * 1024 * 1024 < vaddr + 0x80000001 := by
    intro low high
    rcases readable_cases (within _ low high) with ⟨_, inside⟩ | ⟨indirect, _⟩
    · omega
    · exact indirect ⟨by simp only [mipsKseg0]; omega, by omega⟩
  have user (address : Nat) (low : vaddr ≤ address) (high : address < 0x70000000) :
      (m.as.vbase1 ≤ address ∧ address < m.as.vbase1 + m.as.npages1 * pageSize) ∨
      (m.as.vbase2 ≤ address ∧ address < m.as.vbase2 + m.as.npages2 * pageSize) := by
    rcases readable_cases (within address low (by omega)) with ⟨direct, _⟩ | ⟨_, _, mapped⟩
    · simp only [Direct, mipsKseg0] at direct
      omega
    · rcases program.region mapped with one | two | stack
      · exact .inl one
      · exact .inr two
      · simp only [stackBase, userStack, userTop, mipsKseg0, dumbvmStackpages, pageSize] at stack
        omega
  -- three addresses too far apart for two regions
  have first := user 0x20000000
  have second := user 0x40000000
  have third := user 0x60000000
  omega

end Kernel

/-- The range of `npages` pages at `vbase` begins at a page and holds all of the segment. -/
def Covers (vbase npages : Nat) (segment : Nat × Nat) : Prop :=
  pageFrame vbase = vbase ∧ vbase ≤ segment.1 ∧ segment.1 + segment.2 ≤ vbase + npages * pageSize

/-- Calls of `as_define_region`, each with the address and the size of a segment. -/
def defineRegions : AddrSpace → List (Nat × Nat) → Except Errno AddrSpace
  | as, [] => .ok as
  | as, (vaddr, sz) :: rest => do defineRegions (← asDefineRegion as vaddr sz) rest

def AddrSpace.Records (as : AddrSpace) : List (Nat × Nat) → Prop
  | [] => True
  | [segment] => Covers as.vbase1 as.npages1 segment
  | [first, second] => Covers as.vbase1 as.npages1 first ∧ Covers as.vbase2 as.npages2 second
  | _ => False

/-- Rounding the size up to pages does not wrap around. -/
def Rounds (segment : Nat × Nat) : Prop := segment.2 + segment.1 % pageSize + pageSize ≤ word

theorem covers_iff {segment} (size : segment.2 < word) :
    Covers (pageFrame segment.1) (regionPages segment.1 segment.2) segment ↔ Rounds segment := by
  simp only [Covers, Rounds, pageFrame, regionPages, pageSize, word] at size ⊢
  omega

/-- The address 0 stands for an undefined region, so that the second call replaces a first segment at page 0. -/
def Definable (calls : List (Nat × Nat)) : Prop :=
  (∀ segment ∈ calls, Rounds segment) ∧
    ∀ first second, calls = [first, second] → pageSize ≤ first.1 ∨ first = (0, 0) ∧ second = (0, 0)

theorem defineRegions_cons {as after segment rest}
    (defined : asDefineRegion as segment.1 segment.2 = .ok after) :
    defineRegions as (segment :: rest) = defineRegions after rest := by
  rw [defineRegions, defined]
  rfl

theorem asDefineRegion_first (vaddr sz : Nat) : asDefineRegion asCreate vaddr sz =
    .ok { asCreate with vbase1 := pageFrame vaddr, npages1 := regionPages vaddr sz } :=
  if_pos rfl

theorem defined_regions_cover_iff {calls : List (Nat × Nat)} (few : calls.length ≤ 2)
    (sized : ∀ segment ∈ calls, segment.2 < word) :
    ∃ as, defineRegions asCreate calls = .ok as ∧ (as.Records calls ↔ Definable calls) := by
  match calls with
  | [] => exact ⟨asCreate, rfl, iff_of_true trivial ⟨nofun, nofun⟩⟩
  | [segment] =>
    refine ⟨_, rfl, ?_⟩
    have covers := covers_iff (sized segment (mem_singleton.mpr rfl))
    exact covers.trans ⟨fun rounds => ⟨forall_mem_singleton.mpr rounds, nofun⟩,
      fun definable => definable.1 segment (mem_singleton.mpr rfl)⟩
  | [first, second] =>
    have firstSize := sized first mem_cons_self
    have secondSize := sized second (mem_cons_of_mem _ mem_cons_self)
    have definable : Definable [first, second] ↔ (Rounds first ∧ Rounds second) ∧
        (pageSize ≤ first.1 ∨ first = (0, 0) ∧ second = (0, 0)) := by
      simp [Definable]
    have begun := @defineRegions_cons _ _ _ [second] (asDefineRegion_first first.1 first.2)
    rw [definable]
    by_cases low : pageFrame first.1 = 0
    · refine ⟨_, begun.trans (defineRegions_cons (if_pos low)), ?_⟩
      simp only [AddrSpace.Records, Covers, Rounds, asCreate, pageFrame, regionPages, pageSize, word,
        Prod.ext_iff, true_and] at low firstSize secondSize ⊢
      omega
    · refine ⟨_, begun.trans (defineRegions_cons ((if_neg low).trans (if_pos rfl))), ?_⟩
      have above : pageSize ≤ first.1 := by
        simp only [pageFrame, pageSize] at low ⊢
        omega
      rw [and_iff_left (Or.inl above)]
      exact and_congr (covers_iff firstSize) (covers_iff secondSize)

theorem defined_regions_cover_program : [(0x400000, 0x1234), (0x10000000, 5)].length ≤ 2 ∧
    ∃ as, defineRegions asCreate [(0x400000, 0x1234), (0x10000000, 5)] = .ok as ∧
      as.Records [(0x400000, 0x1234), (0x10000000, 5)] := by
  refine ⟨by decide, ?_⟩
  obtain ⟨as, defined, records⟩ :=
    @defined_regions_cover_iff [(0x400000, 0x1234), (0x10000000, 5)] (by decide) (by decide)
  refine ⟨as, defined, records.mpr ⟨by simp only [Rounds]; decide, fun first second calls => ?_⟩⟩
  cases calls
  exact Or.inl (by decide)

/-- A size of almost 2^32 is rounded to 0, and a segment at page 0 is replaced by the next. -/
theorem segments_not_covered :
    (∃ as, defineRegions asCreate [(0x400000, 0xfffff001)] = .ok as ∧ ¬ as.Records [(0x400000, 0xfffff001)]) ∧
    ∃ as, defineRegions asCreate [(16, 4), (0x400000, 4)] = .ok as ∧ ¬ as.Records [(16, 4), (0x400000, 4)] :=
  ⟨⟨_, rfl, fun records => absurd records.2.2 (by decide)⟩, _, rfl, fun records => absurd records.1.2.1 (by decide)⟩

end Os161.Vm
