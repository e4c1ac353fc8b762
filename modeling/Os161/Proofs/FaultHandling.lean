import Mathlib.Data.Finset.Card
import Mathlib.Data.Fintype.Basic
import Os161.Proofs.SpaceIsolation
import Os161.Tlb

/-! How many faults `vm_fault` can handle between two calls of `as_activate`. -/

namespace Os161.Vm
open Frames

inductive AddrSpace.Defined : AddrSpace → Prop where
  | create : Defined asCreate
  | region {as next : AddrSpace} (vaddr sz : Nat) (defined : Defined as)
      (added : asDefineRegion as vaddr sz = .ok next) : Defined next

def AddrSpace.Loaded (as : AddrSpace) : Prop :=
  ∃ (m next : Machine) (live : List Block), Held ⟨m.cm, live⟩ ∧ m.as.Defined ∧
    asPrepareLoad m = some (.ok (), next) ∧ next.as = as

def InRegion (vbase npages vaddr : Nat) : Prop := vbase ≤ vaddr ∧ vaddr < vbase + npages * pageSize

instance (vbase npages vaddr : Nat) : Decidable (InRegion vbase npages vaddr) := inferInstanceAs (Decidable (_ ∧ _))

def AddrSpace.Inside (as : AddrSpace) (vaddr : Nat) : Prop :=
  vaddr < word ∧ (InRegion as.vbase1 as.npages1 vaddr ∨ InRegion as.vbase2 as.npages2 vaddr ∨
    InRegion stackBase dumbvmStackpages vaddr)

instance (as : AddrSpace) (vaddr : Nat) : Decidable (as.Inside vaddr) := inferInstanceAs (Decidable (_ ∧ _))

def Bounded (vbase npages : Nat) : Prop := vbase + npages * pageSize < word

instance (vbase npages : Nat) : Decidable (Bounded vbase npages) := inferInstanceAs (Decidable (_ < _))

/-- The address is in a range whose end `vm_fault` computes without wrapping around. -/
def AddrSpace.Recognised (as : AddrSpace) (vaddr : Nat) : Prop :=
  InRegion as.vbase1 as.npages1 vaddr ∧ Bounded as.vbase1 as.npages1 ∨
    InRegion as.vbase2 as.npages2 vaddr ∧ Bounded as.vbase2 as.npages2 ∨ InRegion stackBase dumbvmStackpages vaddr

instance (as : AddrSpace) (vaddr : Nat) : Decidable (as.Recognised vaddr) := inferInstanceAs (Decidable (_ ∨ _))

/-- What loading establishes: all that `vm_fault` asserts but that region 2 is not at page 0. -/
structure AddrSpace.Shaped (as : AddrSpace) : Prop where
  aligned1 : pageFrame as.vbase1 = as.vbase1
  aligned2 : pageFrame as.vbase2 = as.vbase2
  small1 : as.npages1 * pageSize < word
  small2 : as.npages2 * pageSize < word
  ready : as.Ready ↔ as.vbase2 ≠ 0
  frames : pageFrame as.pbase1 = as.pbase1 ∧ pageFrame as.pbase2 = as.pbase2 ∧ pageFrame as.stackpbase = as.stackpbase

section Defined

variable {as : AddrSpace}

theorem pageFrame_pageFrame (vaddr : Nat) : pageFrame (pageFrame vaddr) = pageFrame vaddr := by
  simp [pageFrame, pageSize]

theorem regionPages_small (vaddr sz : Nat) : regionPages vaddr sz * pageSize < word := by
  simp only [regionPages, pageSize, word]
  omega

theorem AddrSpace.Defined.unprepared (defined : as.Defined) : as.Unprepared := by
  induction defined with
  | create => exact ⟨rfl, rfl, rfl⟩
  | region vaddr sz defined added ih =>
    simp only [asDefineRegion] at added
    split at added
    · cases added
      exact ih
    · split at added
      · cases added
        exact ih
      · cases added

/-- Region 2 is given pages only once region 1 has a base other than 0. -/
theorem AddrSpace.Defined.regions (defined : as.Defined) :
    (pageFrame as.vbase1 = as.vbase1 ∧ pageFrame as.vbase2 = as.vbase2) ∧
    (as.npages1 * pageSize < word ∧ as.npages2 * pageSize < word) ∧ (as.npages2 ≠ 0 → as.vbase1 ≠ 0) := by
  induction defined with
  | create => decide
  | @region as next vaddr sz defined added ih =>
    obtain ⟨⟨aligned1, aligned2⟩, ⟨small1, small2⟩, order⟩ := ih
    simp only [asDefineRegion] at added
    split at added
    next unset =>
      cases added
      exact ⟨⟨pageFrame_pageFrame vaddr, aligned2⟩, ⟨regionPages_small vaddr sz, small2⟩,
        fun pages => absurd unset (order pages)⟩
    next first =>
      split at added
      · cases added
        exact ⟨⟨aligned1, pageFrame_pageFrame vaddr⟩, ⟨small1, regionPages_small vaddr sz⟩, fun _ => first⟩
      · cases added

theorem AddrSpace.Loaded.shaped (loaded : as.Loaded) : as.Shaped := by
  obtain ⟨m, next, live, held, defined, prepared, rfl⟩ := loaded
  obtain ⟨result, next', outcome, prepares, succeeded⟩ := asPrepareLoad_prepares held defined.unprepared
  cases prepared.symm.trans outcome
  obtain ⟨start1, start2, start3, pbase1, pbase2, stackpbase, blocks⟩ := prepares.placed (succeeded.mp rfl)
  have laid := held.toLaid
  have granted (block : Block) (member : block ∈ next.as.blocks m.cm.freepaddr) : 0 < block.length :=
    (prepares.held.sized block (List.mem_append_left _ member)).1
  rw [blocks] at granted
  have pages1 : 0 < m.as.npages1 := granted ⟨start1, m.as.npages1⟩ (by simp)
  have pages2 : 0 < m.as.npages2 := granted ⟨start2, m.as.npages2⟩ (by simp)
  obtain ⟨⟨aligned1, aligned2⟩, ⟨small1, small2⟩, order⟩ := defined.regions
  have same := prepares.regions
  simp only [AddrSpace.regions, AddrSpace.mk.injEq] at same
  obtain ⟨vbase1, -, npages1, vbase2, -, npages2, -⟩ := same
  rw [← vbase1] at aligned1 order
  rw [← vbase2] at aligned2
  rw [← npages1] at small1 pages1
  rw [← npages2] at small2 pages2 order
  refine ⟨aligned1, aligned2, small1, small2, ?_, ?_⟩
  · rw [ready_iff laid pbase1 pbase2 stackpbase]
    have first := order (Nat.ne_of_gt pages2)
    exact ⟨fun ready => ready.1.2.2.1,
      fun second => ⟨⟨first, Nat.ne_of_gt pages1, second, Nat.ne_of_gt pages2⟩, aligned1, aligned2⟩⟩
  · rw [pbase1, pbase2, stackpbase]
    exact ⟨frame_aligned laid start1, frame_aligned laid start2, frame_aligned laid start3⟩

end Defined

section Frame

variable {as : AddrSpace} {vaddr : Nat} {vbase npages page : Nat}

theorem inRegion_pageFrame (aligned : pageFrame vbase = vbase) (vaddr : Nat) :
    vbase ≤ pageFrame vaddr ∧ pageFrame vaddr < vbase + npages * pageSize ↔ InRegion vbase npages vaddr := by
  simp only [InRegion, pageFrame, pageSize] at *
  omega

theorem stackBase_aligned : pageFrame stackBase = stackBase := by decide

/-- The comparisons of `vm_fault` with the two ends of a region. -/
theorem inRegion_wrapped (aligned : pageFrame vbase = vbase) (small : npages * pageSize < word)
    (address : vaddr < word) : vbase ≤ pageFrame vaddr ∧ pageFrame vaddr < (vbase + npages * pageSize) % word ↔
      InRegion vbase npages vaddr ∧ Bounded vbase npages := by
  by_cases bounded : Bounded vbase npages
  · rw [Nat.mod_eq_of_lt bounded, inRegion_pageFrame aligned]
    exact ⟨fun inside => ⟨inside, bounded⟩, And.left⟩
  · refine iff_of_false (fun between => ?_) fun both => bounded both.2
    simp only [Bounded, word] at *
    omega

theorem pageFrame_eq_iff {vaddr} : pageFrame vaddr = vaddr ↔ pageSize ∣ vaddr :=
  ⟨fun same => ⟨vaddr / pageSize, (Nat.mul_comm _ _).trans same |>.symm⟩, Nat.div_mul_cancel⟩

theorem pageFrame_offset {pbase} (aligned : pageFrame page = page) (virtual : pageFrame vbase = vbase)
    (physical : pageFrame pbase = pbase) : pageFrame (page - vbase + pbase) = page - vbase + pbase := by
  rw [pageFrame_eq_iff] at *
  exact Nat.dvd_add (Nat.dvd_sub aligned virtual) physical

theorem AddrSpace.Shaped.frame_isSome_iff (shaped : as.Shaped) (address : vaddr < word) :
    (as.frame (pageFrame vaddr)).isSome ↔ as.Recognised vaddr := by
  have region1 := inRegion_wrapped shaped.aligned1 shaped.small1 address
  have region2 := inRegion_wrapped shaped.aligned2 shaped.small2 address
  have stack : stackBase ≤ pageFrame vaddr ∧ pageFrame vaddr < userStack ↔ InRegion stackBase dumbvmStackpages vaddr :=
    @inRegion_pageFrame stackBase dumbvmStackpages stackBase_aligned vaddr
  simp only [AddrSpace.frame]
  split
  next first => exact iff_of_true rfl (.inl (region1.mp first))
  next first =>
    split
    next second => exact iff_of_true rfl (.inr (.inl (region2.mp second)))
    next second =>
      split
      next third => exact iff_of_true rfl (.inr (.inr (stack.mp third)))
      next third =>
        refine iff_of_false (by simp) ?_
        rintro (one | two | three)
        · exact first (region1.mpr one)
        · exact second (region2.mpr two)
        · exact third (stack.mpr three)

theorem AddrSpace.Shaped.frame_aligned (shaped : as.Shaped) {paddr} (aligned : pageFrame page = page)
    (found : as.frame page = some paddr) : pageFrame paddr = paddr := by
  obtain ⟨pbase1, pbase2, stackpbase⟩ := shaped.frames
  rcases frame_cases found with ⟨_, _, rfl⟩ | ⟨_, _, rfl⟩ | ⟨_, _, rfl⟩
  · exact pageFrame_offset aligned shaped.aligned1 pbase1
  · exact pageFrame_offset aligned shaped.aligned2 pbase2
  · exact pageFrame_offset aligned stackBase_aligned stackpbase

end Frame

end Os161.Vm

namespace Os161.Tlb
open Vm Frames

def freeSlots (tlb : Fin numTlb → Slot) : Finset (Fin numTlb) := Finset.univ.filter fun i => (tlb i).valid = false

def Cached (as : AddrSpace) (tlb : Fin numTlb → Slot) (page : Nat) : Prop :=
  ∃ i, (tlb i).valid ∧ (tlb i).hi = page ∧ as.frame page = some (tlb i).lo

/-- `vm_fault` returns 0 for every one of the faults, each time with the page in the TLB. -/
def AllHandled (as : AddrSpace) : (Fin numTlb → Slot) → List (FaultType × Nat) → Prop
  | _, [] => True
  | tlb, (faulttype, vaddr) :: rest => ∃ next, vmFault (some as) tlb faulttype vaddr = some (.ok (), next) ∧
    Cached as next (pageFrame vaddr) ∧ AllHandled as next rest

def Access (as : AddrSpace) (fault : FaultType × Nat) : Prop :=
  (fault.1 = .read ∨ fault.1 = .write) ∧ as.Inside fault.2

instance (as : AddrSpace) (fault : FaultType × Nat) : Decidable (Access as fault) := inferInstanceAs (Decidable (_ ∧ _))

section Slots

variable {tlb : Fin numTlb → Slot} {as : AddrSpace}

theorem freeSlot_mem {i} (found : freeSlot tlb = some i) : i ∈ freeSlots tlb := by
  have invalid := List.find?_some found
  simpa [freeSlots] using invalid

theorem freeSlot_isSome_iff : (freeSlot tlb).isSome ↔ 0 < (freeSlots tlb).card := by
  simp only [freeSlot, List.find?_isSome, Finset.card_pos, freeSlots, Finset.Nonempty, Finset.mem_filter]
  simp

theorem card_freeSlots_fill {i} (free : i ∈ freeSlots tlb) (page paddr : Nat) :
    (freeSlots fun j => if j = i then ⟨page, paddr, true⟩ else tlb j).card + 1 = (freeSlots tlb).card := by
  have erased : (freeSlots fun j => if j = i then ⟨page, paddr, true⟩ else tlb j) = (freeSlots tlb).erase i := by
    ext j
    by_cases same : j = i
    · simp [freeSlots, same]
    · simp [freeSlots, same]
  rw [erased, Finset.card_erase_of_mem free]
  have := Finset.card_pos.mpr ⟨i, free⟩
  omega

theorem freeSlots_invalidSlot : (freeSlots invalidSlot).card = numTlb := by decide

theorem vmFault_access {faulttype} (access : faulttype = .read ∨ faulttype = .write) (vaddr : Nat) :
    vmFault (some as) tlb faulttype vaddr = vmFault (some as) tlb .read vaddr := by
  rcases access with rfl | rfl
  · rfl
  · rfl

/-- A fault is handled exactly if region 2 is not at page 0, the address is in a range that does not wrap around and
a slot is free, which it takes. -/
theorem vmFault_ok_iff (shaped : as.Shaped) {vaddr next} :
    vmFault (some as) tlb .read vaddr = some (.ok (), next) ↔
      as.vbase2 ≠ 0 ∧ ∃ paddr i, as.frame (pageFrame vaddr) = some paddr ∧ freeSlot tlb = some i ∧
        next = fun j => if j = i then ⟨pageFrame vaddr, paddr, true⟩ else tlb j := by
  simp only [vmFault]
  split
  next ready =>
    cases found : as.frame (pageFrame vaddr) with
    | none => simp
    | some paddr =>
      simp only [if_pos (shaped.frame_aligned (pageFrame_pageFrame vaddr) found)]
      cases free : freeSlot tlb with
      | none => simp
      | some i => simp [shaped.ready.mp ready, eq_comm]
  next unready => simp [not_not.mp (mt shaped.ready.mpr unready)]

theorem allHandled_cons (shaped : as.Shaped) {faulttype vaddr rest}
    (access : Access as (faulttype, vaddr)) :
    AllHandled as tlb ((faulttype, vaddr) :: rest) ↔ as.vbase2 ≠ 0 ∧ ∃ paddr i,
      as.frame (pageFrame vaddr) = some paddr ∧ freeSlot tlb = some i ∧
        AllHandled as (fun j => if j = i then ⟨pageFrame vaddr, paddr, true⟩ else tlb j) rest := by
  constructor
  · rintro ⟨next, handled, -, later⟩
    rw [vmFault_access access.1, vmFault_ok_iff shaped] at handled
    obtain ⟨second, paddr, i, found, free, rfl⟩ := handled
    exact ⟨second, paddr, i, found, free, later⟩
  · rintro ⟨second, paddr, i, found, free, later⟩
    refine ⟨_, ?_, ⟨i, ?_⟩, later⟩
    · rw [vmFault_access access.1, vmFault_ok_iff shaped]
      exact ⟨second, paddr, i, found, free, rfl⟩
    · simp [found]

theorem allHandled_iff (shaped : as.Shaped) {faults}
    (inside : ∀ fault ∈ faults, Access as fault) :
    AllHandled as tlb faults ↔ faults = [] ∨ as.vbase2 ≠ 0 ∧ (∀ fault ∈ faults, as.Recognised fault.2) ∧
      faults.length ≤ (freeSlots tlb).card := by
  induction faults generalizing tlb with
  | nil => simp [AllHandled]
  | cons fault rest ih =>
    obtain ⟨faulttype, vaddr⟩ := fault
    have access := inside (faulttype, vaddr) List.mem_cons_self
    have recognised := shaped.frame_isSome_iff access.2.1
    have remaining {tlb : Fin numTlb → Slot} := @ih tlb fun fault member => inside fault (List.mem_cons_of_mem _ member)
    rw [allHandled_cons shaped access]
    simp only [reduceCtorEq, false_or, List.forall_mem_cons, List.length_cons]
    constructor
    · rintro ⟨second, paddr, i, found, free, later⟩
      have filled := card_freeSlots_fill (freeSlot_mem free) (pageFrame vaddr) paddr
      have here : as.Recognised vaddr := recognised.mp (by rw [found, Option.isSome_some])
      rcases remaining.mp later with rfl | ⟨-, others, enough⟩
      · refine ⟨second, ⟨here, nofun⟩, ?_⟩
        rw [List.length_nil]
        omega
      · refine ⟨second, ⟨here, others⟩, ?_⟩
        omega
    · rintro ⟨second, ⟨here, others⟩, enough⟩
      obtain ⟨paddr, found⟩ := Option.isSome_iff_exists.mp (recognised.mpr here)
      obtain ⟨i, free⟩ := Option.isSome_iff_exists.mp (freeSlot_isSome_iff.mpr (Nat.lt_of_lt_of_le (Nat.succ_pos _) enough))
      have filled := card_freeSlots_fill (freeSlot_mem free) (pageFrame vaddr) paddr
      exact ⟨second, paddr, i, found, free, remaining.mpr (.inr ⟨second, others, by omega⟩)⟩

end Slots

/-- All faults are handled exactly if region 2 is not at page 0, no address is in a region that wraps around, and
the TLB has a free slot for each. -/
theorem faults_handled_iff (as : AddrSpace) (loaded : as.Loaded) (tlb : Fin numTlb → Slot)
    (faults : List (FaultType × Nat)) (inside : ∀ fault ∈ faults, Access as fault) :
    AllHandled as tlb faults ↔ faults = [] ∨ as.vbase2 ≠ 0 ∧ (∀ fault ∈ faults, as.Recognised fault.2) ∧
      faults.length ≤ (freeSlots tlb).card :=
  allHandled_iff loaded.shaped inside

/-- A program with 70 pages of code and one page of data, on a machine with 130 pages. -/
def largeRam : Ram := ⟨0, 130 * 4096, by decide, by decide⟩

def largeRegions : AddrSpace := ⟨0x400000, 0, 70, 0x10000000, 0, 1, 0⟩

def largeMachine (system : System) : Machine :=
  ⟨fun _ => 0, 130 * 4096, by decide, system.cm, fun _ => largeRegions, 1, 0, Nat.one_pos⟩

def largeSpace : AddrSpace := ⟨0x400000, 4096, 70, 0x10000000, 0x47000, 1, 0x48000⟩

theorem largeRegions_defined : largeRegions.Defined :=
  .region 0x10000000 4096 (.region 0x400000 (70 * 4096) .create rfl) rfl

theorem largeSpace_loaded : largeSpace.Loaded := by
  have computed : ((boot largeRam).bind fun system => (asPrepareLoad (largeMachine system)).bind fun outcome =>
      if outcome.1.isOk then some outcome.2.as else none) = some largeSpace := by decide +kernel
  obtain ⟨system, booted, outcome⟩ := Option.bind_eq_some_iff.mp computed
  obtain ⟨⟨result, next⟩, prepared, seen⟩ := Option.bind_eq_some_iff.mp outcome
  cases result with
  | error code => cases seen
  | ok done => exact ⟨largeMachine system, next, _, (boot_sound booted).held, largeRegions_defined, prepared, Option.some.inj seen⟩

theorem faults_handled_twice :
    largeSpace.Loaded ∧ (∀ fault ∈ [(.read, 0x400000), (.write, 0x10000004)], Access largeSpace fault) ∧
      AllHandled largeSpace invalidSlot [(.read, 0x400000), (.write, 0x10000004)] := by
  have inside : ∀ fault ∈ [(.read, 0x400000), (.write, 0x10000004)], Access largeSpace fault := by decide
  refine ⟨largeSpace_loaded, inside, ?_⟩
  apply (faults_handled_iff largeSpace largeSpace_loaded invalidSlot _ inside).mpr
  refine .inr ⟨by decide, by decide, ?_⟩
  decide

/-- As many accesses to different pages of code as the TLB has slots, and one more. -/
def sixtyFive : List (FaultType × Nat) := (List.range 65).map fun k => (.read, 0x400000 + k * 4096)

theorem tlb_runs_out :
    largeSpace.Loaded ∧ (∀ fault ∈ sixtyFive, Access largeSpace fault) ∧ ¬ AllHandled largeSpace invalidSlot sixtyFive := by
  have inside : ∀ fault ∈ sixtyFive, Access largeSpace fault := by decide +kernel
  refine ⟨largeSpace_loaded, inside, fun handled => ?_⟩
  rcases (allHandled_iff largeSpace_loaded.shaped inside).mp handled with none_ | ⟨-, -, enough⟩
  · cases none_
  · revert enough
    decide

end Os161.Tlb
