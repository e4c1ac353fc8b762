import Mathlib.Data.Set.BooleanAlgebra
import Mathlib.Order.CompletePartialOrder
import Os161.Proofs.SpaceFrames

/-! Address spaces share no memory with each other or the kernel, and a copy reads as the original did. -/

namespace Os161.Vm
open Runs Frames List Option

def Spaces.mapped (s : Spaces) (a : Nat) : Set Nat :=
  { paddr | (s.space a).Ready ∧ ∃ vaddr, (s.space a).translate vaddr = some paddr }

/-- No two address spaces share memory, and none shares memory with the kernel. -/
structure Isolated (s : Spaces) : Prop where
  spaces : ∀ a ∈ s.live, ∀ b ∈ s.live, a ≠ b → Disjoint (s.mapped a) (s.mapped b)
  kernel : ∀ a ∈ s.live, ∀ block ∈ s.kernel, ∀ paddr ∈ s.mapped a, ¬ block.Spans s.machine.cm.freepaddr paddr

structure Lodging (s : Spaces) (a start1 start2 start3 : Nat) : Prop where
  pbase1 : (s.space a).pbase1 = s.machine.cm.frame start1
  pbase2 : (s.space a).pbase2 = s.machine.cm.frame start2
  stackpbase : (s.space a).stackpbase = s.machine.cm.frame start3
  region1 : (a, ⟨start1, (s.space a).npages1⟩) ∈ s.obtained
  region2 : (a, ⟨start2, (s.space a).npages2⟩) ∈ s.obtained
  stack : (a, ⟨start3, dumbvmStackpages⟩) ∈ s.obtained

structure Lodged (s : Spaces) : Prop extends Tracked s where
  lodging : ∀ a ∈ s.live, (s.space a).stackpbase ≠ 0 → ∃ start1 start2 start3, Lodging s a start1 start2 start3

theorem Lodging.mono {s next a start1 start2 start3} (lodging : Lodging s a start1 start2 start3)
    (space : next.space a = s.space a) (base : next.machine.cm.freepaddr = s.machine.cm.freepaddr)
    (obtained : s.obtained ⊆ next.obtained) : Lodging next a start1 start2 start3 := by
  have frame (start : Nat) : next.machine.cm.frame start = s.machine.cm.frame start := by
    rw [Coremap.frame, base, Coremap.frame]
  refine ⟨?_, ?_, ?_, ?_, ?_, ?_⟩
  · rw [space, frame, lodging.pbase1]
  · rw [space, frame, lodging.pbase2]
  · rw [space, frame, lodging.stackpbase]
  · rw [space]
    exact obtained lodging.region1
  · rw [space]
    exact obtained lodging.region2
  · exact obtained lodging.stack

theorem Lodged.stays {s next} (lodged : Lodged s) {b} (live : b ∈ s.live)
    (space : next.space b = s.space b) (base : next.machine.cm.freepaddr = s.machine.cm.freepaddr)
    (obtained : s.obtained ⊆ next.obtained) (full : (next.space b).stackpbase ≠ 0) :
    ∃ start1 start2 start3, Lodging next b start1 start2 start3 := by
  rw [space] at full
  obtain ⟨start1, start2, start3, lodging⟩ := lodged.lodging b live full
  exact ⟨start1, start2, start3, lodging.mono space base obtained⟩

theorem Lodged.mapped_spans {s} (lodged : Lodged s) {a paddr} (live : a ∈ s.live)
    (mapped : paddr ∈ s.mapped a) : ∃ block, (a, block) ∈ s.obtained ∧ block.Spans s.machine.cm.freepaddr paddr := by
  obtain ⟨ready, vaddr, translated⟩ := mapped
  obtain ⟨start1, start2, start3, lodging⟩ := lodged.lodging a live ready.1.2.2.2.2.2.2
  obtain ⟨pbase1, pbase2, stackpbase, region1, region2, stack⟩ := lodging
  simp only [Coremap.frame, pageSize] at pbase1 pbase2 stackpbase
  rcases translate_region ready translated with ⟨low, high, rfl⟩ | ⟨low, high, rfl⟩ | ⟨low, high, rfl⟩
  · refine ⟨_, region1, ?_⟩
    simp only [Block.Spans, pageSize] at high ⊢
    omega
  · refine ⟨_, region2, ?_⟩
    simp only [Block.Spans, pageSize] at high ⊢
    omega
  · refine ⟨_, stack, ?_⟩
    simp only [Block.Spans, pageSize, stackBase, userStack, userTop, mipsKseg0, dumbvmStackpages] at low high ⊢
    omega

theorem Lodged.isolated {s} (lodged : Lodged s) : Isolated s := by
  constructor
  · intro a live b live' different
    refine Set.disjoint_left.mpr fun paddr one other => ?_
    obtain ⟨first, here, spans⟩ := lodged.mapped_spans live one
    obtain ⟨second, there, spans'⟩ := lodged.mapped_spans live' other
    exact (lodged.obtained_apart here there different).not_spans spans spans'
  · intro a live block member paddr mapped
    obtain ⟨first, here, spans⟩ := lodged.mapped_spans live mapped
    have apart := (pairwise_append.mp lodged.held.disjoint).2.2 first (mem_map_of_mem here) block member
    exact apart.not_spans spans

/-- Regions are defined before frames are taken for them, as the loader does. -/
def Ordered (s : Spaces) : SpaceCall → Prop
  | .asDefineRegion a _ _ => (s.space a).stackpbase = 0 ∨ (s.space a).vbase1 ≠ 0 ∧ (s.space a).vbase2 ≠ 0
  | _ => True

theorem same_regions {as as' : AddrSpace} (same : as'.regions = as.regions) :
    as'.vbase1 = as.vbase1 ∧ as'.npages1 = as.npages1 ∧ as'.vbase2 = as.vbase2 ∧ as'.npages2 = as.npages2 := by
  simpa [AddrSpace.regions] using same

theorem Prepares.lodging {s : Spaces} {m m'} (prepares : Prepares m s.blocks m')
    (full : m'.as.stackpbase ≠ 0) :
    ∃ start1 start2 start3, Lodging (s.prepared m') m.vmspace start1 start2 start3 := by
  obtain ⟨start1, start2, start3, pbase1, pbase2, stackpbase, blocks⟩ := prepares.placed full
  have own : (s.prepared m').space m.vmspace = m'.as := by
    rw [← prepares.vmspace]
    rfl
  have frame (start : Nat) : (s.prepared m').machine.cm.frame start = m.cm.frame start := by
    rw [Coremap.frame, show (s.prepared m').machine.cm.freepaddr = m.cm.freepaddr from prepares.base, Coremap.frame]
  obtain ⟨_, npages1, _, npages2⟩ := same_regions prepares.regions
  have member (block : Block) (listed : block ∈ m'.as.blocks m.cm.freepaddr) :
      (m.vmspace, block) ∈ (s.prepared m').obtained := by
    simp [Spaces.prepared, prepares.base, prepares.vmspace, listed]
  refine ⟨start1, start2, start3, ?_, ?_, ?_, ?_, ?_, ?_⟩
  · rw [own, frame, pbase1]
  · rw [own, frame, pbase2]
  · rw [own, frame, stackpbase]
  · exact member _ (by simp [own, npages1, blocks])
  · exact member _ (by simp [own, npages2, blocks])
  · exact member _ (by simp [blocks])

theorem Tracked.others_kept {s} (tracked : Tracked s) {old b m}
    (prepares : Prepares (s.copying old) s.blocks m) (live : b ∈ s.live) : m.spaces b = s.space b := by
  have other : b ≠ s.machine.created := Nat.ne_of_lt (tracked.below b live)
  rw [prepares.others b other, copying_others other]

theorem Stepped.lodged {s next : Spaces} {call} (stepped : Stepped s call next) (lodged : Lodged s)
    (ordered : Ordered s call) : Lodged next := by
  refine ⟨stepped.tracked lodged.toTracked, fun b live full => ?_⟩
  cases stepped with
  | createRefused | regionRefused | copyRefused => exact lodged.lodging b live full
  | created =>
    rcases mem_cons.mp live with rfl | old
    · simp [Spaces.space, Machine.switchAs, asCreate] at full
    · refine lodged.stays old ?_ rfl (List.Subset.refl _) full
      simp [Machine.switchAs, Nat.ne_of_lt (lodged.below b old), Spaces.space]
  | region a vaddr sz inside as defined =>
    by_cases same : b = a
    · subst same
      have own : ((s.select b inside).setAs as).spaces b = as := by simp [Machine.setAs, Spaces.select]
      have full : (s.space b).stackpbase ≠ 0 := by
        rw [← (asDefineRegion_bases defined).2.2, ← own]
        exact full
      obtain ⟨vbase1, vbase2⟩ := ordered.resolve_left full
      rw [asDefineRegion, if_neg vbase1, if_neg vbase2] at defined
      cases defined
    · refine lodged.stays live ?_ rfl (List.Subset.refl _) full
      simp [Machine.setAs, Spaces.select, same, Spaces.space]
  | prepared a member inside unprepared m prepares =>
    by_cases same : b = a
    · subst same
      have own : (s.prepared m).space b = m.as := by
        rw [← show m.vmspace = b from prepares.vmspace]
        rfl
      exact prepares.lodging (own ▸ full)
    · exact lodged.stays live (prepares.others b same) prepares.base (subset_append_right _ _) full
  | copyFailed old m short prepares =>
    exact lodged.stays live (lodged.others_kept prepares live) prepares.base (subset_append_right _ _) full
  | copied old member m ready found prepares =>
    rcases mem_cons.mp live with rfl | before
    · obtain ⟨start1, start2, start3, lodging⟩ := prepares.lodging ready
      rw [prepares.vmspace]
      exact ⟨start1, start2, start3, lodging.mono rfl rfl (List.Subset.refl _)⟩
    · have space : m.spaces b = s.space b := lodged.others_kept prepares before
      exact lodged.stays before space prepares.base (subset_append_right _ _) full
  | destroyed a member => exact lodged.stays (mem_of_mem_erase live) rfl rfl (List.Subset.refl _) full
  | allocated npages system taken =>
    exact lodged.stays live rfl (step_base lodged.held taken) (List.Subset.refl _) full
  | freed block system taken =>
    exact lodged.stays live rfl (step_base lodged.held taken) (List.Subset.refl _) full
  | stored a vaddr byte member ready paddr mapped => exact lodged.stays live rfl rfl (List.Subset.refl _) full

def Concerns : SpaceCall → Nat → Prop
  | .asDefineRegion a _ _, b => a = b
  | .asPrepareLoad a, b => a = b
  | .store a _ _, b => a = b
  | _, _ => False

/-- What a call is to show: a copy shows what the original shows, a store the byte where it was stored. -/
def Shows (s next : Spaces) : SpaceCall → Prop
  | .asCopy old true => (s.space old).stackpbase ≠ 0 → s.machine.created ∈ next.live →
      next.seen s.machine.created = s.seen old
  | .store a vaddr byte => next.seen a vaddr = some byte
  | _ => True

def Confined (s : Spaces) (call : SpaceCall) : Prop :=
  ∀ next, spaceStep s call = some next →
    (∀ b ∈ s.live, ¬ Concerns call b → next.seen b = s.seen b) ∧ Shows s next call

theorem seen_kept {s next : Spaces} {b} (space : next.space b = s.space b)
    (ram : ∀ paddr ∈ s.mapped b, next.machine.ram paddr = s.machine.ram paddr) : next.seen b = s.seen b := by
  funext vaddr
  simp only [Spaces.seen, space]
  split
  next ready =>
    cases found : (s.space b).translate vaddr with
    | none => rfl
    | some paddr => exact congrArg some (ram paddr ⟨ready, vaddr, found⟩)
  next => rfl

section Fill

variable {m : Machine} {dest src len k paddr : Nat}

theorem moved_inside (inside : k < len) : (m.moved dest src len).ram (dest + k) = m.ram (src + k) := by
  simp [Machine.moved, inside]

theorem moved_outside (outside : ¬ (dest ≤ paddr ∧ paddr < dest + len)) :
    (m.moved dest src len).ram paddr = m.ram paddr := if_neg outside

end Fill

theorem translate_map {as as' : AddrSpace} {ram ram' : Nat → UInt8} (regions : as'.regions = as.regions)
    (aligned1 : pageFrame as.vbase1 = as.vbase1) (aligned2 : pageFrame as.vbase2 = as.vbase2)
    (one : ∀ k, k < as.npages1 * pageSize → ram' (as'.pbase1 + k) = ram (as.pbase1 + k))
    (two : ∀ k, k < as.npages2 * pageSize → ram' (as'.pbase2 + k) = ram (as.pbase2 + k))
    (three : ∀ k, k < dumbvmStackpages * pageSize → ram' (as'.stackpbase + k) = ram (as.stackpbase + k))
    (vaddr : Nat) : (as'.translate vaddr).map ram' = (as.translate vaddr).map ram := by
  obtain ⟨vbase1, npages1, vbase2, npages2⟩ := same_regions regions
  simp only [AddrSpace.translate, AddrSpace.frame, vbase1, npages1, vbase2, npages2]
  have place (page base pbase : Nat) :
      page - base + pbase + vaddr % pageSize = pbase + (page - base + vaddr % pageSize) := by omega
  split
  next inside =>
    simp only [map_some, place, Option.some.injEq]
    apply one
    simp only [pageFrame, pageSize, word] at *
    omega
  next =>
    split
    next inside =>
      simp only [map_some, place, Option.some.injEq]
      apply two
      simp only [pageFrame, pageSize, word] at *
      omega
    next =>
      split
      next inside =>
        simp only [map_some, place, Option.some.injEq]
        apply three
        simp only [pageFrame, pageSize, stackBase, userStack, userTop, mipsKseg0, dumbvmStackpages] at *
        omega
      next => rfl

/-- The frames of a copy, apart from each other and from all frames in use. -/
structure CopyFrames (s : Spaces) (old : AddrSpace) (m : Machine) (region1 region2 stack : Block) : Prop where
  pbase1 : m.as.pbase1 = s.machine.cm.frame region1.start
  pbase2 : m.as.pbase2 = s.machine.cm.frame region2.start
  stackpbase : m.as.stackpbase = s.machine.cm.frame stack.start
  npages1 : region1.length = old.npages1
  npages2 : region2.length = old.npages2
  stackpages : stack.length = dumbvmStackpages
  apart21 : Apart region2 region1
  apart31 : Apart stack region1
  apart32 : Apart stack region2
  others : ∀ block ∈ s.blocks, Apart region1 block ∧ Apart region2 block ∧ Apart stack block

theorem Prepares.copied {s old m} (prepares : Prepares (s.copying old) s.blocks m)
    (full : m.as.stackpbase ≠ 0) : ∃ region1 region2 stack, CopyFrames s (s.space old) m region1 region2 stack := by
  have regions : (s.copying old).as = (s.space old).regions := setAs_as _ _
  obtain ⟨start1, start2, start3, pbase1, pbase2, stackpbase, blocks⟩ := prepares.placed full
  have apart := prepares.held.disjoint
  rw [regions] at blocks
  rw [blocks] at apart
  simp only [cons_append, nil_append, pairwise_cons, mem_cons, forall_eq_or_imp] at apart
  obtain ⟨⟨apart32, apart31, others3⟩, ⟨apart21, others2⟩, others1, _⟩ := apart
  refine ⟨⟨start1, (s.space old).npages1⟩, ⟨start2, (s.space old).npages2⟩, ⟨start3, dumbvmStackpages⟩,
    pbase1, pbase2, stackpbase, rfl, rfl, rfl, apart21, apart31, apart32, fun block member => ?_⟩
  exact ⟨others1 block member, others2 block member, others3 block member⟩

section Filled

variable {s : Spaces} {old : AddrSpace} {m : Machine} {region1 region2 stack : Block}

theorem Frames.Block.spans_iff (block : Block) (cm : Coremap) (paddr : Nat) :
    block.Spans cm.freepaddr paddr ↔
      cm.frame block.start ≤ paddr ∧ paddr < cm.frame block.start + block.length * pageSize := by
  simp only [Block.Spans, Coremap.frame, pageSize]
  omega

variable (copied : CopyFrames s old m region1 region2 stack)
include copied

theorem CopyFrames.spans1 (paddr : Nat) : region1.Spans s.machine.cm.freepaddr paddr ↔
      m.as.pbase1 ≤ paddr ∧ paddr < m.as.pbase1 + old.npages1 * pageSize := by
  rw [Block.spans_iff, copied.npages1, copied.pbase1]

theorem CopyFrames.spans2 (paddr : Nat) : region2.Spans s.machine.cm.freepaddr paddr ↔
      m.as.pbase2 ≤ paddr ∧ paddr < m.as.pbase2 + old.npages2 * pageSize := by
  rw [Block.spans_iff, copied.npages2, copied.pbase2]

theorem CopyFrames.spans3 (paddr : Nat) : stack.Spans s.machine.cm.freepaddr paddr ↔
      m.as.stackpbase ≤ paddr ∧ paddr < m.as.stackpbase + dumbvmStackpages * pageSize := by
  rw [Block.spans_iff, copied.stackpages, copied.stackpbase]

variable {block : Block}

theorem CopyFrames.untouched (member : block ∈ s.blocks)
    {paddr} (spans : block.Spans s.machine.cm.freepaddr paddr) : (m.filled old).ram paddr = m.ram paddr := by
  obtain ⟨apart1, apart2, apart3⟩ := copied.others block member
  rw [Machine.filled, moved_outside, moved_outside, moved_outside]
  · exact fun inside => apart1.not_spans ((copied.spans1 paddr).mpr inside) spans
  · exact fun inside => apart2.not_spans ((copied.spans2 paddr).mpr inside) spans
  · exact fun inside => apart3.not_spans ((copied.spans3 paddr).mpr inside) spans

theorem CopyFrames.shows1 {k} (inside : k < old.npages1 * pageSize) :
    (m.filled old).ram (m.as.pbase1 + k) = m.ram (old.pbase1 + k) := by
  have spans := (copied.spans1 (m.as.pbase1 + k)).mpr ⟨by omega, by omega⟩
  rw [Machine.filled, moved_outside, moved_outside, moved_inside inside]
  · exact fun other => copied.apart21.not_spans ((copied.spans2 _).mpr other) spans
  · exact fun other => copied.apart31.not_spans ((copied.spans3 _).mpr other) spans

theorem CopyFrames.shows2 (member : block ∈ s.blocks)
    {k} (source : block.Spans s.machine.cm.freepaddr (old.pbase2 + k)) (inside : k < old.npages2 * pageSize) :
    (m.filled old).ram (m.as.pbase2 + k) = m.ram (old.pbase2 + k) := by
  have spans := (copied.spans2 (m.as.pbase2 + k)).mpr ⟨by omega, by omega⟩
  rw [Machine.filled, moved_outside, moved_inside inside, moved_outside]
  · exact fun other => (copied.others block member).1.not_spans ((copied.spans1 _).mpr other) source
  · exact fun other => copied.apart32.not_spans ((copied.spans3 _).mpr other) spans

theorem CopyFrames.shows3 (member : block ∈ s.blocks)
    {k} (source : block.Spans s.machine.cm.freepaddr (old.stackpbase + k))
    (inside : k < dumbvmStackpages * pageSize) :
    (m.filled old).ram (m.as.stackpbase + k) = m.ram (old.stackpbase + k) := by
  obtain ⟨apart1, apart2, _⟩ := copied.others block member
  rw [Machine.filled, moved_inside inside, moved_outside, moved_outside]
  · exact fun other => apart1.not_spans ((copied.spans1 _).mpr other) source
  · exact fun other => apart2.not_spans ((copied.spans2 _).mpr other) source

end Filled

theorem obtained_blocks {s : Spaces} {a block} (member : (a, block) ∈ s.obtained) :
    block ∈ s.blocks := mem_append_left _ (mem_map_of_mem member)

variable {cm : Coremap}

theorem frame_nonzero (laid : cm.Laid) (start : Nat) : cm.frame start ≠ 0 := by
  have := laid.positive
  simp only [Coremap.frame]
  omega

theorem frame_aligned (laid : cm.Laid) (start : Nat) : pageFrame (cm.frame start) = cm.frame start := by
  have := laid.aligned
  simp only [Coremap.frame, pageFrame, pageSize] at *
  omega

theorem ready_iff (laid : cm.Laid) {as : AddrSpace} {start1 start2 start3}
    (pbase1 : as.pbase1 = cm.frame start1) (pbase2 : as.pbase2 = cm.frame start2)
    (stackpbase : as.stackpbase = cm.frame start3) :
    as.Ready ↔ (as.vbase1 ≠ 0 ∧ as.npages1 ≠ 0 ∧ as.vbase2 ≠ 0 ∧ as.npages2 ≠ 0) ∧
      pageFrame as.vbase1 = as.vbase1 ∧ pageFrame as.vbase2 = as.vbase2 := by
  simp only [AddrSpace.Ready, pbase1, pbase2, stackpbase, frame_aligned laid, ne_eq, frame_nonzero laid,
    not_false_eq_true, true_and, and_true]

theorem Lodged.copy_shows {s : Spaces} (lodged : Lodged s) {old : Nat} (member : old ∈ s.live)
    (ready : (s.space old).stackpbase ≠ 0) {m} (full : m.as.stackpbase ≠ 0)
    (prepares : Prepares (s.copying old) s.blocks m) (vaddr : Nat) :
    (if m.as.Ready then (m.as.translate vaddr).map (m.filled (s.space old)).ram else none) = s.seen old vaddr := by
  obtain ⟨region1, region2, stack, copied⟩ := prepares.copied full
  obtain ⟨start1, start2, start3, lodging⟩ := lodged.lodging old member ready
  have regions : (s.copying old).as = (s.space old).regions := setAs_as _ _
  have same : m.as.regions = (s.space old).regions := by
    rw [prepares.regions, regions]
    rfl
  have laid : s.machine.cm.Laid := lodged.held.toLaid
  have both : m.as.Ready ↔ (s.space old).Ready := by
    obtain ⟨vbase1, npages1, vbase2, npages2⟩ := same_regions same
    rw [ready_iff laid copied.pbase1 copied.pbase2 copied.stackpbase,
      ready_iff laid lodging.pbase1 lodging.pbase2 lodging.stackpbase, vbase1, npages1, vbase2, npages2]
  simp only [Spaces.seen, both]
  split
  next readyOld =>
    obtain ⟨_, aligned1, _, aligned2, _, _⟩ := readyOld
    have ram : s.machine.ram = m.ram := prepares.ram.symm
    rw [ram]
    refine translate_map same aligned1 aligned2 (fun k inside => copied.shows1 inside) (fun k inside => ?_)
      (fun k inside => ?_) vaddr
    · refine copied.shows2 (obtained_blocks lodging.region2) ?_ inside
      rw [Block.spans_iff, lodging.pbase2]
      exact ⟨Nat.le_add_right _ _, Nat.add_lt_add_left inside _⟩
    · refine copied.shows3 (obtained_blocks lodging.stack) ?_ inside
      rw [Block.spans_iff, lodging.stackpbase]
      exact ⟨Nat.le_add_right _ _, Nat.add_lt_add_left inside _⟩
  next => rfl

theorem Stepped.confined {s next : Spaces} {call} (stepped : Stepped s call next) (lodged : Lodged s) :
    (∀ b ∈ s.live, ¬ Concerns call b → next.seen b = s.seen b) ∧ Shows s next call := by
  have unborn : s.machine.created ∉ s.live := fun member => Nat.lt_irrefl _ (lodged.below _ member)
  cases stepped with
  | createRefused | regionRefused | copyRefused => exact ⟨fun _ _ _ => rfl, trivial⟩
  | created =>
    refine ⟨fun b live _ => seen_kept ?_ fun _ _ => rfl, trivial⟩
    simp [Machine.switchAs, Nat.ne_of_lt (lodged.below b live), Spaces.space]
  | region a vaddr sz inside as defined =>
    refine ⟨fun b live other => seen_kept ?_ fun _ _ => rfl, trivial⟩
    have different : b ≠ a := fun same => other same.symm
    simp [Machine.setAs, Spaces.select, different, Spaces.space]
  | prepared a member inside unprepared m prepares =>
    refine ⟨fun b live other => seen_kept ?_ fun paddr _ => congrFun prepares.ram paddr, trivial⟩
    exact prepares.others b fun same => other same.symm
  | copyFailed old m short prepares =>
    refine ⟨fun b live _ => seen_kept ?_ fun paddr _ => congrFun prepares.ram paddr, fun _ live => absurd live unborn⟩
    exact lodged.others_kept prepares live
  | copied old member m full found prepares =>
    have space (b : Nat) (live : b ∈ s.live) : m.spaces b = s.space b := lodged.others_kept prepares live
    obtain ⟨region1, region2, stack, copied⟩ := prepares.copied full
    refine ⟨fun b live _ => seen_kept (space b live) fun paddr mapped => ?_, fun ready _ => funext fun vaddr => ?_⟩
    · obtain ⟨block, obtained, spans⟩ := lodged.mapped_spans live mapped
      exact (copied.untouched (obtained_blocks obtained) spans).trans (congrFun prepares.ram paddr)
    · rw [← lodged.copy_shows member ready full prepares vaddr]
      have own : m.spaces s.machine.created = m.as := congrArg m.spaces prepares.vmspace.symm
      change (if (m.spaces s.machine.created).Ready then
        ((m.spaces s.machine.created).translate vaddr).map (m.filled (s.space old)).ram else none) = _
      rw [own]
  | destroyed a member => exact ⟨fun _ _ _ => rfl, trivial⟩
  | allocated npages system taken => exact ⟨fun _ _ _ => rfl, trivial⟩
  | freed block system taken => exact ⟨fun _ _ _ => rfl, trivial⟩
  | stored a vaddr byte member ready paddr mapped =>
    refine ⟨fun b live other => seen_kept rfl fun paddr' mapped' => if_neg ?_, ?_⟩
    · rintro rfl
      exact Set.disjoint_left.mp (lodged.isolated.spaces a member b live other) ⟨ready, vaddr, mapped⟩ mapped'
    · change (if (s.space a).Ready then ((s.space a).translate vaddr).map (s.machine.setByte paddr byte).ram else none) = _
      rw [if_pos ready, mapped]
      simp [Machine.setByte]

/-- In every run that defines regions before it takes frames for them, address spaces share
no memory, and what one shows changes only by calls about it. -/
theorem spaces_isolated (s : Spaces) (initial : s.Initial) (calls : List SpaceCall)
    (ordered : EachStep spaceStep Ordered s calls) :
    Always spaceStep Isolated s calls ∧ EachStep spaceStep Confined s calls := by
  have start : Lodged s := ⟨initial.owned.toTracked, by simp [initial.live]⟩
  have always : Always spaceStep Lodged s calls := by
    refine always_of_steps ?_ start ordered
    intro before call next lodged taken ordered
    exact (stepped lodged.held taken).lodged lodged ordered
  refine ⟨always.mono fun _ lodged => lodged.isolated, EachStep.of_always ?_ always⟩
  intro before call _ lodged _ _ next taken
  exact (stepped lodged.held taken).confined lodged

/-- A program is loaded, forks, and both processes write to the same address. -/
def forkAndStore : List SpaceCall :=
  [.asCreate true, .asDefineRegion 1 0x400000 4096, .asDefineRegion 1 0x10000000 4096, .asPrepareLoad 1,
    .asCopy 1 true, .store 1 0x400000 7, .store 2 0x400000 9]

theorem spaces_isolated_fork :
    ∃ system, boot sixtyPages = some system ∧ EachStep spaceStep Ordered (bootSpaces system) forkAndStore ∧
      Always spaceStep Isolated (bootSpaces system) forkAndStore ∧
      EachStep spaceStep Confined (bootSpaces system) forkAndStore := by
  have ordered : EachStep spaceStep Ordered (bootSpaces ((boot sixtyPages).get (by decide))) forkAndStore := by
    intro created taken
    cases taken
    refine ⟨trivial, fun first taken => ?_⟩
    cases taken
    refine ⟨.inl rfl, fun second taken => ?_⟩
    cases taken
    refine ⟨.inl rfl, fun _ _ => ⟨trivial, fun _ _ => ⟨trivial, fun _ _ => ⟨trivial, fun _ _ => ⟨trivial, trivial⟩⟩⟩⟩⟩
  exact ⟨_, (some_get _).symm, ordered,
    spaces_isolated _ (bootSpaces_initial (some_get _).symm) _ ordered⟩

/-- The second region starts at page 0, so that it can be defined again after frames were taken for it. -/
def regionRedefined : List SpaceCall :=
  [.asCreate true, .asDefineRegion 1 0x400000 4096, .asDefineRegion 1 0 4096, .asPrepareLoad 1,
    .asCreate true, .asDefineRegion 2 0x400000 4096, .asDefineRegion 2 0x10000000 4096, .asPrepareLoad 2,
    .asDefineRegion 1 0x10000000 (26 * 4096)]

theorem redefined_region_shared :
    ∃ system final, boot sixtyPages = some system ∧
      run spaceStep (bootSpaces system) regionRedefined = some final ∧ ¬ Isolated final := by
  have computed : ((boot sixtyPages).bind fun system => run spaceStep (bootSpaces system) regionRedefined).map
      (fun final => (final.live, final.space 1, final.space 2)) =
        some ([2, 1], ⟨0x400000, 4096, 1, 0x10000000, 8192, 26, 12288⟩,
          ⟨0x400000, 110592, 1, 0x10000000, 114688, 1, 118784⟩) := by decide +kernel
  obtain ⟨final, reached, seen⟩ := map_eq_some_iff.mp computed
  obtain ⟨system, booted, reached⟩ := bind_eq_some_iff.mp reached
  simp only [Prod.mk.injEq] at seen
  obtain ⟨live, first, second⟩ := seen
  refine ⟨system, final, booted, reached, fun isolated => ?_⟩
  have disjoint := isolated.spaces 1 (by simp [live]) 2 (by simp [live]) (by decide)
  have one : 110592 ∈ final.mapped 1 := by
    rw [Spaces.mapped, first]
    exact ⟨by decide, 0x10000000 + 25 * 4096, by decide⟩
  have two : 110592 ∈ final.mapped 2 := by
    rw [Spaces.mapped, second]
    exact ⟨by decide, 0x400000, by decide⟩
  exact Set.disjoint_left.mp disjoint one two

/-- A copy of an address space without frames gets frames. -/
theorem unprepared_copy_differs :
    ∃ system before after, boot sixtyPages = some system ∧
      run spaceStep (bootSpaces system) [.asCreate true, .asDefineRegion 1 0x400000 4096,
        .asDefineRegion 1 0x10000000 4096] = some before ∧
      spaceStep before (.asCopy 1 true) = some after ∧ 2 ∈ after.live ∧
      before.seen 1 0x400000 = none ∧ after.seen 2 0x400000 = some 0 := by
  have computed : ((boot sixtyPages).bind fun system => (run spaceStep (bootSpaces system) [.asCreate true,
      .asDefineRegion 1 0x400000 4096, .asDefineRegion 1 0x10000000 4096]).bind fun before =>
      (spaceStep before (.asCopy 1 true)).map fun after =>
        (decide (2 ∈ after.live), before.seen 1 0x400000, after.seen 2 0x400000)) = some (true, none, some 0) := by
    decide +kernel
  obtain ⟨system, booted, rest⟩ := bind_eq_some_iff.mp computed
  obtain ⟨before, reached, rest⟩ := bind_eq_some_iff.mp rest
  obtain ⟨after, copied, seen⟩ := map_eq_some_iff.mp rest
  simp only [Prod.mk.injEq, decide_eq_true_eq] at seen
  exact ⟨system, before, after, booted, reached, copied, seen⟩

/-- Calls in another order than the loader's. -/
theorem disordered_calls_share :
    (∃ system final, boot sixtyPages = some system ∧
      run spaceStep (bootSpaces system) regionRedefined = some final ∧ ¬ Isolated final) ∧
    ∃ system before after, boot sixtyPages = some system ∧
      run spaceStep (bootSpaces system) [.asCreate true, .asDefineRegion 1 0x400000 4096,
        .asDefineRegion 1 0x10000000 4096] = some before ∧
      spaceStep before (.asCopy 1 true) = some after ∧ 2 ∈ after.live ∧
      before.seen 1 0x400000 = none ∧ after.seen 2 0x400000 = some 0 :=
  ⟨redefined_region_shared, unprepared_copy_differs⟩

end Os161.Vm
