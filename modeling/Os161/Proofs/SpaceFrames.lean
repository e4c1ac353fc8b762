import Os161.Proofs.ProgramSpace
import Os161.Spaces

/-! Which frames are taken for address spaces, and that `as_destroy` gives none of them
back. -/

namespace Os161.Vm
open Runs Frames Routine List Option

theorem blockAt_frame (cm : Coremap) (start npages : Nat) (nonzero : cm.frame start ≠ 0) :
    blockAt cm.freepaddr (cm.frame start) npages = [⟨start, npages⟩] := by
  rw [blockAt, if_neg nonzero, frame_index]

structure Machine.Obtains (m m' : Machine) : Prop where
  ram : m'.ram = m.ram
  ramsize : m'.ramsize = m.ramsize
  created : m'.created = m.created
  vmspace : m'.vmspace = m.vmspace
  others : ∀ a, a ≠ m.vmspace → m'.spaces a = m.spaces a

theorem take_obtains (m : Machine) (npages : Nat) (store : AddrSpace → Nat → AddrSpace) :
    m.Obtains (m.take npages store) := by
  refine ⟨rfl, rfl, rfl, rfl, fun a other => ?_⟩
  simp [Machine.take, Machine.setAs, other]

theorem Machine.Obtains.trans {m m' m'' : Machine} (first : m.Obtains m') (second : m'.Obtains m'') :
    m.Obtains m'' := by
  refine ⟨second.ram.trans first.ram, second.ramsize.trans first.ramsize, second.created.trans first.created,
    second.vmspace.trans first.vmspace, fun a other => ?_⟩
  rw [second.others a (by rw [first.vmspace]; exact other), first.others a other]

structure Prepares (m : Machine) (live : List Block) (m' : Machine) : Prop extends m.Obtains m' where
  held : Held ⟨m'.cm, m'.as.blocks m.cm.freepaddr ++ live⟩
  base : m'.cm.freepaddr = m.cm.freepaddr
  regions : m'.as.regions = m.as.regions
  first : m'.as.pbase1 = (cmGetppages m.cm m.as.npages1).1
  untouched : m'.as.pbase1 = 0 → m'.cm = m.cm ∧ m'.as.blocks m.cm.freepaddr = []
  placed : m'.as.stackpbase ≠ 0 → ∃ start1 start2 start3, m'.as.pbase1 = m.cm.frame start1 ∧
    m'.as.pbase2 = m.cm.frame start2 ∧ m'.as.stackpbase = m.cm.frame start3 ∧
    m'.as.blocks m.cm.freepaddr = [⟨start3, dumbvmStackpages⟩, ⟨start2, m.as.npages2⟩, ⟨start1, m.as.npages1⟩]

theorem asPrepareLoad_prepares {m live} (held : Held ⟨m.cm, live⟩)
    (unprepared : m.as.Unprepared) :
    ∃ result m', asPrepareLoad m = some (result, m') ∧ Prepares m live m' ∧
      (result = .ok () ↔ m'.as.stackpbase ≠ 0) := by
  rw [asPrepareLoad, bind_ok rfl, bind_ok (require_pos unprepared)]
  obtain ⟨none1, none2, none3⟩ := unprepared
  rcases getppages_grants held m.as.npages1 with ⟨one, cm1⟩ | ⟨start1, one, nonzero1, base1, held1⟩
  · refine ⟨_, _, bind_error (takeFrames_error one), ?_, by simp [take_as, none3]⟩
    have same : (m.take m.as.npages1 fun as pbase1 => { as with pbase1 }).as = m.as := by
      rw [take_as, one, ← none1]
    have nothing : m.as.blocks m.cm.freepaddr = [] := by simp [AddrSpace.blocks, blockAt, none1, none2, none3]
    refine ⟨take_obtains _ _ _, ?_, by rw [take_cm, cm1], by rw [same], by rw [same, none1, one],
      fun _ => ⟨cm1, by rw [same, nothing]⟩, by rw [same]; exact fun found => absurd none3 found⟩
    rw [same, take_cm, cm1, nothing]
    exact held
  rw [bind_ok (takeFrames_ok (by rw [one]; exact nonzero1))]
  have block1 := blockAt_frame m.cm start1 m.as.npages1 nonzero1
  have frame1 (start : Nat) : (cmGetppages m.cm m.as.npages1).2.frame start = m.cm.frame start := by
    rw [Coremap.frame, base1, Coremap.frame]
  rcases getppages_grants held1 m.as.npages2 with ⟨two, cm2⟩ | ⟨start2, two, nonzero2, base2, held2⟩
  · refine ⟨_, _, bind_error (takeFrames_error two), ?_, by simp [take_as, none3]⟩
    refine ⟨(take_obtains _ _ _).trans (take_obtains _ _ _), ?_, ?_, ?_, ?_, ?_, ?_⟩
    · simp only [take_as, take_cm, one, two, cm2, AddrSpace.blocks, none3, block1]
      simpa [blockAt] using held1
    · simp only [take_cm, cm2, base1]
    · simp only [take_as, AddrSpace.regions]
    · simp only [take_as]
    · simp only [take_as, one]
      exact fun zero => absurd zero nonzero1
    · simp only [take_as]
      exact fun found => absurd none3 found
  rw [bind_ok (takeFrames_ok (m := m.take _ _) (by rw [take_cm, two]; exact nonzero2))]
  rw [frame1] at two nonzero2
  have block2 := blockAt_frame m.cm start2 m.as.npages2 nonzero2
  rcases getppages_grants held2 dumbvmStackpages with ⟨three, cm3⟩ | ⟨start3, three, nonzero3, base3, held3⟩
  · refine ⟨_, _, takeFrames_error (m := (m.take _ _).take _ _) three, ?_, by simp [take_as, take_cm, three]⟩
    refine ⟨((take_obtains _ _ _).trans (take_obtains _ _ _)).trans (take_obtains _ _ _), ?_, ?_, ?_, ?_, ?_, ?_⟩
    · simp only [take_as, take_cm, one, two, three, cm3, AddrSpace.blocks, block1, block2]
      simpa [blockAt] using held2
    · simp only [take_cm, cm3, base2, base1]
    · simp only [take_as, AddrSpace.regions]
    · simp only [take_as]
    · simp only [take_as, one]
      exact fun zero => absurd zero nonzero1
    · simp only [take_as, take_cm, three]
      exact fun found => absurd rfl found
  rw [Coremap.frame, base2, ← Coremap.frame, frame1] at three nonzero3
  have block3 := blockAt_frame m.cm start3 dumbvmStackpages nonzero3
  have found3 : (cmGetppages (cmGetppages (cmGetppages m.cm m.as.npages1).2 m.as.npages2).2 dumbvmStackpages).1 ≠ 0 := by
    rw [three]
    exact nonzero3
  refine ⟨_, _, takeFrames_ok (m := (m.take _ _).take _ _) found3, ?_, by simpa [take_as, take_cm] using found3⟩
  refine ⟨((take_obtains _ _ _).trans (take_obtains _ _ _)).trans (take_obtains _ _ _), ?_, ?_, ?_, ?_, ?_, ?_⟩
  · simp only [take_as, take_cm, one, two, three, AddrSpace.blocks, block1, block2, block3]
    exact held3
  · simp only [take_cm, base3, base2, base1]
  · simp only [take_as, AddrSpace.regions]
  · simp only [take_as]
  · simp only [take_as, one]
    exact fun zero => absurd zero nonzero1
  · intro _
    simp only [take_as, take_cm, one, two, three, AddrSpace.blocks, block1, block2, block3]
    exact ⟨start1, start2, start3, rfl, rfl, rfl, rfl⟩

def Machine.filled (m : Machine) (old : AddrSpace) : Machine :=
  ((m.moved m.as.pbase1 old.pbase1 (old.npages1 * pageSize)).moved
    m.as.pbase2 old.pbase2 (old.npages2 * pageSize)).moved
      m.as.stackpbase old.stackpbase (dumbvmStackpages * pageSize)

theorem memmove_cases (m : Machine) (dest src len : Nat) :
    memmove dest src len m = some (.ok (), m.moved dest src len) ∨ memmove dest src len m = none := by
  by_cases fits : len = 0 ∨ src + len ≤ m.ramsize ∧ dest + len ≤ m.ramsize
  · left
    rw [memmove, bind_ok rfl, bind_ok (require_pos fits)]
    rfl
  · right
    rw [memmove, bind_ok rfl, bind_halts (require_neg fits)]

theorem memmove_passed {m dest src len next}
    {outcome : Except Errno Unit × Machine} (moves : (memmove dest src len >>= next) m = some outcome) :
    next () (m.moved dest src len) = some outcome := by
  rcases memmove_cases m dest src len with moved | halts
  · rwa [bind_ok moved] at moves
  · rw [bind_halts halts] at moves
    cases moves

namespace Spaces

def blocks (s : Spaces) : List Block := s.obtained.map Prod.snd ++ s.kernel

def copying (s : Spaces) (old : Nat) : Machine :=
  (s.machine.switchAs s.machine.cm).setAs (s.space old).regions

end Spaces

/-- What a call does, when the blocks that were handed out are held. -/
inductive Stepped (s : Spaces) : SpaceCall → Spaces → Prop where
  | createRefused : Stepped s (.asCreate false) s
  | created : Stepped s (.asCreate true)
      { s with machine := s.machine.switchAs s.machine.cm, live := s.machine.created :: s.live }
  | regionRefused (a vaddr sz : Nat) : Stepped s (.asDefineRegion a vaddr sz) s
  | region (a vaddr sz : Nat) (inside : a < s.machine.created) (as : AddrSpace)
      (defined : asDefineRegion (s.space a) vaddr sz = .ok as) :
      Stepped s (.asDefineRegion a vaddr sz) { s with machine := (s.select a inside).setAs as }
  | prepared (a : Nat) (member : a ∈ s.live) (inside : a < s.machine.created) (unprepared : (s.space a).Unprepared) (m : Machine)
      (prepares : Prepares (s.select a inside) s.blocks m) : Stepped s (.asPrepareLoad a) (s.prepared m)
  | copyRefused (old : Nat) : Stepped s (.asCopy old false) s
  | copyFailed (old : Nat) (m : Machine) (short : Vm.prepared s.machine.cm (s.space old).regions = none)
      (prepares : Prepares (s.copying old) s.blocks m) : Stepped s (.asCopy old true) (s.prepared m)
  | copied (old : Nat) (member : old ∈ s.live) (m : Machine) (full : m.as.stackpbase ≠ 0)
      (found : Vm.prepared s.machine.cm (s.space old).regions ≠ none)
      (prepares : Prepares (s.copying old) s.blocks m) :
      Stepped s (.asCopy old true) { s.prepared (m.filled (s.space old)) with live := m.vmspace :: s.live }
  | destroyed (a : Nat) (member : a ∈ s.live) : Stepped s (.asDestroy a) { s with live := s.live.erase a }
  | allocated (npages : Nat) (system : System) (taken : step s.frames (.getppages npages) = some system) :
      Stepped s (.allocKpages npages) (s.setFrames system)
  | freed (block : Block) (system : System) (taken : step s.frames (.freekpages block) = some system) :
      Stepped s (.freeKpages block) (s.setFrames system)
  | stored (a vaddr : Nat) (byte : UInt8) (member : a ∈ s.live) (ready : (s.space a).Ready) (paddr : Nat)
      (mapped : (s.space a).translate vaddr = some paddr) :
      Stepped s (.store a vaddr byte) { s with machine := s.machine.setByte paddr byte }

theorem asCopy_eq {old m m' live} {result : Except Errno Unit}
    (held : Held ⟨m.cm, live⟩) (copies : asCopy old m = some (result, m')) :
    ∃ middle, Prepares ((m.switchAs m.cm).setAs old.regions) live middle ∧
      ((result = .error .enomem ∧ m' = middle ∧ prepared m.cm old.regions = none) ∨
        (result = .ok () ∧ m' = middle.filled old ∧ middle.as.stackpbase ≠ 0 ∧ prepared m.cm old.regions ≠ none)) := by
  have regions : ((m.switchAs m.cm).setAs old.regions).as = old.regions := setAs_as _ _
  have unprepared : ((m.switchAs m.cm).setAs old.regions).as.Unprepared := by
    rw [regions]
    exact ⟨rfl, rfl, rfl⟩
  obtain ⟨outcome, middle, run, prepares, exact_⟩ :=
    @asPrepareLoad_prepares ((m.switchAs m.cm).setAs old.regions) live held unprepared
  refine ⟨middle, prepares, ?_⟩
  rw [asCopy, bind_ok rfl, bind_ok (attempt_eq run)] at copies
  cases outcome with
  | error code =>
    cases copies
    refine .inl ⟨rfl, rfl, ?_⟩
    by_contra found
    obtain ⟨as, found⟩ := ne_none_iff_exists'.mp found
    obtain ⟨_, other, _⟩ := @asPrepareLoad_ok _ as unprepared (by rw [regions]; exact found)
    rw [run] at other
    cases other
  | ok =>
    have full := exact_.mp rfl
    have found : prepared m.cm old.regions ≠ none := by
      intro none
      obtain ⟨_, other, _⟩ := @asPrepareLoad_error _ unprepared (by rw [regions]; exact none)
      rw [run] at other
      cases other
    have passed := require_passed (require_passed (require_passed copies))
    have last := memmove_passed (memmove_passed passed)
    rcases memmove_cases _ _ _ _ with moved | halts
    · rw [moved] at last
      cases last
      exact .inr ⟨rfl, rfl, full, found⟩
    · rw [halts] at last
      cases last

theorem stepped {s next call} (held : Held ⟨s.machine.cm, s.blocks⟩)
    (taken : spaceStep s call = some next) : Stepped s call next := by
  cases call with
  | asCreate granted =>
    cases granted with
    | false => cases taken; exact .createRefused
    | true => cases taken; exact .created
  | asDefineRegion a vaddr sz =>
    simp only [spaceStep] at taken
    split at taken
    next inside =>
      split at taken
      next as defined => cases taken; exact .region a vaddr sz inside.2 as defined
      next => cases taken; exact .regionRefused a vaddr sz
    next => cases taken
  | asPrepareLoad a =>
    simp only [spaceStep] at taken
    split at taken
    next inside =>
      obtain ⟨outcome, run, rfl⟩ := map_eq_some_iff.mp taken
      by_cases unprepared : (s.select a inside.2).as.Unprepared
      · obtain ⟨result, m, prepared, prepares, _⟩ := @asPrepareLoad_prepares (s.select a inside.2) s.blocks held unprepared
        rw [prepared] at run
        cases run
        exact .prepared a inside.1 inside.2 unprepared m prepares
      · rw [asPrepareLoad, bind_ok rfl, bind_halts (require_neg unprepared)] at run
        cases run
    next => cases taken
  | asCopy old granted =>
    simp only [spaceStep] at taken
    split at taken
    next member =>
      cases granted with
      | false => cases taken; exact .copyRefused old
      | true =>
        obtain ⟨⟨result, m⟩, run, rfl⟩ := map_eq_some_iff.mp taken
        obtain ⟨middle, prepares, ⟨rfl, rfl, short⟩ | ⟨rfl, rfl, full, found⟩⟩ := asCopy_eq held run
        · exact .copyFailed old _ short prepares
        · exact .copied old member middle full found prepares
    next => cases taken
  | asDestroy a =>
    simp only [spaceStep] at taken
    split at taken
    next member => cases taken; exact .destroyed a member
    next => cases taken
  | allocKpages npages =>
    obtain ⟨system, run, rfl⟩ := map_eq_some_iff.mp taken
    exact .allocated npages system run
  | freeKpages block =>
    obtain ⟨system, run, rfl⟩ := map_eq_some_iff.mp taken
    exact .freed block system run
  | store a vaddr byte =>
    simp only [spaceStep] at taken
    split at taken
    next inside =>
      obtain ⟨paddr, mapped, rfl⟩ := map_eq_some_iff.mp taken
      exact .stored a vaddr byte inside.1 inside.2 paddr mapped
    next => cases taken

/-- In every run all blocks handed out to address spaces stay held, and an address space has a block once its first
region has frames. -/
structure Tracked (s : Spaces) : Prop where
  held : Held ⟨s.machine.cm, s.blocks⟩
  below : ∀ a ∈ s.live, a < s.machine.created
  nodup : s.live.Nodup
  recorded : ∀ a block, (a, block) ∈ s.obtained → a < s.machine.created ∧ (s.space a).pbase1 ≠ 0
  based : ∀ a ∈ s.live, (s.space a).pbase1 ≠ 0 → ∃ block, (a, block) ∈ s.obtained

theorem Tracked.same_frames {s} (tracked : Tracked s) {m live}
    (cm : m.cm = s.machine.cm) (created : s.machine.created ≤ m.created)
    (bases : ∀ a, a < s.machine.created → (m.spaces a).pbase1 = (s.space a).pbase1)
    (members : ∀ a ∈ live, a ∈ s.live ∨ a < m.created ∧ (m.spaces a).pbase1 = 0) (nodup : live.Nodup) :
    Tracked { s with machine := m, live } := by
  refine ⟨by rw [cm]; exact tracked.held, fun a member => ?_, nodup, ?_, ?_⟩
  · rcases members a member with old | ⟨inside, _⟩
    · exact Nat.lt_of_lt_of_le (tracked.below a old) created
    · exact inside
  · intro a block member
    obtain ⟨inside, nonzero⟩ := tracked.recorded a block member
    exact ⟨Nat.lt_of_lt_of_le inside created, by rw [Spaces.space, bases a inside]; exact nonzero⟩
  · intro a member nonzero
    rcases members a member with old | ⟨_, zero⟩
    · exact tracked.based a old (by rw [← bases a (tracked.below a old)]; exact nonzero)
    · exact absurd zero nonzero

theorem mem_blocks {as : AddrSpace} (freepaddr : Nat) (nonzero : as.pbase1 ≠ 0) :
    ∃ block, block ∈ as.blocks freepaddr := by
  refine ⟨⟨(as.pbase1 - freepaddr) / pageSize, as.npages1⟩, ?_⟩
  simp [AddrSpace.blocks, blockAt, nonzero]

theorem Tracked.prepared {s} (tracked : Tracked s) {m m'} (prepares : Prepares m s.blocks m')
    (created : ∀ a, a < m.created ↔ a = m.vmspace ∨ a < s.machine.created)
    (others : ∀ a, a ≠ m.vmspace → m.spaces a = s.space a) (fresh : ∀ block, (m.vmspace, block) ∉ s.obtained)
    {live} (members : ∀ a ∈ live, a = m.vmspace ∨ a ∈ s.live) (nodup : live.Nodup) :
    Tracked { s.prepared m' with live } := by
  have spaces (a : Nat) (other : a ≠ m.vmspace) : (s.prepared m').space a = s.space a := by
    rw [← others a other]
    exact prepares.others a other
  have own : (s.prepared m').space m.vmspace = m'.as := by
    rw [← prepares.vmspace]
    rfl
  have member (a : Nat) (block : Block) : (a, block) ∈ (s.prepared m').obtained ↔
      (a = m.vmspace ∧ block ∈ m'.as.blocks m.cm.freepaddr) ∨ (a, block) ∈ s.obtained := by
    simp [Spaces.prepared, prepares.base, prepares.vmspace, and_comm, eq_comm]
  have inside (a : Nat) : a < (s.prepared m').machine.created ↔ a = m.vmspace ∨ a < s.machine.created := by
    rw [← created a, ← prepares.created]
    rfl
  refine ⟨?_, fun a live => (inside a).mpr ((members a live).imp_right (tracked.below a)), nodup, ?_, ?_⟩
  · have held := prepares.held
    rw [← prepares.base] at held
    simpa [Spaces.blocks, Spaces.prepared, Function.comp_def] using held
  · intro a block here
    rcases (member a block).mp here with ⟨rfl, new⟩ | old
    · refine ⟨(inside _).mpr (.inl rfl), fun zero => ?_⟩
      rw [(prepares.untouched (own ▸ zero)).2] at new
      cases new
    · have other : a ≠ m.vmspace := by
        rintro rfl
        exact fresh block old
      obtain ⟨before, nonzero⟩ := tracked.recorded a block old
      refine ⟨(inside a).mpr (.inr before), fun zero => nonzero ?_⟩
      rw [← spaces a other]
      exact zero
  · intro a live nonzero
    by_cases current : a = m.vmspace
    · subst current
      obtain ⟨block, here⟩ := mem_blocks m.cm.freepaddr (own ▸ nonzero)
      exact ⟨block, (member _ block).mpr (.inl ⟨rfl, here⟩)⟩
    · obtain ⟨block, here⟩ := tracked.based a ((members a live).resolve_left current) (spaces a current ▸ nonzero)
      exact ⟨block, (member a block).mpr (.inr here)⟩

theorem Tracked.frames {s} (tracked : Tracked s) {call system}
    (taken : step s.frames call = some system) : Tracked (s.setFrames system) := by
  refine ⟨?_, tracked.below, tracked.nodup, tracked.recorded, tracked.based⟩
  have before : Held ⟨s.machine.cm, s.kernel ++ s.obtained.map Prod.snd⟩ := tracked.held.perm perm_append_comm
  exact (step_held before (step_append taken)).perm perm_append_comm

theorem Tracked.copying_fresh {s} (tracked : Tracked s) (block : Block) :
    (s.machine.created, block) ∉ s.obtained :=
  fun member => Nat.lt_irrefl _ (tracked.recorded _ block member).1

theorem copying_others {s : Spaces} {old a} (other : a ≠ s.machine.created) :
    (s.copying old).spaces a = s.space a := by
  simp [Spaces.copying, Machine.setAs, Machine.switchAs, other, Spaces.space]

theorem Prepares.copying_first {s : Spaces} {old m} (prepares : Prepares (s.copying old) s.blocks m) :
    m.as.pbase1 = (cmGetppages s.machine.cm (s.space old).npages1).1 := by
  have regions : (s.copying old).as = (s.space old).regions := setAs_as _ _
  rw [prepares.first, regions]
  rfl

theorem Tracked.copying {s : Spaces} (tracked : Tracked s) {old m}
    (prepares : Prepares (s.copying old) s.blocks m) {live}
    (members : ∀ a ∈ live, a = s.machine.created ∨ a ∈ s.live) (nodup : live.Nodup) :
    Tracked { s.prepared m with live } := by
  refine tracked.prepared prepares (fun a => ?_) (fun a other => copying_others other) tracked.copying_fresh members nodup
  change a < s.machine.created + 1 ↔ a = s.machine.created ∨ a < s.machine.created
  omega

theorem asDefineRegion_bases {as as' vaddr sz} (defined : asDefineRegion as vaddr sz = .ok as') :
    as'.pbase1 = as.pbase1 ∧ as'.pbase2 = as.pbase2 ∧ as'.stackpbase = as.stackpbase := by
  simp only [asDefineRegion] at defined
  split at defined
  · cases defined
    exact ⟨rfl, rfl, rfl⟩
  · split at defined
    · cases defined
      exact ⟨rfl, rfl, rfl⟩
    · cases defined

theorem Stepped.tracked {s next call} (stepped : Stepped s call next) (tracked : Tracked s) :
    Tracked next := by
  have unborn : s.machine.created ∉ s.live := fun member => Nat.lt_irrefl _ (tracked.below _ member)
  cases stepped with
  | createRefused | regionRefused | copyRefused => exact tracked
  | created =>
    refine tracked.same_frames rfl (Nat.le_succ _) (fun a inside => ?_) (fun a member => ?_)
      (nodup_cons.mpr ⟨unborn, tracked.nodup⟩)
    · simp [Machine.switchAs, Nat.ne_of_lt inside, Spaces.space]
    · rcases mem_cons.mp member with rfl | old
      · exact .inr ⟨Nat.lt_succ_self _, by simp [Machine.switchAs, asCreate]⟩
      · exact .inl old
  | region a vaddr sz inside as defined =>
    refine tracked.same_frames rfl (Nat.le_refl _) (fun b _ => ?_) (fun _ member => .inl member) tracked.nodup
    simp only [Machine.setAs]
    split
    next same => rw [same]; exact (asDefineRegion_bases defined).1
    next => rfl
  | prepared a member inside unprepared m prepares =>
    refine tracked.prepared prepares (fun b => ?_) (fun _ _ => rfl) (fun block obtained => ?_)
      (fun _ live => .inr live) tracked.nodup
    · change b < s.machine.created ↔ b = a ∨ b < s.machine.created
      omega
    · exact (tracked.recorded a block obtained).2 unprepared.1
  | copyFailed old m short prepares => exact tracked.copying prepares (fun _ live => .inr live) tracked.nodup
  | copied old member m full found prepares =>
    have current : m.vmspace = s.machine.created := prepares.vmspace
    have copied := tracked.copying prepares (fun a live => mem_cons.mp live)
      (nodup_cons.mpr ⟨unborn, tracked.nodup⟩)
    rw [current]
    exact copied.same_frames rfl (Nat.le_refl _) (fun _ _ => rfl) (fun _ live => .inl live) copied.nodup
  | destroyed a member =>
    exact tracked.same_frames rfl (Nat.le_refl _) (fun _ _ => rfl) (fun b still => .inl (mem_of_mem_erase still))
      (tracked.nodup.erase a)
  | allocated npages system taken => exact tracked.frames taken
  | freed block system taken => exact tracked.frames taken
  | stored a vaddr byte member ready paddr mapped =>
    exact tracked.same_frames rfl (Nat.le_refl _) (fun _ _ => rfl) (fun _ live => .inl live) tracked.nodup

/-- A frame in use that was taken for an address space belongs to a live one, unless it was freed in between. -/
def NoLeak (s : Spaces) : Prop :=
  ∀ a block i, (a, block) ∈ s.obtained → block.Covers i → s.frames.Used i →
    (∃ b other, (b, other) ∈ s.obtained ∧ b ∈ s.live ∧ other.Covers i) ∨ ∃ other ∈ s.kernel, other.Covers i

/-- A failing `as_copy` leaves the coremap alone, and `as_destroy` frees what the address space obtained. -/
def Returns (s : Spaces) : SpaceCall → Prop
  | .asCopy old true => ∀ code m, asCopy (s.space old) s.machine = some (.error code, m) → m.cm = s.machine.cm
  | .asDestroy a => ∀ next, spaceStep s (.asDestroy a) = some next → ∀ block i, (a, block) ∈ s.obtained →
      block.Covers i → ¬ next.frames.Used i
  | _ => True

/-- Only address spaces without frames are destroyed, and frames for a copy are missing at once or not at all. -/
def Harmless (s : Spaces) : SpaceCall → Prop
  | .asCopy old true => (cmGetppages s.machine.cm (s.space old).npages1).1 = 0 ∨
      prepared s.machine.cm (s.space old).regions ≠ none
  | .asDestroy a => (s.space a).pbase1 = 0
  | _ => True

structure Owned (s : Spaces) : Prop extends Tracked s where
  owned : ∀ a block, (a, block) ∈ s.obtained → a ∈ s.live

theorem Tracked.obtained_apart {s} (tracked : Tracked s) {a b first second}
    (one : (a, first) ∈ s.obtained) (other : (b, second) ∈ s.obtained) (different : a ≠ b) : Apart first second := by
  have apart := pairwise_map.mp (pairwise_append.mp tracked.held.disjoint).1
  have symmetric : Std.Symm fun first second : Nat × Block => Apart first.2 second.2 :=
    ⟨fun first second distinct i both => distinct i both.symm⟩
  exact apart.forall one other fun same => different (Prod.mk.inj same).1

theorem Tracked.leaks {s} (tracked : Tracked s) {a block} (member : (a, block) ∈ s.obtained)
    (gone : a ∉ s.live) : ¬ NoLeak s := by
  intro clean
  have listed : block ∈ s.obtained.map Prod.snd := mem_map_of_mem member
  have positive := (tracked.held.sized block (mem_append_left _ listed)).1
  have covered : block.Covers block.start := ⟨Nat.le_refl _, by omega⟩
  have used := tracked.held.used block (mem_append_left _ listed) block.start covered
  rcases clean a block block.start member covered used with ⟨b, other, here, live, covers⟩ | ⟨other, here, covers⟩
  · by_cases same : a = b
    · subst same
      exact gone live
    · exact tracked.obtained_apart member here same block.start ⟨covered, covers⟩
  · have across := (pairwise_append.mp tracked.held.disjoint).2.2
    exact across block listed other here block.start ⟨covered, covers⟩

theorem Owned.noLeak {s} (owned : Owned s) : NoLeak s :=
  fun a block _ member covered _ => .inl ⟨a, block, member, owned.owned a block member, covered⟩

theorem Prepares.obtained {s : Spaces} {m m'} (prepares : Prepares m s.blocks m') {a block}
    (member : (a, block) ∈ (s.prepared m').obtained) :
    (a = m.vmspace ∧ m'.as.pbase1 ≠ 0) ∨ (a, block) ∈ s.obtained := by
  rcases mem_append.mp member with new | old
  · obtain ⟨_, here, same⟩ := mem_map.mp new
    cases same
    refine .inl ⟨prepares.vmspace, fun zero => ?_⟩
    rw [prepares.base, (prepares.untouched zero).2] at here
    cases here
  · exact .inr old

theorem Stepped.owned {s next : Spaces} {call} (stepped : Stepped s call next) (owned : Owned s)
    (harmless : Harmless s call) : Owned next := by
  refine ⟨stepped.tracked owned.toTracked, fun b block member => ?_⟩
  cases stepped with
  | createRefused | regionRefused | copyRefused | region | allocated | freed | stored =>
    exact owned.owned b block member
  | created => exact mem_cons_of_mem _ (owned.owned b block member)
  | prepared a here inside unprepared m prepares =>
    rcases prepares.obtained member with ⟨rfl, _⟩ | before
    · exact here
    · exact owned.owned b block before
  | copyFailed old m short prepares =>
    rcases prepares.obtained member with ⟨_, nonzero⟩ | before
    · rw [prepares.copying_first] at nonzero
      exact absurd short (harmless.resolve_left nonzero)
    · exact owned.owned b block before
  | copied old here m full found prepares =>
    rcases prepares.obtained member with ⟨rfl, _⟩ | before
    · exact mem_cons.mpr (.inl prepares.vmspace.symm)
    · exact mem_cons_of_mem _ (owned.owned b block before)
  | destroyed a here =>
    refine (mem_erase_of_ne ?_).mpr (owned.owned b block member)
    rintro rfl
    exact (owned.recorded b block member).2 harmless

theorem Stepped.harmless {s next : Spaces} {call} (stepped : Stepped s call next) (owned : Owned s)
    (clean : NoLeak next) : Harmless s call := by
  have tracked := stepped.tracked owned.toTracked
  cases stepped with
  | createRefused | regionRefused | copyRefused | region | allocated | freed | stored | created | prepared => trivial
  | copyFailed old m short prepares =>
    left
    by_contra nonzero
    rw [← prepares.copying_first] at nonzero
    obtain ⟨block, here⟩ := mem_blocks m.cm.freepaddr nonzero
    refine tracked.leaks (mem_append_left _ (mem_map_of_mem here)) (fun live => ?_) clean
    rw [prepares.vmspace] at live
    exact Nat.lt_irrefl _ (owned.below _ live)
  | copied old member m full found prepares => exact .inr found
  | destroyed a member =>
    by_contra nonzero
    obtain ⟨block, here⟩ := owned.based a member nonzero
    exact tracked.leaks here owned.nodup.not_mem_erase clean

/-- A state in which no address space has frames yet. -/
structure Spaces.Initial (s : Spaces) : Prop where
  held : Held s.frames
  live : s.live = []
  obtained : s.obtained = []

theorem Spaces.Initial.owned {s} (initial : s.Initial) : Owned s := by
  obtain ⟨held, live, obtained⟩ := initial
  refine ⟨⟨?_, ?_, ?_, ?_, ?_⟩, ?_⟩
  · simpa [Spaces.blocks, obtained, Spaces.frames] using held
  all_goals simp [live, obtained]

theorem Stepped.returns {s next : Spaces} {call} (stepped : Stepped s call next) (owned : Owned s)
    (harmless : Harmless s call) : Returns s call := by
  cases stepped with
  | createRefused | regionRefused | copyRefused | region | allocated | freed | stored | created | prepared => trivial
  | copyFailed old m short prepares | copied old member m full found prepares =>
    intro code after failed
    obtain ⟨middle, prepares, ⟨_, rfl, short⟩ | ⟨wrong, _⟩⟩ := asCopy_eq owned.held failed
    · have zero := harmless.resolve_right (fun found => found short)
      exact (Prepares.untouched prepares ((Prepares.copying_first prepares).trans zero)).1
    · cases wrong
  | destroyed a member =>
    intro next taken block i obtained
    exact absurd harmless (owned.recorded a block obtained).2

/-- Frames come back exactly in the runs that destroy no address space with frames and in
which no copy fails at its second or third allocation. -/
theorem frames_return_iff (s : Spaces) (initial : s.Initial) (calls : List SpaceCall) :
    (Always spaceStep NoLeak s calls ∧ EachStep spaceStep Returns s calls) ↔ EachStep spaceStep Harmless s calls := by
  have iff : Always spaceStep NoLeak s calls ↔ EachStep spaceStep Harmless s calls := by
    refine always_iff_steps (fun _ owned => owned.noLeak) ?_ ?_ initial.owned
    · intro before call next owned taken harmless
      exact (stepped owned.held taken).owned owned harmless
    · intro before call next owned taken clean
      exact (stepped owned.held taken).harmless owned clean
  refine ⟨fun clean => iff.mp clean.1, fun harmless => ⟨iff.mpr harmless, ?_⟩⟩
  have always : Always spaceStep Owned s calls := by
    refine always_of_steps ?_ initial.owned harmless
    intro before call next owned taken harmless
    exact (stepped owned.held taken).owned owned harmless
  refine EachStep.of_always ?_ always
  intro before call next owned taken after
  have calls := stepped owned.held taken
  exact calls.returns owned (calls.harmless owned after.noLeak)

def sixtyPages : Ram := ⟨0, 60 * 4096, by decide, by decide⟩

def bootSpaces (system : System) : Spaces :=
  ⟨⟨fun _ => 0, 60 * 4096, by decide, system.cm, fun _ => asCreate, 1, 0, Nat.one_pos⟩, [], system.live, []⟩

theorem bootSpaces_initial {ram system} (booted : boot ram = some system) :
    (bootSpaces system).Initial := by
  have held := (boot_sound booted).held
  exact ⟨held, rfl, rfl⟩

/-- One address space gets frames, another one is destroyed before it does. -/
def unloadedExit : List SpaceCall :=
  [.asCreate true, .asDefineRegion 1 0x400000 4096, .asDefineRegion 1 0x10000000 4096, .asPrepareLoad 1,
    .asCreate true, .asDestroy 2]

theorem frames_return_unloaded_exit :
    ∃ system, boot sixtyPages = some system ∧
      ((Always spaceStep NoLeak (bootSpaces system) unloadedExit ∧
          EachStep spaceStep Returns (bootSpaces system) unloadedExit) ↔
        EachStep spaceStep Harmless (bootSpaces system) unloadedExit) :=
  ⟨_, rfl, frames_return_iff _ (@bootSpaces_initial sixtyPages _ rfl) _⟩

/-- The frames of an address space stay in use after `as_destroy`. -/
theorem destroyed_space_leaks :
    ∃ system final, boot sixtyPages = some system ∧
      run spaceStep (bootSpaces system) [.asCreate true, .asDefineRegion 1 0x400000 4096,
        .asDefineRegion 1 0x10000000 4096, .asPrepareLoad 1, .asDestroy 1] = some final ∧ ¬ NoLeak final := by
  have computed : ((boot sixtyPages).bind fun system => run spaceStep (bootSpaces system) [.asCreate true,
      .asDefineRegion 1 0x400000 4096, .asDefineRegion 1 0x10000000 4096, .asPrepareLoad 1, .asDestroy 1]).map
      (fun final => (final.live, final.kernel, final.obtained, (final.machine.cm.coremap.map CmEntry.free)[0]?)) =
        some ([], [], [(1, ⟨2, 24⟩), (1, ⟨1, 1⟩), (1, ⟨0, 1⟩)], some false) := by decide +kernel
  obtain ⟨final, reached, seen⟩ := map_eq_some_iff.mp computed
  obtain ⟨system, booted, reached⟩ := bind_eq_some_iff.mp reached
  simp only [Prod.mk.injEq] at seen
  obtain ⟨live, kernel, obtained, flag⟩ := seen
  refine ⟨system, final, booted, reached, fun clean => ?_⟩
  rw [List.getElem?_map, map_eq_some_iff] at flag
  have used := clean 1 ⟨0, 1⟩ 0 (by rw [obtained]; decide) (by decide) flag
  simp [live, kernel] at used

end Os161.Vm
