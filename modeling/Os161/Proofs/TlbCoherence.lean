import Os161.Proofs.SpaceIsolation
import Os161.Tlb

/-! The entries of the TLB are those `vm_fault` would make for the current thread. -/

namespace Os161.Tlb
open Vm Runs Option

structure Matches (tlb : Fin numTlb → Slot) (as : AddrSpace) : Prop where
  mapped : ∀ i, (tlb i).valid → as.Ready ∧ as.frame (tlb i).hi = some (tlb i).lo
  distinct : ∀ i j, (tlb i).valid → (tlb j).valid → (tlb i).hi = (tlb j).hi → i = j

/-- The thread is not between a store to `t_vmspace` and the end of `as_activate`. -/
def Phase.Settled : Phase → Prop
  | .stored _ => False
  | _ => True

structure Thread.Sane (thread : Thread) : Prop where
  handling : thread.missed.isSome → thread.phase = .running
  spaced : thread.phase ≠ .running → thread.phase ≠ .exited → thread.vmspace.isSome

/-- What the TLB has to be like while a thread is the current one. -/
structure Agrees (tlb : Fin numTlb → Slot) (spaces : Spaces) (thread : Thread) : Prop where
  coherent : ∀ a, thread.vmspace = some a → thread.phase.Settled → Matches tlb (spaces.space a)
  loading : thread.phase = .loading → ∀ i, (tlb i).valid = false
  missed : ∀ a page, thread.vmspace = some a → thread.missed = some page → ∀ i, (tlb i).valid → (tlb i).hi ≠ page

structure Sound (w : World) : Prop where
  tracked : Tracked w.spaces
  known : w.cur < w.forked
  sane : ∀ t, (w.threads t).Sane
  agrees : Agrees w.tlb w.spaces w.me

section Agrees

variable {tlb : Fin numTlb → Slot} {spaces : Spaces} {thread : Thread}

theorem matches_empty (empty : ∀ i, (tlb i).valid = false) (as : AddrSpace) : Matches tlb as := by
  constructor
  · intro i valid
    rw [empty i] at valid
    cases valid
  · intro i j valid
    rw [empty i] at valid
    cases valid

theorem agrees_empty (empty : ∀ i, (tlb i).valid = false) : Agrees tlb spaces thread := by
  refine ⟨fun a _ _ => matches_empty empty _, fun _ => empty, fun a page _ _ i valid => ?_⟩
  rw [empty i] at valid
  cases valid

theorem agrees_null (none : thread.vmspace = none) (sane : thread.Sane) : Agrees tlb spaces thread := by
  refine ⟨fun a some => ?_, fun loading => ?_, fun a page some => ?_⟩
  · rw [none] at some
    cases some
  · have spaced := sane.spaced (by simp [loading]) (by simp [loading])
    rw [none] at spaced
    cases spaced
  · rw [none] at some
    cases some

theorem agrees_stored {loads} (stored : thread.phase = .stored loads) (handled : thread.missed = none) :
    Agrees tlb spaces thread := by
  refine ⟨fun a _ settled => ?_, fun loading => ?_, fun a page _ missed => ?_⟩
  · rw [stored] at settled
    cases settled
  · rw [stored] at loading
    cases loading
  · rw [handled] at missed
    cases missed

end Agrees

section Worlds

variable {w : World}

@[simp] theorem setMe_me (thread : Thread) : (w.setMe thread).me = thread := by
  simp [World.me, World.setMe]

theorem setMe_sane (sane : ∀ t, (w.threads t).Sane) {thread} (own : thread.Sane) (t : Nat) :
    ((w.setMe thread).threads t).Sane := by
  simp only [World.setMe]
  split
  · exact own
  · exact sane t

theorem newThread_sane (entry : Option Nat) : (World.newThread entry).Sane :=
  ⟨fun missed => (by cases missed), fun running => absurd rfl running⟩

/-- The end of a context switch: the TLB is flushed unless the next thread has no address
space. -/
theorem resume_agrees (sane : ∀ t, (w.threads t).Sane) (next : Nat) :
    Agrees (w.resume next).tlb (w.resume next).spaces (w.resume next).me := by
  rw [World.resume]
  split
  · exact agrees_empty fun i => rfl
  next null =>
    have none : (w.threads next).vmspace = none := by simpa using null
    exact agrees_null none (sane next)

theorem resume_spaces (next : Nat) : (w.resume next).spaces = w.spaces := by
  rw [World.resume]
  split <;> rfl

theorem resume_threads (next : Nat) : (w.resume next).threads = w.threads := by
  rw [World.resume]
  split <;> rfl

theorem resume_forked (next : Nat) : (w.resume next).forked = w.forked := by
  rw [World.resume]
  split <;> rfl

theorem resume_cur (next : Nat) : (w.resume next).cur = next := by
  rw [World.resume]
  split <;> rfl

theorem resume_sound (tracked : Tracked w.spaces) (sane : ∀ t, (w.threads t).Sane) {next}
    (known : next < w.forked) : Sound (w.resume next) := by
  refine ⟨by rw [resume_spaces]; exact tracked, ?_, ?_, resume_agrees sane next⟩
  · rw [resume_cur, resume_forked]
    exact known
  · rw [resume_threads]
    exact sane

theorem threadFork_sound (sound : Sound w) (entry : Option Nat) : Sound (w.threadFork entry) := by
  have me : (w.threadFork entry).me = w.me := by
    simp [World.me, World.threadFork, Nat.ne_of_lt sound.known]
  refine ⟨sound.tracked, Nat.lt_succ_of_lt sound.known, fun t => ?_, ?_⟩
  · simp only [World.threadFork]
    split
    · exact newThread_sane entry
    · exact sound.sane t
  · rw [me]
    exact sound.agrees

theorem setMe_sound (tracked : Tracked w.spaces) (known : w.cur < w.forked) (sane : ∀ t, (w.threads t).Sane)
    {thread} (own : thread.Sane) (agrees : Agrees w.tlb w.spaces thread) : Sound (w.setMe thread) :=
  ⟨tracked, known, setMe_sane sane own, by rw [setMe_me]; exact agrees⟩

/-- A step of the current thread that changes neither the TLB nor an address space. -/
theorem Sound.setMe (sound : Sound w) {thread} (own : thread.Sane)
    (agrees : Agrees w.tlb w.spaces thread) : Sound (w.setMe thread) :=
  setMe_sound sound.tracked sound.known sound.sane own agrees

end Worlds

variable {page old : Nat} {next : World} {s : Spaces}

theorem hit_false {w : World} (miss : w.hit page = false) (i : Fin numTlb) (valid : (w.tlb i).valid) :
    (w.tlb i).hi ≠ page := by
  intro same
  have absent := List.any_eq_false.mp miss i (List.mem_finRange i)
  simp [valid, same] at absent

theorem matches_insert {tlb as} (old : Matches tlb as) {paddr}
    (ready : as.Ready) (found : as.frame page = some paddr) (absent : ∀ i, (tlb i).valid → (tlb i).hi ≠ page)
    (slot : Fin numTlb) : Matches (fun j => if j = slot then ⟨page, paddr, true⟩ else tlb j) as := by
  constructor
  · intro i valid
    by_cases here : i = slot
    · simp only [here, if_true]
      exact ⟨ready, found⟩
    · simp only [if_neg here] at valid ⊢
      exact old.mapped i valid
  · intro i j validI validJ same
    by_cases hereI : i = slot <;> by_cases hereJ : j = slot
    · rw [hereI, hereJ]
    · simp only [hereI, if_true, if_neg hereJ] at validJ same
      exact absurd same.symm (absent j validJ)
    · simp only [hereJ, if_true, if_neg hereI] at validI same
      exact absurd same (absent i validI)
    · simp only [if_neg hereI, if_neg hereJ] at validI validJ same
      exact old.distinct i j validI validJ same

/-- `vm_fault` leaves the TLB alone or enters the translation of the page. -/
theorem vmFault_cases {w : World} (taken : w.vmFault page = some next) : next = w.setMe { w.me with missed := none } ∨
    ∃ a paddr slot, w.me.vmspace = some a ∧ (w.spaces.space a).Ready ∧
      (w.spaces.space a).frame page = some paddr ∧
      next = { w.setMe { w.me with missed := none } with
        tlb := fun j => if j = slot then ⟨page, paddr, true⟩ else w.tlb j } := by
  simp only [World.vmFault] at taken
  split at taken
  · exact .inl (Option.some.inj taken).symm
  next a vmspace =>
    split at taken
    next ready =>
      split at taken
      · exact .inl (Option.some.inj taken).symm
      next paddr found =>
        split at taken
        · split at taken
          · exact .inl (Option.some.inj taken).symm
          next slot free => exact .inr ⟨a, paddr, slot, vmspace, ready, found, (Option.some.inj taken).symm⟩
        · cases taken
    next => cases taken

theorem vmFault_sound {w : World} (sound : Sound w) (missed : w.me.missed = some page)
    (taken : w.vmFault page = some next) : Sound next := by
  have handling : w.me.phase = .running := (sound.sane w.cur).handling (isSome_of_eq_some missed)
  have own : Thread.Sane { w.me with missed := none } :=
    ⟨fun pending => (by cases pending), (sound.sane w.cur).spaced⟩
  rcases vmFault_cases taken with rfl | ⟨a, paddr, slot, vmspace, ready, found, rfl⟩
  · refine sound.setMe own ⟨sound.agrees.coherent, sound.agrees.loading, fun a page _ pending => ?_⟩
    cases pending
  · refine ⟨sound.tracked, sound.known, setMe_sane sound.sane own, ?_⟩
    have absent := sound.agrees.missed a page vmspace missed
    have old := sound.agrees.coherent a vmspace (by rw [handling]; trivial)
    change Agrees _ w.spaces (w.setMe { w.me with missed := none }).me
    rw [setMe_me]
    refine ⟨fun b other _ => ?_, fun loading => ?_, fun b page _ pending => ?_⟩
    · cases vmspace.symm.trans other
      exact matches_insert old ready found absent slot
    · rw [handling] at loading
      cases loading
    · cases pending

theorem copied_space {next} (tracked : Tracked s)
    (taken : spaceStep s (.asCopy old true) = some next) {a} (live : a ∈ s.live) : next.space a = s.space a := by
  cases stepped tracked.held taken with
  | copyFailed _ m _ prepares => exact tracked.others_kept prepares live
  | copied _ _ m _ _ prepares =>
    have kept : m.spaces a = s.space a := tracked.others_kept prepares live
    exact kept

theorem copy_live {next} (taken : spaceStep s (.asCopy old true) = some next) : old ∈ s.live := by
  simp only [spaceStep] at taken
  split at taken
  next live => exact live
  next => cases taken

theorem dropSpace_tracked {w : World} {spaces} (tracked : Tracked w.spaces)
    (dropped : w.dropSpace = some spaces) : Tracked spaces := by
  rw [World.dropSpace] at dropped
  split at dropped
  · cases dropped
    exact tracked
  · exact (stepped tracked.held dropped).tracked tracked

theorem tlbStep_sound {w : World} {event} (sound : Sound w) (taken : tlbStep w event = some next) :
    Sound next := by
  have own := sound.sane w.cur
  cases event with
  | touch vaddr =>
    simp only [tlbStep] at taken
    split at taken
    next running =>
      split at taken
      next => cases taken; exact sound
      next miss =>
        cases taken
        refine sound.setMe ⟨fun _ => running.1, own.spaced⟩ ?_
        refine ⟨sound.agrees.coherent, sound.agrees.loading, fun a page _ pending i valid => ?_⟩
        cases pending
        exact hit_false (by simpa using miss) i valid
    next => cases taken
  | vmFault =>
    obtain ⟨page, missed, taken⟩ := bind_eq_some_iff.mp taken
    exact vmFault_sound sound missed taken
  | threadFork =>
    simp only [tlbStep] at taken
    split at taken
    next => cases taken; exact threadFork_sound sound none
    next => cases taken
  | sysFork =>
    simp only [tlbStep] at taken
    split at taken
    next running =>
      obtain ⟨a, vmspace, taken⟩ := bind_eq_some_iff.mp taken
      obtain ⟨spaces, copied, taken⟩ := bind_eq_some_iff.mp taken
      split at taken
      next =>
        cases taken
        have tracked := (stepped sound.tracked.held copied).tracked sound.tracked
        refine @threadFork_sound { w with spaces } ⟨tracked, sound.known, sound.sane, ?_⟩ _
        refine ⟨fun b other settled => ?_, sound.agrees.loading, sound.agrees.missed⟩
        cases vmspace.symm.trans other
        rw [copied_space sound.tracked copied (copy_live copied)]
        exact sound.agrees.coherent a vmspace settled
      next => cases taken
    next => cases taken
  | mdForkentry =>
    simp only [tlbStep] at taken
    split at taken
    next ready =>
      cases taken
      refine sound.setMe ⟨fun pending => ?_, fun _ _ => ready.2⟩ (agrees_stored rfl ready.1.2)
      rw [show w.me.missed = none from ready.1.2] at pending
      cases pending
    next => cases taken
  | asCreate =>
    simp only [tlbStep] at taken
    split at taken
    next running =>
      obtain ⟨spaces, created, taken⟩ := bind_eq_some_iff.mp taken
      cases taken
      have tracked := (stepped sound.tracked.held created).tracked sound.tracked
      refine @setMe_sound { w with spaces } tracked sound.known sound.sane _ ⟨fun pending => ?_, fun _ _ => rfl⟩
        (agrees_stored rfl running.2)
      rw [show w.me.missed = none from running.2] at pending
      cases pending
    next => cases taken
  | asActivate =>
    simp only [tlbStep] at taken
    split at taken
    next loads stored =>
      cases taken
      refine @setMe_sound w.asActivate sound.tracked sound.known sound.sane _ ⟨fun pending => ?_, fun _ _ => ?_⟩
        (agrees_empty fun i => rfl)
      · have running := own.handling pending
        rw [show (w.threads w.cur).phase = .stored loads from stored] at running
        cases running
      · exact own.spaced (by rw [show (w.threads w.cur).phase = .stored loads from stored]; simp)
          (by rw [show (w.threads w.cur).phase = .stored loads from stored]; simp)
    next => cases taken
  | asDefineRegion vaddr sz =>
    simp only [tlbStep] at taken
    split at taken
    next loading =>
      obtain ⟨a, vmspace, taken⟩ := bind_eq_some_iff.mp taken
      obtain ⟨spaces, defined, taken⟩ := bind_eq_some_iff.mp taken
      cases taken
      have tracked := (stepped sound.tracked.held defined).tracked sound.tracked
      exact ⟨tracked, sound.known, sound.sane, agrees_empty (sound.agrees.loading loading.1)⟩
    next => cases taken
  | asPrepareLoad =>
    simp only [tlbStep] at taken
    split at taken
    next loading =>
      obtain ⟨a, vmspace, taken⟩ := bind_eq_some_iff.mp taken
      obtain ⟨spaces, prepared, taken⟩ := bind_eq_some_iff.mp taken
      cases taken
      have tracked := (stepped sound.tracked.held prepared).tracked sound.tracked
      exact @setMe_sound { w with spaces } tracked sound.known sound.sane _ ⟨fun _ => rfl, fun running => absurd rfl running⟩
        (agrees_empty (sound.agrees.loading loading.1))
    next => cases taken
  | loadFails =>
    simp only [tlbStep] at taken
    split at taken
    next loading =>
      cases taken
      exact sound.setMe ⟨fun _ => rfl, fun running => absurd rfl running⟩ (agrees_empty (sound.agrees.loading loading.1))
    next => cases taken
  | miSwitch next =>
    simp only [tlbStep] at taken
    split at taken
    next enabled => cases taken; exact resume_sound sound.tracked sound.sane enabled.1
    next => cases taken
  | threadExit next =>
    simp only [tlbStep] at taken
    split at taken
    next enabled =>
      obtain ⟨spaces, destroyed, taken⟩ := bind_eq_some_iff.mp taken
      cases taken
      refine resume_sound (dropSpace_tracked sound.tracked destroyed) (@setMe_sane { w with spaces } sound.sane _ ⟨fun pending => ?_, ?_⟩) enabled.2.1
      · rw [show w.me.missed = none from enabled.1.2] at pending
        cases pending
      · exact fun _ left => absurd rfl left
    next => cases taken

def Coherent (w : World) : Prop := ∀ a, w.me.vmspace = some a → Matches w.tlb (w.spaces.space a)

/-- In every run, a thread with an address space finds only its own translations in the TLB, each page once, unless
it has just been given it and `as_activate` has not returned yet. -/
theorem tlb_coherent (tlb : Fin numTlb → Slot) (spaces : Spaces) (initial : spaces.Initial) (events : List Event)
    (w : World) (reached : run tlbStep (start tlb spaces) events = some w) (a : Nat) (own : w.me.vmspace = some a)
    (settled : w.me.phase.Settled) : Matches w.tlb (w.spaces.space a) := by
  have sound : Sound w := by
    refine run_preserves (fun before event after sound taken => tlbStep_sound sound taken) ?_ reached
    exact ⟨initial.owned.toTracked, Nat.one_pos, fun t => newThread_sane none, agrees_null rfl (newThread_sane none)⟩
  exact sound.agrees.coherent a own settled

def firstFetch : List Event :=
  [.threadFork, .miSwitch 1, .asCreate, .asActivate, .asDefineRegion 0x400000 4096, .asDefineRegion 0x10000000 4096,
    .asPrepareLoad, .touch 0x400000, .vmFault]

theorem tlb_coherent_first_fetch :
    ∃ system w, Frames.boot sixtyPages = some system ∧
      run tlbStep (start invalidSlot (bootSpaces system)) firstFetch = some w ∧ w.me.vmspace = some 1 ∧
      w.me.phase.Settled ∧ Matches w.tlb (w.spaces.space 1) := by
  have computed : ((Frames.boot sixtyPages).bind fun system =>
      run tlbStep (start invalidSlot (bootSpaces system)) firstFetch).map (fun w => (w.me.vmspace, w.me.phase)) =
        some (some 1, .running) := by decide +kernel
  obtain ⟨w, reached, seen⟩ := map_eq_some_iff.mp computed
  obtain ⟨system, booted, reached⟩ := bind_eq_some_iff.mp reached
  obtain ⟨own, phase⟩ := Prod.mk.inj seen
  have settled : w.me.phase.Settled := by
    rw [phase]
    trivial
  exact ⟨system, w, booted, reached, own, settled,
    tlb_coherent invalidSlot _ (bootSpaces_initial booted) _ w reached 1 own settled⟩

/-- In `execv` the thread has its new address space while the TLB still has the entry of the old one. -/
theorem tlb_stale_in_execv :
    ∃ system w, Frames.boot sixtyPages = some system ∧
      run tlbStep (start invalidSlot (bootSpaces system)) (firstFetch ++ [.asCreate]) = some w ∧ ¬ Coherent w := by
  have computed : ((Frames.boot sixtyPages).bind fun system =>
      run tlbStep (start invalidSlot (bootSpaces system)) (firstFetch ++ [.asCreate])).map
        (fun w => (w.me.vmspace, (w.tlb ⟨0, by decide⟩).valid, decide (w.spaces.space 2).Ready)) = some (some 2, true, false) := by
    decide +kernel
  obtain ⟨w, reached, seen⟩ := map_eq_some_iff.mp computed
  obtain ⟨system, booted, reached⟩ := bind_eq_some_iff.mp reached
  simp only [Prod.mk.injEq, decide_eq_false_iff_not] at seen
  obtain ⟨own, valid, unready⟩ := seen
  refine ⟨system, w, booted, reached, fun coherent => unready ?_⟩
  exact ((coherent 2 own).mapped _ valid).1

end Os161.Tlb
