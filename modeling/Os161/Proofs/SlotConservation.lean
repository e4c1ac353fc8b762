import Os161.Proofs.ProcessFrames
import Mathlib.Order.Interval.Finset.Nat

/-! The entries of the process table in use. Each is accounted for by a thread that has not exited, or by an exited
one its creator can still collect; the paths that end a thread without releasing its entry break this. -/

namespace Os161.Proc
open State Option

def Phase.alive : Phase → Bool
  | .exited _ | .returned | .discarded => false
  | _ => true

def Phase.gone : Phase → Bool
  | .exited _ => true
  | _ => false

def State.live (s : State) (t : Nat) : Bool := (s.threads t).any fun thread => thread.phase.alive

/-- The process has exited, and its creator is there to collect it and has not done so. -/
def State.collectible (s : State) (t : Nat) : Bool :=
  (s.threads t).any fun thread => thread.phase.gone && !thread.collected && thread.creator.any s.live

def State.slots (s : State) : Finset Nat := (Finset.range maxthreads).filter fun i => (s.pTable i).isSome

def State.liveThreads (s : State) : Finset Nat := (Finset.range s.created).filter fun t => s.live t

def State.uncollected (s : State) : Finset Nat := (Finset.range s.created).filter fun t => s.collectible t

def Conserved (s : State) : Prop := s.slots.card = s.liveThreads.card + s.uncollected.card

def FindsSlot (s : State) : Prop := s.liveThreads.card + s.uncollected.card < maxthreads - 1 → s.freeSlot.isSome

def Balanced (s : State) : Prop := ∀ i p, s.pTable i = some p → s.live p.me = true ∨ s.collectible p.me = true

section Counting

variable {s : State}

theorem live_iff {t} : s.live t = true ↔ ∃ thread, s.threads t = some thread ∧ thread.phase.alive = true := by
  simp [live, any_eq_true]

theorem collectible_iff {t} : s.collectible t = true ↔ ∃ thread, s.threads t = some thread ∧
    thread.phase.gone = true ∧ thread.collected = false ∧ ∃ c, thread.creator = some c ∧ s.live c = true := by
  simp [collectible, any_eq_true, and_assoc]

def State.accounted (s : State) : Finset Nat := s.liveThreads ∪ s.uncollected

def State.pidOf (s : State) (t : Nat) : Nat := (s.threads t).elim 0 Thread.pid

theorem mem_accounted (valid : Valid s) {t} : t ∈ s.accounted ↔ s.live t = true ∨ s.collectible t = true := by
  have inside : s.live t = true ∨ s.collectible t = true → t < s.created := by
    intro either
    have found : ∃ thread, s.threads t = some thread := by
      rcases either with live | collectible
      · obtain ⟨thread, found, -⟩ := live_iff.mp live
        exact ⟨thread, found⟩
      · obtain ⟨thread, found, -⟩ := collectible_iff.mp collectible
        exact ⟨thread, found⟩
    obtain ⟨thread, found⟩ := found
    exact valid.ledger.fresh t thread found
  simp only [accounted, liveThreads, uncollected, Finset.mem_union, Finset.mem_filter, Finset.mem_range]
  constructor
  · intro either
    exact either.imp And.right And.right
  · intro either
    exact either.imp (fun live => ⟨inside either, live⟩) (fun collectible => ⟨inside either, collectible⟩)

theorem card_accounted : s.accounted.card = s.liveThreads.card + s.uncollected.card := by
  apply Finset.card_union_of_disjoint
  rw [Finset.disjoint_left]
  intro t live collectible
  obtain ⟨thread, found, alive⟩ := live_iff.mp (Finset.mem_filter.mp live).2
  obtain ⟨other, lookup, gone, -⟩ := collectible_iff.mp (Finset.mem_filter.mp collectible).2
  cases found.symm.trans lookup
  cases phase : thread.phase <;> simp [phase, Phase.alive, Phase.gone] at alive gone

theorem owner_of_accounted (valid : Valid s) {t} (member : t ∈ s.accounted) :
    ∃ thread p, s.threads t = some thread ∧ thread.collected = false ∧ s.pTable thread.pid = some p ∧ p.me = t := by
  have known : ∃ thread, s.threads t = some thread ∧ thread.collected = false := by
    rcases (mem_accounted valid).mp member with live | collectible
    · obtain ⟨thread, found, alive⟩ := live_iff.mp live
      refine ⟨thread, found, valid.uncollected found ?_⟩
      intro code exited
      rw [exited] at alive
      cases alive
    · obtain ⟨thread, found, -, kept, -⟩ := collectible_iff.mp collectible
      exact ⟨thread, found, kept⟩
  obtain ⟨thread, found, kept⟩ := known
  obtain ⟨p, slot, me⟩ := valid.ledger.owner t thread found kept
  exact ⟨thread, p, found, kept, slot, me⟩

theorem pidOf_injective (valid : Valid s) : Set.InjOn s.pidOf s.accounted := by
  intro t member u member' same
  obtain ⟨thread, p, found, kept, -⟩ := owner_of_accounted valid member
  obtain ⟨other, q, lookup, kept', -⟩ := owner_of_accounted valid member'
  apply valid.unique found kept lookup kept'
  simpa [pidOf, found, lookup] using same

theorem mem_slots (valid : Valid s) {i} : i ∈ s.slots ↔ ∃ p, s.pTable i = some p := by
  simp only [slots, Finset.mem_filter, Finset.mem_range, isSome_iff_exists]
  constructor
  · exact And.right
  · intro ⟨p, slot⟩
    exact ⟨(valid.ledger.entry i p slot).2.1, p, slot⟩

theorem image_accounted (valid : Valid s) : s.accounted.image s.pidOf ⊆ s.slots := by
  intro i member
  obtain ⟨t, accounted, rfl⟩ := Finset.mem_image.mp member
  obtain ⟨thread, p, found, -, slot, -⟩ := owner_of_accounted valid accounted
  rw [mem_slots valid]
  exact ⟨p, by simpa [pidOf, found] using slot⟩

theorem conserved_iff_balanced (valid : Valid s) : Conserved s ↔ Balanced s := by
  have size := Finset.card_image_of_injOn (pidOf_injective valid)
  unfold Conserved
  rw [← card_accounted, ← size]
  constructor
  · intro same i p slot
    have whole := Finset.eq_of_subset_of_card_le (image_accounted valid) same.le
    have member : i ∈ s.accounted.image s.pidOf := by
      rw [whole, mem_slots valid]
      exact ⟨p, slot⟩
    obtain ⟨t, accounted, rfl⟩ := Finset.mem_image.mp member
    obtain ⟨thread, q, found, -, slot', me⟩ := owner_of_accounted valid accounted
    have pid : s.pidOf t = thread.pid := by simp [pidOf, found]
    rw [pid] at slot
    cases slot.symm.trans slot'
    rw [me]
    exact (mem_accounted valid).mp accounted
  · intro balanced
    apply congrArg Finset.card
    apply Finset.Subset.antisymm _ (image_accounted valid)
    intro i member
    obtain ⟨p, slot⟩ := (mem_slots valid).mp member
    obtain ⟨-, -, thread, found, pid⟩ := valid.ledger.entry i p slot
    refine Finset.mem_image.mpr ⟨p.me, (mem_accounted valid).mpr (balanced i p slot), ?_⟩
    simpa [pidOf, found] using pid

theorem findsSlot_of_conserved (conserved : Conserved s) : FindsSlot s := by
  intro fewer
  rw [← conserved] at fewer
  by_contra full
  have every : Finset.Ico 1 maxthreads ⊆ s.slots := by
    intro i member
    obtain ⟨low, high⟩ := Finset.mem_Ico.mp member
    have none : s.freeSlot = none := not_isSome_iff_eq_none.mp full
    have taken := List.find?_eq_none.mp none i (by rw [List.mem_range'_1]; omega)
    simp only [slots, Finset.mem_filter, Finset.mem_range]
    refine ⟨high, ?_⟩
    simpa [isNone_iff_eq_none, ne_none_iff_isSome] using taken
  have least := Finset.card_le_card every
  rw [Nat.card_Ico] at least
  omega

end Counting

section Standing

/-- What the account looks at in a thread. -/
def Thread.standing (thread : Thread) : Bool × Bool × Bool × Option Nat :=
  (thread.phase.alive, thread.phase.gone, thread.collected, thread.creator)

variable {s next : State} {t : Nat} {thread : Thread}

theorem standing_setThread (found : s.threads t = some thread) {f}
    (same : (f thread).standing = thread.standing) (u : Nat) :
    ((s.setThread t f).threads u).map Thread.standing = (s.threads u).map Thread.standing := by
  by_cases own : u = t
  · rw [own, setThread_self found, found, map_some, map_some, same]
  · rw [setThread_other own]

structure Level (s next : State) : Prop where
  owners : ∀ i, (next.pTable i).map Process.me = (s.pTable i).map Process.me
  standing : ∀ u, (next.threads u).map Thread.standing = (s.threads u).map Thread.standing

section

variable (same : (next.threads t).map Thread.standing = (s.threads t).map Thread.standing)
include same

theorem live_congr : next.live t = s.live t := by
  have view (s : State) : s.live t = ((s.threads t).map Thread.standing).any Prod.fst := by
    unfold live
    cases s.threads t <;> rfl
  rw [view, view, same]

theorem collectible_congr (creators : ∀ c, s.threads t = some thread → thread.creator = some c → next.live c = s.live c)
    (found : s.threads t = some thread) : next.collectible t = s.collectible t := by
  rw [found] at same
  obtain ⟨after, lookup, standing⟩ := map_eq_some_iff.mp same
  simp only [Thread.standing, Prod.mk.injEq] at standing
  obtain ⟨-, gone, collected, creator⟩ := standing
  simp only [collectible, lookup, found, any_some, gone, collected, creator]
  cases parent : thread.creator with
  | none => rfl
  | some c => simp only [any_some, creators c found parent]

end

theorem Level.balanced_iff (level : Level s next) (valid : Valid s) : Balanced next ↔ Balanced s := by
  have entries (i m : Nat) : (∃ q, next.pTable i = some q ∧ q.me = m) ↔ ∃ p, s.pTable i = some p ∧ p.me = m := by
    have same := level.owners i
    constructor
    · intro ⟨q, slot, me⟩
      rw [slot] at same
      obtain ⟨p, slot', me'⟩ := map_eq_some_iff.mp same.symm
      exact ⟨p, slot', me'.trans me⟩
    · intro ⟨p, slot, me⟩
      rw [slot] at same
      obtain ⟨q, slot', me'⟩ := map_eq_some_iff.mp same
      exact ⟨q, slot', me'.trans me⟩
  have account (i : Nat) (p : Process) (slot : s.pTable i = some p) :
      next.live p.me = s.live p.me ∧ next.collectible p.me = s.collectible p.me := by
    obtain ⟨-, -, owner, found, -⟩ := valid.ledger.entry i p slot
    exact ⟨live_congr (level.standing p.me),
      collectible_congr (level.standing p.me) (fun c _ _ => live_congr (level.standing c)) found⟩
  constructor
  · intro balanced i p slot
    obtain ⟨q, slot', me⟩ := (entries i p.me).mpr ⟨p, slot, rfl⟩
    obtain ⟨live, collectible⟩ := account i p slot
    rw [← live, ← collectible, ← me]
    exact balanced i q slot'
  · intro balanced i q slot
    obtain ⟨p, slot', me⟩ := (entries i q.me).mp ⟨q, slot, rfl⟩
    obtain ⟨live, collectible⟩ := account i p slot'
    rw [← me, live, collectible]
    exact balanced i p slot'

variable {phase : Phase} {pid child : Nat}

theorem Level.setPhase (found : s.threads t = some thread) (alive : thread.phase.alive = true)
    (still : phase.alive = true) : Level s (s.setPhase t phase) := by
  have open_ {phase : Phase} (alive : phase.alive = true) : phase.gone = false := by
    cases phase <;> first | rfl | cases alive
  refine ⟨fun _ => rfl, standing_setThread found ?_⟩
  simp only [Thread.standing, alive, still, open_ alive, open_ still]

theorem waitsFor_alive (waits : phase.waitsFor = some (pid, child)) : phase.alive = true := by
  cases phase <;> first | rfl | cases waits

variable (found : s.threads t = some thread)
include found

theorem semWait_level
    (waits : thread.phase.waitsFor = some (pid, child)) (sem : Nat) : Level s (semWait s t pid child sem) := by
  unfold semWait
  split
  · exact ⟨fun _ => rfl, fun _ => rfl⟩
  · exact .setPhase found (waitsFor_alive waits) rfl
  · have level : Level s (s.setPhase t (.collecting pid child)) := .setPhase found (waitsFor_alive waits) rfl
    exact ⟨level.owners, level.standing⟩

theorem waitSem_level (waits : thread.phase.waitsFor = some (pid, child)) : Level s (waitSem s t pid child) := by
  unfold waitSem
  split
  · exact ⟨fun _ => rfl, fun _ => rfl⟩
  split
  · exact ⟨fun _ => rfl, fun _ => rfl⟩
  · exact semWait_level found waits _

theorem exitMark_level (running : thread.phase = .running) (code : Int) : Level s (exitMark s t thread code) := by
  unfold exitMark
  split
  · exact ⟨fun _ => rfl, fun _ => rfl⟩
  · next p slot =>
    have level : Level s (s.setPhase t (.exiting code)) := .setPhase found (by rw [running]; rfl) rfl
    refine ⟨?_, level.standing⟩
    intro i
    change (if i = thread.pid then some { p with exited := true, exitcode := code } else s.pTable i).map Process.me = _
    split
    · next same => rw [same, slot, map_some, map_some]
    · rfl

theorem exitSignal_level {code} (exiting : thread.phase = .exiting code) :
    Level s (exitSignal s t thread code) := by
  unfold exitSignal
  split
  · exact ⟨fun _ => rfl, fun _ => rfl⟩
  split
  · exact ⟨fun _ => rfl, fun _ => rfl⟩
  split
  · exact ⟨fun _ => rfl, fun _ => rfl⟩
  · next sem _ _ count _ =>
    refine ⟨fun _ => rfl, ?_⟩
    have woken (u : Nat) : ((s.threads u).map (wake sem)).map Thread.standing = (s.threads u).map Thread.standing := by
      rw [map_map]
      apply Option.map_congr
      intro other _
      have same : (wake sem other).phase.alive = other.phase.alive ∧ (wake sem other).phase.gone = other.phase.gone := by
        unfold wake
        split
        · next asleep => split <;> simp [asleep, Phase.alive, Phase.gone]
        · exact ⟨rfl, rfl⟩
      simp only [Function.comp_apply, Thread.standing, same, wake_keeps]
    intro u
    rw [← woken u]
    have lookup : (s.threads t).map (wake sem) = some (wake sem thread) := congrArg (Option.map (wake sem)) found
    refine standing_setThread (s := { s.setSem sem (some (count + 1)) with threads := fun u => (s.threads u).map (wake sem) })
      lookup ?_ u
    simp [Thread.standing, wake, exiting, Phase.alive, Phase.gone]

end Standing

section Balance

variable {s : State} {t : Nat} {thread : Thread}

def Balances (s : State) : Step → Prop
  | .fork _ _ memory => memory.create = true → memory.rest = false → s.freeSlot = none
  | .waitpid t pid status options => delivery s (.waitpid t pid status options) = none
  | .leave t => (∃ thread c, s.threads t = some thread ∧ thread.creator = some c ∧ s.live c = true) ∧
      ∀ u child, s.threads u = some child → child.creator = some t → child.phase.gone = true → child.collected = true
  | .threadReturn _ => False
  | _ => True

section

variable (valid : Valid s)
include valid

theorem sysWaitpid_balanced (balanced : Balanced s) (found : s.threads t = some thread)
    (running : thread.phase = .running) (free : s.lock = none) {pid status options} :
    Balanced (sysWaitpid s t thread pid status options).2 ↔ delivery s (.waitpid t pid status options) = none := by
  simp only [delivery, found]
  unfold sysWaitpid
  split
  · cases s.pTable pid <;> simp [balanced]
  split
  · cases s.pTable pid <;> simp [balanced]
  split
  · cases s.pTable pid <;> simp [balanced]
  cases slot : s.pTable pid with
  | none => simp [balanced]
  | some p =>
    simp only
    split
    · simp [balanced]
    split
    · next exited =>
      simp only [reduceCtorEq, iff_false]
      obtain ⟨owner, lookup, phase⟩ := valid.exited_of_unlocked free slot exited
      have flagged := setThread_self (f := Thread.collect) lookup
      intro after
      rcases after pid p slot with live | collectible
      · obtain ⟨other, lookup', alive⟩ := live_iff.mp live
        cases flagged.symm.trans lookup'
        rw [Thread.collect, phase] at alive
        cases alive
      · obtain ⟨other, lookup', -, kept, -⟩ := collectible_iff.mp collectible
        cases flagged.symm.trans lookup'
        cases kept
    · have level : Level s (s.setPhase t (.waiting pid p.me)) := .setPhase found (by rw [running]; rfl) rfl
      simp [level.balanced_iff valid, balanced]

theorem waitCollect_balanced (balanced : Balanced s) (found : s.threads t = some thread) {pid child}
    (collecting : thread.phase = .collecting pid child) (free : s.lock = none) : Balanced (waitCollect s t pid).2 := by
  obtain ⟨p, slot, me, -, -⟩ := valid.attended t thread found pid child (by rw [collecting]; rfl)
  obtain ⟨owner, lookup, exited⟩ : ∃ owner, s.threads p.me = some owner ∧ owner.phase.alive = false := by
    obtain ⟨-, -, owner, lookup, -⟩ := valid.ledger.entry pid p slot
    have past := valid.signals.taken t thread pid child owner found collecting (me ▸ lookup)
    refine ⟨owner, lookup, ?_⟩
    cases phase : owner.phase with
    | exited code => rfl
    | signalled code =>
      have held := valid.exclusive p.me owner lookup (by rw [phase]; rfl)
      cases free.symm.trans held
    | _ => rw [phase] at past; cases past
  have apart : t ≠ p.me := by
    intro same
    rw [← same, found] at lookup
    cases lookup
    rw [collecting] at exited
    cases exited
  -- away from the collected thread only the phase of the waiter has changed
  have standing (u : Nat) (other : u ≠ p.me) :
      (((s.setThread p.me Thread.collect).setPhase t .running).threads u).map Thread.standing =
        (s.threads u).map Thread.standing := by
    have still : (s.setThread p.me Thread.collect).threads t = some thread := (setThread_other apart).trans found
    rw [State.setPhase, standing_setThread still (by simp [Thread.standing, collecting, Phase.alive, Phase.gone]),
      setThread_other other]
  have live (u : Nat) : ((s.setThread p.me Thread.collect).setPhase t .running).live u = s.live u := by
    by_cases other : u = p.me
    · have flagged : ((s.setThread p.me Thread.collect).setPhase t .running).threads p.me = some owner.collect :=
        (setThread_other (Ne.symm apart)).trans (setThread_self lookup)
      rw [other, State.live, State.live, flagged, lookup]
      rfl
    · exact live_congr (standing u other)
  have cleared : Balanced (((s.setThread p.me Thread.collect).setSlot pid none).setPhase t .running) := by
    intro i q remains
    simp only [State.setPhase, State.setThread, setSlot] at remains
    split at remains
    · cases remains
    next different =>
    have other : q.me ≠ p.me := fun same => different (valid.ledger.same_entry remains slot same)
    obtain ⟨-, -, keeper, lookupKeeper, -⟩ := valid.ledger.entry i q remains
    have same : ((s.setThread p.me Thread.collect).setPhase t .running).collectible q.me = s.collectible q.me :=
      collectible_congr (standing q.me other) (fun c _ _ => live c) lookupKeeper
    rcases balanced i q remains with before | before
    · exact Or.inl ((live q.me).trans before)
    · exact Or.inr (same.trans before)
  simp only [waitCollect, slot]
  cases p.exitSem <;> exact cleared

theorem threadReturn_unbalanced (found : s.threads t = some thread) (running : thread.phase = .running) :
    ¬ Balanced (s.setPhase t .returned) := by
  have kept := valid.uncollected found fun code exited => by rw [exited] at running; cases running
  obtain ⟨p, slot, me⟩ := valid.ledger.owner t thread found kept
  have returned := setThread_self (f := fun thread => { thread with phase := .returned }) found
  intro after
  rcases after thread.pid p slot with live | collectible
  · obtain ⟨other, lookup, alive⟩ := live_iff.mp live
    rw [me] at lookup
    cases returned.symm.trans lookup
    cases alive
  · obtain ⟨other, lookup, gone, -⟩ := collectible_iff.mp collectible
    rw [me] at lookup
    cases returned.symm.trans lookup
    cases gone

theorem exitLeave_balanced (older : Older s) (balanced : Balanced s) (found : s.threads t = some thread)
    {code} (signalled : thread.phase = .signalled code) :
    Balanced (exitLeave s t code) ↔ Balances s (.leave t) := by
  have kept := valid.uncollected found fun code exited => by rw [exited] at signalled; cases signalled
  obtain ⟨p, slot, me⟩ := valid.ledger.owner t thread found kept
  have left : (exitLeave s t code).threads t = some { thread with phase := .exited code } := setThread_self found
  have same (u : Nat) (other : u ≠ t) : (exitLeave s t code).threads u = s.threads u := setThread_other other
  have liveOther (u : Nat) (other : u ≠ t) : (exitLeave s t code).live u = s.live u := by
    rw [State.live, State.live, same u other]
  have liveSelf : (exitLeave s t code).live t = false := by
    rw [State.live, left]
    rfl
  constructor
  · intro after
    constructor
    · rcases after thread.pid p slot with live | collectible
      · rw [me, liveSelf] at live
        cases live
      · obtain ⟨other, lookup, -, -, c, creator, live⟩ := collectible_iff.mp collectible
        rw [me, left] at lookup
        cases lookup
        have apart : c ≠ t := Nat.ne_of_lt (older t thread c found creator)
        exact ⟨thread, c, found, creator, (liveOther c apart).symm.trans live⟩
    · intro u child lookup creator gone
      cases flag : child.collected with
      | true => rfl
      | false =>
        have apart : u ≠ t := (Nat.ne_of_lt (older u child t lookup creator)).symm
        obtain ⟨q, slot', me'⟩ := valid.ledger.owner u child lookup flag
        rcases after child.pid q slot' with live | collectible
        · rw [me', liveOther u apart] at live
          obtain ⟨other, lookup', alive⟩ := live_iff.mp live
          cases lookup.symm.trans lookup'
          cases phase : child.phase <;> simp [phase, Phase.alive, Phase.gone] at alive gone
        · obtain ⟨other, lookup', -, -, c, creator', live⟩ := collectible_iff.mp collectible
          rw [me', same u apart] at lookup'
          cases lookup.symm.trans lookup'
          cases creator.symm.trans creator'
          cases liveSelf.symm.trans live
  · intro ⟨⟨other, c, lookup, creator, live⟩, collected⟩ i q slot'
    cases found.symm.trans lookup
    by_cases own : q.me = t
    · right
      have apart : c ≠ t := Nat.ne_of_lt (older t thread c found creator)
      rw [own]
      exact collectible_iff.mpr ⟨_, left, rfl, kept, c, creator, (liveOther c apart).trans live⟩
    · rcases balanced i q slot' with before | before
      · exact Or.inl ((liveOther q.me own).trans before)
      · obtain ⟨child, lookupChild, gone, uncollected, d, creator', liveParent⟩ := collectible_iff.mp before
        have apart : d ≠ t := by
          intro same
          rw [same] at creator'
          cases uncollected.symm.trans (collected q.me child lookupChild creator' gone)
        right
        exact collectible_iff.mpr ⟨child, (same q.me own).trans lookupChild, gone, uncollected, d, creator',
          (liveOther d apart).trans liveParent⟩

theorem threadFork_balanced (balanced : Balanced s) {start memory} :
    Balanced (threadFork s (t, thread) start memory) ↔ Balances s (.fork t start memory) := by
  simp only [Balances]
  unfold threadFork
  split
  · next failed =>
    simp only [balanced, true_iff]
    intro create _
    cases free : s.freeSlot with
    | none => rfl
    | some i => simp [threadCreate, free, create] at failed
  · next newguy created computed =>
    obtain ⟨rfl, i, creates⟩ := threadCreate_creates computed
    have create : memory.create = true := by
      cases flag : memory.create with
      | true => rfl
      | false => simp [threadCreate, creates.free, flag] at computed
    have newSlot : created.pTable i = some (newProcess s.created (some (t, thread)) memory.sem) := by
      rw [creates.table]
      exact if_pos rfl
    split
    · next rest =>
      simp only [create, rest, Bool.true_eq_false, false_implies, implies_true, iff_true]
      have started : (created.setPhase s.created .running).threads s.created = some _ := setThread_self creates.stores.newcomer
      have survives {u : Nat} {other : Thread} (found : s.threads u = some other) :
          (created.setPhase s.created .running).threads u = some other := by
        have apart : u ≠ s.created := Nat.ne_of_lt (valid.ledger.fresh u other found)
        have added : created.threads u = s.threads u := by
          rw [creates.threads]
          exact if_neg apart
        exact (setThread_other apart).trans (added.trans found)
      have live {u : Nat} (before : s.live u = true) : (created.setPhase s.created .running).live u = true := by
        obtain ⟨other, found, alive⟩ := live_iff.mp before
        exact live_iff.mpr ⟨other, survives found, alive⟩
      intro j q slot
      change created.pTable j = some q at slot
      rw [creates.table] at slot
      dsimp only at slot
      split at slot
      · cases slot
        exact Or.inl (live_iff.mpr ⟨_, started, rfl⟩)
      · rcases balanced j q slot with before | before
        · exact Or.inl (live before)
        · obtain ⟨child, found, gone, kept, c, creator, liveParent⟩ := collectible_iff.mp before
          exact Or.inr (collectible_iff.mpr ⟨child, survives found, gone, kept, c, creator, live liveParent⟩)
    · next rest =>
      simp only [create, rest, creates.free, reduceCtorEq, imp_false, not_true_eq_false, iff_false]
      intro after
      rcases after i _ newSlot with live | collectible
      · obtain ⟨other, lookup, alive⟩ := live_iff.mp live
        cases creates.stores.newcomer.symm.trans lookup
        cases alive
      · obtain ⟨other, lookup, gone, -⟩ := collectible_iff.mp collectible
        cases creates.stores.newcomer.symm.trans lookup
        cases gone

theorem step_balanced_iff (older : Older s) (balanced : Balanced s) {action next}
    (taken : step s action = some next) : Balanced next ↔ Balances s action := by
  obtain ⟨thread, found, performed⟩ := step_performs taken
  have unaffected (level : Level s next) (allowed : Balances s action) : Balanced next ↔ Balances s action :=
    iff_of_true ((level.balanced_iff valid).mpr balanced) allowed
  cases performed with
  | fork => exact threadFork_balanced valid balanced
  | waitpid running free => exact sysWaitpid_balanced valid balanced found running free
  | wait waiting => exact unaffected (waitSem_level found (by rw [waiting]; rfl)) trivial
  | again woken => exact unaffected (semWait_level found (by rw [woken]; rfl) _) trivial
  | collect collecting free => exact iff_of_true (waitCollect_balanced valid balanced found collecting free) trivial
  | exit running => exact unaffected (exitMark_level found running _) trivial
  | semV exiting => exact unaffected (exitSignal_level found exiting) trivial
  | leave signalled => exact exitLeave_balanced valid older balanced found signalled
  | threadReturn running => exact iff_of_false (threadReturn_unbalanced valid found running) id

end

theorem boot_balanced (sem : Bool) : Balanced (boot sem) := by
  unfold boot
  split
  · intro i p slot
    cases slot
  · next me created computed =>
    obtain ⟨rfl, j, creates⟩ := threadCreate_creates computed
    have started : (created.setPhase emptyState.created .running).threads emptyState.created = some _ :=
      setThread_self creates.stores.newcomer
    intro i p slot
    change created.pTable i = some p at slot
    rw [creates.table] at slot
    dsimp only at slot
    split at slot
    · cases slot
      exact Or.inl (live_iff.mpr ⟨_, started, rfl⟩)
    · cases slot

end Balance

/-- Entries are conserved along a run exactly when no step strands one: a fork that fails once it has an entry, a
wait for a child that has exited before, an exit without a live creator or with exited children not collected, and a
return from the start function. -/
theorem slots_conserved_iff (sem : Bool) (actions : List Step) :
    Runs.Always step (fun s => Conserved s ∧ FindsSlot s) (boot sem) actions ↔
      Runs.EachStep step Balances (boot sem) actions := by
  refine @Runs.always_iff_steps _ _ step (fun s => Valid s ∧ Older s ∧ Balanced s) _ Balances ?_ ?_ ?_ _ _ ?_
  · intro s ⟨valid, _, balanced⟩
    have conserved := (conserved_iff_balanced valid).mpr balanced
    exact ⟨conserved, findsSlot_of_conserved conserved⟩
  · intro s action next ⟨valid, older, balanced⟩ taken balances
    exact ⟨step_valid valid taken, step_older valid older taken, (step_balanced_iff valid older balanced taken).mpr balances⟩
  · intro s action next ⟨valid, older, balanced⟩ taken ⟨conserved, _⟩
    have after := (conserved_iff_balanced (step_valid valid taken)).mp conserved
    exact (step_balanced_iff valid older balanced taken).mp after
  · exact ⟨boot_valid sem, boot_older sem, boot_balanced sem⟩

/-- A kernel thread that has run to the end of its start function keeps its entry for good. -/
theorem returned_thread_keeps_slot :
    ∃ s, Runs.run step (boot true) [.fork 0 .kernel ⟨true, true, true⟩, .threadReturn 1] = some s ∧
      s.slots.card = 2 ∧ s.liveThreads.card = 1 ∧ s.uncollected.card = 0 := by
  obtain ⟨s, reached⟩ : ∃ s, Runs.run step (boot true) [.fork 0 .kernel ⟨true, true, true⟩, .threadReturn 1] = some s :=
    isSome_iff_exists.mp (by decide)
  have counted : (Runs.run step (boot true) [.fork 0 .kernel ⟨true, true, true⟩, .threadReturn 1]).map
      (fun s => (s.slots.card, s.liveThreads.card, s.uncollected.card)) = some (2, 1, 0) := by decide
  rw [reached, map_some, Option.some.injEq, Prod.mk.injEq, Prod.mk.injEq] at counted
  exact ⟨s, reached, counted⟩

end Os161.Proc
