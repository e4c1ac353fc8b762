import Os161.Process
import Os161.Lib.Runs

/-! The invariant of the process table under every interleaving: who owns an entry, who waits on it, and what its
semaphore counts. -/

namespace Os161.Proc
open State

/-- The exit code, once `sys__exit` has entered it in the table. -/
def Phase.code : Phase → Option Int
  | .exiting code | .signalled code | .exited code => some code
  | _ => none

def Phase.pastV : Phase → Bool
  | .signalled _ | .exited _ => true
  | _ => false

def Phase.locks : Phase → Bool
  | .exiting _ | .signalled _ => true
  | _ => false

def Phase.waitsFor : Phase → Option (Nat × Nat)
  | .waiting pid child | .sleeping pid child _ | .woken pid child _ | .collecting pid child => some (pid, child)
  | _ => none

def Phase.sem : Phase → Option Nat
  | .sleeping _ _ sem | .woken _ _ sem => some sem
  | _ => none

def Process.Shows (process : Process) (phase : Phase) : Prop :=
  process.exited = phase.code.isSome ∧ ∀ code, phase.code = some code → process.exitcode = code

structure Ledger (s : State) : Prop where
  entry : ∀ i p, s.pTable i = some p → 1 ≤ i ∧ i < maxthreads ∧ ∃ thread, s.threads p.me = some thread ∧ thread.pid = i
  owner : ∀ t thread, s.threads t = some thread → thread.collected = false → ∃ p, s.pTable thread.pid = some p ∧ p.me = t
  fresh : ∀ t thread, s.threads t = some thread → t < s.created

structure Marked (s : State) : Prop where
  shows : ∀ i p thread, s.pTable i = some p → s.threads p.me = some thread → p.Shows thread.phase
  reaped : ∀ t thread, s.threads t = some thread → thread.collected = true → ∃ code, thread.phase = .exited code

def Exclusive (s : State) : Prop := ∀ t thread, s.threads t = some thread → thread.phase.locks = true → s.lock = some t

def WaitsOn (s : State) (thread : Thread) (pid child : Nat) : Prop :=
  ∃ p, s.pTable pid = some p ∧ p.me = child ∧ p.parentPid = thread.pid ∧
    ∀ sem, thread.phase.sem = some sem → p.exitSem = some sem

def Attended (s : State) : Prop :=
  ∀ t thread, s.threads t = some thread → ∀ pid child, thread.phase.waitsFor = some (pid, child) → WaitsOn s thread pid child

def Taken (s : State) (pid child : Nat) : Prop := ∃ t thread, s.threads t = some thread ∧ thread.phase = .collecting pid child

structure Signals (s : State) : Prop where
  count : ∀ i p sem thread, s.pTable i = some p → p.exitSem = some sem → s.threads p.me = some thread → sem = p.me ∧
    ∃ count, s.sems sem = some count ∧ (0 < count → thread.phase.pastV = true) ∧
      (thread.phase.pastV = true → 0 < count ∨ Taken s i p.me)
  asleep : ∀ t thread pid child sem other, s.threads t = some thread → thread.phase = .sleeping pid child sem →
    s.threads child = some other → other.phase.pastV = false
  taken : ∀ t thread pid child other, s.threads t = some thread → thread.phase = .collecting pid child →
    s.threads child = some other → other.phase.pastV = true

structure Valid (s : State) : Prop where
  ledger : Ledger s
  marked : Marked s
  exclusive : Exclusive s
  attended : Attended s
  signals : Signals s

variable {f : Thread → Thread}

theorem setThread_lookup {s : State} {t u thread other}
    (found : s.threads t = some thread) (lookup : (s.setThread t f).threads u = some other) :
    u = t ∧ other = f thread ∨ u ≠ t ∧ s.threads u = some other := by
  simp only [setThread] at lookup
  split at lookup
  · next same =>
    rw [same, found, Option.map_some, Option.some.injEq] at lookup
    exact Or.inl ⟨same, lookup.symm⟩
  · next different => exact Or.inr ⟨different, lookup⟩

theorem setThread_self {s : State} {t thread} (found : s.threads t = some thread) :
    (s.setThread t f).threads t = some (f thread) := by
  simp [setThread, found]

theorem setThread_other {s : State} {t u} (different : u ≠ t) : (s.setThread t f).threads u = s.threads u := by
  simp [setThread, different]

namespace Valid

variable {s : State} {t : Nat} {thread : Thread}

variable (valid : Valid s) (found : s.threads t = some thread)
include valid found

theorem unique (kept : thread.collected = false) {u other} (second : s.threads u = some other) (owned : other.collected = false)
    (same : thread.pid = other.pid) : t = u := by
  obtain ⟨p, slot, me⟩ := valid.ledger.owner t thread found kept
  obtain ⟨q, slot', me'⟩ := valid.ledger.owner u other second owned
  rw [same, slot'] at slot
  cases slot
  exact me.symm.trans me'

theorem uncollected (busy : ∀ code, thread.phase ≠ .exited code) : thread.collected = false := by
  cases flag : thread.collected with
  | false => rfl
  | true =>
    obtain ⟨code, phase⟩ := valid.marked.reaped t thread found flag
    exact absurd phase (busy code)

theorem one_waiter {u pid child other}
    (waits : thread.phase.waitsFor = some (pid, child)) (second : s.threads u = some other)
    (also : other.phase.waitsFor = some (pid, child)) : t = u := by
  have busy {waiter : Thread} (waits : waiter.phase.waitsFor = some (pid, child)) (code : Int) :
      waiter.phase ≠ .exited code := by
    intro exited
    rw [exited] at waits
    cases waits
  obtain ⟨p, slot, -, parent, -⟩ := valid.attended t thread found pid child waits
  obtain ⟨q, slot', -, parent', -⟩ := valid.attended u other second pid child also
  rw [slot] at slot'
  cases slot'
  refine valid.unique found (valid.uncollected found (busy waits)) second (valid.uncollected second (busy also)) ?_
  exact Int.ofNat.inj (parent.symm.trans parent')

end Valid

section SetPhase

variable {s : State} {t : Nat} {thread : Thread} (found : s.threads t = some thread)
include found

theorem Ledger.setThread (ledger : Ledger s) {f : Thread → Thread} (pid : (f thread).pid = thread.pid)
    (kept : (f thread).collected = false → thread.collected = false) : Ledger (s.setThread t f) where
  entry := by
    intro i p slot
    obtain ⟨low, high, owner, lookup, same⟩ := ledger.entry i p slot
    by_cases own : p.me = t
    · rw [own, found] at lookup
      cases lookup
      exact ⟨low, high, f thread, by rw [own]; exact setThread_self found, pid.trans same⟩
    · exact ⟨low, high, owner, (setThread_other own).trans lookup, same⟩
  owner := by
    intro u other lookup uncollected
    rcases setThread_lookup found lookup with ⟨rfl, rfl⟩ | ⟨_, before⟩
    · rw [pid]
      exact ledger.owner u thread found (kept uncollected)
    · exact ledger.owner u other before uncollected
  fresh := by
    intro u other lookup
    rcases setThread_lookup found lookup with ⟨rfl, rfl⟩ | ⟨_, before⟩
    · exact ledger.fresh u thread found
    · exact ledger.fresh u other before

theorem Marked.setPhase (marked : Marked s) {phase : Phase} (code : phase.code = thread.phase.code)
    (kept : thread.collected = false) : Marked (s.setPhase t phase) where
  shows := by
    intro i p other slot lookup
    rcases setThread_lookup found lookup with ⟨own, rfl⟩ | ⟨_, before⟩
    · have before := marked.shows i p thread slot (own ▸ found)
      unfold Process.Shows at before ⊢
      rwa [code]
    · exact marked.shows i p other slot before
  reaped := by
    intro u other lookup collected
    rcases setThread_lookup found lookup with ⟨rfl, rfl⟩ | ⟨_, before⟩
    · exact absurd (kept.symm.trans collected) Bool.false_ne_true
    · exact marked.reaped u other before collected

theorem Exclusive.setPhase (exclusive : Exclusive s) {phase : Phase} (unlocked : phase.locks = false) :
    Exclusive (s.setPhase t phase) := by
  intro u other lookup locks
  rcases setThread_lookup found lookup with ⟨rfl, rfl⟩ | ⟨_, before⟩
  · exact absurd (unlocked.symm.trans locks) Bool.false_ne_true
  · exact exclusive u other before locks

theorem Attended.setPhase (attended : Attended s) {phase : Phase}
    (waits : ∀ pid child, phase.waitsFor = some (pid, child) → WaitsOn s { thread with phase := phase } pid child) :
    Attended (s.setPhase t phase) := by
  intro u other lookup pid child waiting
  rcases setThread_lookup found lookup with ⟨rfl, rfl⟩ | ⟨_, before⟩
  · exact waits pid child waiting
  · exact attended u other before pid child waiting

theorem Taken.setPhase {phase : Phase} {pid child} (before : thread.phase ≠ .collecting pid child)
    (taken : Taken s pid child) : Taken (s.setPhase t phase) pid child := by
  obtain ⟨u, other, lookup, collecting⟩ := taken
  refine ⟨u, other, ?_, collecting⟩
  have different : u ≠ t := by
    intro same
    rw [same, found] at lookup
    cases lookup
    exact before collecting
  exact (setThread_other different).trans lookup

section Moved

variable {phase : Phase} (past : phase.pastV = thread.phase.pastV) {u : Nat} {other : Thread}
  (lookup : (s.setPhase t phase).threads u = some other)
include past lookup

theorem setPhase_earlier : ∃ original, s.threads u = some original ∧ original.phase.pastV = other.phase.pastV := by
  rcases setThread_lookup found lookup with ⟨rfl, rfl⟩ | ⟨_, lookup⟩
  · exact ⟨thread, found, past.symm⟩
  · exact ⟨other, lookup, rfl⟩

theorem Signals.count_setPhase (signals : Signals s) {i sem p} (before : thread.phase ≠ .collecting i p.me)
    (slot : s.pTable i = some p) (hasSem : p.exitSem = some sem) (owner : p.me = u) :
    sem = p.me ∧ ∃ count, s.sems sem = some count ∧ (0 < count → other.phase.pastV = true) ∧
      (other.phase.pastV = true → 0 < count ∨ Taken (s.setPhase t phase) i p.me) := by
  obtain ⟨original, lookup, pastV⟩ := setPhase_earlier found past lookup
  obtain ⟨own, count, value, raised, lowered⟩ := signals.count i p sem original slot hasSem (owner ▸ lookup)
  rw [pastV] at raised lowered
  exact ⟨own, count, value, raised, fun past => (lowered past).imp_right (Taken.setPhase found before)⟩

end Moved

section Quiet

variable {phase : Phase} (past : phase.pastV = thread.phase.pastV) (signals : Signals s)
include past signals

theorem Signals.asleep_setPhase (asleep : ∀ pid child sem other, phase = .sleeping pid child sem →
      s.threads child = some other → other.phase.pastV = false) :
    ∀ u other pid child sem last, (s.setPhase t phase).threads u = some other → other.phase = .sleeping pid child sem →
      (s.setPhase t phase).threads child = some last → last.phase.pastV = false := by
  intro u other pid child sem last lookup sleeping lookupChild
  obtain ⟨original, childBefore, pastV⟩ := setPhase_earlier found past lookupChild
  rw [← pastV]
  rcases setThread_lookup found lookup with ⟨rfl, rfl⟩ | ⟨_, lookup⟩
  · exact asleep pid child sem original sleeping childBefore
  · exact signals.asleep u other pid child sem original lookup sleeping childBefore

theorem Signals.taken_setPhase (taken : ∀ pid child other, phase = .collecting pid child →
      s.threads child = some other → other.phase.pastV = true) :
    ∀ u other pid child last, (s.setPhase t phase).threads u = some other → other.phase = .collecting pid child →
      (s.setPhase t phase).threads child = some last → last.phase.pastV = true := by
  intro u other pid child last lookup collecting lookupChild
  obtain ⟨original, childBefore, pastV⟩ := setPhase_earlier found past lookupChild
  rw [← pastV]
  rcases setThread_lookup found lookup with ⟨rfl, rfl⟩ | ⟨_, lookup⟩
  · exact taken pid child original collecting childBefore
  · exact signals.taken u other pid child original lookup collecting childBefore

end Quiet

theorem Valid.setPhase (valid : Valid s) {phase} (before : thread.phase.code = none) (after : phase.code = none)
    (waits : ∀ pid child, phase.waitsFor = some (pid, child) → WaitsOn s { thread with phase := phase } pid child)
    (asleep : ∀ pid child sem other, phase = .sleeping pid child sem → s.threads child = some other →
      other.phase.pastV = false)
    (uncollecting : ∀ pid child, thread.phase ≠ .collecting pid child)
    (untaken : ∀ pid child, phase ≠ .collecting pid child) : Valid (s.setPhase t phase) := by
  have quiet {phase : Phase} (none : phase.code = none) : phase.pastV = false ∧ phase.locks = false := by
    cases phase <;> first | exact ⟨rfl, rfl⟩ | cases none
  have kept := valid.uncollected found fun code exited => by rw [exited] at before; cases before
  have past : phase.pastV = thread.phase.pastV := (quiet after).1.trans (quiet before).1.symm
  refine ⟨valid.ledger.setThread found rfl id, valid.marked.setPhase found (after.trans before.symm) kept,
    valid.exclusive.setPhase found (quiet after).2, valid.attended.setPhase found waits, ?_, ?_, ?_⟩
  · intro i p sem other slot hasSem lookup
    exact valid.signals.count_setPhase found past lookup (uncollecting i p.me) slot hasSem rfl
  · exact valid.signals.asleep_setPhase found past asleep
  · exact valid.signals.taken_setPhase found past fun pid child _ collecting => absurd collecting (untaken pid child)

end SetPhase

section Steps

variable {s : State} {t : Nat} {thread : Thread}

theorem Valid.halt (valid : Valid s) : Valid s.halt :=
  ⟨⟨valid.ledger.entry, valid.ledger.owner, valid.ledger.fresh⟩, ⟨valid.marked.shows, valid.marked.reaped⟩,
    valid.exclusive, valid.attended, ⟨valid.signals.count, valid.signals.asleep, valid.signals.taken⟩⟩

theorem Valid.collect (valid : Valid s) (found : s.threads t = some thread) {code : Int}
    (exited : thread.phase = .exited code) : Valid (s.setThread t Thread.collect) := by
  have earlier {u : Nat} {other : Thread} (lookup : (s.setThread t Thread.collect).threads u = some other) :
      ∃ original, s.threads u = some original ∧ other.phase = original.phase ∧ other.pid = original.pid := by
    rcases setThread_lookup found lookup with ⟨rfl, rfl⟩ | ⟨_, lookup⟩
    · exact ⟨thread, found, rfl, rfl⟩
    · exact ⟨other, lookup, rfl, rfl⟩
  refine ⟨valid.ledger.setThread found rfl (fun impossible => by cases impossible), ⟨?_, ?_⟩, ?_, ?_, ⟨?_, ?_, ?_⟩⟩
  · intro i p other slot lookup
    obtain ⟨original, lookup, phase, -⟩ := earlier lookup
    rw [phase]
    exact valid.marked.shows i p original slot lookup
  · intro u other lookup collected
    rcases setThread_lookup found lookup with ⟨rfl, rfl⟩ | ⟨_, lookup⟩
    · exact ⟨code, exited⟩
    · exact valid.marked.reaped u other lookup collected
  · intro u other lookup locks
    obtain ⟨original, lookup, phase, -⟩ := earlier lookup
    rw [phase] at locks
    exact valid.exclusive u original lookup locks
  · intro u other lookup pid child waits
    obtain ⟨original, lookup, phase, same⟩ := earlier lookup
    rw [phase] at waits
    obtain ⟨p, slot, me, parent, sem⟩ := valid.attended u original lookup pid child waits
    exact ⟨p, slot, me, by rw [same]; exact parent, by rw [phase]; exact sem⟩
  · intro i p sem other slot hasSem lookup
    obtain ⟨original, lookup, phase, -⟩ := earlier lookup
    rw [phase]
    obtain ⟨own, count, value, raised, lowered⟩ := valid.signals.count i p sem original slot hasSem lookup
    refine ⟨own, count, value, raised, fun past => (lowered past).imp_right ?_⟩
    intro ⟨u, waiter, lookup, collecting⟩
    have different : u ≠ t := by
      intro same
      rw [same, found] at lookup
      cases lookup
      rw [exited] at collecting
      cases collecting
    exact ⟨u, waiter, (setThread_other different).trans lookup, collecting⟩
  · intro u other pid child sem last lookup sleeping lookupChild
    obtain ⟨original, lookup, phase, -⟩ := earlier lookup
    obtain ⟨before, lookupChild, phaseChild, -⟩ := earlier lookupChild
    rw [phaseChild]
    exact valid.signals.asleep u original pid child sem before lookup (phase ▸ sleeping) lookupChild
  · intro u other pid child last lookup collecting lookupChild
    obtain ⟨original, lookup, phase, -⟩ := earlier lookup
    obtain ⟨before, lookupChild, phaseChild, -⟩ := earlier lookupChild
    rw [phaseChild]
    exact valid.signals.taken u original pid child before lookup (phase ▸ collecting) lookupChild

/-- Outside the sections of `sys__exit` an exited entry belongs to a thread that is gone. -/
theorem Valid.exited_of_unlocked (valid : Valid s) (free : s.lock = none) {i p}
    (slot : s.pTable i = some p) (exited : p.exited = true) :
    ∃ owner, s.threads p.me = some owner ∧ owner.phase = .exited p.exitcode := by
  obtain ⟨-, -, owner, lookup, -⟩ := valid.ledger.entry i p slot
  obtain ⟨flag, value⟩ := valid.marked.shows i p owner slot lookup
  have unlocked : owner.phase.locks = false := by
    cases locks : owner.phase.locks with
    | false => rfl
    | true =>
      have held := valid.exclusive p.me owner lookup locks
      rw [free] at held
      cases held
  refine ⟨owner, lookup, ?_⟩
  rw [exited] at flag
  cases phase : owner.phase with
  | exited code => rw [value code (by rw [phase]; rfl)]
  | exiting code => rw [phase] at unlocked; cases unlocked
  | signalled code => rw [phase] at unlocked; cases unlocked
  | _ => rw [phase] at flag; cases flag

theorem sysWaitpid_valid (valid : Valid s) (found : s.threads t = some thread) (running : thread.phase = .running)
    (free : s.lock = none) (pid status : Nat) (options : Int) : Valid (sysWaitpid s t thread pid status options).2 := by
  unfold sysWaitpid
  split
  · exact valid
  split
  · exact valid
  split
  · exact valid
  split
  · exact valid
  · next p slot =>
    split
    · exact valid
    · next parent =>
      split
      · next exited =>
        obtain ⟨owner, lookup, phase⟩ := valid.exited_of_unlocked free slot exited
        exact valid.collect lookup phase
      · have quiet : thread.phase.code = none := by rw [running]; rfl
        refine valid.setPhase found quiet rfl ?_ ?_ ?_ ?_
        · intro pid' child waits
          cases waits
          refine ⟨p, slot, rfl, not_not.mp parent, ?_⟩
          intro sem impossible
          cases impossible
        · intro pid' child sem other impossible
          cases impossible
        · intro pid' child collecting
          rw [running] at collecting
          cases collecting
        · intro pid' child impossible
          cases impossible

theorem waitsFor_quiet {phase : Phase} {pid child} (waits : phase.waitsFor = some (pid, child)) :
    phase.code = none ∧ phase.pastV = false ∧ phase.locks = false := by
  cases phase <;> first | exact ⟨rfl, rfl, rfl⟩ | cases waits

theorem Ledger.same_entry (ledger : Ledger s) {i j p q} (first : s.pTable i = some p)
    (second : s.pTable j = some q) (same : p.me = q.me) : i = j := by
  obtain ⟨-, -, owner, lookup, pid⟩ := ledger.entry i p first
  obtain ⟨-, -, other, lookup', pid'⟩ := ledger.entry j q second
  rw [same, lookup'] at lookup
  cases lookup
  exact pid.symm.trans pid'

section Waiting

variable (valid : Valid s) (found : s.threads t = some thread) {pid child sem : Nat}
  (waits : thread.phase.waitsFor = some (pid, child))
include valid found waits

private theorem waits_me {p} (slot : s.pTable pid = some p) : p.me = child := by
  obtain ⟨q, slot', me, -, -⟩ := valid.attended t thread found pid child waits
  cases slot.symm.trans slot'
  exact me

variable (pending : ∀ pid child, thread.phase ≠ .collecting pid child)
include pending

/-- The thread that waits on an entry is the one that would have taken its count. -/
private theorem not_taken : ¬ Taken s pid child := by
  intro ⟨u, other, lookup, collecting⟩
  have same := valid.one_waiter found waits lookup (by rw [collecting]; rfl)
  rw [← same, found] at lookup
  cases lookup
  exact pending pid child collecting

variable {p : Process} (slot : s.pTable pid = some p) (hasSem : p.exitSem = some sem)
include slot hasSem

theorem Valid.sleep (zero : s.sems sem = some 0) : Valid (s.setPhase t (.sleeping pid child sem)) := by
  have me := waits_me valid found waits slot
  refine valid.setPhase found (waitsFor_quiet waits).1 rfl ?_ ?_ pending ?_
  · intro pid' child' waits'
    cases waits'
    obtain ⟨q, slot', me, parent, -⟩ := valid.attended t thread found pid child waits
    rw [slot] at slot'
    cases slot'
    refine ⟨p, slot, me, parent, ?_⟩
    intro sem' same
    cases same
    exact hasSem
  · intro pid' child' sem' other same lookup
    cases same
    obtain ⟨own, count, value, -, lowered⟩ := valid.signals.count pid p sem other slot hasSem (me ▸ lookup)
    rw [zero] at value
    cases value
    cases past : other.phase.pastV with
    | false => rfl
    | true =>
      rcases lowered past with positive | taken
      · exact absurd positive (Nat.lt_irrefl 0)
      · exact absurd (me ▸ taken) (not_taken valid found waits pending)
  · intro pid' child' impossible
    cases impossible

theorem Valid.take {count : Nat} (raised : s.sems sem = some (count + 1)) :
    Valid ((s.setSem sem (some count)).setPhase t (.collecting pid child)) := by
  have me := waits_me valid found waits slot
  obtain ⟨quiet, before, -⟩ := waitsFor_quiet waits
  have kept := valid.uncollected found fun code exited => by rw [exited] at quiet; cases quiet
  have past : (Phase.collecting pid child).pastV = thread.phase.pastV := before.symm
  have pastChild (other : Thread) (lookup : s.threads child = some other) : other.phase.pastV = true := by
    obtain ⟨-, total, value, positive, -⟩ := valid.signals.count pid p sem other slot hasSem (me ▸ lookup)
    rw [raised] at value
    cases value
    exact positive (Nat.succ_pos count)
  have ledger : Ledger (s.setPhase t (.collecting pid child)) := valid.ledger.setThread found rfl id
  have marked : Marked (s.setPhase t (.collecting pid child)) := valid.marked.setPhase found quiet.symm kept
  refine ⟨⟨ledger.entry, ledger.owner, ledger.fresh⟩, ⟨marked.shows, marked.reaped⟩,
    valid.exclusive.setPhase found rfl, valid.attended.setPhase found ?_, ⟨?_, ?_, ?_⟩⟩
  · intro pid' child' waits'
    cases waits'
    obtain ⟨q, slot', me, parent, -⟩ := valid.attended t thread found pid child waits
    exact ⟨q, slot', me, parent, nofun⟩
  · intro i q sem' other slot' hasSem' lookup
    obtain ⟨own, total, value, positive, lowered⟩ :=
      valid.signals.count_setPhase found past lookup (pending i q.me) slot' hasSem' rfl
    by_cases same : sem' = sem
    · have entry : i = pid := by
        apply valid.ledger.same_entry slot' slot
        obtain ⟨-, -, owner, lookupOwner, -⟩ := valid.ledger.entry pid p slot
        exact own.symm.trans (same.trans (valid.signals.count pid p sem owner slot hasSem lookupOwner).1)
      subst entry same
      cases slot.symm.trans slot'
      cases raised.symm.trans value
      refine ⟨own, count, by simp [State.setPhase, State.setThread, setSem], fun _ => positive (Nat.succ_pos count), ?_⟩
      intro _
      refine Or.inr ⟨t, _, setThread_self found, ?_⟩
      rw [me]
    · refine ⟨own, total, ?_, positive, lowered⟩
      simpa [State.setPhase, State.setThread, setSem, same] using value
  · exact valid.signals.asleep_setPhase found past nofun
  · refine valid.signals.taken_setPhase found past ?_
    intro _ _ other same lookupChild
    cases same
    exact pastChild other lookupChild

theorem semWait_valid : Valid (semWait s t pid child sem) := by
  unfold semWait
  split
  · exact valid.halt
  · next zero => exact valid.sleep found waits pending slot hasSem zero
  · next raised => exact valid.take found waits pending slot hasSem raised

end Waiting

end Steps

end Os161.Proc
