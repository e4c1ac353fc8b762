import Os161.Proofs.ProcessSteps

/-! A successful `sys_waitpid` delivers the code of its child's one `sys__exit`, and nobody sleeps on a semaphore
that was raised. -/

namespace Os161.Proc
open State

def State.codeOf (s : State) (t : Nat) : Option Int := (s.threads t).bind fun thread => thread.phase.code

variable {s : State} {t : Nat} {thread : Thread}

theorem codeOf_eq (found : s.threads t = some thread) : s.codeOf t = thread.phase.code := by simp [codeOf, found]

theorem codeOf_setThread (found : s.threads t = some thread) {f}
    (same : (f thread).phase.code = thread.phase.code) (u : Nat) : (s.setThread t f).codeOf u = s.codeOf u := by
  by_cases own : u = t
  · subst own
    rw [codeOf_eq (setThread_self found), codeOf_eq found, same]
  · rw [codeOf, codeOf, setThread_other own]

def SameCodes (s next : State) : Prop := ∀ u, next.codeOf u = s.codeOf u

theorem sysWaitpid_codes (valid : Valid s) (found : s.threads t = some thread) (running : thread.phase = .running)
    (pid status : Nat) (options : Int) : SameCodes s (sysWaitpid s t thread pid status options).2 := by
  unfold sysWaitpid
  split
  · exact fun _ => rfl
  split
  · exact fun _ => rfl
  split
  · exact fun _ => rfl
  split
  · exact fun _ => rfl
  · next p slot =>
    split
    · exact fun _ => rfl
    · split
      · obtain ⟨-, -, owner, lookup, -⟩ := valid.ledger.entry pid p slot
        exact codeOf_setThread lookup rfl
      · exact codeOf_setThread found (by rw [running]; rfl)

variable {pid child : Nat} {action : Step} {next : State} {done : List Step}

section

variable (found : s.threads t = some thread) (waits : thread.phase.waitsFor = some (pid, child))
include found waits

theorem semWait_codes (sem : Nat) : SameCodes s (semWait s t pid child sem) := by
  unfold semWait
  split
  · exact fun _ => rfl
  · exact codeOf_setThread found (waitsFor_quiet waits).1.symm
  · next count _ => exact codeOf_setThread (s := s.setSem sem (some count)) found (waitsFor_quiet waits).1.symm

theorem waitSem_codes : SameCodes s (waitSem s t pid child) := by
  unfold waitSem
  split
  · exact fun _ => rfl
  · split
    · exact fun _ => rfl
    · exact semWait_codes found waits _

end

theorem waitCollect_codes (valid : Valid s) (found : s.threads t = some thread)
    (collecting : thread.phase = .collecting pid child) : SameCodes s (waitCollect s t pid).2 := by
  unfold waitCollect
  split
  · exact fun _ => rfl
  · next p slot =>
    obtain ⟨-, -, owner, lookup, -⟩ := valid.ledger.entry pid p slot
    have marked := codeOf_setThread (f := Thread.collect) lookup rfl
    have still : ∃ other, (s.setThread p.me Thread.collect).threads t = some other ∧ other.phase = thread.phase := by
      by_cases own : t = p.me
      · rw [own] at found ⊢
        exact ⟨_, setThread_self found, rfl⟩
      · exact ⟨thread, (setThread_other own).trans found, rfl⟩
    obtain ⟨other, lookupOther, phase⟩ := still
    have quiet : Phase.code .running = other.phase.code := by rw [phase, collecting]; rfl
    intro u
    rw [← marked u]
    split
    · exact codeOf_setThread (s := (s.setThread p.me Thread.collect).setSlot pid none) lookupOther quiet u
    · next sem _ =>
      exact codeOf_setThread (s := ((s.setThread p.me Thread.collect).setSem sem none).setSlot pid none) lookupOther quiet u

theorem threadFork_codes (valid : Valid s) (curthread : Nat × Thread) (start : Start) (memory : Memory) :
    SameCodes s (threadFork s curthread start memory) := by
  unfold threadFork
  split
  · exact fun _ => rfl
  · next newguy created computed =>
    obtain ⟨rfl, i, creates⟩ := threadCreate_creates computed
    have added : SameCodes s created := by
      intro u
      unfold codeOf
      rw [creates.threads]
      by_cases new : u = s.created
      · have absent : s.threads u = none := by
          cases found : s.threads u with
          | none => rfl
          | some thread => exact absurd new (Nat.ne_of_lt (valid.ledger.fresh u thread found))
        simp [new, new ▸ absent, newThread, Phase.code]
      · simp [new]
    split
    · intro u
      rw [← added u]
      exact codeOf_setThread creates.stores.newcomer rfl u
    · exact added

theorem exitMark_codes (valid : Valid s) (found : s.threads t = some thread) (running : thread.phase = .running)
    (code : Int) (u : Nat) : (exitMark s t thread code).codeOf u = if u = t then some code else s.codeOf u := by
  have kept := valid.uncollected found fun code exited => by rw [exited] at running; cases running
  obtain ⟨p, slot, -⟩ := valid.ledger.owner t thread found kept
  simp only [exitMark, slot]
  by_cases own : u = t
  · subst own
    rw [if_pos rfl]
    exact codeOf_eq (setThread_self found)
  · rw [if_neg own]
    exact congrArg (fun lookup => Option.bind lookup fun thread => thread.phase.code) (setThread_other own)

theorem exitSignal_codes (found : s.threads t = some thread) {code} (exiting : thread.phase = .exiting code) :
    SameCodes s (exitSignal s t thread code) := by
  unfold exitSignal
  split
  · exact fun _ => rfl
  split
  · exact fun _ => rfl
  split
  · exact fun _ => rfl
  · next sem _ _ count _ =>
    have woken (u : Nat) : ((s.threads u).map (wake sem)).bind (fun thread => thread.phase.code) = s.codeOf u := by
      unfold codeOf
      cases s.threads u with
      | none => rfl
      | some other => exact (wakes sem other).code
    intro u
    rw [← woken u]
    have lookup : (s.threads t).map (wake sem) = some (wake sem thread) := congrArg (Option.map (wake sem)) found
    refine codeOf_setThread (s := { s.setSem sem (some (count + 1)) with threads := fun u => (s.threads u).map (wake sem) })
      lookup ?_ u
    rw [(wakes sem thread).code, exiting]
    rfl

theorem step_codes (valid : Valid s) (taken : step s action = some next) (u : Nat)
    (code : Int) : next.codeOf u = some code ↔ s.codeOf u = some code ∨ action = .exit u code := by
  obtain ⟨thread, found, performed⟩ := step_performs taken
  have unchanged (same : SameCodes s next) (other : ∀ u code, action ≠ .exit u code) :
      next.codeOf u = some code ↔ s.codeOf u = some code ∨ action = .exit u code := by
    rw [same u]
    simp [other]
  cases performed with
  | fork => exact unchanged (threadFork_codes valid _ _ _) nofun
  | waitpid running => exact unchanged (sysWaitpid_codes valid found running _ _ _) nofun
  | wait waiting => exact unchanged (waitSem_codes found (by rw [waiting]; rfl)) nofun
  | again woken => exact unchanged (semWait_codes found (by rw [woken]; rfl) _) nofun
  | collect collecting => exact unchanged (waitCollect_codes valid found collecting) nofun
  | @exit t value running =>
    rw [exitMark_codes (t := t) valid found running]
    by_cases own : u = t
    · have none : s.codeOf t = none := by rw [codeOf_eq (t := t) found, running]; rfl
      simp [own, none]
    · simp [own, Ne.symm own]
  | semV exiting => exact unchanged (exitSignal_codes found exiting) nofun
  | leave signalled =>
    refine unchanged (codeOf_setThread (f := fun thread => { thread with phase := .exited _ }) found ?_) nofun
    rw [signalled]
    rfl
  | threadReturn running =>
    refine unchanged (codeOf_setThread (f := fun thread => { thread with phase := .returned }) found ?_) nofun
    rw [running]
    rfl

/-- The codes are the arguments of the `sys__exit` calls of the run. -/
structure Recorded (done : List Step) (s : State) : Prop where
  valid : Valid s
  codes : ∀ u code, s.codeOf u = some code ↔ .exit u code ∈ done

theorem boot_recorded (sem : Bool) : Recorded [] (boot sem) := by
  refine ⟨boot_valid sem, ?_⟩
  intro u code
  have quiet : (boot sem).codeOf u = none := by
    unfold boot
    split
    · rfl
    · next me created computed =>
      obtain ⟨rfl, i, creates⟩ := threadCreate_creates computed
      rw [State.setPhase, codeOf_setThread creates.stores.newcomer rfl u]
      unfold codeOf
      rw [creates.threads]
      by_cases new : u = emptyState.created
      · simp [new, newThread, Phase.code]
      · dsimp only
        rw [if_neg new]
        rfl
  simp [quiet]

theorem run_recorded (sem : Bool) (reached : Runs.run step (boot sem) done = some s) : Recorded done s := by
  refine @Runs.run_history _ _ step Recorded ?_ _ _ [] _ (boot_recorded sem) reached
  intro done state action next recorded taken
  refine ⟨step_valid recorded.valid taken, ?_⟩
  intro u code
  rw [step_codes recorded.valid taken u code, recorded.codes u code, List.mem_append, List.mem_singleton, @eq_comm _ action]

theorem delivery_recorded (recorded : Recorded done s)
    (taken : step s action = some next) {d} (delivered : delivery s action = some d) :
    ∃ child, s.threads d.child = some child ∧ child.phase.code = some d.status ∧ child.pid = d.retval := by
  obtain ⟨thread, found, performed⟩ := step_performs taken
  have valid := recorded.valid
  cases performed with
  | @waitpid t pid status options running free =>
    simp only [delivery] at delivered
    split at delivered
    · next other p lookup slot =>
      split at delivered
      · next code retval computed =>
        cases delivered
        unfold sysWaitpid at computed
        simp only [slot] at computed
        repeat (split at computed; · cases computed)
        split at computed
        · next exited =>
          cases computed
          obtain ⟨owner, lookupOwner, phase⟩ := valid.exited_of_unlocked free slot exited
          obtain ⟨-, -, same, lookupSame, pid⟩ := valid.ledger.entry _ p slot
          cases lookupOwner.symm.trans lookupSame
          exact ⟨owner, lookupOwner, by rw [phase]; rfl, pid⟩
        · cases computed
      · cases delivered
    · cases delivered
  | @collect t pid child collecting free =>
    have found' : s.threads t = some thread := found
    simp only [delivery, found', Option.map_some, collecting, waitCollect] at delivered
    obtain ⟨p, slot, me, -, -⟩ := valid.attended t thread found pid child (by rw [collecting]; rfl)
    simp only [slot] at delivered
    cases delivered
    obtain ⟨-, -, owner, lookup, ownPid⟩ := valid.ledger.entry pid p slot
    have past := valid.signals.taken t thread pid child owner found collecting (me ▸ lookup)
    obtain ⟨-, shown⟩ := valid.marked.shows pid p owner slot lookup
    refine ⟨owner, me ▸ lookup, ?_, ownPid⟩
    cases phase : owner.phase with
    | signalled code => rw [shown code (by rw [phase]; rfl)]; rfl
    | exited code => rw [shown code (by rw [phase]; rfl)]; rfl
    | _ => rw [phase] at past; cases past
  | _ => cases delivered

/-- In every reachable state: a wait that succeeds returns its child's pid and the code of the child's only
`sys__exit`, and no thread sleeps on the semaphore of one past its `V`. -/
theorem exit_code_delivery (sem : Bool) (done : List Step) (s : State)
    (reached : Runs.run step (boot sem) done = some s) :
    (∀ action next d, step s action = some next → delivery s action = some d →
      (∀ code, .exit d.child code ∈ done ↔ code = d.status) ∧
        ∃ child, s.threads d.child = some child ∧ child.pid = d.retval) ∧
    (∀ t thread pid child addr, s.threads t = some thread → thread.phase = .sleeping pid child addr →
      ∀ i p owner, s.pTable i = some p → p.exitSem = some addr → s.threads p.me = some owner →
        owner.phase.pastV = false) := by
  have recorded := run_recorded sem reached
  have valid := recorded.valid
  constructor
  · intro action next d taken delivered
    obtain ⟨child, found, code, pid⟩ := delivery_recorded recorded taken delivered
    refine ⟨?_, child, found, pid⟩
    intro value
    rw [← recorded.codes d.child value, codeOf_eq found, code]
    simp [eq_comm]
  · intro t thread pid child addr found sleeping i p owner slot hasSem lookup
    obtain ⟨q, slot', me, -, asleep⟩ := valid.attended t thread found pid child (by rw [sleeping]; rfl)
    obtain ⟨-, -, other, lookupOther, -⟩ := valid.ledger.entry pid q slot'
    have first := (valid.signals.count i p addr owner slot hasSem lookup).1
    have second := (valid.signals.count pid q addr other slot' (asleep addr (by rw [sleeping]; rfl)) lookupOther).1
    have same : p.me = child := first.symm.trans (second.trans me)
    exact valid.signals.asleep t thread pid child addr owner found sleeping (same ▸ lookup)

/-- Process 1 forks a child, sleeps on its semaphore and is woken by its exit. -/
def sleepingParent : List Step :=
  [.fork 0 .kernel ⟨true, true, true⟩, .fork 1 .forkentry ⟨true, true, true⟩, .waitpid 1 3 4 0, .semP 1,
    .exit 2 7, .semV 2, .leave 2, .semP 1]

theorem exit_code_delivery_sleeping_parent :
    ∃ s, Runs.run step (boot true) sleepingParent = some s ∧ delivery s (.collect 1) = some ⟨1, 2, 3, 7⟩ ∧
      ∀ code, .exit 2 code ∈ sleepingParent ↔ code = 7 := by
  obtain ⟨s, reached⟩ : ∃ s, Runs.run step (boot true) sleepingParent = some s :=
    Option.isSome_iff_exists.mp (by decide)
  have enabled : ((Runs.run step (boot true) sleepingParent).bind fun s => step s (.collect 1)).isSome = true := by decide
  have computed : (Runs.run step (boot true) sleepingParent).bind (fun s => delivery s (.collect 1)) = some ⟨1, 2, 3, 7⟩ := by
    decide
  rw [reached, Option.bind_some] at enabled computed
  obtain ⟨next, taken⟩ := Option.isSome_iff_exists.mp enabled
  exact ⟨s, reached, computed, ((exit_code_delivery true sleepingParent s reached).1 _ next _ taken computed).1⟩

end Os161.Proc
