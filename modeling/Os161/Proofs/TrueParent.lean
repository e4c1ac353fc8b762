import Os161.Proofs.ProcessFrames

/-! `sys_waitpid` knows a parent by its pid. The entries of a gone process keep that pid, so the next thread to get
it can wait for children it never forked. -/

namespace Os161.Proc
open State

variable {s : State} {t : Nat} {thread : Thread}

/-- A thread that has the pid an entry names as its parent forked that entry's thread. -/
def TrueParents (s : State) : Prop :=
  ∀ i p child y parent, s.pTable i = some p → s.threads p.me = some child → s.threads y = some parent →
    parent.collected = false → p.parentPid = parent.pid → child.creator = some y

variable {next : State} {i : Nat} {action : Step}

theorem TrueParents.shrinks (parents : TrueParents s) (shrinks : Shrinks s next) : TrueParents next := by
  intro i q child y parent slot found lookup uncollected same
  obtain ⟨p, slot, me, parentPid⟩ := shrinks.entry i q slot
  obtain ⟨childBefore, foundBefore, creator, -⟩ := shrinks.thread q.me child found
  obtain ⟨parentBefore, lookupBefore, -, pid, kept⟩ := shrinks.thread y parent lookup
  rw [← creator]
  refine parents i p childBefore y parentBefore slot (me ▸ foundBefore) lookupBefore (kept uncollected) ?_
  rw [parentPid, same, pid]

def FreshPid (s : State) : Step → Prop
  | .fork _ _ memory =>
    memory.create = true → ∀ i, s.freeSlot = some i → ∀ j p, s.pTable j = some p → p.parentPid ≠ i
  | _ => True

theorem TrueParents.creates {created start sem} (parents : TrueParents s)
    (valid : Valid s) (found : s.threads t = some thread) (running : thread.phase = .running)
    (fresh : ∀ j p, s.pTable j = some p → p.parentPid ≠ i)
    (creates : Creates s created i (some (t, thread)) start sem) : TrueParents created := by
  have kept := valid.uncollected found fun code exited => by rw [exited] at running; cases running
  have grown := creates.valid valid
  have foundAfter : created.threads t = some thread := by
    rw [creates.threads]
    exact (if_neg (Nat.ne_of_lt (valid.ledger.fresh t thread found))).trans found
  intro j q child y parent slot lookupChild lookup uncollected same
  rw [creates.table] at slot
  dsimp only at slot
  split at slot
  · next new =>
    cases slot
    cases creates.stores.newcomer.symm.trans lookupChild
    have pid : thread.pid = parent.pid := Int.ofNat.inj same
    rw [grown.unique lookup uncollected foundAfter kept pid.symm]
    rfl
  · next old =>
    obtain ⟨-, -, owner, before, -⟩ := valid.ledger.entry j q slot
    have after : created.threads q.me = some owner := by
      rw [creates.threads]
      exact (if_neg (Nat.ne_of_lt (valid.ledger.fresh q.me owner before))).trans before
    cases after.symm.trans lookupChild
    rw [creates.threads] at lookup
    dsimp only at lookup
    split at lookup
    · cases lookup
      exact absurd same (fresh j q slot)
    · exact parents j q child y parent slot before lookup uncollected same

section

variable (valid : Valid s) (parents : TrueParents s) (taken : step s action = some next)
include valid parents taken

theorem step_trueParents (fresh : FreshPid s action) : TrueParents next := by
  obtain ⟨thread, found, performed⟩ := step_performs taken
  rcases performs_shrinks performed with ⟨t, start, memory, rfl⟩ | shrinks
  · cases performed with
    | fork running =>
      unfold threadFork
      split
      · exact parents
      · next newguy created computed =>
        obtain ⟨rfl, i, creates⟩ := threadCreate_creates computed
        have create : memory.create = true := by
          cases flag : memory.create with
          | true => rfl
          | false => simp [threadCreate, creates.free, flag] at computed
        have grown := parents.creates valid found running (fresh create i creates.free) creates
        split
        · exact grown.shrinks .setPhase
        · exact grown
  · exact parents.shrinks shrinks

/-- A wait that succeeds in this step is for a thread that the caller forked. -/
def ByTrueParent (s : State) (action : Step) : Prop :=
  ∀ d, delivery s action = some d → ∃ p child, s.pTable d.retval = some p ∧ s.threads p.me = some child ∧
    child.creator = some d.waiter

theorem byTrueParent_of_parents : ByTrueParent s action := by
  obtain ⟨thread, found, performed⟩ := step_performs taken
  intro d delivered
  cases performed with
  | @waitpid t pid status options running =>
    have found' : s.threads t = some thread := found
    have kept := valid.uncollected found fun code exited => by rw [exited] at running; cases running
    simp only [delivery, found', sysWaitpid] at delivered
    split at delivered
    · next _ p same slot =>
      cases same
      obtain ⟨-, -, child, lookup, -⟩ := valid.ledger.entry pid p slot
      simp only [slot] at delivered
      split at delivered
      · next computed =>
        repeat (split at computed; · cases computed)
        next parent =>
        split at computed
        · cases computed
          cases delivered
          exact ⟨p, child, slot, lookup, parents pid p child t _ slot lookup found kept (not_not.mp parent)⟩
        · cases computed
      · cases delivered
    · cases delivered
  | @collect t pid child collecting =>
    have found' : s.threads t = some thread := found
    have kept := valid.uncollected found fun code exited => by rw [exited] at collecting; cases collecting
    obtain ⟨p, slot, -, parent, -⟩ := valid.attended t thread found pid child (by rw [collecting]; rfl)
    obtain ⟨-, -, owner, lookup, -⟩ := valid.ledger.entry pid p slot
    simp only [delivery, found', Option.map_some, collecting, waitCollect, slot] at delivered
    cases delivered
    exact ⟨p, owner, slot, lookup, parents pid p owner t thread slot lookup found kept parent⟩
  | _ => cases delivered

end

theorem boot_entry (sem : Bool) {p} (slot : (boot sem).pTable i = some p) : p.parentPid = -1 := by
  unfold boot at slot
  split at slot
  · cases slot
  · next me created computed =>
    obtain ⟨rfl, j, creates⟩ := threadCreate_creates computed
    obtain ⟨q, before, -, parentPid⟩ := Shrinks.setPhase.entry i p slot
    rw [creates.table] at before
    dsimp only at before
    split at before
    · cases before
      exact parentPid.symm
    · cases before

theorem boot_trueParents (sem : Bool) : TrueParents (boot sem) := by
  intro i p child y parent slot found lookup uncollected same
  rw [boot_entry sem slot] at same
  omega

/-- While no reused pid is still named as a parent, only the thread that forked a child can wait for it. -/
theorem only_true_parent_waits (sem : Bool) (actions : List Step)
    (fresh : Runs.EachStep step FreshPid (boot sem) actions) : Runs.EachStep step ByTrueParent (boot sem) actions := by
  have keeps : ∀ state action next, Valid state ∧ TrueParents state → step state action = some next →
      FreshPid state action → Valid next ∧ TrueParents next :=
    fun _ _ _ now taken freshPid => ⟨step_valid now.1 taken, step_trueParents now.1 now.2 taken freshPid⟩
  have always := Runs.always_of_steps keeps ⟨boot_valid sem, boot_trueParents sem⟩ fresh
  exact Runs.EachStep.of_always (fun _ _ _ now taken _ => byTrueParent_of_parents now.1 now.2 taken) always

def forkAndWait : List Step :=
  [.fork 0 .forkentry ⟨true, true, true⟩, .exit 1 0, .semV 1, .leave 1, .waitpid 0 2 4 0]

theorem only_true_parent_waits_once :
    Runs.EachStep step FreshPid (boot true) forkAndWait ∧ Runs.EachStep step ByTrueParent (boot true) forkAndWait := by
  have fresh : Runs.EachStep step FreshPid (boot true) forkAndWait := by
    intro next _
    refine ⟨?_, fun _ _ => ⟨trivial, fun _ _ => ⟨trivial, fun _ _ => ⟨trivial, fun _ _ => ⟨trivial, trivial⟩⟩⟩⟩⟩
    intro _ i _ j p slot same
    rw [boot_entry true slot] at same
    omega
  exact ⟨fresh, only_true_parent_waits true forkAndWait fresh⟩

/-- Process 2 forks process 3, exits and is collected. Process 4 then gets its pid, and process 3 exits. -/
def reusedPid : List Step :=
  [.fork 0 .kernel ⟨true, true, true⟩, .fork 1 .forkentry ⟨true, true, true⟩, .fork 2 .forkentry ⟨true, true, true⟩,
    .waitpid 1 3 4 0, .semP 1, .exit 2 0, .semV 2, .leave 2, .semP 1, .collect 1,
    .fork 1 .forkentry ⟨true, true, true⟩, .exit 3 5, .semV 3, .leave 3]

theorem reused_pid_waits :
    ∃ s next, Runs.run step (boot true) reusedPid = some s ∧ step s (.waitpid 4 4 4 0) = some next ∧
      delivery s (.waitpid 4 4 4 0) = some ⟨4, 3, 4, 5⟩ ∧ (s.threads 3).bind Thread.creator = some 2 ∧
      ¬ ByTrueParent s (.waitpid 4 4 4 0) := by
  obtain ⟨s, reached⟩ : ∃ s, Runs.run step (boot true) reusedPid = some s := Option.isSome_iff_exists.mp (by decide)
  have enabled : ((Runs.run step (boot true) reusedPid).bind fun s => step s (.waitpid 4 4 4 0)).isSome = true := by decide
  have delivered : (Runs.run step (boot true) reusedPid).bind (fun s => delivery s (.waitpid 4 4 4 0)) =
      some ⟨4, 3, 4, 5⟩ := by decide
  have creator : (Runs.run step (boot true) reusedPid).bind (fun s => (s.threads 3).bind Thread.creator) = some 2 := by
    decide
  have entry : (Runs.run step (boot true) reusedPid).bind (fun s => (s.pTable 4).map Process.me) = some 3 := by decide
  rw [reached, Option.bind_some] at enabled delivered creator entry
  obtain ⟨next, taken⟩ := Option.isSome_iff_exists.mp enabled
  refine ⟨s, next, reached, taken, delivered, creator, ?_⟩
  intro byParent
  obtain ⟨p, child, slot, found, forked⟩ := byParent _ delivered
  rw [slot] at entry
  have me : p.me = 3 := Option.some.inj entry
  rw [me] at found
  rw [found] at creator
  cases creator.symm.trans forked

end Os161.Proc
