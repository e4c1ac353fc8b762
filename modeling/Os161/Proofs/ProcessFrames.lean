import Os161.Proofs.ProcessSteps

/-! What no step but a fork adds: entries, threads, and who created whom. -/

namespace Os161.Proc
open State

/-- Entries and threads of the later state are those of the earlier one, maybe
further on in their calls. -/
structure Shrinks (s next : State) : Prop where
  entry : ∀ i q, next.pTable i = some q → ∃ p, s.pTable i = some p ∧ p.me = q.me ∧ p.parentPid = q.parentPid
  thread : ∀ t after, next.threads t = some after → ∃ before, s.threads t = some before ∧
    before.creator = after.creator ∧ before.pid = after.pid ∧ (after.collected = false → before.collected = false)

namespace Shrinks

variable {s next last : State} {t : Nat}

theorem refl (s : State) : Shrinks s s :=
  ⟨fun _ p slot => ⟨p, slot, rfl, rfl⟩, fun _ thread found => ⟨thread, found, rfl, rfl, id⟩⟩

theorem trans (first : Shrinks s next) (second : Shrinks next last) : Shrinks s last := by
  constructor
  · intro i r slot
    obtain ⟨q, slot, me, parent⟩ := second.entry i r slot
    obtain ⟨p, slot, me', parent'⟩ := first.entry i q slot
    exact ⟨p, slot, me'.trans me, parent'.trans parent⟩
  · intro t after found
    obtain ⟨middle, found, creator, pid, kept⟩ := second.thread t after found
    obtain ⟨before, found, creator', pid', kept'⟩ := first.thread t middle found
    exact ⟨before, found, creator'.trans creator, pid'.trans pid, fun uncollected => kept' (kept uncollected)⟩

theorem setThread {f} (same : ∀ thread, thread.creator = (f thread).creator ∧ thread.pid = (f thread).pid ∧
    ((f thread).collected = false → thread.collected = false)) : Shrinks s (s.setThread t f) := by
  refine ⟨fun _ p slot => ⟨p, slot, rfl, rfl⟩, ?_⟩
  intro u after found
  simp only [State.setThread] at found
  split at found
  · obtain ⟨before, lookup, rfl⟩ := Option.map_eq_some_iff.mp found
    exact ⟨before, lookup, same before⟩
  · exact ⟨after, found, rfl, rfl, id⟩

theorem setPhase {phase} : Shrinks s (s.setPhase t phase) := setThread fun _ => ⟨rfl, rfl, id⟩

theorem collect : Shrinks s (s.setThread t Thread.collect) := setThread fun _ => ⟨rfl, rfl, Bool.noConfusion⟩

theorem clearSlot (i : Nat) : Shrinks s (s.setSlot i none) := by
  refine ⟨?_, fun _ thread found => ⟨thread, found, rfl, rfl, id⟩⟩
  intro j q slot
  simp only [setSlot] at slot
  split at slot
  · cases slot
  · exact ⟨q, slot, rfl, rfl⟩

theorem setSlot {i p q} (slot : s.pTable i = some p) (me : p.me = q.me)
    (parent : p.parentPid = q.parentPid) : Shrinks s (s.setSlot i (some q)) := by
  refine ⟨?_, fun _ thread found => ⟨thread, found, rfl, rfl, id⟩⟩
  intro j r lookup
  simp only [State.setSlot] at lookup
  split at lookup
  · next same =>
    cases lookup
    exact ⟨p, same ▸ slot, me, parent⟩
  · exact ⟨r, lookup, rfl, rfl⟩

theorem of_eq (table : next.pTable = s.pTable) (threads : next.threads = s.threads) : Shrinks s next :=
  ⟨fun _ p slot => ⟨p, table ▸ slot, rfl, rfl⟩, fun _ thread found => ⟨thread, threads ▸ found, rfl, rfl, id⟩⟩

end Shrinks

variable {s : State} {t : Nat} {thread : Thread}

theorem sysWaitpid_shrinks (pid status : Nat) (options : Int) :
    Shrinks s (sysWaitpid s t thread pid status options).2 := by
  unfold sysWaitpid
  split
  · exact .refl s
  split
  · exact .refl s
  split
  · exact .refl s
  split
  · exact .refl s
  split
  · exact .refl s
  split
  · exact .collect
  · exact .setPhase

theorem semWait_shrinks (pid child sem : Nat) : Shrinks s (semWait s t pid child sem) := by
  unfold semWait
  split
  · exact .of_eq rfl rfl
  · exact .setPhase
  · next count _ =>
    have lowered : Shrinks s (s.setSem sem (some count)) := .of_eq rfl rfl
    exact lowered.trans .setPhase

theorem waitSem_shrinks (pid child : Nat) : Shrinks s (waitSem s t pid child) := by
  unfold waitSem
  split
  · exact .of_eq rfl rfl
  · split
    · exact .of_eq rfl rfl
    · exact semWait_shrinks pid child _

theorem waitCollect_shrinks (pid : Nat) : Shrinks s (waitCollect s t pid).2 := by
  unfold waitCollect
  split
  · exact .of_eq rfl rfl
  · next p slot =>
    refine .trans ?_ .setPhase
    refine .trans ?_ (.clearSlot pid)
    have marked : Shrinks s (s.setThread p.me Thread.collect) := .collect
    split
    · exact marked
    · exact marked.trans (.of_eq rfl rfl)

theorem exitMark_shrinks (code : Int) : Shrinks s (exitMark s t thread code) := by
  unfold exitMark
  split
  · exact .of_eq rfl rfl
  · next p slot =>
    refine .trans (.setSlot slot ?_ ?_) (.trans .setPhase (.of_eq rfl rfl))
    · rfl
    · rfl

theorem exitSignal_shrinks (code : Int) : Shrinks s (exitSignal s t thread code) := by
  unfold exitSignal
  split
  · exact .of_eq rfl rfl
  split
  · exact .of_eq rfl rfl
  split
  · exact .of_eq rfl rfl
  · next sem _ _ count _ =>
    have woken : Shrinks s { s.setSem sem (some (count + 1)) with threads := fun u => (s.threads u).map (wake sem) } := by
      refine ⟨fun _ p slot => ⟨p, slot, rfl, rfl⟩, ?_⟩
      intro u after found
      obtain ⟨before, lookup, rfl⟩ := Option.map_eq_some_iff.mp found
      obtain ⟨creator, pid, collected⟩ := wake_keeps sem before
      exact ⟨before, lookup, creator.symm, pid.symm, fun kept => collected.symm.trans kept⟩
    exact woken.trans .setPhase

theorem performs_shrinks {action next} (performed : Performs s thread action next) :
    (∃ t start memory, action = .fork t start memory) ∨ Shrinks s next := by
  cases performed with
  | fork => exact Or.inl ⟨_, _, _, rfl⟩
  | waitpid => exact Or.inr (sysWaitpid_shrinks _ _ _)
  | wait => exact Or.inr (waitSem_shrinks _ _)
  | again => exact Or.inr (semWait_shrinks _ _ _)
  | collect => exact Or.inr (waitCollect_shrinks _)
  | exit => exact Or.inr (exitMark_shrinks _)
  | semV => exact Or.inr (exitSignal_shrinks _)
  | leave => exact Or.inr (Shrinks.setPhase.trans (.of_eq rfl rfl))
  | threadReturn => exact Or.inr .setPhase

def Older (s : State) : Prop := ∀ t thread c, s.threads t = some thread → thread.creator = some c → c < t

theorem Older.shrinks {next} (older : Older s) (shrinks : Shrinks s next) : Older next := by
  intro t after c found creator
  obtain ⟨before, lookup, same, -⟩ := shrinks.thread t after found
  exact older t before c lookup (same.trans creator)

theorem Older.creates {created i curthread start sem}
    (older : Older s) (known : ∀ t thread, curthread = some (t, thread) → t < s.created)
    (creates : Creates s created i curthread start sem) : Older created := by
  intro u after c found creator
  rw [creates.threads] at found
  dsimp only at found
  split at found
  · next same =>
    cases found
    obtain ⟨⟨t, thread⟩, given, rfl⟩ := Option.map_eq_some_iff.mp creator
    exact same ▸ known t thread given
  · exact older u after c found creator

theorem step_older (valid : Valid s) (older : Older s) {action next}
    (taken : step s action = some next) : Older next := by
  obtain ⟨thread, found, performed⟩ := step_performs taken
  rcases performs_shrinks performed with ⟨t, start, memory, rfl⟩ | shrinks
  · cases performed
    unfold threadFork
    split
    · exact older
    · next newguy created computed =>
      obtain ⟨rfl, i, creates⟩ := threadCreate_creates computed
      have grown : Older created := by
        refine older.creates ?_ creates
        intro u other same
        cases same
        exact valid.ledger.fresh t thread found
      split
      · exact grown.shrinks .setPhase
      · exact grown
  · exact older.shrinks shrinks

theorem boot_older (sem : Bool) : Older (boot sem) := by
  unfold boot
  split
  · intro t thread c found
    cases found
  · next me created computed =>
    obtain ⟨rfl, i, creates⟩ := threadCreate_creates computed
    have empty : Older emptyState := fun t thread c found => by cases found
    exact (empty.creates (fun t thread same => by cases same) creates).shrinks .setPhase

end Os161.Proc
