import Mathlib.Data.List.Nodup
import Mathlib.Data.List.Perm.Basic
import Os161.Lib.Runs
import Os161.Proofs.ThreadSections

/-! Every thread is in exactly one place, and the run queue is served in order. -/

namespace Os161.Threads
open Containers Runs List Option

def Sched.placed (s : Sched) : List Nat :=
  s.curthread.toList ++ (s.runqueue.entries ++ (s.sleepers.guys ++ s.zombies.guys))

def Sched.BeingSetUp (s : Sched) (n : Nat) : Prop := ∃ t < s.created, (s.threads t).newguy = some n

instance (s : Sched) (n : Nat) : Decidable (s.BeingSetUp n) := inferInstanceAs (Decidable (∃ t < s.created, _))

structure Sound (s : Sched) : Prop where
  distinct : s.placed.Nodup
  alive : ∀ t ∈ s.placed, t < s.created ∧ (s.threads t).freed = false
  covered : ∀ t < s.created, (s.threads t).freed = false → t ∈ s.placed ∨ s.BeingSetUp t
  forking : ∀ t n, t < s.created → (s.threads t).newguy = some n →
    n < s.created ∧ n ∉ s.placed ∧ (s.threads n).freed = false
  single : ∀ t u n, t < s.created → u < s.created → (s.threads t).newguy = some n → (s.threads u).newguy = some n → t = u
  counted : s.numthreads = s.curthread.toList.length + s.runqueue.entries.length + s.sleepers.guys.length
  ended : ∀ z ∈ s.zombies.guys, (s.threads z).vmspace = false ∧ (s.threads z).cwd = false

section Sound

variable {s next : Sched}

/-- Threads change places, and the fields that say which threads there are stay as they are. -/
theorem Sound.moved (sound : Sound s) (perm : next.placed.Perm s.placed) (created : next.created = s.created)
    (freed : ∀ t, (next.threads t).freed = (s.threads t).freed)
    (newguy : ∀ t, (next.threads t).newguy = (s.threads t).newguy)
    (counted : next.numthreads = next.curthread.toList.length + next.runqueue.entries.length + next.sleepers.guys.length)
    (ended : ∀ z ∈ next.zombies.guys, (next.threads z).vmspace = false ∧ (next.threads z).cwd = false) :
    Sound next := by
  have member (t : Nat) : t ∈ next.placed ↔ t ∈ s.placed := perm.mem_iff
  have setUp (n : Nat) : next.BeingSetUp n ↔ s.BeingSetUp n := by
    simp only [Sched.BeingSetUp, created, newguy]
  refine ⟨perm.nodup_iff.mpr sound.distinct, fun t here => ?_, fun t below live => ?_, fun t n => ?_, fun t u n => ?_,
    counted, ended⟩
  · rw [created, freed]
    exact sound.alive t ((member t).mp here)
  · rw [created] at below
    rw [freed] at live
    rw [member, setUp]
    exact sound.covered t below live
  · rw [created, newguy, member, freed]
    exact sound.forking t n
  · rw [created, newguy, newguy]
    exact sound.single t u n

variable {t u newguy : Nat} {runqueue : Queue Nat}

theorem Sound.current (sound : Sound s) (cur : s.curthread = some t) :
    t < s.created ∧ t ∉ s.runqueue.entries ∧ t ∉ s.sleepers.guys ∧ t ∉ s.zombies.guys := by
  have distinct := sound.distinct
  simp only [Sched.placed, cur, toList_some, singleton_append, nodup_cons, mem_append,
    not_or] at distinct
  refine ⟨(sound.alive t ?_).1, distinct.1⟩
  simp [Sched.placed, cur]

theorem modifyThread_self (s : Sched) (t : Nat) (change : Thread → Thread) :
    (s.modifyThread t change).threads t = change (s.threads t) := by
  simp [Sched.modifyThread]

theorem modifyThread_other (s : Sched) (other : u ≠ t) (change : Thread → Thread) :
    (s.modifyThread t change).threads u = s.threads u := by
  simp [Sched.modifyThread, other]

theorem modifyThread_field {β : Type} (field : Thread → β) {change} (same : ∀ thread, field (change thread) = field thread) :
    field ((s.modifyThread t change).threads u) = field (s.threads u) := by
  by_cases here : u = t
  · rw [here, modifyThread_self, same]
  · rw [modifyThread_other s here]

theorem zombie_placed {z} (dead : z ∈ s.zombies.guys) : z ∈ s.placed := by simp [Sched.placed, dead]

theorem Extended.placed (extended : Extended s next) : next.placed = s.placed := by
  rw [Sched.placed, extended.curthread, extended.runqueue.1, extended.sleepers.1, extended.zombies.1, Sched.placed]

theorem Sound.extended (sound : Sound s) (extended : Extended s next) : Sound next := by
  apply sound.moved (List.Perm.of_eq extended.placed) extended.created
  · intro t
    rw [extended.threads]
  · intro t
    rw [extended.threads]
  · rw [extended.curthread, extended.numthreads, extended.runqueue.1, extended.sleepers.1]
    exact sound.counted
  · rw [extended.zombies.1, extended.threads]
    exact sound.ended

theorem Sound.threadCreate (sound : Sound s) (cur : s.curthread = some t)
    (idle : (s.threads t).newguy = none) : Sound (s.threadCreate t) := by
  have known := (sound.current cur).1
  have fresh : s.created ∉ s.placed := fun here => Nat.lt_irrefl _ (sound.alive _ here).1
  have new : (s.threadCreate t).threads s.created = Sched.newThread (s.threads t).cwd := by
    rw [Sched.threadCreate, modifyThread_self]
  have old {u : Nat} (below : u < s.created) : (s.threadCreate t).threads u =
      (s.modifyThread t fun thread => { thread with newguy := some s.created }).threads u := by
    rw [Sched.threadCreate, modifyThread_other _ (Nat.ne_of_lt below)]
    rfl
  have newguy {u : Nat} (below : u < s.created) (other : u ≠ t) :
      ((s.threadCreate t).threads u).newguy = (s.threads u).newguy := by
    rw [old below, modifyThread_other s other]
  have forking : ((s.threadCreate t).threads t).newguy = some s.created := by
    rw [old known, modifyThread_self]
  have freed {u : Nat} (below : u < s.created) : ((s.threadCreate t).threads u).freed = (s.threads u).freed := by
    rw [old below, modifyThread_field Thread.freed]
    exact fun _ => rfl
  -- Whoever is forking in the new state is the current thread or was forking before.
  have sources {u n : Nat} (below : u < s.created + 1) (found : ((s.threadCreate t).threads u).newguy = some n) :
      u = t ∧ n = s.created ∨ u < s.created ∧ (s.threads u).newguy = some n := by
    rcases Nat.lt_succ_iff_lt_or_eq.mp below with below | rfl
    · by_cases here : u = t
      · rw [here, forking] at found
        exact .inl ⟨here, (Option.some.inj found).symm⟩
      · rw [newguy below here] at found
        exact .inr ⟨below, found⟩
    · rw [new] at found
      cases found
  refine ⟨sound.distinct, fun u here => ?_, fun u below live => ?_, fun u n below found => ?_,
    fun u v n belowU belowV foundU foundV => ?_, sound.counted, fun z dead => ?_⟩
  · obtain ⟨below, live⟩ := sound.alive u here
    exact ⟨Nat.lt_succ_of_lt below, by rw [freed below, live]⟩
  · rcases Nat.lt_succ_iff_lt_or_eq.mp below with below | rfl
    · rw [freed below] at live
      rcases sound.covered u below live with here | ⟨v, belowV, found⟩
      · exact .inl here
      · refine .inr ⟨v, Nat.lt_succ_of_lt belowV, ?_⟩
        rw [newguy belowV, found]
        rintro rfl
        rw [idle] at found
        cases found
    · exact .inr ⟨t, Nat.lt_succ_of_lt known, forking⟩
  · rcases sources below found with ⟨-, rfl⟩ | ⟨below, found⟩
    · exact ⟨Nat.lt_succ_self _, fresh, by rw [new]; rfl⟩
    · obtain ⟨known, absent, live⟩ := sound.forking u n below found
      exact ⟨Nat.lt_succ_of_lt known, absent, by rw [freed known, live]⟩
  · rcases sources belowU foundU with ⟨rfl, rfl⟩ | ⟨belowU, foundU⟩
    · rcases sources belowV foundV with ⟨rfl, -⟩ | ⟨belowV, foundV⟩
      · rfl
      · exact absurd (sound.forking v _ belowV foundV).1 (Nat.lt_irrefl _)
    · rcases sources belowV foundV with ⟨-, rfl⟩ | ⟨belowV, foundV⟩
      · exact absurd (sound.forking u _ belowU foundU).1 (Nat.lt_irrefl _)
      · exact sound.single u v n belowU belowV foundU foundV
  · have below : z < s.created := (sound.alive z (zombie_placed dead)).1
    rw [old below, modifyThread_field Thread.vmspace, modifyThread_field Thread.cwd]
    · exact sound.ended z dead
    all_goals exact fun _ => rfl

structure Finished (s next : Sched) (t : Nat) : Prop where
  done : (next.threads t).newguy = none
  others : ∀ u, u ≠ t → (next.threads u).newguy = (s.threads u).newguy

theorem Finished.source (finished : Finished s next t) {n} (found : (next.threads u).newguy = some n) :
    u ≠ t ∧ (s.threads u).newguy = some n := by
  by_cases here : u = t
  · rw [here, finished.done] at found
    cases found
  · rw [finished.others u here] at found
    exact ⟨here, found⟩

section

variable (sound : Sound s) (cur : s.curthread = some t) (forking : (s.threads t).newguy = some newguy)
include sound cur forking

theorem Sound.abandon : Sound (s.abandon t newguy) := by
  have known := (sound.current cur).1
  obtain ⟨_, absent, -⟩ := sound.forking t newguy known forking
  have finished : Finished s (s.abandon t newguy) t := by
    refine ⟨by rw [Sched.abandon, modifyThread_self], fun u other => ?_⟩
    rw [Sched.abandon, modifyThread_other _ other, modifyThread_field Thread.newguy]
    exact fun _ => rfl
  have freed (u : Nat) : ((s.abandon t newguy).threads u).freed = if u = newguy then true else (s.threads u).freed := by
    rw [Sched.abandon, modifyThread_field Thread.freed]
    · by_cases here : u = newguy
      · rw [if_pos here, here, modifyThread_self]
      · rw [if_neg here, modifyThread_other s here]
    · exact fun _ => rfl
  refine ⟨sound.distinct, fun u here => ?_, fun u below live => ?_, fun u n below found => ?_,
    fun u v n belowU belowV foundU foundV => ?_, sound.counted, fun z dead => ?_⟩
  · have other : u ≠ newguy := by
      rintro rfl
      exact absent here
    rw [freed, if_neg other]
    exact sound.alive u here
  · rw [freed] at live
    split at live
    · cases live
    next other =>
      rcases sound.covered u below live with here | ⟨v, belowV, found⟩
      · exact .inl here
      · refine .inr ⟨v, belowV, ?_⟩
        rw [finished.others v, found]
        rintro rfl
        rw [forking] at found
        exact other (Option.some.inj found).symm
  · obtain ⟨other, before⟩ := finished.source found
    obtain ⟨knownN, absentN, live⟩ := sound.forking u n below before
    refine ⟨knownN, absentN, ?_⟩
    rw [freed, if_neg, live]
    rintro rfl
    exact other (sound.single u t n below known before forking)
  · exact sound.single u v n belowU belowV (finished.source foundU).2 (finished.source foundV).2
  · rw [Sched.abandon, modifyThread_field Thread.vmspace, modifyThread_field Thread.vmspace,
      modifyThread_field Thread.cwd, modifyThread_field Thread.cwd]
    · exact sound.ended z dead
    all_goals exact fun _ => rfl

theorem Sound.forkDone {memory}
    (added : s.runqueue.addtail newguy memory = some (.ok runqueue)) : Sound ((s.runnable runqueue).forkDone t) := by
  have known := (sound.current cur).1
  obtain ⟨knownNew, absent, live⟩ := sound.forking t newguy known forking
  have entries := (Queue.addtail_ok added).1
  have perm : ((s.runnable runqueue).forkDone t).placed.Perm (newguy :: s.placed) := by
    refine perm_iff_count.mpr fun u => ?_
    simp only [Sched.placed, Sched.forkDone, Sched.runnable, Sched.modifyThread, entries, count_append,
      count_cons, count_nil]
    omega
  have member (u : Nat) : u ∈ ((s.runnable runqueue).forkDone t).placed ↔ u = newguy ∨ u ∈ s.placed := by
    rw [perm.mem_iff, mem_cons]
  have threads : ((s.runnable runqueue).forkDone t).threads =
      (s.modifyThread t fun thread => { thread with newguy := none }).threads := rfl
  have freed (u : Nat) : (((s.runnable runqueue).forkDone t).threads u).freed = (s.threads u).freed := by
    rw [threads, modifyThread_field Thread.freed]
    exact fun _ => rfl
  have finished : Finished s ((s.runnable runqueue).forkDone t) t := by
    refine ⟨by rw [threads, modifyThread_self], fun u other => ?_⟩
    rw [threads, modifyThread_other s other]
  refine ⟨?_, fun u here => ?_, fun u below alive => ?_, fun u n below found => ?_,
    fun u v n belowU belowV foundU foundV => ?_, ?_, fun z dead => ?_⟩
  · exact perm.nodup_iff.mpr (nodup_cons.mpr ⟨absent, sound.distinct⟩)
  · rw [freed]
    rcases (member u).mp here with rfl | here
    · exact ⟨knownNew, live⟩
    · exact sound.alive u here
  · rw [freed] at alive
    rw [member]
    rcases sound.covered u below alive with here | ⟨v, belowV, found⟩
    · exact .inl (.inr here)
    · by_cases this : v = t
      · rw [this, forking] at found
        exact .inl (.inl (Option.some.inj found).symm)
      · exact .inr ⟨v, belowV, by rw [finished.others v this, found]⟩
  · obtain ⟨other, before⟩ := finished.source found
    obtain ⟨knownN, absentN, liveN⟩ := sound.forking u n below before
    rw [freed, member]
    refine ⟨knownN, ?_, liveN⟩
    rintro (rfl | here)
    · exact other (sound.single u t n below known before forking)
    · exact absentN here
  · exact sound.single u v n belowU belowV (finished.source foundU).2 (finished.source foundV).2
  · have counted := sound.counted
    change s.numthreads + 1 = s.curthread.toList.length + runqueue.entries.length + s.sleepers.guys.length
    rw [entries, length_append, length_singleton]
    omega
  · rw [threads, modifyThread_field Thread.vmspace, modifyThread_field Thread.cwd]
    · exact sound.ended z dead
    all_goals exact fun _ => rfl

end

def Sched.destroyed (s : Sched) (zs : List Nat) : Sched :=
  { s with threads := fun u => if u ∈ zs then { s.threads u with freed := true } else s.threads u }

theorem destroy_all {zs} {s : Sched}
    (ended : ∀ z ∈ zs, some z ≠ s.curthread ∧ (s.threads z).vmspace = false ∧ (s.threads z).cwd = false) :
    zs.foldlM Sched.threadDestroy s = some (s.destroyed zs) := by
  induction zs generalizing s with
  | nil => simp [Sched.destroyed]
  | cons z zs ih =>
    have first : s.threadDestroy z = some (s.modifyThread z fun thread => { thread with freed := true }) :=
      if_pos (ended z mem_cons_self)
    rw [foldlM_cons, first]
    refine (ih fun u member => ?_).trans ?_
    · rw [modifyThread_field Thread.vmspace, modifyThread_field Thread.cwd]
      · exact ended u (mem_cons_of_mem _ member)
      all_goals exact fun _ => rfl
    · simp only [Sched.destroyed, Sched.modifyThread, Option.some.injEq, Sched.mk.injEq, true_and, and_true]
      funext u
      by_cases here : u = z
      · simp [here]
      · simp [here]

/-- `exorcise` gives the zombies back, and its assertions hold. -/
theorem Sound.exorcise (sound : Sound s) :
    s.exorcise = some { s.destroyed s.zombies.guys with zombies := s.zombies.clear } := by
  rw [Sched.exorcise, destroy_all]
  · rfl
  · intro z dead
    refine ⟨fun cur => ?_, sound.ended z dead⟩
    exact (sound.current cur.symm).2.2.2 dead

theorem Sound.exorcised (sound : Sound s) (exorcised : s.exorcise = some next) : Sound next := by
  rw [sound.exorcise] at exorcised
  cases exorcised
  have split : s.placed = (s.curthread.toList ++ (s.runqueue.entries ++ s.sleepers.guys)) ++ s.zombies.guys := by
    simp [Sched.placed]
  have placed : ({ s.destroyed s.zombies.guys with zombies := s.zombies.clear } : Sched).placed =
      s.curthread.toList ++ (s.runqueue.entries ++ s.sleepers.guys) := by
    simp [Sched.placed, Sched.destroyed, Arr.clear]
  have distinct := sound.distinct
  rw [split, nodup_append] at distinct
  have member (u : Nat) : u ∈ s.placed ↔
      u ∈ ({ s.destroyed s.zombies.guys with zombies := s.zombies.clear } : Sched).placed ∨ u ∈ s.zombies.guys := by
    rw [split, placed, mem_append]
  have newguy (u : Nat) : ((s.destroyed s.zombies.guys).threads u).newguy = (s.threads u).newguy := by
    simp only [Sched.destroyed]
    split <;> rfl
  have freed {u : Nat} (live : u ∉ s.zombies.guys) : (s.destroyed s.zombies.guys).threads u = s.threads u := if_neg live
  refine ⟨?_, fun u here => ?_, fun u below live => ?_, fun u n below found => ?_,
    fun u v n belowU belowV foundU foundV => ?_, sound.counted, fun z dead => ?_⟩
  · rw [placed]
    exact distinct.1
  · have live : u ∉ s.zombies.guys := fun dead => distinct.2.2 u (placed ▸ here) u dead rfl
    obtain ⟨below, alive⟩ := sound.alive u ((member u).mpr (.inl here))
    exact ⟨below, by rw [freed live, alive]⟩
  · have there : u ∉ s.zombies.guys := by
      intro dead
      simp only [Sched.destroyed, if_pos dead] at live
      cases live
    rw [freed there] at live
    rcases sound.covered u below live with here | ⟨v, belowV, found⟩
    · exact .inl (((member u).mp here).resolve_right there)
    · exact .inr ⟨v, belowV, by rw [newguy, found]⟩
  · rw [newguy] at found
    obtain ⟨known, absent, live⟩ := sound.forking u n below found
    rw [member, not_or] at absent
    exact ⟨known, absent.1, by rw [freed absent.2, live]⟩
  · rw [newguy] at foundU foundV
    exact sound.single u v n belowU belowV foundU foundV
  · cases dead

theorem placed_count (s : Sched) (u : Nat) : s.placed.count u =
    s.curthread.toList.count u + (s.runqueue.entries.count u + (s.sleepers.guys.count u + s.zombies.guys.count u)) := by
  simp only [Sched.placed, count_append]

section

variable (sound : Sound s) (cur : s.curthread = some t)
include sound cur

theorem Sound.yielded (entries : runqueue.entries = s.runqueue.entries ++ [t]) :
    Sound ({ s with curthread := none }.runnable runqueue) := by
  apply sound.moved
  · refine perm_iff_count.mpr fun u => ?_
    simp only [placed_count, Sched.runnable, cur, entries, count_append, toList_none, toList_some,
      count_nil]
    omega
  · rfl
  · exact fun _ => rfl
  · exact fun _ => rfl
  · have counted := sound.counted
    rw [cur] at counted
    change s.numthreads = 0 + runqueue.entries.length + s.sleepers.guys.length
    rw [entries, length_append, length_singleton]
    change s.numthreads = 1 + _ + _ at counted
    omega
  · exact sound.ended

theorem Sound.slept {addr sleepers} (guys : sleepers.guys = s.sleepers.guys ++ [t]) :
    Sound { s.modifyThread t fun thread => { thread with sleepaddr := addr } with curthread := none, sleepers } := by
  have same {β : Type} (field : Thread → β) (keeps : ∀ thread, field { thread with sleepaddr := addr } = field thread)
      (u : Nat) : field ((s.modifyThread t fun thread => { thread with sleepaddr := addr }).threads u) =
        field (s.threads u) := modifyThread_field field keeps
  apply sound.moved
  · refine perm_iff_count.mpr fun u => ?_
    simp only [placed_count, Sched.modifyThread, cur, guys, count_append, toList_none, toList_some,
      count_nil]
    omega
  · rfl
  · exact same Thread.freed fun _ => rfl
  · exact same Thread.newguy fun _ => rfl
  · have counted := sound.counted
    rw [cur] at counted
    change s.numthreads = 0 + s.runqueue.entries.length + sleepers.guys.length
    rw [guys, length_append, length_singleton]
    change s.numthreads = 1 + _ + _ at counted
    omega
  · intro z dead
    have ended := sound.ended z dead
    rw [← same Thread.vmspace fun _ => rfl, ← same Thread.cwd fun _ => rfl] at ended
    exact ended

theorem Sound.exited {zombies} (guys : zombies.guys = s.zombies.guys ++ [t]) :
    Sound { s.modifyThread t fun thread => { thread with vmspace := false, cwd := false } with
      curthread := none, numthreads := s.numthreads - 1, zombies } := by
  have same {β : Type} (field : Thread → β)
      (keeps : ∀ thread, field { thread with vmspace := false, cwd := false } = field thread) (u : Nat) :
      field ((s.modifyThread t fun thread => { thread with vmspace := false, cwd := false }).threads u) =
        field (s.threads u) := modifyThread_field field keeps
  apply sound.moved
  · refine perm_iff_count.mpr fun u => ?_
    simp only [placed_count, Sched.modifyThread, cur, guys, count_append, toList_none, toList_some,
      count_nil]
    omega
  · rfl
  · exact same Thread.freed fun _ => rfl
  · exact same Thread.newguy fun _ => rfl
  · have counted := sound.counted
    rw [cur] at counted
    change s.numthreads - 1 = 0 + s.runqueue.entries.length + s.sleepers.guys.length
    change s.numthreads = 1 + _ + _ at counted
    omega
  · intro z dead
    rw [guys, mem_append, mem_singleton] at dead
    rcases dead with dead | rfl
    · have other : z ≠ t := by
        rintro rfl
        exact (sound.current cur).2.2.2 dead
      rw [modifyThread_other s other]
      exact sound.ended z dead
    · rw [modifyThread_self]
      exact ⟨rfl, rfl⟩

end

theorem Sound.woken (sound : Sound s) {i} (found : s.sleepers.guys[i]? = some t)
    (entries : runqueue.entries = s.runqueue.entries ++ [t]) :
    Sound ({ s with sleepers := s.sleepers.remove i }.runnable runqueue) := by
  obtain ⟨inside, item⟩ := List.getElem?_eq_some_iff.mp found
  have perm := getElem_cons_eraseIdx_perm inside
  rw [item] at perm
  apply sound.moved
  · refine perm_iff_count.mpr fun u => ?_
    have count := perm.count_eq u
    rw [count_cons] at count
    simp only [placed_count, Sched.runnable, Arr.remove, entries, count_append, count_cons, count_nil]
    omega
  · rfl
  · exact fun _ => rfl
  · exact fun _ => rfl
  · have counted := sound.counted
    have length := perm.length_eq
    change s.numthreads = s.curthread.toList.length + runqueue.entries.length + (s.sleepers.guys.eraseIdx i).length
    rw [entries, length_append, length_singleton]
    rw [length_cons] at length
    omega
  · exact sound.ended

theorem Sound.chosen (sound : Sound s) (idle : s.curthread = none)
    (entries : s.runqueue.entries = t :: runqueue.entries) (change : Thread → Thread)
    (keeps : ∀ thread, (change thread).freed = thread.freed ∧ (change thread).newguy = thread.newguy ∧
      (change thread).vmspace = thread.vmspace ∧ (change thread).cwd = thread.cwd) :
    Sound ({ s with curthread := some t, runqueue }.modifyThread t change) := by
  apply sound.moved
  · refine List.Perm.of_eq ?_
    simp only [Sched.placed, Sched.modifyThread, idle, entries, toList_none, toList_some, nil_append,
      cons_append]
  · rfl
  · exact fun _ => modifyThread_field Thread.freed fun thread => (keeps thread).1
  · exact fun _ => modifyThread_field Thread.newguy fun thread => (keeps thread).2.1
  · have counted := sound.counted
    rw [idle, entries] at counted
    change s.numthreads = 1 + runqueue.entries.length + s.sleepers.guys.length
    change s.numthreads = 0 + (runqueue.entries.length + 1) + s.sleepers.guys.length at counted
    omega
  · intro z dead
    rw [modifyThread_field Thread.vmspace, modifyThread_field Thread.cwd]
    · exact sound.ended z dead
    · exact fun thread => (keeps thread).2.2.2
    · exact fun thread => (keeps thread).2.2.1

theorem Sound.step (sound : Sound s) {call} (step : Section s call next) : Sound next := by
  cases step with
  | refused => exact sound
  | created t cur idle => exact sound.threadCreate cur idle
  | forkFailed memory t newguy cur forking wide extended =>
    apply (sound.extended extended).abandon (extended.curthread.trans cur)
    rw [extended.threads]
    exact forking
  | forked memory t newguy cur forking wide roomy runqueue added =>
    apply (sound.extended roomy.toExtended).forkDone (roomy.curthread.trans cur) _ added
    rw [roomy.threads]
    exact forking
  | setup vmspace cwd t cur =>
    apply sound.moved
    · exact List.Perm.refl _
    · rfl
    · intro u
      rw [modifyThread_field Thread.freed]
      exact fun _ => rfl
    · intro u
      rw [modifyThread_field Thread.newguy]
      exact fun _ => rfl
    · exact sound.counted
    · intro z dead
      have other : z ≠ t := by
        rintro rfl
        exact (sound.current cur).2.2.2 dead
      rw [modifyThread_other s other]
      exact sound.ended z dead
  | idled memory idle => exact sound
  | yielded memory t cur runqueue added => exact sound.yielded cur (Queue.addtail_ok added).1
  | slept addr memory t cur sleepers added => exact sound.slept cur (Arr.add_ok added).1
  | woken addr memory i t found runqueue added => exact sound.woken found (Queue.addtail_ok added).1
  | wokenOne addr memory t found runqueue added => exact sound.woken found (Queue.addtail_ok added).1
  | notWoken addr memory => exact sound
  | exited memory t cur running zombies added => exact sound.exited cur (Arr.add_ok added).1
  | launched t idle runqueue taken fresh =>
    apply sound.chosen idle (Queue.remhead_some taken).1
    exact fun _ => ⟨rfl, rfl, rfl, rfl⟩
  | resumed t idle runqueue taken started next exorcised =>
    have chosen := sound.chosen idle (Queue.remhead_some taken).1 (fun thread => { thread with sleepaddr := 0 })
      fun _ => ⟨rfl, rfl, rfl, rfl⟩
    exact chosen.exorcised exorcised

end Sound

theorem bootstrap_sound : Sound bootstrap := by
  refine ⟨?_, ?_, ?_, ?_, ?_, ?_, ?_⟩
  · decide
  · intro t here
    rw [mem_singleton.mp here]
    exact ⟨Nat.zero_lt_one, rfl⟩
  · intro t below live
    exact .inl (mem_singleton.mpr (Nat.lt_one_iff.mp below))
  · intro t n below forking
    cases forking
  · intro t u n belowT belowU forking
    cases forking
  · rfl
  · intro z dead
    cases dead

def Sched.occurrences (s : Sched) (t : Nat) : Nat :=
  s.curthread.toList.count t + s.runqueue.entries.count t + s.sleepers.guys.count t + s.zombies.guys.count t

/-- Every thread created, not destroyed and not being set up is in exactly one place, the current one is no zombie,
and `numthreads` counts the others. -/
def Conserved (s : Sched) : Prop :=
  ∀ cur, s.curthread = some cur →
    (∀ t < s.created, (s.threads t).freed = false → ¬ s.BeingSetUp t → s.occurrences t = 1) ∧
    cur ∉ s.zombies.guys ∧ s.numthreads = 1 + s.runqueue.entries.length + s.sleepers.guys.length

/-- When `scheduler` has a thread to return, no assertion of `exorcise` or `thread_destroy` fails. -/
def Exorcises (s : Sched) : Prop :=
  s.curthread = none → s.runqueue.entries ≠ [] → (threadStep s .scheduler).isSome

theorem Sound.conserved {s} (sound : Sound s) : Conserved s := by
  intro cur current
  refine ⟨fun t below live settled => ?_, (sound.current current).2.2.2, ?_⟩
  · have here := (sound.covered t below live).resolve_right settled
    have once : s.placed.count t = 1 := count_eq_one_of_mem sound.distinct here
    rw [placed_count] at once
    rw [Sched.occurrences]
    omega
  · rw [sound.counted, current]
    rfl

theorem Sound.exorcises {s} (sound : Sound s) : Exorcises s := by
  intro idle some_
  obtain ⟨t, rest, entries⟩ := exists_cons_of_ne_nil some_
  obtain ⟨runqueue, taken, remaining, -⟩ := Queue.remhead_cons entries
  have head : s.runqueue.entries = t :: runqueue.entries := by rw [entries, remaining]
  simp only [threadStep, idle, isSome_none, Bool.false_eq_true, if_false, Sched.resume, taken, bind_eq_bind,
    bind_some]
  split
  next started =>
    have chosen := sound.chosen idle head (fun thread => { thread with sleepaddr := 0 }) fun _ => ⟨rfl, rfl, rfl, rfl⟩
    rw [chosen.exorcise]
    rfl
  next => rfl

/-- At every boundary of a section threads are conserved; the assertions hold whenever a thread is resumed. -/
theorem threads_conserved (calls : List Call) :
    Always threadStep (fun s => Conserved s ∧ Exorcises s) bootstrap calls := by
  have always : Always threadStep Sound bootstrap calls :=
    always_of_invariant (fun _ _ _ sound taken => threadStep_keeps (fun _ _ sound => sound.step) sound taken)
      bootstrap_sound calls
  exact always.mono fun s sound => ⟨sound.conserved, sound.exorcises⟩

/-- Between the two parts of `thread_fork` the new thread is in no place, here even after the forking thread has
yielded. -/
theorem unplaced_while_forking :
    ∃ s, run threadStep bootstrap [.threadCreate true, .threadYield true, .scheduler] = some s ∧
      s.curthread = some 0 ∧ 1 < s.created ∧ (s.threads 1).freed = false ∧ s.occurrences 1 = 0 :=
  ⟨_, rfl, rfl, by decide, rfl, by decide⟩

section Turns

variable {s next : Sched}

theorem Section.queue_grows {call} (step : Section s call next) (other : call ≠ .scheduler) :
    s.runqueue.entries <+: next.runqueue.entries := by
  cases step with
  | forkFailed memory t newguy cur forking wide extended => exact ⟨[], (append_nil _).trans extended.runqueue.1.symm⟩
  | forked memory t newguy cur forking wide roomy runqueue added =>
    rw [← roomy.runqueue.1]
    exact ⟨_, (Queue.addtail_ok added).1.symm⟩
  | yielded memory t cur runqueue added | woken addr memory i t found runqueue added
  | wokenOne addr memory t found runqueue added => exact ⟨_, (Queue.addtail_ok added).1.symm⟩
  | launched | resumed => exact absurd rfl other
  | _ => exact prefix_rfl

theorem Sound.turn (sound : Sound s) (chosen : threadStep s .scheduler = some next) :
    ∃ t, s.runqueue.entries = t :: next.runqueue.entries ∧ next.curthread = some t := by
  cases threadStep_section (by rintro _ _ ⟨⟩) chosen with
  | launched t idle runqueue taken => exact ⟨t, (Queue.remhead_some taken).1, rfl⟩
  | resumed t idle runqueue taken _ _ exorcised =>
    have entries := (Queue.remhead_some taken).1
    have woken := sound.chosen idle entries (fun thread => { thread with sleepaddr := 0 }) fun _ => ⟨rfl, rfl, rfl, rfl⟩
    cases woken.exorcise.symm.trans exorcised
    exact ⟨t, entries, rfl⟩

/-- A thread moves up by one place with every call of `scheduler`, and stays where it is with any other. -/
theorem Sound.moves_up {k t calls} (sound : Sound s) (place : s.runqueue.entries[k]? = some t)
    (went : run threadStep s calls = some next) (turns : calls.count .scheduler ≤ k) :
    Sound next ∧ next.runqueue.entries[k - calls.count .scheduler]? = some t := by
  induction calls generalizing s k with
  | nil =>
    cases went
    exact ⟨sound, place⟩
  | cons call rest ih =>
    obtain ⟨middle, taken, further⟩ := bind_eq_some_iff.mp went
    have kept := threadStep_keeps (fun _ _ sound => sound.step) sound taken
    by_cases chooses : call = .scheduler
    · subst chooses
      obtain ⟨u, entries, -⟩ := sound.turn taken
      rw [count_cons_self] at turns ⊢
      cases k with
      | zero => cases turns
      | succ k =>
        rw [entries, getElem?_cons_succ] at place
        rw [Nat.add_sub_add_right]
        exact ih kept place further (Nat.le_of_succ_le_succ turns)
    · obtain ⟨added, whole⟩ := @threadStep_keeps (fun now => s.runqueue.entries <+: now.runqueue.entries) _ _ _
        (fun _ _ grown step => grown.trans (step.queue_grows chooses)) prefix_rfl taken
      rw [count_cons_of_ne chooses] at turns ⊢
      refine ih kept ?_ further turns
      rw [← whole, getElem?_append_left (List.getElem?_eq_some_iff.mp place).1, place]

end Turns

/-- Once `k` more calls of `scheduler` have returned, it returns the thread now at place `k` of the run queue. -/
def TakesTurns (s : Sched) : Prop :=
  ∀ k t calls later, s.runqueue.entries[k]? = some t → run threadStep s calls = some later →
    calls.count .scheduler = k → later.curthread = none →
    ∃ next, threadStep later .scheduler = some next ∧ next.curthread = some t

theorem turns_in_order (calls : List Call) : Always threadStep TakesTurns bootstrap calls := by
  have always : Always threadStep Sound bootstrap calls :=
    always_of_invariant (fun _ _ _ sound taken => threadStep_keeps (fun _ _ sound => sound.step) sound taken)
      bootstrap_sound calls
  refine always.mono fun s sound k t calls later place went turns idle => ?_
  obtain ⟨kept, first⟩ := sound.moves_up place went (Nat.le_of_eq turns)
  rw [turns, Nat.sub_self] at first
  have some_ : later.runqueue.entries ≠ [] := by
    intro empty
    rw [empty] at first
    cases first
  obtain ⟨next, taken⟩ := isSome_iff_exists.mp (kept.exorcises idle some_)
  obtain ⟨u, entries, current⟩ := kept.turn taken
  rw [entries] at first
  cases first
  exact ⟨next, taken, current⟩

end Os161.Threads
