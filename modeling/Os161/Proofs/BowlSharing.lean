import Mathlib.Tactic.IntervalCases
import Os161.Lib.Runs
import Os161.Proofs.BowlInvariant

/-! Runs of `catmouselock`. With one command the animals keep apart; a second finds the counters of the first and
replaces the locks its threads hold. -/

namespace Os161.CatMouse

open Crew Runs List

section Starting

variable {world after : World}

theorem Sound.fork (sound : Sound world) {species number rest}
    (driver : world.driver = .fork species number :: rest) :
    Sound { world with threads := world.threads ++ [⟨species, number, .loop, 0⟩], driver := rest } := by
  have listed : Statement.fork species number ∈ world.driver := by simp [driver]
  obtain ⟨species', number', same, unfed, absent⟩ := sound.pending _ listed
  cases same
  have once := sound.once
  rw [driver, nodup_cons] at once
  refine ⟨sound.created, sound.two, sound.mutex.joins rfl, fun bowl => (sound.bowlLock bowl).joins rfl, ?_, ?_,
    sound.apart, ?_, ?_, ?_, once.2⟩
  · intro bowl
    rw [countP_joined]
    exact sound.bowl bowl
  · intro other
    have uncounted : Thread.eats other ⟨species, number, .loop, 0⟩ = false := by simp [Thread.eats, Point.counted]
    rw [countP_joined, uncounted]
    exact sound.eating other
  · intro u thread at_
    rcases getElem?_joined.mp at_ with ⟨-, rfl⟩ | at_
    · exact ⟨unfed.symm, unfed.le.trans (by decide), trivial, trivial⟩
    · exact (sound.knows u thread at_).congr rfl rfl rfl rfl
  · intro t u first second atFirst atSecond same
    rcases getElem?_joined.mp atFirst with ⟨lastFirst, rfl⟩ | atFirst
    · rcases getElem?_joined.mp atSecond with ⟨lastSecond, -⟩ | atSecond
      · rw [lastFirst, lastSecond]
      · exact absurd ⟨same.1.symm, same.2.symm⟩ (absent second (mem_of_getElem? atSecond))
    · rcases getElem?_joined.mp atSecond with ⟨-, rfl⟩ | atSecond
      · exact absurd same (absent first (mem_of_getElem? atFirst))
      · exact sound.distinct t u first second atFirst atSecond same
  · intro statement later
    obtain ⟨other, which, rfl, unfedLater, absentLater⟩ := sound.pending statement (by simp [driver, later])
    refine ⟨other, which, rfl, unfedLater, ?_⟩
    intro thread member same
    rcases mem_append.mp member with member | member
    · exact absentLater thread member same
    · rw [mem_singleton] at member
      subst member
      obtain ⟨rfl, rfl⟩ := same
      exact once.1 later

theorem Sound.drive (sound : Sound world) (taken : world.drive = some after) : Sound after := by
  unfold World.drive at taken
  cases driver : world.driver with
  | nil =>
    rw [driver] at taken
    cases taken
  | cons statement rest =>
    obtain ⟨species, number, rfl, -, -⟩ := sound.pending statement (by simp [driver])
    rw [driver] at taken
    cases taken
    exact sound.fork driver

def creating : Nat → World
  | 0 => { boot with driver := catmouselock }
  | n + 1 => ((creating n).drive).getD boot

theorem Sole.nobody {property : Thread → Bool} : Sole [] property none := by
  intro t
  simp

theorem sound_created : Sound (creating 3) := by
  refine ⟨⟨by decide, fun bowl => by cases bowl <;> decide⟩, by decide, Sole.nobody, fun _ => Sole.nobody,
    fun _ => rfl, fun _ => rfl, fun _ => Or.inl rfl, ?_, ?_, ?_, by decide⟩
  · intro t thread at_
    cases at_
  · intro t u first second at_
    cases at_
  · intro statement listed
    have forks : (creating 3).driver =
        (List.range ncats).map (.fork .cat) ++ (List.range nmice).map (.fork .mouse) := rfl
    have animal : ∃ species number, statement = .fork species number := by
      rw [forks, mem_append, mem_map, mem_map] at listed
      rcases listed with ⟨number, -, rfl⟩ | ⟨number, -, rfl⟩
      · exact ⟨.cat, number, rfl⟩
      · exact ⟨.mouse, number, rfl⟩
    obtain ⟨species, number, rfl⟩ := animal
    refine ⟨species, number, rfl, rfl, ?_⟩
    intro thread member
    cases member

/-- Before the first command, while the locks are created, or later. -/
def Started (world : World) : Prop := world = boot ∨ (∃ n, n < 3 ∧ world = creating n) ∨ Sound world

variable {action : Action} {actions : List Action}

theorem creating_step {n} (inside : n < 3) (taken : step (creating n) action = some after) :
    after = creating (n + 1) := by
  have idle : (creating n).threads = [] ∧ (creating n).driver ≠ [] := by
    interval_cases n <;> exact ⟨rfl, by decide⟩
  cases action with
  | command =>
    rw [step, if_neg idle.2] at taken
    cases taken
  | drive =>
    have driven : (creating n).drive = some after := taken
    rw [creating, driven, Option.getD_some]
  | advance t rand =>
    have missing : (creating n).advance t rand = .blocked := by
      rw [World.advance, idle.1]
      rfl
    rw [step, missing] at taken
    cases taken

theorem Started.step (started : Started world) (taken : step world action = some after)
    (first : action = .command → world.mutex = 0) : Started after := by
  rcases started with rfl | ⟨n, inside, rfl⟩ | sound
  · cases action with
    | command =>
      cases taken
      exact Or.inr (Or.inl ⟨0, by decide, rfl⟩)
    | drive => cases taken
    | advance t rand => cases taken
  · obtain rfl := creating_step inside taken
    by_cases last : n + 1 < 3
    · exact Or.inr (Or.inl ⟨n + 1, last, rfl⟩)
    · obtain rfl : n = 2 := by omega
      exact Or.inr (Or.inr sound_created)
  · cases action with
    | command => exact absurd (first rfl) sound.created.1
    | drive => exact Or.inr (Or.inr (sound.drive taken))
    | advance t rand => exact Or.inr (Or.inr (sound.advance (Outcome.toOption_eq_some.mp taken)))

theorem eachStep_of_no_command (none_ : Action.command ∉ actions) :
    EachStep step (fun world action => action = .command → world.mutex = 0) world actions := by
  induction actions generalizing world with
  | nil => trivial
  | cons action rest again =>
    intro next taken
    rw [mem_cons, not_or] at none_
    exact ⟨fun command => absurd command.symm none_.1, again none_.2⟩

theorem eachStep_of_one_command (once : actions.count .command ≤ 1) :
    EachStep step (fun world action => action = .command → world.mutex = 0) boot actions := by
  cases actions with
  | nil => trivial
  | cons action rest =>
    intro next taken
    refine ⟨fun _ => rfl, ?_⟩
    cases action with
    | command =>
      apply eachStep_of_no_command
      rw [count_cons_self] at once
      rw [← count_eq_zero]
      omega
    | drive => cases taken
    | advance t rand => cases taken

/-- Throughout a run with at most one command there are no threads yet or they are sound. -/
theorem sound_of_one_command (once : actions.count .command ≤ 1) :
    Always step (fun world => world.threads = [] ∧ (∀ species, world.eating species = 0) ∨ Sound world)
      boot actions := by
  have always : Always step Started boot actions :=
    always_of_steps (fun _ _ _ started taken first => started.step taken first) (Or.inl rfl)
      (eachStep_of_one_command once)
  refine always.mono fun world started => ?_
  rcases started with rfl | ⟨n, inside, rfl⟩ | sound
  · exact Or.inl ⟨rfl, fun _ => rfl⟩
  · interval_cases n <;> exact Or.inl ⟨rfl, fun _ => rfl⟩
  · exact Or.inr sound

end Starting

section Sharing

variable {world : World} {t u : Nat}

def World.EatsAt (world : World) (t : Nat) (species : Species) (bowl : Bowl) : Prop :=
  ∃ thread lock, world.threads[t]? = some thread ∧ thread.species = species ∧
    thread.point = .eatFood .lockEat bowl lock

/-- No cat eats while a mouse does, and no two animals eat from the same bowl. -/
def World.Separate (world : World) : Prop :=
  (∀ t u bowl other, world.EatsAt t .cat bowl → ¬ world.EatsAt u .mouse other) ∧
  ∀ t u species other bowl, world.EatsAt t species bowl → world.EatsAt u other bowl → t = u

def World.FinishedFed (world : World) : Prop :=
  ∀ thread ∈ world.threads, thread.point = .finished → thread.meals = 4

def World.Wants (world : World) (t lock : Nat) : Prop :=
  ∃ thread, world.threads[t]? = some thread ∧
    (thread.point = .acquireMutex ∧ lock = world.mutex ∨
      ∃ bowl bowlLock, thread.point = .eatFood .acquireMutex bowl bowlLock ∧ lock = world.mutex ∨
        thread.point = .eatFood .acquireBowl bowl bowlLock ∧ lock = bowlLock)

/-- Threads that each wait for a lock held by another of them. -/
def World.Deadlock (world : World) : Prop :=
  ∃ stuck : Set Nat, stuck.Nonempty ∧
    ∀ t ∈ stuck, ∃ lock u, world.Wants t lock ∧ world.holder lock = some u ∧ u ∈ stuck

theorem separate_of_empty (empty : world.threads = []) : world.Separate := by
  refine ⟨?_, ?_⟩
  · rintro t u bowl other ⟨thread, lock, at_, -⟩
    rw [empty] at at_
    cases at_
  · rintro t u species other bowl ⟨thread, lock, at_, -⟩
    rw [empty] at at_
    cases at_

theorem finishedFed_of_empty (empty : world.threads = []) : world.FinishedFed := by
  intro thread member
  rw [empty] at member
  cases member

theorem Sound.separate (sound : Sound world) : world.Separate := by
  refine ⟨?_, ?_⟩
  · rintro t u bowl other ⟨cat, lock, foundCat, isCat, atCat⟩ ⟨mouse, lock', foundMouse, isMouse, atMouse⟩
    have none_ := sound.others_out foundCat (by rw [atCat]; rfl)
    rw [isCat, sound.eating] at none_
    have positive : 0 < world.threads.countP (Thread.eats .mouse) :=
      countP_pos foundMouse (by simp [Thread.eats, isMouse, atMouse, Point.counted, EatPoint.counted])
    have both : (Species.other .cat) = .mouse := rfl
    rw [both] at none_
    omega
  · rintro t u species other bowl ⟨first, lock, foundFirst, -, atFirst⟩ ⟨second, lock', foundSecond, -, atSecond⟩
    apply (sound.bowlLock bowl).unique foundFirst _ foundSecond
    · simp [Thread.hasBowl, atSecond, Point.atBowl, EatPoint.inBowl]
    · simp [Thread.hasBowl, atFirst, Point.atBowl, EatPoint.inBowl]

theorem Sound.finishedFed (sound : Sound world) : world.FinishedFed := by
  intro thread member finished
  obtain ⟨t, at_⟩ := mem_iff_getElem?.mp member
  obtain ⟨meals, progress, -, -⟩ := sound.knows t thread at_
  rw [finished] at meals progress
  exact meals.trans progress

variable {lock : Nat} {next : World → World}

theorem Sound.bowl_at_once (sound : Sound world) {thread} (found : world.threads[t]? = some thread)
    {bowl} (at_ : thread.point = .eatFood .acquireBowl bowl lock) :
    world.holder world.mutex = some t ∧ lock ≠ 0 ∧ world.holder lock = none := by
  obtain ⟨-, -, paired, current⟩ := sound.knows t thread found
  rw [at_] at paired current
  obtain rfl : lock = world.bowlLock bowl := paired
  have inside : thread.inMutex = true := by
    rw [Thread.inMutex, at_]
    rfl
  refine ⟨sound.mutex.holds found inside, (sound.created.2 bowl).1, sound.bowlLock_free found inside ?_ current.2⟩
  rw [Thread.hasBowl, at_]
  rfl

theorem Sound.no_deadlock (sound : Sound world) : ¬ world.Deadlock := by
  rintro ⟨stuck, ⟨first, member⟩, waits⟩
  -- whoever waits, waits for `mutex`, so one of them holds it
  have onMutex : ∀ t lock u, world.Wants t lock → world.holder lock = some u →
      lock = world.mutex ∧ ∃ thread, world.threads[t]? = some thread ∧ thread.inMutex = false := by
    rintro t lock u ⟨thread, found, wants⟩ held
    rcases wants with ⟨at_, rfl⟩ | ⟨bowl, bowlLock, ⟨at_, rfl⟩ | ⟨at_, rfl⟩⟩
    · exact ⟨rfl, thread, found, by rw [Thread.inMutex, at_]; rfl⟩
    · exact ⟨rfl, thread, found, by rw [Thread.inMutex, at_]; rfl⟩
    · rw [(sound.bowl_at_once found at_).2.2] at held
      cases held
  obtain ⟨lock, holder, wants, held, among⟩ := waits first member
  obtain ⟨rfl, -⟩ := onMutex first lock holder wants held
  obtain ⟨thread, found, inside⟩ := (sound.mutex holder).mp held
  obtain ⟨lock, other, wants, held, -⟩ := waits holder among
  obtain ⟨-, same, foundSame, outside⟩ := onMutex holder lock other wants held
  rw [found] at foundSame
  cases foundSame
  rw [inside] at outside
  cases outside

theorem lockAcquire_goes_on (created : lock ≠ 0)
    (free : world.holder lock ≠ some t) : world.lockAcquire t lock next ≠ .panics := by
  unfold World.lockAcquire
  rw [if_neg created]
  cases held : world.holder lock with
  | none => simp
  | some u =>
    have other : u ≠ t := fun same => free (by rw [held, same])
    simp [other]

theorem lockRelease_goes_on (created : lock ≠ 0)
    (held : world.holder lock = some t) : world.lockRelease t lock next ≠ .panics := by
  unfold World.lockRelease
  rw [if_neg created, if_pos held]
  simp

theorem Sound.no_panic (sound : Sound world) (t rand : Nat) : world.advance t rand ≠ .panics := by
  unfold World.advance
  cases found : world.threads[t]? with
  | none => simp
  | some thread =>
    have outside : thread.inMutex = false → world.holder world.mutex ≠ some t := by
      intro out held
      obtain ⟨same, at_, inside⟩ := (sound.mutex t).mp held
      rw [found] at at_
      cases at_
      rw [out] at inside
      cases inside
    have inside : thread.inMutex = true → world.holder world.mutex = some t := sound.mutex.holds found
    obtain ⟨-, -, paired, current⟩ := sound.knows t thread found
    obtain ⟨species, number, point, eaten⟩ := thread
    cases point with
    | acquireMutex =>
      simp only [execute]
      exact lockAcquire_goes_on sound.created.1 (outside rfl)
    | releaseMutex =>
      simp only [execute]
      exact lockRelease_goes_on sound.created.1 (inside rfl)
    | eatFood point bowl lock =>
      obtain rfl : lock = world.bowlLock bowl := paired
      cases point with
      | acquireBowl =>
        simp only [execute, eatFood]
        apply lockAcquire_goes_on (sound.created.2 bowl).1
        rw [(sound.bowl_at_once found rfl).2.2]
        simp
      | releaseMutex =>
        simp only [execute, eatFood]
        exact lockRelease_goes_on sound.created.1 (inside rfl)
      | acquireMutex =>
        simp only [execute, eatFood]
        exact lockAcquire_goes_on sound.created.1 (outside rfl)
      | releaseBowl =>
        simp only [execute, eatFood]
        apply lockRelease_goes_on (sound.created.2 bowl).1
        apply (sound.bowlLock bowl).holds found
        simp [Thread.hasBowl, Point.atBowl, EatPoint.inBowl]
      | _ => simp [execute, eatFood]
    | _ => simp [execute]

/-- One run: the animals keep apart, a bowl's lock is had at once, there is no deadlock, the counters are exact and
whoever finishes has eaten 4 times. -/
theorem one_run_shares (actions : List Action) (once : actions.count .command ≤ 1) :
    Always step (fun world => world.Separate ∧
      (∀ (t : Nat) (thread : Thread) (bowl : Bowl) (lock : Nat), world.threads[t]? = some thread →
        thread.point = .eatFood .acquireBowl bowl lock →
        world.holder world.mutex = some t ∧ ∀ rand, ∃ next, world.advance t rand = .next next) ∧
      ¬ world.Deadlock ∧
      (∀ species, world.eating species = world.threads.countP (Thread.eats species)) ∧
      world.FinishedFed) boot actions := by
  refine (sound_of_one_command once).mono ?_
  rintro world (⟨empty, uncounted⟩ | sound)
  · have nobody : ∀ (t : Nat) (thread : Thread), world.threads[t]? ≠ some thread := by
      intro t thread at_
      rw [empty] at at_
      cases at_
    refine ⟨separate_of_empty empty, ?_, ?_, ?_, finishedFed_of_empty empty⟩
    · intro t thread bowl lock at_
      exact absurd at_ (nobody t thread)
    · rintro ⟨stuck, ⟨first, member⟩, waits⟩
      obtain ⟨lock, u, ⟨thread, at_, -⟩, -⟩ := waits first member
      exact nobody first thread at_
    · intro species
      rw [uncounted, empty]
      rfl
  · refine ⟨sound.separate, ?_, sound.no_deadlock, sound.eating, sound.finishedFed⟩
    intro t thread bowl lock found at_
    obtain ⟨inside, created, free⟩ := sound.bowl_at_once found at_
    refine ⟨inside, fun rand => ?_⟩
    rw [World.advance, found]
    simp only [execute, at_, eatFood, World.lockAcquire, if_neg created, free]
    exact ⟨_, rfl⟩

/-- A run in which cat 0 is inside `lock_eat` at the first bowl. -/
theorem one_run_shares_cat_eating :
    let actions := .command :: List.replicate 11 .drive ++ List.replicate 11 (.advance 0 0)
    (run step boot actions).map (·.threads[0]?) =
      some (some ⟨.cat, 0, .eatFood .lockEat .bowl1 1, 0⟩) ∧
    Always step (fun world => world.Separate ∧
      (∀ (t : Nat) (thread : Thread) (bowl : Bowl) (lock : Nat), world.threads[t]? = some thread →
        thread.point = .eatFood .acquireBowl bowl lock →
        world.holder world.mutex = some t ∧ ∀ rand, ∃ next, world.advance t rand = .next next) ∧
      ¬ world.Deadlock ∧
      (∀ species, world.eating species = world.threads.countP (Thread.eats species)) ∧
      world.FinishedFed) boot actions :=
  ⟨by decide +kernel, one_run_shares _ (by decide)⟩

end Sharing

section Restart

def World.Orderly (world : World) : Prop :=
  world.Separate ∧ (∀ t rand, world.advance t rand ≠ .panics) ∧ world.FinishedFed

/-- The first cat eats its four meals, then `catmouselock` is called again. -/
def startedAgain : List Action :=
  .command :: List.replicate 11 .drive ++ List.replicate 81 (.advance 0 0) ++
    .command :: List.replicate 11 .drive ++ [.advance 8 0]

/-- `catmouselock` is called again while the first cat is inside `mutex`. -/
def startedInside : List Action :=
  .command :: List.replicate 11 .drive ++ List.replicate 2 (.advance 0 0) ++
    .command :: List.replicate 3 .drive ++ List.replicate 8 (.advance 0 0)

theorem startedAgain_unfed :
    (run step boot startedAgain).map (·.threads[8]?) = some (some ⟨.cat, 0, .finished, 0⟩) := by
  decide +kernel

theorem startedAgain_fails : ¬ Always step World.Orderly boot startedAgain := by
  intro always
  obtain ⟨world, reached, at_⟩ := Option.map_eq_some_iff.mp startedAgain_unfed
  have fed := (always.final reached).2.2 _ (mem_of_getElem? at_) rfl
  cases fed

/-- The animals can be started exactly once. -/
theorem restart_iff (n : Nat) :
    (∀ actions : List Action, actions.count .command ≤ n → Always step World.Orderly boot actions) ↔ n ≤ 1 := by
  constructor
  · intro always
    by_contra more
    apply startedAgain_fails
    apply always
    have twice : startedAgain.count .command = 2 := by decide
    omega
  · intro one actions commands
    refine (sound_of_one_command (commands.trans one)).mono ?_
    rintro world (⟨empty, -⟩ | sound)
    · refine ⟨separate_of_empty empty, ?_, finishedFed_of_empty empty⟩
      intro t rand
      rw [World.advance, empty]
      simp
    · exact ⟨sound.separate, sound.no_panic, sound.finishedFed⟩

/-- Cat 0 of a second call finishes unfed, and a second call while the first cat is inside `mutex` makes its
`lock_release(mutex)` fail an assertion. -/
theorem second_start_fails :
    startedAgain.count .command = 2 ∧ startedInside.count .command = 2 ∧
    (run step boot startedAgain).map (·.threads[8]?) = some (some ⟨.cat, 0, .finished, 0⟩) ∧
    (run step boot startedInside).map (fun world => (world.threads[0]?, world.holder world.mutex)) =
      some (some ⟨.cat, 0, .eatFood .releaseMutex .bowl1 4, 0⟩, none) ∧
    ¬ Always step World.Orderly boot startedAgain :=
  ⟨by decide, by decide, startedAgain_unfed, by decide +kernel, startedAgain_fails⟩

end Restart

end Os161.CatMouse
