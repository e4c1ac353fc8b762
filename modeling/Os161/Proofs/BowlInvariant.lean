import Os161.CatMouse

/-! Cats and mice at the bowls. The invariant ties the locks, flags and counters to the threads in the ranges of
statements they stand for, and says what each thread knows of what it has read. -/

namespace Os161.CatMouse

open Crew Function

section Ranges

def EatPoint.inMutex : EatPoint → Bool
  | .lockEat | .acquireMutex => false
  | _ => true

def Point.inMutex : Point → Bool
  | .loop | .acquireMutex | .finished => false
  | .eatFood point _ _ => point.inMutex
  | _ => true

def EatPoint.inBowl : EatPoint → Bool
  | .acquireBowl | .loadDone | .storeDone _ | .loadIteration | .storeIteration _ => false
  | _ => true

/-- The statements between `*bowl=1` and `*bowl=0`. -/
def EatPoint.fills : EatPoint → Bool
  | .releaseMutex | .lockEat | .acquireMutex | .clearBowl => true
  | _ => false

/-- The statements between `(*animal_eating)++` and `(*animal_eating)--`. -/
def EatPoint.counted : EatPoint → Bool
  | .acquireBowl | .loadEating | .storeEating _ | .loadIteration | .storeIteration _ => false
  | _ => true

/-- The statements between the return of `lock_eat` and `(*iteration)++`. -/
def EatPoint.fed : EatPoint → Bool
  | .acquireMutex | .clearBowl | .releaseBowl | .loadDone | .storeDone _ | .loadIteration
  | .storeIteration _ => true
  | _ => false

def Point.fed : Point → Bool
  | .eatFood point _ _ => point.fed
  | _ => false

def Point.atBowl (range : EatPoint → Bool) (bowl : Bowl) : Point → Bool
  | .eatFood point at_ _ => range point && decide (at_ = bowl)
  | _ => false

def Point.counted : Point → Bool
  | .eatFood point _ _ => point.counted
  | _ => false

def Thread.inMutex (thread : Thread) : Bool := thread.point.inMutex

def Thread.hasBowl (bowl : Bowl) (thread : Thread) : Bool := thread.point.atBowl EatPoint.inBowl bowl

def Thread.fills (bowl : Bowl) (thread : Thread) : Bool := thread.point.atBowl EatPoint.fills bowl

def Thread.eats (species : Species) (thread : Thread) : Bool :=
  decide (thread.species = species) && thread.point.counted

end Ranges

section Invariant

def Point.Progress (iteration : Nat) : Point → Prop
  | .loop | .releaseMutex => iteration ≤ 4
  | .finished => iteration = 4
  | .eatFood (.storeIteration value) _ _ => value = iteration ∧ iteration < 4
  | _ => iteration < 4

/-- `eat_food` has been given the lock that belongs to the bowl. -/
def Point.Paired (bowlLock : Bowl → Nat) : Point → Prop
  | .eatFood _ bowl lock => lock = bowlLock bowl
  | _ => True

/-- What a thread inside `mutex` has read and nobody else can have changed. -/
def Point.Current (bowl : Bowl → Nat) (own others : Int) : Point → Prop
  | .checkBowl1 | .elseBowl1 | .elseBowl2 => others = 0
  | .checkBowl2 => others = 0 ∧ bowl .bowl1 = 0
  | .draw => others = 0 ∧ bowl .bowl1 = 0 ∧ bowl .bowl2 = 0
  | .eatFood .acquireBowl at_ _ => others = 0 ∧ bowl at_ = 0
  | .eatFood .loadEating at_ _ => others = 0 ∧ bowl at_ = 0
  | .eatFood (.storeEating value) at_ _ => others = 0 ∧ bowl at_ = 0 ∧ value = own
  | .eatFood .setBowl at_ _ => bowl at_ = 0
  | .eatFood (.storeDone value) _ _ => value = own
  | _ => True

structure Thread.Knows (world : World) (thread : Thread) : Prop where
  meals : thread.meals = world.iteration thread.species thread.number + thread.point.fed.toNat
  progress : thread.point.Progress (world.iteration thread.species thread.number)
  paired : thread.point.Paired world.bowlLock
  current : thread.point.Current world.bowl (world.eating thread.species) (world.eating thread.species.other)

def SameAnimal (first second : Thread) : Prop :=
  first.species = second.species ∧ first.number = second.number

structure Sound (world : World) : Prop where
  created : world.mutex ≠ 0 ∧ ∀ bowl, world.bowlLock bowl ≠ 0 ∧ world.bowlLock bowl ≠ world.mutex
  two : world.bowlLock .bowl1 ≠ world.bowlLock .bowl2
  mutex : Sole world.threads Thread.inMutex (world.holder world.mutex)
  bowlLock : ∀ bowl, Sole world.threads (Thread.hasBowl bowl) (world.holder (world.bowlLock bowl))
  bowl : ∀ bowl, world.bowl bowl = world.threads.countP (Thread.fills bowl)
  eating : ∀ species, world.eating species = world.threads.countP (Thread.eats species)
  apart : ∀ species, world.eating species = 0 ∨ world.eating species.other = 0
  knows : ∀ (t : Nat) (thread : Thread), world.threads[t]? = some thread → thread.Knows world
  distinct : ∀ (t u : Nat) (first second : Thread), world.threads[t]? = some first →
    world.threads[u]? = some second → SameAnimal first second → t = u
  pending : ∀ statement ∈ world.driver, ∃ species number, statement = .fork species number ∧
    world.iteration species number = 0 ∧
    ∀ thread ∈ world.threads, ¬ (thread.species = species ∧ thread.number = number)
  once : world.driver.Nodup

structure Moved (world after : World) (t : Nat) (old new : Thread) : Prop where
  threads : after.threads = world.threads.set t new
  same : SameAnimal new old
  pointers : after.mutex = world.mutex ∧ after.bowlLock = world.bowlLock ∧ after.driver = world.driver
  mutex : Sole (world.threads.set t new) Thread.inMutex (after.holder world.mutex)
  bowlLock : ∀ bowl, Sole (world.threads.set t new) (Thread.hasBowl bowl) (after.holder (world.bowlLock bowl))
  bowl : ∀ bowl, after.bowl bowl + (old.fills bowl).toNat = world.bowl bowl + (new.fills bowl).toNat
  eating : ∀ species, after.eating species + (old.eats species).toNat =
    world.eating species + (new.eats species).toNat
  apart : ∀ species, after.eating species = 0 ∨ after.eating species.other = 0
  stores : after.bowl = world.bowl ∧ after.eating = world.eating ∨ old.inMutex = true
  iteration : ∀ species number, ¬ (old.species = species ∧ old.number = number) →
    after.iteration species number = world.iteration species number
  knows : new.Knows after

theorem Point.Current.outside {point : Point} (outside : point.inMutex = false) (bowl : Bowl → Nat)
    (own others : Int) : point.Current bowl own others := by
  cases point with
  | eatFood point bowl lock => cases point <;> simp_all [Point.inMutex, EatPoint.inMutex, Point.Current]
  | _ => simp_all [Point.inMutex, Point.Current]

theorem Thread.Knows.other {world after t u old new thread} (sound : Sound world)
    (found : world.threads[t]? = some old) (moved : Moved world after t old new) (elsewhere : u ≠ t)
    (at_ : world.threads[u]? = some thread) : thread.Knows after := by
  have knows := sound.knows u thread at_
  have iteration : after.iteration thread.species thread.number = world.iteration thread.species thread.number := by
    apply moved.iteration
    intro same
    exact elsewhere (sound.distinct t u old thread found at_ same).symm
  refine ⟨?_, ?_, ?_, ?_⟩
  · rw [iteration]
    exact knows.meals
  · rw [iteration]
    exact knows.progress
  · rw [moved.pointers.2.1]
    exact knows.paired
  · rcases moved.stores with ⟨bowl, eating⟩ | inside
    · rw [bowl, eating]
      exact knows.current
    · apply Point.Current.outside
      cases outside : thread.point.inMutex with
      | false => rfl
      | true => exact absurd (sound.mutex.unique at_ outside found inside) elsewhere

theorem Sound.moved {world after t old new} (sound : Sound world)
    (found : world.threads[t]? = some old) (moved : Moved world after t old new) : Sound after := by
  obtain ⟨mutexSame, bowlLockSame, driverSame⟩ := moved.pointers
  have present : ∀ (u : Nat) (thread : Thread), after.threads[u]? = some thread →
      u = t ∧ thread = new ∨ u ≠ t ∧ world.threads[u]? = some thread := by
    intro u thread at_
    rw [moved.threads] at at_
    exact (getElem?_moved found).mp at_
  have animal : ∀ (u : Nat) (thread : Thread), after.threads[u]? = some thread →
      ∃ before, world.threads[u]? = some before ∧ SameAnimal thread before := by
    intro u thread at_
    rcases present u thread at_ with ⟨rfl, rfl⟩ | ⟨-, at_⟩
    · exact ⟨old, found, moved.same⟩
    · exact ⟨thread, at_, rfl, rfl⟩
  refine ⟨?_, ?_, ?_, ?_, ?_, ?_, moved.apart, ?_, ?_, ?_, ?_⟩
  · rw [mutexSame, bowlLockSame]
    exact sound.created
  · rw [bowlLockSame]
    exact sound.two
  · rw [moved.threads, mutexSame]
    exact moved.mutex
  · rw [moved.threads, bowlLockSame]
    exact moved.bowlLock
  · intro bowl
    have count := countP_moved (Thread.fills bowl) new found
    have change := moved.bowl bowl
    rw [sound.bowl bowl] at change
    rw [moved.threads]
    omega
  · intro species
    have count := countP_moved (Thread.eats species) new found
    have change := moved.eating species
    rw [sound.eating species] at change
    rw [moved.threads]
    omega
  · intro u thread at_
    rcases present u thread at_ with ⟨rfl, rfl⟩ | ⟨elsewhere, at_⟩
    · exact moved.knows
    · exact Thread.Knows.other sound found moved elsewhere at_
  · intro u v first second atFirst atSecond same
    obtain ⟨firstBefore, foundFirst, sameFirst⟩ := animal u first atFirst
    obtain ⟨secondBefore, foundSecond, sameSecond⟩ := animal v second atSecond
    apply sound.distinct u v firstBefore secondBefore foundFirst foundSecond
    exact ⟨sameFirst.1.symm.trans (same.1.trans sameSecond.1),
      sameFirst.2.symm.trans (same.2.trans sameSecond.2)⟩
  · intro statement listed
    rw [driverSame] at listed
    obtain ⟨species, number, rfl, unfed, absent⟩ := sound.pending statement listed
    refine ⟨species, number, rfl, ?_, ?_⟩
    · rw [moved.iteration species number (absent old (List.mem_of_getElem? found))]
      exact unfed
    · intro thread member same
      obtain ⟨u, at_⟩ := List.mem_iff_getElem?.mp member
      obtain ⟨before, at_, sameBefore⟩ := animal u thread at_
      apply absent before (List.mem_of_getElem? at_)
      exact ⟨sameBefore.1.symm.trans same.1, sameBefore.2.symm.trans same.2⟩
  · rw [driverSame]
    exact sound.once

end Invariant

section Statements

variable {world after : World} {t : Nat} {old new : Thread}

structure Alike (first second : Point) : Prop where
  atBowl : ∀ bowl, first.atBowl EatPoint.inBowl bowl = second.atBowl EatPoint.inBowl bowl
  fills : ∀ bowl, first.atBowl EatPoint.fills bowl = second.atBowl EatPoint.fills bowl
  counted : first.counted = second.counted

def Point.before : Point → Bool
  | .eatFood .acquireBowl _ _ => true
  | .eatFood _ _ _ => false
  | _ => true

theorem Point.before_ranges {point : Point} (before : point.before = true) :
    (∀ bowl, point.atBowl EatPoint.inBowl bowl = false) ∧
    (∀ bowl, point.atBowl EatPoint.fills bowl = false) ∧ point.counted = false := by
  cases point with
  | eatFood point bowl lock =>
    cases point with
    | acquireBowl => exact ⟨fun _ => rfl, fun _ => rfl, rfl⟩
    | _ => cases before
  | _ => exact ⟨fun _ => rfl, fun _ => rfl, rfl⟩

theorem Alike.before {first second : Point} (beforeFirst : first.before = true)
    (beforeSecond : second.before = true) : Alike first second := by
  obtain ⟨bowlFirst, fillsFirst, countedFirst⟩ := Point.before_ranges beforeFirst
  obtain ⟨bowlSecond, fillsSecond, countedSecond⟩ := Point.before_ranges beforeSecond
  exact ⟨fun bowl => (bowlFirst bowl).trans (bowlSecond bowl).symm,
    fun bowl => (fillsFirst bowl).trans (fillsSecond bowl).symm, countedFirst.trans countedSecond.symm⟩

theorem Thread.Knows.congr (knows : new.Knows world) (iteration : after.iteration = world.iteration)
    (bowlLock : after.bowlLock = world.bowlLock) (bowl : after.bowl = world.bowl)
    (eating : after.eating = world.eating) : new.Knows after := by
  refine ⟨?_, ?_, ?_, ?_⟩
  · rw [iteration]
    exact knows.meals
  · rw [iteration]
    exact knows.progress
  · rw [bowlLock]
    exact knows.paired
  · rw [bowl, eating]
    exact knows.current

theorem eats_alike (same : SameAnimal new old) (counted : new.point.counted = old.point.counted)
    (species : Species) : new.eats species = old.eats species := by
  rw [Thread.eats, Thread.eats, same.1, counted]

theorem Moved.quiet (sound : Sound world) (threads : after.threads = world.threads.set t new)
    (same : SameAnimal new old)
    (pointers : after.mutex = world.mutex ∧ after.bowlLock = world.bowlLock ∧ after.driver = world.driver)
    (globals : after.bowl = world.bowl ∧ after.eating = world.eating ∧ after.iteration = world.iteration)
    (mutex : Sole (world.threads.set t new) Thread.inMutex (after.holder world.mutex))
    (bowlLock : ∀ bowl, Sole (world.threads.set t new) (Thread.hasBowl bowl) (after.holder (world.bowlLock bowl)))
    (fills : ∀ bowl, new.fills bowl = old.fills bowl) (counted : new.point.counted = old.point.counted)
    (knows : new.Knows world) : Moved world after t old new := by
  obtain ⟨bowl, eating, iteration⟩ := globals
  refine ⟨threads, same, pointers, mutex, bowlLock, ?_, ?_, ?_, .inl ⟨bowl, eating⟩, ?_, ?_⟩
  · intro at_
    rw [bowl, fills]
  · intro species
    rw [eating, eats_alike same counted]
  · rw [eating]
    exact sound.apart
  · intro species number _
    rw [iteration]
  · exact knows.congr iteration pointers.2.1 bowl eating

theorem Moved.goto (sound : Sound world) (found : world.threads[t]? = some old) (same : SameAnimal new old)
    (inside : new.inMutex = old.inMutex) (alike : Alike new.point old.point) (knows : new.Knows world) :
    Moved world { world with threads := world.threads.set t new } t old new :=
  Moved.quiet sound rfl same ⟨rfl, rfl, rfl⟩ ⟨rfl, rfl, rfl⟩ (sound.mutex.keeps found inside)
    (fun bowl => (sound.bowlLock bowl).keeps found (alike.atBowl bowl)) alike.fills alike.counted knows

theorem goto_setHolder (world : World) (lock : Nat) (holder : Option Nat) (point : Point) :
    ((world.setHolder lock holder).goto t old point).holder = update world.holder lock holder := rfl

variable {holder : Option Nat} {now later : EatPoint} {bowl : Bowl} {lock rand : Nat} {next : World → World}

theorem Moved.mutexTo (sound : Sound world) (found : world.threads[t]? = some old) (point : Point) (sole : Sole (world.threads.set t { old with point := point }) Thread.inMutex holder)
    (alike : Alike point old.point) (knows : Thread.Knows world { old with point := point }) :
    ∃ new, Moved world ((world.setHolder world.mutex holder).goto t old point) t old new := by
  refine ⟨{ old with point := point }, Moved.quiet sound rfl ⟨rfl, rfl⟩ ⟨rfl, rfl, rfl⟩ ⟨rfl, rfl, rfl⟩ ?_ ?_
    alike.fills alike.counted knows⟩
  · rw [goto_setHolder, update_self]
    exact sole
  · intro bowl
    rw [goto_setHolder, update_of_ne (sound.created.2 bowl).2]
    exact (sound.bowlLock bowl).keeps found (alike.atBowl bowl)

theorem Sound.bowlLock_inj (sound : Sound world) {first second}
    (same : world.bowlLock first = world.bowlLock second) : first = second := by
  cases first <;> cases second
  · rfl
  · exact absurd same sound.two
  · exact absurd same.symm sound.two
  · rfl

theorem Moved.bowlTo (sound : Sound world) (found : world.threads[t]? = some old) (at_ : old.point = .eatFood now bowl lock)
    (sole : Sole (world.threads.set t { old with point := .eatFood later bowl lock }) (Thread.hasBowl bowl) holder)
    (inside : later.inMutex = now.inMutex) (fills : later.fills = now.fills) (counted : later.counted = now.counted)
    (knows : Thread.Knows world { old with point := .eatFood later bowl lock }) :
    ∃ new, Moved world ((world.setHolder (world.bowlLock bowl) holder).goto t old (.eatFood later bowl lock))
      t old new := by
  refine ⟨{ old with point := .eatFood later bowl lock },
    Moved.quiet sound rfl ⟨rfl, rfl⟩ ⟨rfl, rfl, rfl⟩ ⟨rfl, rfl, rfl⟩ ?_ ?_ ?_ ?_ knows⟩
  · rw [goto_setHolder, update_of_ne (sound.created.2 bowl).2.symm]
    apply sound.mutex.keeps found
    rw [Thread.inMutex, Thread.inMutex, at_]
    exact inside
  · intro other
    by_cases this : other = bowl
    · subst this
      rw [goto_setHolder, update_self]
      exact sole
    · rw [goto_setHolder, update_of_ne fun equal => this (sound.bowlLock_inj equal)]
      apply (sound.bowlLock other).keeps found
      simp [Thread.hasBowl, at_, Point.atBowl, Ne.symm this]
  · intro other
    simp [Thread.fills, at_, Point.atBowl, fills]
  · rw [at_]
    exact counted

theorem Moved.store (sound : Sound world) (found : world.threads[t]? = some old)
    (threads : after.threads = world.threads.set t new) (same : SameAnimal new old)
    (pointers : after.mutex = world.mutex ∧ after.bowlLock = world.bowlLock ∧ after.driver = world.driver)
    (holder : after.holder = world.holder) (inside : old.inMutex = true) (still : new.inMutex = true)
    (hasBowl : ∀ bowl, new.hasBowl bowl = old.hasBowl bowl)
    (bowl : ∀ bowl, after.bowl bowl + (old.fills bowl).toNat = world.bowl bowl + (new.fills bowl).toNat)
    (eating : ∀ species, after.eating species + (old.eats species).toNat =
      world.eating species + (new.eats species).toNat)
    (apart : ∀ species, after.eating species = 0 ∨ after.eating species.other = 0)
    (iteration : ∀ species number, ¬ (old.species = species ∧ old.number = number) →
      after.iteration species number = world.iteration species number)
    (knows : new.Knows after) : Moved world after t old new := by
  refine ⟨threads, same, pointers, ?_, ?_, bowl, eating, apart, .inr inside, iteration, knows⟩
  · rw [holder]
    exact sound.mutex.keeps found (still.trans inside.symm)
  · intro at_
    rw [holder]
    exact (sound.bowlLock at_).keeps found (hasBowl at_)

theorem Species.other_ne (species : Species) : species.other ≠ species := by
  cases species <;> decide

theorem Species.other_other (species : Species) : species.other.other = species := by
  cases species <;> rfl

theorem Species.eq_or_other (first second : Species) : second = first ∨ second = first.other := by
  cases first <;> cases second <;> decide

theorem Moved.eatingTo (sound : Sound world) (found : world.threads[t]? = some old) (at_ : old.point = .eatFood now bowl lock) {value}
    (inside : now.inMutex = true ∧ later.inMutex = true) (inBowl : later.inBowl = now.inBowl)
    (fills : later.fills = now.fills)
    (counted : value + now.counted.toNat = world.eating old.species + later.counted.toNat)
    (alone : value = 0 ∨ world.eating old.species.other = 0)
    (knows : Thread.Knows (world.setEating old.species value) { old with point := .eatFood later bowl lock }) :
    ∃ new, Moved world ((world.setEating old.species value).goto t old (.eatFood later bowl lock)) t old new := by
  have own : (world.setEating old.species value).eating old.species = value := update_self ..
  have others : ∀ species, species ≠ old.species →
      (world.setEating old.species value).eating species = world.eating species :=
    fun species different => update_of_ne different _ _
  refine ⟨{ old with point := .eatFood later bowl lock }, Moved.store sound found rfl ⟨rfl, rfl⟩ ⟨rfl, rfl, rfl⟩ rfl
    ?_ inside.2 ?_ ?_ ?_ ?_ (fun _ _ _ => rfl) (knows.congr rfl rfl rfl rfl)⟩
  · rw [Thread.inMutex, at_]
    exact inside.1
  · intro other
    simp only [Thread.hasBowl, at_, Point.atBowl, inBowl]
  · intro other
    simp only [Thread.fills, at_, Point.atBowl, fills]
    rfl
  · intro species
    change (world.setEating old.species value).eating species + _ = _
    by_cases this : species = old.species
    · subst this
      rw [own]
      simpa [Thread.eats, at_, Point.counted] using counted
    · rw [others species this]
      simp [Thread.eats, Ne.symm this]
  · intro species
    change (world.setEating old.species value).eating species = 0 ∨
      (world.setEating old.species value).eating species.other = 0
    rcases Species.eq_or_other old.species species with rfl | rfl
    · rw [own, others _ (Species.other_ne _)]
      exact alone
    · rw [Species.other_other, own, others _ (Species.other_ne _)]
      exact alone.symm

theorem setBowl_bowl (world : World) (bowl : Bowl) (value : Nat) :
    (world.setBowl bowl value).bowl = update world.bowl bowl value := rfl

theorem Moved.bowlStore (sound : Sound world) (found : world.threads[t]? = some old) (at_ : old.point = .eatFood now bowl lock) {value}
    (inside : now.inMutex = true ∧ later.inMutex = true) (inBowl : later.inBowl = now.inBowl)
    (counted : later.counted = now.counted) (fills : value + now.fills.toNat = world.bowl bowl + later.fills.toNat)
    (knows : Thread.Knows (world.setBowl bowl value) { old with point := .eatFood later bowl lock }) :
    ∃ new, Moved world ((world.setBowl bowl value).goto t old (.eatFood later bowl lock)) t old new := by
  refine ⟨{ old with point := .eatFood later bowl lock }, Moved.store sound found rfl ⟨rfl, rfl⟩ ⟨rfl, rfl, rfl⟩ rfl
    ?_ inside.2 ?_ ?_ ?_ sound.apart (fun _ _ _ => rfl) (knows.congr rfl rfl rfl rfl)⟩
  · rw [Thread.inMutex, at_]
    exact inside.1
  · intro other
    simp only [Thread.hasBowl, at_, Point.atBowl, inBowl]
  · intro other
    change (world.setBowl bowl value).bowl other + _ = _
    by_cases this : other = bowl
    · subst this
      rw [setBowl_bowl]
      simpa [Thread.fills, at_, Point.atBowl] using fills
    · rw [setBowl_bowl, update_of_ne this]
      simp [Thread.fills, at_, Point.atBowl, Ne.symm this]
  · intro species
    simp only [Thread.eats, at_, Point.counted, counted]
    rfl

theorem lockAcquire_next (taken : world.lockAcquire t lock next = .next after) :
    world.holder lock = none ∧ after = next (world.setHolder lock (some t)) := by
  unfold World.lockAcquire at taken
  split at taken
  · cases taken
  · cases free : world.holder lock with
    | none =>
      rw [free] at taken
      cases taken
      exact ⟨rfl, rfl⟩
    | some holder =>
      rw [free] at taken
      dsimp only at taken
      split at taken <;> cases taken

theorem lockRelease_next (taken : world.lockRelease t lock next = .next after) :
    world.holder lock = some t ∧ after = next (world.setHolder lock none) := by
  unfold World.lockRelease at taken
  split at taken
  · cases taken
  · split at taken
    next held =>
      cases taken
      exact ⟨held, rfl⟩
    · cases taken

section

variable (sound : Sound world)
include sound

theorem Moved.test (found : world.threads[t]? = some old) {condition : Prop} [Decidable condition] {yes no}
    (inside : yes.inMutex = old.point.inMutex ∧ no.inMutex = old.point.inMutex)
    (before : yes.before = true ∧ no.before = true ∧ old.point.before = true)
    (onYes : condition → Thread.Knows world { old with point := yes })
    (onNo : ¬ condition → Thread.Knows world { old with point := no }) :
    ∃ new, Moved world (world.goto t old (if condition then yes else no)) t old new := by
  by_cases holds : condition
  · rw [if_pos holds]
    exact ⟨_, Moved.goto sound found ⟨rfl, rfl⟩ inside.1 (Alike.before before.1 before.2.2) (onYes holds)⟩
  · rw [if_neg holds]
    exact ⟨_, Moved.goto sound found ⟨rfl, rfl⟩ inside.2 (Alike.before before.2.1 before.2.2) (onNo holds)⟩

theorem Sound.mutex_free (free : world.holder world.mutex = none) :
    Sole world.threads Thread.inMutex none := free ▸ sound.mutex

theorem Sound.mutex_held (held : world.holder world.mutex = some t) :
    Sole world.threads Thread.inMutex (some t) := held ▸ sound.mutex

theorem Sound.bowlLock_none (free : world.holder (world.bowlLock bowl) = none) :
    Sole world.threads (Thread.hasBowl bowl) none := free ▸ sound.bowlLock bowl

theorem Sound.bowlLock_held (held : world.holder (world.bowlLock bowl) = some t) :
    Sole world.threads (Thread.hasBowl bowl) (some t) := held ▸ sound.bowlLock bowl

theorem loop_moved (found : world.threads[t]? = some old)
    (outside : ∀ point bowl lock, old.point ≠ .eatFood point bowl lock)
    (taken : execute world t old rand = .next after) : ∃ new, Moved world after t old new := by
  obtain ⟨meals, progress, -, current⟩ := sound.knows t old found
  obtain ⟨species, number, point, eaten⟩ := old
  cases point with
  | loop =>
    cases taken
    refine Moved.test sound found (by exact ⟨rfl, rfl⟩) (by exact ⟨rfl, rfl, rfl⟩) ?_ ?_
    · intro less
      exact ⟨meals, less, trivial, trivial⟩
    · intro fourth
      exact ⟨meals, Nat.le_antisymm progress (Nat.le_of_not_lt fourth), trivial, trivial⟩
  | acquireMutex =>
    simp only [execute] at taken
    obtain ⟨free, rfl⟩ := lockAcquire_next taken
    exact Moved.mutexTo sound found .checkOthers ((sound.mutex_free free).takes found rfl)
      (Alike.before rfl rfl) ⟨meals, progress, trivial, trivial⟩
  | checkOthers =>
    cases taken
    refine Moved.test sound found (by exact ⟨rfl, rfl⟩) (by exact ⟨rfl, rfl, rfl⟩) ?_ ?_
    · intro nobody
      exact ⟨meals, progress, trivial, nobody⟩
    · intro somebody
      exact ⟨meals, Nat.le_of_lt progress, trivial, trivial⟩
  | checkBowl1 =>
    cases taken
    refine Moved.test sound found (by exact ⟨rfl, rfl⟩) (by exact ⟨rfl, rfl, rfl⟩) ?_ ?_
    · intro vacant
      exact ⟨meals, progress, trivial, current, vacant⟩
    · intro full
      exact ⟨meals, progress, trivial, current⟩
  | checkBowl2 =>
    cases taken
    refine Moved.test sound found (by exact ⟨rfl, rfl⟩) (by exact ⟨rfl, rfl, rfl⟩) ?_ ?_
    · intro vacant
      exact ⟨meals, progress, trivial, current.1, current.2, vacant⟩
    · intro full
      exact ⟨meals, progress, trivial, current.1⟩
  | draw =>
    cases taken
    refine Moved.test sound found (by exact ⟨rfl, rfl⟩) (by exact ⟨rfl, rfl, rfl⟩) ?_ ?_
    · intro even
      exact ⟨meals, progress, rfl, current.1, current.2.1⟩
    · intro odd
      exact ⟨meals, progress, rfl, current.1, current.2.2⟩
  | elseBowl1 =>
    cases taken
    refine Moved.test sound found (by exact ⟨rfl, rfl⟩) (by exact ⟨rfl, rfl, rfl⟩) ?_ ?_
    · intro vacant
      exact ⟨meals, progress, rfl, current, vacant⟩
    · intro full
      exact ⟨meals, progress, trivial, current⟩
  | elseBowl2 =>
    cases taken
    refine Moved.test sound found (by exact ⟨rfl, rfl⟩) (by exact ⟨rfl, rfl, rfl⟩) ?_ ?_
    · intro vacant
      exact ⟨meals, progress, rfl, current, vacant⟩
    · intro full
      exact ⟨meals, Nat.le_of_lt progress, trivial, trivial⟩
  | eatFood point bowl lock => exact absurd rfl (outside point bowl lock)
  | releaseMutex =>
    simp only [execute] at taken
    obtain ⟨held, rfl⟩ := lockRelease_next taken
    exact Moved.mutexTo sound found .loop ((sound.mutex_held held).drops found rfl)
      (Alike.before rfl rfl) ⟨meals, progress, trivial, trivial⟩
  | finished => cases taken

/-- The lock of a bowl that is marked empty is free to a thread inside `mutex`. -/
theorem Sound.bowlLock_free (found : world.threads[t]? = some old)
    (inside : old.inMutex = true) (without : old.hasBowl bowl = false)
    (vacant : world.bowl bowl = 0) : world.holder (world.bowlLock bowl) = none := by
  cases held : world.holder (world.bowlLock bowl) with
  | none => rfl
  | some u =>
    obtain ⟨thread, at_, has⟩ := (sound.bowlLock bowl u).mp held
    have unfilled : thread.fills bowl = false := by
      cases fills : thread.fills bowl with
      | false => rfl
      | true =>
        have positive := countP_pos at_ fills
        rw [← sound.bowl bowl, vacant] at positive
        exact absurd positive (Nat.lt_irrefl 0)
    have alsoInside : thread.inMutex = true := by
      obtain ⟨species, number, point, eaten⟩ := thread
      cases point with
      | eatFood point other lock =>
        cases point <;>
          simp_all [Thread.hasBowl, Thread.fills, Point.atBowl, EatPoint.inBowl, EatPoint.fills, Thread.inMutex,
            Point.inMutex, EatPoint.inMutex]
      | _ => cases has
    have same := sound.mutex.unique found inside at_ alsoInside
    subst same
    rw [found] at at_
    cases at_
    rw [without] at has
    cases has

end

theorem Thread.hasBowl_of_fills (fills : old.fills bowl = true) : old.hasBowl bowl = true := by
  obtain ⟨species, number, point, eaten⟩ := old
  cases point with
  | eatFood point other lock =>
    cases point <;> simp_all [Thread.hasBowl, Thread.fills, Point.atBowl, EatPoint.inBowl, EatPoint.fills]
  | _ => cases fills

theorem Sound.bowl_full (sound : Sound world) (found : world.threads[t]? = some old)
    (fills : old.fills bowl = true) : world.bowl bowl = 1 := by
  have positive := countP_pos found fills
  have atMost : world.threads.countP (Thread.fills bowl) ≤ 1 := by
    apply countP_le_one
    intro t u first second atFirst fillsFirst atSecond fillsSecond
    exact (sound.bowlLock bowl).unique atFirst (Thread.hasBowl_of_fills fillsFirst) atSecond
      (Thread.hasBowl_of_fills fillsSecond)
  rw [sound.bowl bowl]
  omega

theorem Sound.others_out (sound : Sound world) (found : world.threads[t]? = some old)
    (counted : old.point.counted = true) : world.eating old.species.other = 0 := by
  have positive : 0 < world.threads.countP (Thread.eats old.species) :=
    countP_pos found (by simp [Thread.eats, counted])
  rcases sound.apart old.species with none_ | none_
  · rw [sound.eating] at none_
    omega
  · exact none_

theorem setIteration_other (world : World) {species other number which}
    (different : ¬ (species = other ∧ number = which)) (value : Nat) :
    (world.setIteration species number value).iteration other which = world.iteration other which := by
  by_cases same : other = species
  · subst same
    have elsewhere : which ≠ number := fun equal => different ⟨rfl, equal.symm⟩
    simp [World.setIteration, elsewhere]
  · simp [World.setIteration, same]

theorem eatFood_moved (sound : Sound world) (found : world.threads[t]? = some old) {point} (at_ : old.point = .eatFood point bowl lock)
    (taken : eatFood world t old bowl lock point = .next after) : ∃ new, Moved world after t old new := by
  obtain ⟨meals, progress, paired, current⟩ := sound.knows t old found
  obtain ⟨species, number, there, eaten⟩ := old
  subst at_
  obtain rfl : lock = world.bowlLock bowl := paired
  cases point with
  | acquireBowl =>
    simp only [eatFood] at taken
    obtain ⟨free, rfl⟩ := lockAcquire_next taken
    refine Moved.bowlTo sound found rfl ((sound.bowlLock_none free).takes found ?_) rfl rfl rfl
      ⟨meals, progress, rfl, current⟩
    simp [Thread.hasBowl, Point.atBowl, EatPoint.inBowl]
  | loadEating =>
    cases taken
    exact ⟨_, Moved.goto sound found ⟨rfl, rfl⟩ (by exact rfl) (by exact ⟨fun _ => rfl, fun _ => rfl, rfl⟩)
      ⟨meals, progress, rfl, current.1, current.2, rfl⟩⟩
  | storeEating value =>
    cases taken
    obtain ⟨nobody, vacant, read⟩ := current
    dsimp only at read
    subst read
    refine Moved.eatingTo sound found rfl ⟨rfl, rfl⟩ rfl rfl ?_ ?_ ⟨meals, progress, rfl, vacant⟩
    · simp [EatPoint.counted]
    · exact .inr nobody
  | setBowl =>
    cases taken
    refine Moved.bowlStore sound found rfl ⟨rfl, rfl⟩ rfl rfl ?_ ⟨meals, progress, rfl, trivial⟩
    · have vacant : world.bowl bowl = 0 := current
      rw [vacant]
      rfl
  | releaseMutex =>
    simp only [eatFood] at taken
    obtain ⟨held, rfl⟩ := lockRelease_next taken
    exact Moved.mutexTo sound found _ ((sound.mutex_held held).drops found rfl)
      ⟨fun _ => rfl, fun _ => rfl, rfl⟩ ⟨meals, progress, rfl, trivial⟩
  | lockEat =>
    cases taken
    exact ⟨_, Moved.goto sound found ⟨rfl, rfl⟩ (by exact rfl) (by exact ⟨fun _ => rfl, fun _ => rfl, rfl⟩)
      ⟨congrArg Nat.succ meals, progress, rfl, trivial⟩⟩
  | acquireMutex =>
    simp only [eatFood] at taken
    obtain ⟨free, rfl⟩ := lockAcquire_next taken
    exact Moved.mutexTo sound found _ ((sound.mutex_free free).takes found rfl)
      ⟨fun _ => rfl, fun _ => rfl, rfl⟩ ⟨meals, progress, rfl, trivial⟩
  | clearBowl =>
    cases taken
    have full : world.bowl bowl = 1 :=
      sound.bowl_full found (by simp [Thread.fills, Point.atBowl, EatPoint.fills])
    refine Moved.bowlStore sound found rfl ⟨rfl, rfl⟩ rfl rfl ?_ ⟨meals, progress, rfl, trivial⟩
    · rw [full]
      rfl
  | releaseBowl =>
    simp only [eatFood] at taken
    obtain ⟨held, rfl⟩ := lockRelease_next taken
    refine Moved.bowlTo sound found rfl ((sound.bowlLock_held held).drops found ?_) rfl rfl rfl
      ⟨meals, progress, rfl, current⟩
    simp [Thread.hasBowl, Point.atBowl, EatPoint.inBowl]
  | loadDone =>
    cases taken
    exact ⟨_, Moved.goto sound found ⟨rfl, rfl⟩ (by exact rfl) (by exact ⟨fun _ => rfl, fun _ => rfl, rfl⟩)
      ⟨meals, progress, rfl, rfl⟩⟩
  | storeDone value =>
    cases taken
    have read : value = world.eating species := current
    subst read
    refine Moved.eatingTo sound found rfl ⟨rfl, rfl⟩ rfl rfl ?_ ?_ ⟨meals, progress, rfl, trivial⟩
    · simp [EatPoint.counted]
    · exact .inr (sound.others_out found rfl)
  | loadIteration =>
    cases taken
    exact ⟨_, Moved.goto sound found ⟨rfl, rfl⟩ (by exact rfl) (by exact ⟨fun _ => rfl, fun _ => rfl, rfl⟩)
      ⟨meals, ⟨rfl, progress⟩, rfl, trivial⟩⟩
  | storeIteration value =>
    cases taken
    obtain ⟨read, less⟩ : value = world.iteration species number ∧ world.iteration species number < 4 := progress
    subst read
    have own : (world.setIteration species number (world.iteration species number + 1)).iteration species number =
        world.iteration species number + 1 := by simp [World.setIteration]
    refine ⟨_, Moved.store sound found rfl ⟨rfl, rfl⟩ ⟨rfl, rfl, rfl⟩ rfl rfl rfl (fun _ => rfl) (fun _ => rfl)
      (fun _ => rfl) sound.apart ?_ ?_⟩
    · intro other which different
      exact setIteration_other world different _
    · have knows : Thread.Knows (world.setIteration species number (world.iteration species number + 1))
          ⟨species, number, .releaseMutex, eaten⟩ :=
        ⟨meals.trans own.symm, Nat.le_trans (Nat.le_of_eq own) less, trivial, trivial⟩
      exact knows.congr rfl rfl rfl rfl

theorem Sound.advance (sound : Sound world) (taken : world.advance t rand = .next after) : Sound after := by
  unfold World.advance at taken
  cases found : world.threads[t]? with
  | none =>
    rw [found] at taken
    cases taken
  | some thread =>
    rw [found] at taken
    dsimp only at taken
    have moves : ∃ new, Moved world after t thread new := by
      cases at_ : thread.point with
      | eatFood point bowl lock =>
        rw [execute, at_] at taken
        exact eatFood_moved sound found at_ taken
      | _ =>
        refine loop_moved sound found ?_ taken
        intro point bowl lock inside
        rw [at_] at inside
        cases inside
    obtain ⟨new, moved⟩ := moves
    exact sound.moved found moved

end Statements

end Os161.CatMouse
