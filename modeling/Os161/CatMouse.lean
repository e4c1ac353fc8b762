import Os161.Lib.Crew

/-! The cats and mice of `asst1/catlock.c`. Between two statements of a thread any other may run. Locks are numbered
by their creation, 0 is NULL. -/

namespace Os161.CatMouse

open Crew

inductive Species where
  | cat
  | mouse
  deriving DecidableEq, Repr

def Species.other : Species → Species
  | .cat => .mouse
  | .mouse => .cat

inductive Bowl where
  | bowl1
  | bowl2
  deriving DecidableEq, Repr

/-- The statements of `eat_food`. An increment or decrement of a global is a load and a store. -/
inductive EatPoint where
  | acquireBowl
  | loadEating
  | storeEating (value : Int)
  | setBowl
  | releaseMutex
  | lockEat
  | acquireMutex
  | clearBowl
  | releaseBowl
  | loadDone
  | storeDone (value : Int)
  | loadIteration
  | storeIteration (value : Nat)
  deriving DecidableEq, Repr

/-- The statements of `catlock` and `mouselock`. `eat_food` has the bowl and the lock that its `bowl1_lock` or
`bowl2_lock` pointed to when called. -/
inductive Point where
  | loop
  | acquireMutex
  | checkOthers
  | checkBowl1
  | checkBowl2
  | draw
  | elseBowl1
  | elseBowl2
  | eatFood (point : EatPoint) (bowl : Bowl) (bowlLock : Nat)
  | releaseMutex
  | finished
  deriving DecidableEq, Repr

/-- `meals` counts the returns of `lock_eat`; the source has no such variable. -/
structure Thread where
  species : Species
  number : Nat
  point : Point
  meals : Nat
  deriving DecidableEq, Repr

inductive Statement where
  | createBowlLock (bowl : Bowl)
  | createMutex
  | fork (species : Species) (number : Nat)
  deriving DecidableEq, Repr

def ncats : Nat := 6
def nmice : Nat := 2

def catmouselock : List Statement :=
  [.createBowlLock .bowl1, .createBowlLock .bowl2, .createMutex] ++
    (List.range ncats).map (.fork .cat) ++ (List.range nmice).map (.fork .mouse)

/-- The globals, the holder of each lock, the number of locks, the threads and what the menu thread still has to do
of `catmouselock`. -/
structure World where
  bowlLock : Bowl → Nat
  mutex : Nat
  bowl : Bowl → Nat
  iteration : Species → Nat → Nat
  eating : Species → Int
  holder : Nat → Option Nat
  locks : Nat
  threads : List Thread
  driver : List Statement

def boot : World where
  bowlLock _ := 0
  mutex := 0
  bowl _ := 0
  iteration _ _ := 0
  eating _ := 0
  holder _ := none
  locks := 0
  threads := []
  driver := []

def World.goto (world : World) (t : Nat) (thread : Thread) (point : Point) : World :=
  { world with threads := world.threads.set t { thread with point := point } }

def World.setHolder (world : World) (lock : Nat) (thread : Option Nat) : World :=
  { world with holder := Function.update world.holder lock thread }

def World.setBowl (world : World) (bowl : Bowl) (value : Nat) : World :=
  { world with bowl := Function.update world.bowl bowl value }

def World.setEating (world : World) (species : Species) (value : Int) : World :=
  { world with eating := Function.update world.eating species value }

def World.setIteration (world : World) (species : Species) (number value : Nat) : World :=
  { world with
    iteration := Function.update world.iteration species (Function.update (world.iteration species) number value) }

/-- `lock_acquire`, with interrupts off from its first assertion to its end. -/
def World.lockAcquire (world : World) (t lock : Nat) (next : World → World) : Outcome World :=
  if lock = 0 then .panics
  else match world.holder lock with
    | none => .next (next (world.setHolder lock (some t)))
    | some holder => if holder = t then .panics else .blocked

/-- `lock_release`; the threads it wakes up find the lock free. -/
def World.lockRelease (world : World) (t lock : Nat) (next : World → World) : Outcome World :=
  if lock = 0 then .panics
  else if world.holder lock = some t then .next (next (world.setHolder lock none))
  else .panics

def eatFood (world : World) (t : Nat) (thread : Thread) (bowl : Bowl) (bowlLock : Nat) :
    EatPoint → Outcome World
  | .acquireBowl => world.lockAcquire t bowlLock (·.goto t thread (.eatFood .loadEating bowl bowlLock))
  | .loadEating =>
    .next (world.goto t thread (.eatFood (.storeEating (world.eating thread.species)) bowl bowlLock))
  | .storeEating value =>
    .next ((world.setEating thread.species (value + 1)).goto t thread (.eatFood .setBowl bowl bowlLock))
  | .setBowl => .next ((world.setBowl bowl 1).goto t thread (.eatFood .releaseMutex bowl bowlLock))
  | .releaseMutex => world.lockRelease t world.mutex (·.goto t thread (.eatFood .lockEat bowl bowlLock))
  | .lockEat =>
    .next (world.goto t { thread with meals := thread.meals + 1 } (.eatFood .acquireMutex bowl bowlLock))
  | .acquireMutex => world.lockAcquire t world.mutex (·.goto t thread (.eatFood .clearBowl bowl bowlLock))
  | .clearBowl => .next ((world.setBowl bowl 0).goto t thread (.eatFood .releaseBowl bowl bowlLock))
  | .releaseBowl => world.lockRelease t bowlLock (·.goto t thread (.eatFood .loadDone bowl bowlLock))
  | .loadDone =>
    .next (world.goto t thread (.eatFood (.storeDone (world.eating thread.species)) bowl bowlLock))
  | .storeDone value =>
    .next ((world.setEating thread.species (value - 1)).goto t thread (.eatFood .loadIteration bowl bowlLock))
  | .loadIteration =>
    .next (world.goto t thread
      (.eatFood (.storeIteration (world.iteration thread.species thread.number)) bowl bowlLock))
  | .storeIteration value =>
    .next ((world.setIteration thread.species thread.number (value + 1)).goto t thread .releaseMutex)

/-- One statement of `catlock` or `mouselock`; `rand` is what `random()` returned. -/
def execute (world : World) (t : Nat) (thread : Thread) (rand : Nat) : Outcome World :=
  match thread.point with
  | .loop =>
    .next (world.goto t thread
      (if world.iteration thread.species thread.number < 4 then .acquireMutex else .finished))
  | .acquireMutex => world.lockAcquire t world.mutex (·.goto t thread .checkOthers)
  | .checkOthers =>
    .next (world.goto t thread (if world.eating thread.species.other = 0 then .checkBowl1 else .releaseMutex))
  | .checkBowl1 => .next (world.goto t thread (if world.bowl .bowl1 = 0 then .checkBowl2 else .elseBowl1))
  | .checkBowl2 => .next (world.goto t thread (if world.bowl .bowl2 = 0 then .draw else .elseBowl1))
  | .draw =>
    .next (world.goto t thread
      (if rand % 2 = 0 then .eatFood .acquireBowl .bowl1 (world.bowlLock .bowl1)
      else .eatFood .acquireBowl .bowl2 (world.bowlLock .bowl2)))
  | .elseBowl1 =>
    .next (world.goto t thread
      (if world.bowl .bowl1 = 0 then .eatFood .acquireBowl .bowl1 (world.bowlLock .bowl1) else .elseBowl2))
  | .elseBowl2 =>
    .next (world.goto t thread
      (if world.bowl .bowl2 = 0 then .eatFood .acquireBowl .bowl2 (world.bowlLock .bowl2) else .releaseMutex))
  | .eatFood point bowl bowlLock => eatFood world t thread bowl bowlLock point
  | .releaseMutex => world.lockRelease t world.mutex (·.goto t thread .loop)
  | .finished => .blocked

def World.advance (world : World) (t rand : Nat) : Outcome World :=
  match world.threads[t]? with
  | none => .blocked
  | some thread => execute world t thread rand

def World.drive (world : World) : Option World :=
  match world.driver with
  | [] => none
  | .createBowlLock bowl :: rest => some { world with
      bowlLock := Function.update world.bowlLock bowl (world.locks + 1), locks := world.locks + 1, driver := rest }
  | .createMutex :: rest => some { world with
      mutex := world.locks + 1, locks := world.locks + 1, driver := rest }
  | .fork species number :: rest => some { world with
      threads := world.threads ++ [⟨species, number, .loop, 0⟩], driver := rest }

inductive Action where
  /-- The menu calls `catmouselock`. -/
  | command
  | drive
  | advance (t rand : Nat)
  deriving DecidableEq, Repr

def step (world : World) : Action → Option World
  | .command => if world.driver = [] then some { world with driver := catmouselock } else none
  | .drive => world.drive
  | .advance t rand => (world.advance t rand).toOption

end Os161.CatMouse
