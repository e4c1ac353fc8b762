import Os161.Lib.Crew

/-! The intersection of `asst1/stoplight.c`. Between two statements of a car any other may run. The lanes hold the
addresses of the variables `carnumber` on the stacks of the cars. -/

namespace Os161.Stoplight

open Crew

def ncars : Nat := 20

inductive Turn where
  | left
  | straight
  | right
  deriving DecidableEq, Repr

def Turn.code : Turn → Nat
  | .left => 1
  | .straight => 2
  | .right => 3

def destdirection (cardirection : Fin 4) (turn : Turn) : Nat := (cardirection + turn.code) % 4

/-- The row of `car_route` that `router` leaves; the entries it does not write are 0. -/
def router (cardirection : Fin 4) (turn : Turn) : List Nat :=
  match turn with
  | .straight => [cardirection, cardirection + 10, (cardirection + 3) % 4 + 10, destdirection cardirection turn, 0]
  | .right => [cardirection, cardirection + 10, destdirection cardirection turn, 0, 0]
  | .left => [cardirection, cardirection + 10, (cardirection + 3) % 4 + 10, (cardirection + 2) % 4 + 10,
      destdirection cardirection turn]

/-- The region of an entry of `car_route`, where `entry - 10` is an index of `region`. -/
def regionOf (entry : Nat) : Option (Fin 4) :=
  if inside : 10 ≤ entry ∧ entry < 14 then some ⟨entry - 10, by omega⟩ else none

/-- `numcars_sem`, `access_r10` to `access_r13`, and `q0` to `q3`. -/
inductive Sem where
  | numcars
  | access (k : Fin 4)
  | lane (d : Fin 4)
  deriving DecidableEq, Repr

/-- Statements of `approachintersection`. -/
inductive Arriving where
  | begin
  | laneP
  | addtail
  | laneV
  deriving DecidableEq, Repr

/-- The statements of a car that leaves, the same in both functions. -/
inductive Leaving where
  | accessP
  | clear
  | accessV
  | numcarsP
  | uncount
  | numcarsV
  | next
  deriving DecidableEq, Repr

/-- The statements of a car inside the intersection that moves into region `k`. -/
inductive Moving where
  | accessP
  | test
  | set
  | next
  | clear
  | keep
  | accessV
  deriving DecidableEq, Repr

/-- A car that approaches in `gostraightorleft`, until it knows whether it is the first of its lane. -/
inductive Looking where
  | numcarsP
  | test
  | laneP
  | peek
  | laneV (firstcar : Option Nat)
  | first (firstcar : Option Nat)
  | numcarsV
  deriving DecidableEq, Repr

/-- The statements that take it into region `k`. -/
inductive Entering where
  | accessP
  | test
  | set
  | stray
  | laneP
  | pop
  | laneV
  | keep
  | count
  | next
  | accessV
  deriving DecidableEq, Repr

/-- The statements of a car that approaches in `turnright`. -/
inductive Peeking where
  | laneP
  | peek
  | laneV (firstcar : Option Nat)
  | first (firstcar : Option Nat)
  deriving DecidableEq, Repr

inductive Turning where
  | accessP
  | test
  | missV
  | set
  | accessV
  | laneP
  | pop
  | laneV
  | keep
  | numcarsP
  | count
  | numcarsV
  | next
  deriving DecidableEq, Repr

inductive Point where
  | arriving (point : Arriving)
  | loop
  | looking (point : Looking)
  | entering (point : Entering) (k : Fin 4)
  | peeking (point : Peeking)
  | turning (point : Turning) (k : Fin 4)
  | moving (point : Moving) (k : Fin 4)
  | leaving (point : Leaving)
  | finished
  deriving DecidableEq, Repr

/-- A car thread: its stack, what its calls of `random` give, its locals `i` and `region_sem`, and its statement. -/
structure Car where
  stack : Nat
  direction : Fin 4
  turn : Turn
  i : Nat
  regionSem : Option (Fin 4)
  point : Point
  deriving DecidableEq, Repr

/-- An entry of the car's row of `car_route`, which no other car reads or writes. -/
def Car.route (car : Car) (i : Nat) : Nat := (router car.direction car.turn).getD i 0

def Car.dest (car : Car) : Nat := destdirection car.direction car.turn

/-- An element of a lane's queue. The queue has only the address. -/
structure Entry where
  address : Nat
  car : Nat
  deriving DecidableEq, Repr

/-- The globals, the counts of the semaphores, and the word at `carnumber` of each stack. The lists of cars added to
a lane, taken off it, and entered from it are not in the source. -/
structure World where
  sem : Sem → Nat
  region : Fin 4 → Nat
  numCars : Int
  lane : Fin 4 → List Entry
  stack : Nat → Nat
  cars : List Car
  added : Fin 4 → List Nat
  popped : Fin 4 → List Nat
  entered : Fin 4 → List Nat

/-- When `createcars` has made the semaphores and the queues; the stacks have any words. -/
def boot (stack : Nat → Nat) : World where
  sem _ := 1
  region _ := 0
  numCars := 0
  lane _ := []
  stack := stack
  cars := []
  added _ := []
  popped _ := []
  entered _ := []

def World.put (world : World) (t : Nat) (car : Car) : World := { world with cars := world.cars.set t car }

def World.goto (world : World) (t : Nat) (car : Car) (point : Point) : World := world.put t { car with point := point }

def World.p (world : World) (sem : Sem) (next : World → World) : Outcome World :=
  if world.sem sem = 0 then .blocked
  else .next (next { world with sem := Function.update world.sem sem (world.sem sem - 1) })

def World.v (world : World) (sem : Sem) : World :=
  { world with sem := Function.update world.sem sem (world.sem sem + 1) }

/-- A store to `region`; with an index outside it nothing of it changes. -/
def World.store (world : World) (region : Option (Fin 4)) (value : Nat) : World :=
  match region with
  | none => world
  | some k => { world with region := Function.update world.region k value }

def World.noteEntry (world : World) (t : Nat) (d : Fin 4) : World :=
  { world with entered := Function.update world.entered d (world.entered d ++ [t]) }

def World.addtail (world : World) (t : Nat) (car : Car) : World :=
  { world with
    lane := Function.update world.lane car.direction (world.lane car.direction ++ [⟨car.stack, t⟩]),
    added := Function.update world.added car.direction (world.added car.direction ++ [t]) }

/-- `q_remhead(lane)`, which asserts that the queue is not empty. -/
def World.remhead (world : World) (d : Fin 4) (next : World → World) : Outcome World :=
  match world.lane d with
  | [] => .panics
  | entry :: rest => .next (next { world with
      lane := Function.update world.lane d rest,
      popped := Function.update world.popped d (world.popped d ++ [entry.car]) })

def World.peek (world : World) (d : Fin 4) : Option Nat := (world.lane d).head?.map Entry.address

def arrive (world : World) (t : Nat) (car : Car) : Arriving → Outcome World
  | .begin =>
    .next ({ world with stack := Function.update world.stack car.stack t }.goto t car (.arriving .laneP))
  | .laneP => world.p (.lane car.direction) (·.goto t car (.arriving .addtail))
  | .addtail => .next ((world.addtail t car).goto t car (.arriving .laneV))
  | .laneV => .next ((world.v (.lane car.direction)).goto t car .loop)

def leave (world : World) (t : Nat) (car : Car) : Leaving → Outcome World
  | .accessP =>
    match car.regionSem with
    | none => .panics
    | some k => world.p (.access k) (·.goto t car (.leaving .clear))
  | .clear => .next ((world.store (regionOf (car.route car.i)) 0).goto t car (.leaving .accessV))
  | .accessV =>
    match car.regionSem with
    | none => .panics
    | some k => .next ((world.v (.access k)).goto t car (.leaving .numcarsP))
  | .numcarsP => world.p .numcars (·.goto t car (.leaving .uncount))
  | .uncount => .next ({ world with numCars := world.numCars - 1 }.goto t car (.leaving .numcarsV))
  | .numcarsV => .next ((world.v .numcars).goto t car (.leaving .next))
  | .next => .next (world.put t { car with i := car.i + 1, point := .loop })

def move (world : World) (t : Nat) (car : Car) (k : Fin 4) : Moving → Outcome World
  | .accessP => world.p (.access k) (·.goto t car (.moving .test k))
  | .test => .next (world.goto t car (if world.region k = 0 then .moving .set k else .moving .accessV k))
  | .set => .next ((world.store (some k) 1).goto t car (.moving .next k))
  | .next => .next (world.put t { car with i := car.i + 1, point := .moving .clear k })
  | .clear => .next ((world.store (regionOf (car.route (car.i - 1))) 0).goto t car (.moving .keep k))
  | .keep => .next (world.put t { car with regionSem := some k, point := .moving .accessV k })
  | .accessV => .next ((world.v (.access k)).goto t car .loop)

def look (world : World) (t : Nat) (car : Car) : Looking → Outcome World
  | .numcarsP => world.p .numcars (·.goto t car (.looking .test))
  | .test => .next (world.goto t car (if world.numCars < 3 then .looking .laneP else .looking .numcarsV))
  | .laneP => world.p (.lane car.direction) (·.goto t car (.looking .peek))
  | .peek => .next (world.goto t car (.looking (.laneV (world.peek car.direction))))
  | .laneV firstcar => .next ((world.v (.lane car.direction)).goto t car (.looking (.first firstcar)))
  | .first firstcar =>
    match firstcar with
    | none => .panics
    | some address =>
      if car.i = 0 ∧ t = world.stack address then
        match regionOf (car.route (car.i + 1)) with
        | some k => .next (world.goto t car (.entering .accessP k))
        | none => .next (world.goto t car (.looking .numcarsV))
      else .next (world.goto t car (.looking .numcarsV))
  | .numcarsV => .next ((world.v .numcars).goto t car .loop)

/-- In the branch of `access_r12` there is one more store than in the other three. -/
def enter (world : World) (t : Nat) (car : Car) (k : Fin 4) : Entering → Outcome World
  | .accessP => world.p (.access k) (·.goto t car (.entering .test k))
  | .test => .next (world.goto t car (if world.region k = 0 then .entering .set k else .entering .accessV k))
  | .set =>
    .next (((world.store (some k) 1).noteEntry t car.direction).goto t car
      (if k.val = 2 then .entering .stray k else .entering .laneP k))
  | .stray => .next ((world.store (regionOf (car.route car.i)) 0).goto t car (.entering .laneP k))
  | .laneP => world.p (.lane car.direction) (·.goto t car (.entering .pop k))
  | .pop => world.remhead car.direction (·.goto t car (.entering .laneV k))
  | .laneV => .next ((world.v (.lane car.direction)).goto t car (.entering .keep k))
  | .keep => .next (world.put t { car with regionSem := some k, point := .entering .count k })
  | .count => .next ({ world with numCars := world.numCars + 1 }.goto t car (.entering .next k))
  | .next => .next (world.put t { car with i := car.i + 1, point := .entering .accessV k })
  | .accessV => .next ((world.v (.access k)).goto t car (.looking .numcarsV))

def peekRight (world : World) (t : Nat) (car : Car) : Peeking → Outcome World
  | .laneP => world.p (.lane car.direction) (·.goto t car (.peeking .peek))
  | .peek => .next (world.goto t car (.peeking (.laneV (world.peek car.direction))))
  | .laneV firstcar => .next ((world.v (.lane car.direction)).goto t car (.peeking (.first firstcar)))
  | .first firstcar =>
    match firstcar with
    | none => .panics
    | some address =>
      if car.i = 0 ∧ t = world.stack address then
        match regionOf (car.route (car.i + 1)) with
        | some k => .next (world.goto t car (.turning .accessP k))
        | none => .next (world.goto t car .loop)
      else .next (world.goto t car .loop)

def turnright (world : World) (t : Nat) (car : Car) (k : Fin 4) : Turning → Outcome World
  | .accessP => world.p (.access k) (·.goto t car (.turning .test k))
  | .test => .next (world.goto t car (if world.region k = 0 then .turning .set k else .turning .missV k))
  | .missV => .next ((world.v (.access k)).goto t car .loop)
  | .set => .next (((world.store (some k) 1).noteEntry t car.direction).goto t car (.turning .accessV k))
  | .accessV => .next ((world.v (.access k)).goto t car (.turning .laneP k))
  | .laneP => world.p (.lane car.direction) (·.goto t car (.turning .pop k))
  | .pop => world.remhead car.direction (·.goto t car (.turning .laneV k))
  | .laneV => .next ((world.v (.lane car.direction)).goto t car (.turning .keep k))
  | .keep => .next (world.put t { car with regionSem := some k, point := .turning .numcarsP k })
  | .numcarsP => world.p .numcars (·.goto t car (.turning .count k))
  | .count => .next ({ world with numCars := world.numCars + 1 }.goto t car (.turning .numcarsV k))
  | .numcarsV => .next ((world.v .numcars).goto t car (.turning .next k))
  | .next => .next (world.put t { car with i := car.i + 1, point := .loop })

/-- Where the loops of `gostraightorleft` and `turnright` go on. -/
def Car.branch (car : Car) : Point :=
  if car.route car.i = car.dest ∨ car.turn = .right ∧ ¬ car.i < 4 then .finished
  else if car.route (car.i + 1) = car.dest then .leaving .accessP
  else if car.turn = .right then .peeking .laneP
  else if car.i = 0 then .looking .numcarsP
  else match regionOf (car.route (car.i + 1)) with
    | some k => .moving .accessP k
    | none => .loop

def execute (world : World) (t : Nat) (car : Car) : Outcome World :=
  match car.point with
  | .arriving point => arrive world t car point
  | .loop => .next (world.goto t car car.branch)
  | .looking point => look world t car point
  | .entering point k => enter world t car k point
  | .peeking point => peekRight world t car point
  | .turning point k => turnright world t car k point
  | .moving point k => move world t car k point
  | .leaving point => leave world t car point
  | .finished => .blocked

inductive Action where
  /-- `createcars` starts the next car, on a stack that no car uses any more. -/
  | fork (stack : Nat) (direction : Fin 4) (turn : Turn)
  | advance (t : Nat)
  deriving DecidableEq, Repr

def step (world : World) : Action → Option World
  | .fork stack direction turn =>
    if world.cars.length < ncars ∧ ∀ car ∈ world.cars, car.stack = stack → car.point = .finished then
      some { world with cars := world.cars ++ [⟨stack, direction, turn, 0, none, .arriving .begin⟩] }
    else none
  | .advance t =>
    match world.cars[t]? with
    | none => none
    | some car => (execute world t car).toOption

end Os161.Stoplight
