import Mathlib.Tactic.IntervalCases
import Os161.Stoplight

/-! Between two statements, the semaphores a car has, the regions it is in and whether it is counted follow from
where it is, and the shared variables are the counts. The lanes lose cars only at their heads. -/

namespace Os161.Stoplight

open Crew

section Ranges

/-- The region that the row of `car_route` gives for the car's `i`. -/
def Car.cur (car : Car) : Option (Fin 4) := regionOf (car.route car.i)

def Car.held (car : Car) : List Sem :=
  match car.point with
  | .arriving .addtail | .arriving .laneV => [.lane car.direction]
  | .looking .test | .looking .laneP | .looking (.first _) | .looking .numcarsV => [.numcars]
  | .looking .peek | .looking (.laneV _) => [.lane car.direction, .numcars]
  | .entering .accessP _ => [.numcars]
  | .entering .pop k | .entering .laneV k => [.lane car.direction, .access k, .numcars]
  | .entering _ k => [.access k, .numcars]
  | .peeking .peek | .peeking (.laneV _) => [.lane car.direction]
  | .turning .test k | .turning .missV k | .turning .set k | .turning .accessV k => [.access k]
  | .turning .pop _ | .turning .laneV _ => [.lane car.direction]
  | .turning .count _ | .turning .numcarsV _ => [.numcars]
  | .moving .accessP _ => []
  | .moving _ k => [.access k]
  | .leaving .clear | .leaving .accessV => (car.regionSem.map Sem.access).toList
  | .leaving .uncount | .leaving .numcarsV => [.numcars]
  | _ => []

def Car.holds (sem : Sem) (car : Car) : Bool := decide (sem ∈ car.held)

def Car.inRegion (k : Fin 4) (car : Car) : Bool :=
  match car.point with
  | .entering .accessP _ | .entering .test _ | .entering .set _ | .entering .accessV _ => decide (car.cur = some k)
  | .entering _ j => decide (j = k)
  | .turning .accessP _ | .turning .test _ | .turning .missV _ | .turning .set _ => decide (car.cur = some k)
  | .turning _ j => decide (j = k)
  | .moving .next j => decide (car.cur = some k ∨ j = k)
  | .moving .clear _ => decide (car.cur = some k ∨ regionOf (car.route (car.i - 1)) = some k)
  | .leaving .accessP | .leaving .clear => decide (car.cur = some k)
  | .leaving _ => false
  | .finished => false
  | _ => decide (car.cur = some k)

def Car.counted (car : Car) : Bool :=
  match car.point with
  | .entering .next _ => true
  | .turning .numcarsV _ | .turning .next _ => true
  | .leaving .numcarsV | .leaving .next => false
  | .finished => false
  | _ => car.cur.isSome

def Car.through (car : Car) : Bool := decide (car.turn ≠ .right)

def Car.started (car : Car) : Bool := decide (car.point ≠ .arriving .begin)

def Car.lined (car : Car) : Bool :=
  match car.point with
  | .arriving .begin | .arriving .laneP | .arriving .addtail => false
  | _ => true

def Car.queued (car : Car) : Bool :=
  match car.point with
  | .arriving .laneV => true
  | .arriving _ => false
  | .entering .laneV _ | .entering .keep _ | .entering .count _ | .entering .next _ => false
  | .turning .laneV _ | .turning .keep _ | .turning .numcarsP _ | .turning .count _ | .turning .numcarsV _
  | .turning .next _ => false
  | .moving _ _ | .leaving _ | .finished => false
  | _ => decide (car.i = 0)

def Car.crossing (d : Fin 4) (car : Car) : Bool :=
  match car.point with
  | .entering .stray _ | .entering .laneP _ | .entering .pop _ => decide (car.direction = d)
  | .turning .accessV _ | .turning .laneP _ | .turning .pop _ => decide (car.direction = d)
  | _ => false

end Ranges

section Routes

def Turn.stops : Turn → Nat
  | .left => 4
  | .straight => 3
  | .right => 2

theorem regionOf_route_zero (car : Car) : regionOf (car.route 0) = none := by
  obtain ⟨stack, direction, turn, i, regionSem, point⟩ := car
  change regionOf ((router direction turn).getD 0 0) = none
  revert direction
  cases turn <;> decide

theorem regionOf_route_one (car : Car) : regionOf (car.route 1) = some car.direction := by
  obtain ⟨stack, direction, turn, i, regionSem, point⟩ := car
  change regionOf ((router direction turn).getD 1 0) = some direction
  revert direction
  cases turn <;> decide

theorem regionOf_route_stops (car : Car) : regionOf (car.route car.turn.stops) = none := by
  obtain ⟨stack, direction, turn, i, regionSem, point⟩ := car
  change regionOf ((router direction turn).getD turn.stops 0) = none
  revert direction
  cases turn <;> decide

/-- Inside the intersection the regions of the route are counted down. -/
theorem regionOf_route_succ (car : Car) {i} (inside : 0 < i) (before : i + 1 < car.turn.stops) :
    ∃ k, regionOf (car.route (i + 1)) = some k ∧ regionOf (car.route i) = some (k + 1) := by
  obtain ⟨stack, direction, turn, i', regionSem, point⟩ := car
  change ∃ k, regionOf ((router direction turn).getD (i + 1) 0) = some k ∧
    regionOf ((router direction turn).getD i 0) = some (k + 1)
  change i + 1 < turn.stops at before
  have small : i < 3 := by
    cases turn <;> simp only [Turn.stops] at before <;> omega
  revert direction
  cases turn <;> interval_cases i <;> revert before <;> decide

theorem route_dest_iff (car : Car) {i} (before : i ≤ car.turn.stops) :
    car.route i = car.dest ↔ i = car.turn.stops := by
  obtain ⟨stack, direction, turn, i', regionSem, point⟩ := car
  change (router direction turn).getD i 0 = destdirection direction turn ↔ i = turn.stops
  change i ≤ turn.stops at before
  have small : i < 5 := by
    cases turn <;> simp only [Turn.stops] at before <;> omega
  revert direction
  cases turn <;> interval_cases i <;> revert before <;> decide

theorem Turn.two_le_stops (turn : Turn) : 2 ≤ turn.stops := by
  cases turn <;> decide

inductive Car.Branches (car : Car) : Point → Prop where
  | finished (arrived : car.i = car.turn.stops) : car.Branches .finished
  | leaving (inside : 0 < car.i) (last : car.i + 1 = car.turn.stops) : car.Branches (.leaving .accessP)
  | peeking (outside : car.i = 0) (right : car.turn = .right) : car.Branches (.peeking .laneP)
  | looking (outside : car.i = 0) (through : car.turn ≠ .right) : car.Branches (.looking .numcarsP)
  | moving (inside : 0 < car.i) (before : car.i + 1 < car.turn.stops) (k : Fin 4)
      (next : regionOf (car.route (car.i + 1)) = some k) : car.Branches (.moving .accessP k)

theorem Car.branches (car : Car) (placed : car.i ≤ car.turn.stops) : car.Branches car.branch := by
  have two := car.turn.two_le_stops
  unfold Car.branch
  by_cases arrived : car.i = car.turn.stops
  · rw [if_pos (.inl ((route_dest_iff car placed).mpr arrived))]
    exact .finished arrived
  · have on : ¬ (car.route car.i = car.dest ∨ car.turn = .right ∧ ¬ car.i < 4) := by
      rintro (dest | ⟨right, far⟩)
      · exact arrived ((route_dest_iff car placed).mp dest)
      · rw [right] at placed
        exact far (Nat.lt_of_le_of_lt placed (by decide))
    rw [if_neg on]
    by_cases last : car.i + 1 = car.turn.stops
    · rw [if_pos ((route_dest_iff car (by omega)).mpr last)]
      exact .leaving (by omega) last
    · rw [if_neg fun dest => last ((route_dest_iff car (by omega)).mp dest)]
      by_cases right : car.turn = .right
      · rw [if_pos right]
        rw [right] at placed arrived last
        simp only [Turn.stops] at placed arrived last
        exact .peeking (by omega) right
      · rw [if_neg right]
        by_cases outside : car.i = 0
        · rw [if_pos outside]
          exact .looking outside right
        · rw [if_neg outside]
          obtain ⟨k, next, -⟩ := regionOf_route_succ car (Nat.pos_of_ne_zero outside) (by omega)
          rw [next]
          exact .moving (Nat.pos_of_ne_zero outside) (by omega) k next

end Routes

section Lanes

def World.Heads (world : World) (t : Nat) (d : Fin 4) : Prop :=
  ∃ entry rest, world.lane d = entry :: rest ∧ entry.car = t

/-- The address is on the stack of a car that has stored its number. -/
def World.Used (world : World) (address : Nat) : Prop :=
  ∃ (u : Nat) (other : Car), world.cars[u]? = some other ∧ other.started = true ∧ other.stack = address

/-- What was added to a lane and not taken off it is in its queue, cars enter in that order, and the word of a stack
is the number of a car on it. -/
structure Lanes (world : World) : Prop where
  queue : ∀ d, world.added d = world.popped d ++ (world.lane d).map Entry.car
  nodup : ∀ d, (world.added d).Nodup
  members : ∀ (d : Fin 4) (entry : Entry), entry ∈ world.lane d → ∃ car, world.cars[entry.car]? = some car ∧
    car.stack = entry.address ∧ car.direction = d ∧ car.queued = true
  joined : ∀ (d : Fin 4) (t : Nat), t ∈ world.added d → ∃ car, world.cars[t]? = some car ∧ car.lined = true
  crossing : ∀ d, ∃ pending : Option Nat, Sole world.cars (Car.crossing d) pending ∧
    world.entered d = world.popped d ++ pending.toList
  words : ∀ (t : Nat) (car : Car), world.cars[t]? = some car → car.started = true →
    ∃ (u : Nat) (other : Car), world.cars[u]? = some other ∧ other.started = true ∧ other.stack = car.stack ∧
      world.stack car.stack = u
  alone : ∀ (t u : Nat) (first second : Car), world.cars[t]? = some first → world.cars[u]? = some second →
    first.point ≠ .finished → second.point ≠ .finished → first.stack = second.stack → t = u

structure Carries (old new : Car) : Prop where
  stack : new.stack = old.stack
  direction : new.direction = old.direction
  turn : new.turn = old.turn
  started : old.started = true → new.started = true
  lined : old.lined = true → new.lined = true
  live : new.point ≠ .finished → old.point ≠ .finished

theorem Carries.refl (car : Car) : Carries car car := ⟨rfl, rfl, rfl, id, id, id⟩

variable {world after : World} {t u : Nat} {old new car : Car}

section

variable (found : world.cars[t]? = some old) (cars : after.cars = world.cars.set t new) (carries : Carries old new)
include found cars carries

theorem carried (at_ : world.cars[u]? = some car) : ∃ later, after.cars[u]? = some later ∧ Carries car later := by
  rw [cars]
  by_cases same : u = t
  · subst same
    rw [found] at at_
    cases at_
    exact ⟨new, (getElem?_moved found).mpr (.inl ⟨rfl, rfl⟩), carries⟩
  · exact ⟨car, (getElem?_moved found).mpr (.inr ⟨same, at_⟩), Carries.refl car⟩

theorem carried_back (at_ : after.cars[u]? = some car) :
    ∃ before, world.cars[u]? = some before ∧ Carries before car := by
  rw [cars] at at_
  rcases (getElem?_moved found).mp at_ with ⟨rfl, rfl⟩ | ⟨-, at_⟩
  · exact ⟨old, found, carries⟩
  · exact ⟨car, at_, Carries.refl car⟩

end

theorem World.Used.carried {address} (used : world.Used address) (found : world.cars[t]? = some old)
    (cars : after.cars = world.cars.set t new) (carries : Carries old new) : after.Used address := by
  obtain ⟨u, other, at_, started, stack⟩ := used
  obtain ⟨later, atLater, kept⟩ := Stoplight.carried found cars carries at_
  exact ⟨u, later, atLater, kept.started started, kept.stack.trans stack⟩

/-- A move keeps the lanes when the queues, the order of entry and the stacks agree with it. -/
theorem Lanes.step (lanes : Lanes world) (found : world.cars[t]? = some old)
    (cars : after.cars = world.cars.set t new) (carries : Carries old new)
    (queue : ∀ d, after.added d = after.popped d ++ (after.lane d).map Entry.car)
    (nodup : ∀ d, (after.added d).Nodup)
    (members : ∀ (d : Fin 4) (entry : Entry), entry ∈ after.lane d → entry.car ≠ t ∧ entry ∈ world.lane d ∨
      entry.car = t ∧ new.stack = entry.address ∧ new.direction = d ∧ new.queued = true)
    (joined : ∀ (d : Fin 4) (u : Nat), u ∈ after.added d → u ∈ world.added d ∨ u = t ∧ new.lined = true)
    (crossing : ∀ d, ∃ pending : Option Nat, Sole (world.cars.set t new) (Car.crossing d) pending ∧
      after.entered d = after.popped d ++ pending.toList)
    (stack : after.stack = world.stack ∧ new.started = old.started ∨
      after.stack = Function.update world.stack old.stack t ∧ new.started = true) : Lanes after := by
  have present : after.cars[t]? = some new := by
    rw [cars]
    exact (getElem?_moved found).mpr (.inl ⟨rfl, rfl⟩)
  refine ⟨queue, nodup, ?_, ?_, ?_, ?_, ?_⟩
  · intro d entry listed
    rcases members d entry listed with ⟨elsewhere, before⟩ | ⟨rfl, address, direction, queued⟩
    · obtain ⟨other, at_, facts⟩ := lanes.members d entry before
      refine ⟨other, ?_, facts⟩
      rw [cars]
      exact (getElem?_moved found).mpr (.inr ⟨elsewhere, at_⟩)
    · exact ⟨new, present, address, direction, queued⟩
  · intro d u listed
    rcases joined d u listed with before | ⟨rfl, lined⟩
    · obtain ⟨other, at_, lined⟩ := lanes.joined d u before
      obtain ⟨later, atLater, kept⟩ := carried found cars carries at_
      exact ⟨later, atLater, kept.lined lined⟩
    · exact ⟨new, present, lined⟩
  · intro d
    rw [cars]
    exact crossing d
  · intro u other at_ started
    rcases stack with ⟨stack, same⟩ | ⟨stack, now⟩
    · have before : ∃ previous, world.cars[u]? = some previous ∧ previous.started = true ∧
          other.stack = previous.stack := by
        rw [cars] at at_
        rcases (getElem?_moved found).mp at_ with ⟨rfl, rfl⟩ | ⟨-, at_⟩
        · exact ⟨old, found, same ▸ started, carries.stack⟩
        · exact ⟨other, at_, started, rfl⟩
      obtain ⟨previous, atPrevious, startedPrevious, sameStack⟩ := before
      obtain ⟨v, owner, atOwner, startedOwner, ownerStack, word⟩ := lanes.words u previous atPrevious startedPrevious
      obtain ⟨later, atLater, kept⟩ := carried found cars carries atOwner
      refine ⟨v, later, atLater, kept.started startedOwner, ?_, ?_⟩
      · rw [kept.stack, ownerStack, sameStack]
      · rw [stack, sameStack, word]
    · obtain ⟨previous, atPrevious, kept⟩ := carried_back found cars carries at_
      by_cases mine : other.stack = old.stack
      · refine ⟨t, new, present, now, carries.stack.trans mine.symm, ?_⟩
        rw [stack, mine, Function.update_self]
      · have startedPrevious : previous.started = true := by
          rw [cars] at at_
          rcases (getElem?_moved found).mp at_ with ⟨rfl, rfl⟩ | ⟨-, at_⟩
          · exact absurd carries.stack mine
          · rw [atPrevious] at at_
            cases at_
            exact started
        obtain ⟨v, owner, atOwner, startedOwner, ownerStack, word⟩ := lanes.words u previous atPrevious startedPrevious
        obtain ⟨later, atLater, keptOwner⟩ := carried found cars carries atOwner
        refine ⟨v, later, atLater, keptOwner.started startedOwner, ?_, ?_⟩
        · rw [keptOwner.stack, ownerStack, kept.stack]
        · rw [stack, Function.update_of_ne mine, kept.stack, word]
  · intro u v first second atFirst atSecond liveFirst liveSecond same
    obtain ⟨firstBefore, atFirstBefore, keptFirst⟩ := carried_back found cars carries atFirst
    obtain ⟨secondBefore, atSecondBefore, keptSecond⟩ := carried_back found cars carries atSecond
    apply lanes.alone u v firstBefore secondBefore atFirstBefore atSecondBefore (keptFirst.live liveFirst)
      (keptSecond.live liveSecond)
    rw [← keptFirst.stack, ← keptSecond.stack, same]

end Lanes

section Invariant

def Car.Placed (car : Car) : Prop :=
  match car.point with
  | .arriving _ => car.i = 0
  | .loop => car.i ≤ car.turn.stops
  | .looking .numcarsV | .entering .accessV _ => car.i ≤ 1 ∧ car.turn ≠ .right
  | .looking _ => car.i = 0 ∧ car.turn ≠ .right
  | .entering _ k => car.i = 0 ∧ car.turn ≠ .right ∧ k = car.direction
  | .peeking _ => car.i = 0 ∧ car.turn = .right
  | .turning _ k => car.i = 0 ∧ car.turn = .right ∧ k = car.direction
  | .moving .clear k | .moving .keep k => 1 < car.i ∧ car.i < car.turn.stops ∧ car.cur = some k ∧ car.turn ≠ .right
  | .moving .accessV _ => 0 < car.i ∧ car.i < car.turn.stops ∧ car.turn ≠ .right
  | .moving _ k => 0 < car.i ∧ car.i + 1 < car.turn.stops ∧ regionOf (car.route (car.i + 1)) = some k
  | .leaving _ => 0 < car.i ∧ car.i + 1 = car.turn.stops
  | .finished => True

/-- The region that the car has found empty and is about to mark. -/
def Point.vacant : Point → Option (Fin 4)
  | .entering .set k | .turning .set k | .moving .set k => some k
  | _ => none

/-- The car has found `num_cars` to be less than 3 and will be counted. -/
def Point.room : Point → Bool
  | .looking .laneP | .looking .peek | .looking (.laneV _) | .looking (.first _) => true
  | .entering .next _ | .entering .accessV _ => false
  | .entering _ _ => true
  | _ => false

/-- The car has found itself at the head of its lane and is still there. -/
def Point.heads : Point → Bool
  | .entering .accessP _ | .entering .test _ | .entering .set _ | .entering .stray _ | .entering .laneP _
  | .entering .pop _ => true
  | .turning .accessP _ | .turning .test _ | .turning .set _ | .turning .accessV _ | .turning .laneP _
  | .turning .pop _ => true
  | _ => false

def Point.seen : Point → Option Nat
  | .looking (.laneV firstcar) | .looking (.first firstcar) => firstcar
  | .peeking (.laneV firstcar) | .peeking (.first firstcar) => firstcar
  | _ => none

structure Car.Knows (world : World) (t : Nat) (car : Car) : Prop where
  placed : car.Placed
  vacant : ∀ k, car.point.vacant = some k → world.region k = 0
  room : car.point.room = true → world.numCars < 3
  heads : car.point.heads = true → world.Heads t car.direction
  seen : ∀ address, car.point.seen = some address →
    world.Used address ∧ (address = car.stack → world.Heads t car.direction)

structure Sound (world : World) : Prop where
  sem : ∀ sem, world.sem sem + world.cars.countP (Car.holds sem) = 1
  region : ∀ k, world.region k = world.cars.countP (Car.inRegion k)
  atMost : ∀ k, world.region k ≤ 1
  numCars : world.numCars = world.cars.countP Car.counted
  few : world.cars.countP (fun car => car.through && car.counted) ≤ 3
  lanes : Lanes world
  knows : ∀ (t : Nat) (car : Car), world.cars[t]? = some car → car.Knows world t

structure Moved (world after : World) (t : Nat) (old new : Car) : Prop where
  cars : after.cars = world.cars.set t new
  carries : Carries old new
  sem : ∀ sem, after.sem sem + (new.holds sem).toNat = world.sem sem + (old.holds sem).toNat
  region : ∀ k, after.region k + (old.inRegion k).toNat = world.region k + (new.inRegion k).toNat
  atMost : ∀ k, after.region k ≤ 1
  marks : ∀ k, after.region k = 0 ∨ world.region k ≠ 0 ∨ old.holds (.access k) = true
  numCars : after.numCars + old.counted.toNat = world.numCars + new.counted.toNat
  recounts : after.numCars = world.numCars ∨ old.holds .numcars = true
  limit : old.counted = false → new.counted = true → new.through = true → world.numCars < 3
  lanes : Lanes after
  heads : ∀ d u, u ≠ t → world.Heads u d → after.Heads u d
  knows : new.Knows after t

theorem Car.holds_of_vacant {car : Car} {k} (vacant : car.point.vacant = some k) :
    car.holds (.access k) = true := by
  obtain ⟨stack, direction, turn, i, regionSem, point⟩ := car
  cases point with
  | entering point j =>
    cases point with
    | set => cases vacant; simp [Car.holds, Car.held]
    | _ => cases vacant
  | turning point j =>
    cases point with
    | set => cases vacant; simp [Car.holds, Car.held]
    | _ => cases vacant
  | moving point j =>
    cases point with
    | set => cases vacant; simp [Car.holds, Car.held]
    | _ => cases vacant
  | _ => cases vacant

theorem Car.holds_of_room {car : Car} (room : car.point.room = true) : car.holds .numcars = true := by
  obtain ⟨stack, direction, turn, i, regionSem, point⟩ := car
  cases point with
  | looking point => cases point <;> simp_all [Car.holds, Car.held, Point.room]
  | entering point k => cases point <;> simp_all [Car.holds, Car.held, Point.room]
  | _ => cases room

variable {world after : World} {t u : Nat} {old new : Car}

theorem Sound.alone (sound : Sound world) {sem first second}
    (foundFirst : world.cars[t]? = some first) (holdsFirst : first.holds sem = true)
    (foundSecond : world.cars[u]? = some second) (holdsSecond : second.holds sem = true) : t = u := by
  have atMost : world.cars.countP (Car.holds sem) ≤ 1 := by
    have count := sound.sem sem
    omega
  exact unique_of_countP atMost foundFirst holdsFirst foundSecond holdsSecond

theorem Car.Knows.other (sound : Sound world) (found : world.cars[t]? = some old)
    (moved : Moved world after t old new) (elsewhere : u ≠ t) {car : Car} (at_ : world.cars[u]? = some car) :
    car.Knows after u := by
  obtain ⟨placed, vacant, room, heads, seen⟩ := sound.knows u car at_
  refine ⟨placed, ?_, ?_, fun first => moved.heads _ _ elsewhere (heads first), ?_⟩
  · intro k found_
    rcases moved.marks k with empty | full | holds
    · exact empty
    · exact absurd (vacant k found_) full
    · exact absurd (sound.alone at_ (Car.holds_of_vacant found_) found holds) elsewhere
  · intro few
    rcases moved.recounts with same | holds
    · rw [same]
      exact room few
    · exact absurd (sound.alone at_ (Car.holds_of_room few) found holds) elsewhere
  · intro address found_
    obtain ⟨used, first⟩ := seen address found_
    exact ⟨used.carried found moved.cars moved.carries,
      fun own => moved.heads _ _ elsewhere (first own)⟩

theorem Sound.moved (sound : Sound world) (found : world.cars[t]? = some old)
    (moved : Moved world after t old new) : Sound after := by
  refine ⟨?_, ?_, moved.atMost, ?_, ?_, moved.lanes, ?_⟩
  · intro sem
    have count := countP_moved (Car.holds sem) new found
    have change := moved.sem sem
    have before := sound.sem sem
    rw [moved.cars]
    omega
  · intro k
    have count := countP_moved (Car.inRegion k) new found
    have change := moved.region k
    have before := sound.region k
    rw [moved.cars]
    omega
  · have count := countP_moved Car.counted new found
    have change := moved.numCars
    have before := sound.numCars
    rw [moved.cars]
    omega
  · have count := countP_moved (fun car => car.through && car.counted) new found
    have before := sound.few
    rw [moved.cars]
    by_cases joins : (new.through && new.counted) = true ∧ (old.through && old.counted) = false
    · obtain ⟨now, notBefore⟩ := joins
      rw [Bool.and_eq_true] at now
      have uncounted : old.counted = false := by
        have same : old.through = new.through := by
          rw [Car.through, Car.through, moved.carries.turn]
        rw [same, now.1] at notBefore
        exact notBefore
      have limit := moved.limit uncounted now.2 now.1
      have total : world.cars.countP (fun car => car.through && car.counted) ≤ world.cars.countP Car.counted := by
        apply List.countP_mono_left
        intro car _ both
        rw [Bool.and_eq_true] at both
        exact both.2
      have all := sound.numCars
      rw [now.1, now.2] at count
      simp only [Bool.toNat_false, Bool.and_self, Bool.toNat_true] at count
      omega
    · have less : (new.through && new.counted).toNat ≤ (old.through && old.counted).toNat := by
        cases now : (new.through && new.counted) with
        | false => exact Nat.zero_le _
        | true =>
          cases earlier : (old.through && old.counted) with
          | false => exact absurd ⟨now, earlier⟩ joins
          | true => exact Nat.le_refl _
      omega
  · intro u car at_
    rw [moved.cars] at at_
    rcases (getElem?_moved found).mp at_ with ⟨rfl, rfl⟩ | ⟨elsewhere, at_⟩
    · exact moved.knows
    · exact Car.Knows.other sound found moved elsewhere at_

structure Alike (old new : Car) : Prop where
  carries : Carries old new
  started : new.started = old.started
  queued : old.queued = true → new.queued = true
  crossing : ∀ d, new.crossing d = old.crossing d
  inRegion : ∀ k, new.inRegion k = old.inRegion k
  counted : new.counted = old.counted

/-- Everything about a car that a statement without a store keeps. -/
structure Profile where
  stack : Nat
  direction : Fin 4
  turn : Turn
  started : Bool
  lined : Bool
  queued : Bool
  live : Bool
  crossing : Fin 4 → Bool
  inRegion : Fin 4 → Bool
  counted : Bool

def Car.profile (car : Car) : Profile where
  stack := car.stack
  direction := car.direction
  turn := car.turn
  started := car.started
  lined := car.lined
  queued := car.queued
  live := decide (car.point ≠ .finished)
  crossing d := car.crossing d
  inRegion k := car.inRegion k
  counted := car.counted

theorem Alike.of_profile (same : new.profile = old.profile) : Alike old new := by
  have started : new.started = old.started := congrArg Profile.started same
  have lined : new.lined = old.lined := congrArg Profile.lined same
  have queued : new.queued = old.queued := congrArg Profile.queued same
  have live : decide (new.point ≠ .finished) = decide (old.point ≠ .finished) := congrArg Profile.live same
  refine ⟨⟨congrArg Profile.stack same, congrArg Profile.direction same, congrArg Profile.turn same, ?_, ?_, ?_⟩,
    started, ?_, ?_, ?_, congrArg Profile.counted same⟩
  · rw [started]
    exact id
  · rw [lined]
    exact id
  · intro alive
    rw [decide_eq_true alive] at live
    exact of_decide_eq_true live.symm
  · rw [queued]
    exact id
  · intro d
    exact congrFun (congrArg Profile.crossing same) d
  · intro k
    exact congrFun (congrArg Profile.inRegion same) k

theorem Lanes.quiet (lanes : Lanes world) (found : world.cars[t]? = some old)
    (cars : after.cars = world.cars.set t new) (carries : Carries old new) (started : new.started = old.started)
    (queued : old.queued = true → new.queued = true) (crossing : ∀ d, new.crossing d = old.crossing d)
    (lane : after.lane = world.lane) (stack : after.stack = world.stack)
    (lists : after.added = world.added ∧ after.popped = world.popped ∧ after.entered = world.entered) :
    Lanes after := by
  obtain ⟨added, popped, entered⟩ := lists
  apply lanes.step found cars carries
  · rw [added, popped, lane]
    exact lanes.queue
  · rw [added]
    exact lanes.nodup
  · intro d entry listed
    rw [lane] at listed
    by_cases mine : entry.car = t
    · obtain ⟨car, at_, address, direction, isQueued⟩ := lanes.members d entry listed
      rw [mine, found] at at_
      cases at_
      exact .inr ⟨mine, carries.stack.trans address, carries.direction.trans direction, queued isQueued⟩
    · exact .inl ⟨mine, listed⟩
  · intro d u listed
    rw [added] at listed
    exact .inl listed
  · intro d
    obtain ⟨pending, sole, order⟩ := lanes.crossing d
    refine ⟨pending, sole.keeps found (crossing d), ?_⟩
    rw [entered, popped]
    exact order
  · exact .inl ⟨stack, started⟩

theorem heads_same (lane : after.lane = world.lane) (d : Fin 4) (u : Nat) (heads : world.Heads u d) :
    after.Heads u d := by
  rw [World.Heads, lane]
  exact heads

theorem Car.Knows.of_placed {car : Car} (placed : car.Placed) (silent : (car.point.vacant, car.point.room,
    car.point.heads, car.point.seen) = (none, false, false, none)) : car.Knows world t := by
  simp only [Prod.mk.injEq] at silent
  obtain ⟨vacant, room, heads, seen⟩ := silent
  refine ⟨placed, ?_, ?_, ?_, ?_⟩
  · simp [vacant]
  · simp [room]
  · simp [heads]
  · simp [seen]

theorem Car.Knows.carried (knows : new.Knows world t) (found : world.cars[t]? = some old)
    (cars : after.cars = world.cars.set t new) (carries : Carries old new) (lane : after.lane = world.lane)
    (region : after.region = world.region) (numCars : after.numCars = world.numCars) : new.Knows after t := by
  obtain ⟨placed, vacant, room, heads, seen⟩ := knows
  refine ⟨placed, ?_, ?_, fun first => heads_same lane _ _ (heads first), ?_⟩
  · rw [region]
    exact vacant
  · rw [numCars]
    exact room
  · intro address found_
    obtain ⟨used, first⟩ := seen address found_
    exact ⟨used.carried found cars carries, fun own => heads_same lane _ _ (first own)⟩

section Unchanged

variable (region : after.region = world.region)
include region

theorem marks_same (k : Fin 4) : after.region k = 0 ∨ world.region k ≠ 0 ∨ old.holds (.access k) = true := by
  rw [region]
  by_cases empty : world.region k = 0
  · exact .inl empty
  · exact .inr (.inl empty)

theorem region_same (inRegion : ∀ k, new.inRegion k = old.inRegion k) (k : Fin 4) :
    after.region k + (old.inRegion k).toNat = world.region k + (new.inRegion k).toNat := by
  rw [region, inRegion]

end Unchanged

theorem limit_same (counted : new.counted = old.counted) (before : old.counted = false) (now : new.counted = true)
    (_ : new.through = true) : world.numCars < 3 := by
  rw [counted, before] at now
  cases now

theorem Moved.quiet (sound : Sound world) (found : world.cars[t]? = some old)
    (cars : after.cars = world.cars.set t new) (alike : Alike old new) (lane : after.lane = world.lane)
    (stack : after.stack = world.stack)
    (lists : after.added = world.added ∧ after.popped = world.popped ∧ after.entered = world.entered)
    (region : after.region = world.region) (numCars : after.numCars = world.numCars)
    (sem : ∀ sem, after.sem sem + (new.holds sem).toNat = world.sem sem + (old.holds sem).toNat)
    (knows : new.Knows world t) : Moved world after t old new := by
  refine ⟨cars, alike.carries, sem, region_same region alike.inRegion, ?_, marks_same region, ?_, .inl numCars,
    limit_same alike.counted, ?_, fun d u _ => heads_same lane d u, knows.carried found cars alike.carries lane region numCars⟩
  · rw [region]
    exact sound.atMost
  · rw [numCars, alike.counted]
  · exact sound.lanes.quiet found cars alike.carries alike.started alike.queued alike.crossing lane stack lists

variable {sem : Sem}

theorem Car.held_nodup (car : Car) : car.held.Nodup := by
  unfold Car.held
  split <;> try simp
  all_goals cases car.regionSem <;> simp

theorem holds_of_held {car other : Car} (held : car.held = other.held) : car.holds sem = other.holds sem := by
  rw [Car.holds, Car.holds, held]

section

variable (sound : Sound world) (found : world.cars[t]? = some old) (alike : Alike old new)
include sound found alike

theorem Moved.still
    (held : new.held = old.held) (knows : new.Knows world t) : Moved world (world.put t new) t old new := by
  refine Moved.quiet sound found rfl alike rfl rfl ⟨rfl, rfl, rfl⟩ rfl rfl ?_ knows
  intro sem
  rw [holds_of_held held]
  rfl

theorem Moved.p (free : world.sem sem ≠ 0) (held : new.held = sem :: old.held) (knows : new.Knows world t) :
    Moved world ({ world with sem := Function.update world.sem sem (world.sem sem - 1) }.put t new) t old new := by
  refine Moved.quiet sound found rfl alike rfl rfl ⟨rfl, rfl, rfl⟩ rfl rfl ?_ knows
  intro other
  change Function.update world.sem sem (world.sem sem - 1) other + _ = _
  by_cases this : other = sem
  · subst this
    have before : old.holds other = false := by
      refine Bool.eq_false_iff.mpr fun holds => ?_
      have holders := List.countP_pos_iff.mpr ⟨old, List.mem_of_getElem? found, holds⟩
      have all := sound.sem other
      omega
    have now : new.holds other = true := by simp [Car.holds, held]
    rw [Function.update_self, before, now]
    exact Nat.sub_add_cancel (Nat.pos_of_ne_zero free)
  · have same : new.holds other = old.holds other := by simp [Car.holds, held, this]
    rw [Function.update_of_ne this, same]

theorem Moved.v (held : old.held = sem :: new.held) (knows : new.Knows world t) :
    Moved world ((world.v sem).put t new) t old new := by
  refine Moved.quiet sound found rfl alike rfl rfl ⟨rfl, rfl, rfl⟩ rfl rfl ?_ knows
  intro other
  change Function.update world.sem sem (world.sem sem + 1) other + _ = _
  by_cases this : other = sem
  · subst this
    have fresh : other ∉ new.held := by
      have nodup := old.held_nodup
      rw [held] at nodup
      exact (List.nodup_cons.mp nodup).1
    have before : old.holds other = true := by simp [Car.holds, held]
    have now : new.holds other = false := by simp [Car.holds, fresh]
    rw [Function.update_self, before, now]
    rfl
  · have same : new.holds other = old.holds other := by simp [Car.holds, held, this]
    rw [Function.update_of_ne this, same]

end

theorem p_next {next} (taken : world.p sem next = .next after) : world.sem sem ≠ 0 ∧
      after = next { world with sem := Function.update world.sem sem (world.sem sem - 1) } := by
  unfold World.p at taken
  split at taken
  · cases taken
  next free =>
    cases taken
    exact ⟨free, rfl⟩

end Invariant

end Os161.Stoplight
