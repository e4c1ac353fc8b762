import Os161.Lib.Runs
import Os161.Proofs.StoplightSteps

/-! The intersection over whole runs: one car in a region, three at most that cross, the order of the lanes, and no
cars that hold each other up. -/

namespace Os161.Stoplight

open Crew Runs List

variable {world after : World} {t u : Nat} {car : Car}

section Runs

theorem new_car_out (stack : Nat) (direction : Fin 4) (turn : Turn) :
    (∀ k, Car.inRegion k ⟨stack, direction, turn, 0, none, .arriving .begin⟩ = false) ∧
    Car.counted ⟨stack, direction, turn, 0, none, .arriving .begin⟩ = false := by
  have zero := regionOf_route_zero ⟨stack, direction, turn, 0, none, .arriving .begin⟩
  refine ⟨?_, congrArg Option.isSome zero⟩
  intro k
  refine decide_eq_false fun here => ?_
  cases zero.symm.trans here

theorem Lanes.fork (lanes : Lanes world) {new} (point : new.point = .arriving .begin)
    (unused : ∀ car ∈ world.cars, car.stack = new.stack → car.point = .finished) :
    Lanes { world with cars := world.cars ++ [new] } := by
  have unstarted : new.started = false := by
    rw [Car.started, point]
    rfl
  have kept : ∀ {u : Nat} {car : Car}, world.cars[u]? = some car → (world.cars ++ [new])[u]? = some car :=
    fun at_ => getElem?_joined.mpr (Or.inr at_)
  refine ⟨lanes.queue, lanes.nodup, ?_, ?_, ?_, ?_, ?_⟩
  · intro d entry listed
    obtain ⟨car, at_, facts⟩ := lanes.members d entry listed
    exact ⟨car, kept at_, facts⟩
  · intro d u listed
    obtain ⟨car, at_, lined⟩ := lanes.joined d u listed
    exact ⟨car, kept at_, lined⟩
  · intro d
    obtain ⟨pending, sole, order⟩ := lanes.crossing d
    refine ⟨pending, sole.joins ?_, order⟩
    rw [Car.crossing, point]
  · intro u car at_ started
    rcases getElem?_joined.mp at_ with ⟨-, rfl⟩ | at_
    · rw [unstarted] at started
      cases started
    · obtain ⟨v, owner, atOwner, facts⟩ := lanes.words u car at_ started
      exact ⟨v, owner, kept atOwner, facts⟩
  · intro t u first second atFirst atSecond liveFirst liveSecond same
    rcases getElem?_joined.mp atFirst with ⟨lastFirst, rfl⟩ | oldFirst
    · rcases getElem?_joined.mp atSecond with ⟨lastSecond, -⟩ | oldSecond
      · rw [lastFirst, lastSecond]
      · exact absurd (unused second (mem_of_getElem? oldSecond) same.symm) liveSecond
    · rcases getElem?_joined.mp atSecond with ⟨-, rfl⟩ | oldSecond
      · exact absurd (unused first (mem_of_getElem? oldFirst) same) liveFirst
      · exact lanes.alone t u first second oldFirst oldSecond liveFirst liveSecond same

theorem Sound.fork (sound : Sound world) {stack direction turn}
    (unused : ∀ car ∈ world.cars, car.stack = stack → car.point = .finished) :
    Sound { world with cars := world.cars ++ [⟨stack, direction, turn, 0, none, .arriving .begin⟩] } := by
  obtain ⟨noRegion, uncounted⟩ := new_car_out stack direction turn
  refine ⟨?_, ?_, sound.atMost, ?_, ?_, sound.lanes.fork rfl unused, ?_⟩
  · intro sem
    rw [countP_joined]
    exact sound.sem sem
  · intro k
    rw [countP_joined, noRegion]
    exact sound.region k
  · rw [countP_joined, uncounted]
    exact sound.numCars
  · rw [countP_joined, uncounted, Bool.and_false]
    exact sound.few
  · intro u car at_
    rcases getElem?_joined.mp at_ with ⟨-, rfl⟩ | at_
    · exact ⟨rfl, nofun, nofun, nofun, nofun⟩
    · obtain ⟨placed, vacant, room, heads, seen⟩ := sound.knows u car at_
      refine ⟨placed, vacant, room, heads, ?_⟩
      intro address found
      obtain ⟨⟨v, other, atOther, started, same⟩, own⟩ := seen address found
      exact ⟨⟨v, other, getElem?_joined.mpr (Or.inr atOther), started, same⟩, own⟩

theorem Sound.step {action} (sound : Sound world) (taken : step world action = some after) :
    Sound after := by
  cases action with
  | fork stack direction turn =>
    simp only [Stoplight.step] at taken
    split at taken
    next allowed =>
      cases taken
      exact sound.fork allowed.2
    next => cases taken
  | advance t =>
    simp only [Stoplight.step] at taken
    split at taken
    next => cases taken
    next car found => exact sound.execute found (Outcome.toOption_eq_some.mp taken)

theorem sound_boot (stack : Nat → Nat) : Sound (boot stack) := by
  refine ⟨fun _ => rfl, fun _ => rfl, fun _ => Nat.zero_le 1, rfl, Nat.zero_le 3, ?_, ?_⟩
  · refine ⟨fun _ => rfl, fun _ => nodup_nil, ?_, ?_, ?_, ?_, ?_⟩
    · intro d entry listed
      cases listed
    · intro d t listed
      cases listed
    · intro d
      refine ⟨none, ?_, rfl⟩
      intro t
      simp [boot]
    · intro t car at_
      cases at_
    · intro t u first second at_
      cases at_
  · intro t car at_
    cases at_

theorem always_sound (stack : Nat → Nat) (actions : List Action) : Always step Sound (boot stack) actions :=
  always_of_invariant (fun _ _ _ sound taken => sound.step taken) (sound_boot stack) actions

end Runs

section Exclusion

def Car.inside (car : Car) : Bool := decide (∃ k, car.inRegion k = true)

/-- A car that crosses is counted, or it is the one that holds `numcars_sem` to enter. -/
theorem Car.counted_or_room (placed : car.Placed) (through : car.through = true) (inside : car.inside = true) :
    (car.through && car.counted) = true ∨ car.point.room = true := by
  obtain ⟨k, here⟩ := of_decide_eq_true inside
  have straight : car.turn ≠ .right := of_decide_eq_true through
  have route : 0 < car.i → car.i < car.turn.stops → ∃ k, regionOf (car.route car.i) = some k :=
    regionOf_route_inside car
  have there : decide (car.cur = some k) = true → car.cur.isSome = true := by
    intro same
    rw [of_decide_eq_true same]
    rfl
  rw [through, Bool.true_and]
  obtain ⟨stack, direction, turn, i, regionSem, point⟩ := car
  cases point with
  | arriving point => exact Or.inl (there here)
  | loop => exact Or.inl (there here)
  | looking point => exact Or.inl (there here)
  | peeking point => exact Or.inl (there here)
  | entering point j =>
    cases point with
    | accessP => exact Or.inr rfl
    | test => exact Or.inr rfl
    | set => exact Or.inr rfl
    | stray => exact Or.inr rfl
    | laneP => exact Or.inr rfl
    | pop => exact Or.inr rfl
    | laneV => exact Or.inr rfl
    | keep => exact Or.inr rfl
    | count => exact Or.inr rfl
    | next => exact Or.inl rfl
    | accessV => exact Or.inl (there here)
  | turning point j => exact absurd placed.2.1 straight
  | moving point j =>
    cases point with
    | next =>
      obtain ⟨inside, before, -⟩ : 0 < i ∧ i + 1 < turn.stops ∧ _ := placed
      obtain ⟨k, at_⟩ := route inside (Nat.lt_of_succ_lt before)
      exact Or.inl (congrArg Option.isSome at_)
    | clear => exact Or.inl (congrArg Option.isSome placed.2.2.1)
    | accessP => exact Or.inl (there here)
    | test => exact Or.inl (there here)
    | set => exact Or.inl (there here)
    | keep => exact Or.inl (there here)
    | accessV => exact Or.inl (there here)
  | leaving point =>
    cases point with
    | accessP => exact Or.inl (there here)
    | clear => exact Or.inl (there here)
    | _ => cases here
  | finished => cases here

theorem Sound.crossing_le (sound : Sound world) :
    world.cars.countP (fun car => car.through && car.inside) ≤ 3 := by
  have split : world.cars.countP (fun car => car.through && car.inside) ≤
      world.cars.countP (fun car => car.through && car.counted) + world.cars.countP (fun car => car.point.room) := by
    apply countP_le_add
    intro car member both
    obtain ⟨t, found⟩ := mem_iff_getElem?.mp member
    rw [Bool.and_eq_true] at both
    exact Car.counted_or_room (sound.knows t car found).placed both.1 both.2
  have few := sound.few
  by_cases nobody : world.cars.countP (fun car => car.point.room) = 0
  · omega
  · obtain ⟨car, member, room⟩ := countP_pos_iff.mp (Nat.pos_of_ne_zero nobody)
    obtain ⟨t, found⟩ := mem_iff_getElem?.mp member
    have less := (sound.knows t car found).room room
    have all := sound.numCars
    have counted : world.cars.countP (fun car => car.through && car.counted) ≤ world.cars.countP Car.counted := by
      apply countP_mono_left
      intro car _ both
      rw [Bool.and_eq_true] at both
      exact both.2
    have one : world.cars.countP (fun car => car.point.room) ≤ world.cars.countP (Car.holds .numcars) := by
      apply countP_mono_left
      intro car _ room
      exact Car.holds_of_room room
    have sem := sound.sem .numcars
    omega

theorem Sound.order (sound : Sound world) (d : Fin 4) : world.entered d <+: world.added d := by
  obtain ⟨pending, sole, order⟩ := sound.lanes.crossing d
  rw [order, sound.lanes.queue, prefix_append_right_inj]
  cases pending with
  | none => exact nil_prefix
  | some t =>
    obtain ⟨car, found, crossing⟩ := (sole t).mp rfl
    obtain ⟨first, rfl⟩ := Car.heads_of_crossing crossing
    obtain ⟨entry, rest, lane, rfl⟩ := (sound.knows t car found).heads first
    rw [lane]
    exact ⟨rest.map Entry.car, rfl⟩

/-- For every assignment and interleaving: a region has one car at most and is marked while it has one, three cars
at most go straight or left, and the cars of a lane enter in the order in which they were added. -/
theorem intersection_safe (stack : Nat → Nat) (actions : List Action) :
    Always step (fun world =>
      (∀ (k : Fin 4) (t u : Nat) (first second : Car), world.cars[t]? = some first → world.cars[u]? = some second →
        first.inRegion k = true → second.inRegion k = true → t = u) ∧
      (∀ (k : Fin 4) (t : Nat) (car : Car), world.cars[t]? = some car → car.inRegion k = true →
        world.region k = 1) ∧
      world.cars.countP (fun car => car.through && car.inside) ≤ 3 ∧
      ∀ d, world.entered d <+: world.added d) (boot stack) actions := by
  refine (always_sound stack actions).mono fun world sound => ⟨?_, ?_, sound.crossing_le, sound.order⟩
  · intro k t u first second foundFirst foundSecond inFirst inSecond
    have atMost : world.cars.countP (Car.inRegion k) ≤ 1 := by
      rw [← sound.region k]
      exact sound.atMost k
    exact unique_of_countP atMost foundFirst inFirst foundSecond inSecond
  · intro k t car found present
    exact sound.region_full found present

end Exclusion

section Waiting

/-- The next region of a car in the intersection that has only its present one. -/
def Car.awaits (car : Car) : Option (Fin 4) :=
  match car.point with
  | .entering .accessV _ => car.cur.bind fun _ => regionOf (car.route (car.i + 1))
  | .entering _ _ | .turning _ _ | .moving .next _ | .moving .clear _ | .leaving _ | .finished => none
  | _ => car.cur.bind fun _ => regionOf (car.route (car.i + 1))

/-- Cars in the intersection that each wait for a region that another of them is in. -/
def World.Gridlock (world : World) : Prop :=
  ∃ stuck : Set Nat, stuck.Nonempty ∧ ∀ t ∈ stuck, ∃ (u : Nat) (car other : Car) (k : Fin 4),
    world.cars[t]? = some car ∧ car.awaits = some k ∧
    u ∈ stuck ∧ u ≠ t ∧ world.cars[u]? = some other ∧ other.inRegion k = true

def Car.wants (car : Car) : Option Sem :=
  match car.point with
  | .arriving .laneP | .looking .laneP | .entering .laneP _ | .peeking .laneP | .turning .laneP _ =>
    some (.lane car.direction)
  | .looking .numcarsP | .turning .numcarsP _ | .leaving .numcarsP => some .numcars
  | .entering .accessP k | .turning .accessP k | .moving .accessP k => some (.access k)
  | .leaving .accessP => car.regionSem.map Sem.access
  | _ => none

/-- Cars that are each blocked at a semaphore that another of them has taken. -/
def World.Deadlock (world : World) : Prop :=
  ∃ stuck : Set Nat, stuck.Nonempty ∧ ∀ t ∈ stuck, ∃ (u : Nat) (car other : Car) (sem : Sem),
    world.cars[t]? = some car ∧ car.wants = some sem ∧ world.sem sem = 0 ∧
    u ∈ stuck ∧ u ≠ t ∧ world.cars[u]? = some other ∧ other.holds sem = true

def Sem.rank : Sem → Nat
  | .numcars => 0
  | .access _ => 1
  | .lane _ => 2

theorem Car.rank_lt {wanted sem} (wants : car.wants = some wanted) (holds : car.holds sem = true) :
    sem.rank < wanted.rank := by
  have member : sem ∈ car.held := of_decide_eq_true holds
  obtain ⟨stack, direction, turn, i, regionSem, point⟩ := car
  cases point with
  | looking point =>
    cases point with
    | laneP =>
      cases wants
      obtain rfl := mem_singleton.mp member
      exact Nat.zero_lt_two
    | numcarsP => cases member
    | _ => cases wants
  | entering point k =>
    cases point with
    | accessP =>
      cases wants
      obtain rfl := mem_singleton.mp member
      exact Nat.zero_lt_one
    | laneP =>
      cases wants
      rcases mem_pair.mp member with rfl | rfl
      · exact Nat.one_lt_two
      · exact Nat.zero_lt_two
    | _ => cases wants
  | arriving point =>
    cases point with
    | laneP => cases member
    | _ => cases wants
  | peeking point =>
    cases point with
    | laneP => cases member
    | _ => cases wants
  | turning point k =>
    cases point with
    | accessP => cases member
    | laneP => cases member
    | numcarsP => cases member
    | _ => cases wants
  | moving point k =>
    cases point with
    | accessP => cases member
    | _ => cases wants
  | leaving point =>
    cases point with
    | accessP => cases member
    | numcarsP => cases member
    | _ => cases wants
  | loop => cases wants
  | finished => cases wants

def World.rank (world : World) (t : Nat) : Nat :=
  match world.cars[t]? with
  | none => 0
  | some car =>
    match car.wants with
    | none => 0
    | some sem => sem.rank

theorem World.rank_le (world : World) (t : Nat) : world.rank t ≤ 2 := by
  unfold World.rank
  split
  · exact Nat.zero_le 2
  · split
    · exact Nat.zero_le 2
    next sem _ =>
      cases sem with
      | numcars => exact Nat.zero_le 2
      | access k => exact Nat.le_succ 1
      | lane d => exact Nat.le_refl 2

theorem World.rank_eq {sem} (found : world.cars[t]? = some car) (wants : car.wants = some sem) :
    world.rank t = sem.rank := by
  simp only [World.rank, found, wants]

/-- The semaphores are taken in order, so nobody waits in a circle. -/
theorem no_deadlock (world : World) : ¬ world.Deadlock := by
  rintro ⟨stuck, nonempty, waits⟩
  refine no_climb world.rank_le (fun t member => ?_) nonempty
  obtain ⟨u, car, other, sem, found, wants, -, among, -, foundOther, holds⟩ := waits t member
  obtain ⟨-, same, -, wanted, foundSame, wantsOther, -⟩ := waits u among
  rw [foundOther] at foundSame
  cases foundSame
  refine ⟨u, among, ?_⟩
  rw [World.rank_eq found wants, World.rank_eq foundOther wantsOther]
  exact Car.rank_lt wantsOther holds

theorem Car.awaits_cur (placed : car.Placed) {k} (awaits : car.awaits = some k) :
    (car.cur = some (k + 1) ∧ car.through = true) ∧ ∀ j, car.inRegion j = decide (car.cur = some j) := by
  have zero : regionOf (car.route 0) = none := regionOf_route_zero car
  have end_ : regionOf (car.route car.turn.stops) = none := regionOf_route_stops car
  have two := car.turn.two_le_stops
  have along : car.i ≤ car.turn.stops → (car.cur.bind fun _ => regionOf (car.route (car.i + 1))) = some k →
      car.cur = some (k + 1) ∧ car.through = true := by
    intro before both
    obtain ⟨r, here, next⟩ := Option.bind_eq_some_iff.mp both
    have started : car.i ≠ 0 := by
      intro start
      rw [Car.cur, start, zero] at here
      cases here
    have unfinished : car.i ≠ car.turn.stops := by
      intro finished
      rw [Car.cur, finished, end_] at here
      cases here
    have more : car.i + 1 ≠ car.turn.stops := by
      intro last
      rw [last, end_] at next
      cases next
    have short : car.i + 1 < car.turn.stops := by omega
    obtain ⟨j, ahead, at_⟩ := regionOf_route_succ car (Nat.pos_of_ne_zero started) short
    obtain rfl : j = k := Option.some.inj (ahead.symm.trans next)
    exact ⟨at_, decide_eq_true (Turn.ne_right_of_stops (Nat.pos_of_ne_zero started) short)⟩
  obtain ⟨stack, direction, turn, i, regionSem, point⟩ := car
  cases point with
  | arriving point =>
    obtain rfl : i = 0 := placed
    exact ⟨along (Nat.zero_le _) awaits, fun _ => rfl⟩
  | loop => exact ⟨along placed awaits, fun _ => rfl⟩
  | looking point =>
    have near : i ≤ 1 := by
      cases point with
      | numcarsV => exact placed.1
      | _ => exact Nat.le_succ_of_le (Nat.le_of_eq placed.1)
    exact ⟨along (near.trans (Nat.le_of_succ_le two)) awaits, fun _ => rfl⟩
  | peeking point => exact ⟨along ((Nat.le_of_eq placed.1).trans (Nat.zero_le _)) awaits, fun _ => rfl⟩
  | entering point j =>
    cases point with
    | accessV => exact ⟨along (placed.1.trans (Nat.le_of_succ_le two)) awaits, fun _ => rfl⟩
    | _ => cases awaits
  | turning point j => cases awaits
  | moving point j =>
    cases point with
    | next => cases awaits
    | clear => cases awaits
    | keep => exact ⟨along (Nat.le_of_lt placed.2.1) awaits, fun _ => rfl⟩
    | accessV => exact ⟨along (Nat.le_of_lt placed.2.1) awaits, fun _ => rfl⟩
    | accessP => exact ⟨along (Nat.le_of_lt (Nat.lt_of_succ_lt placed.2.1)) awaits, fun _ => rfl⟩
    | test => exact ⟨along (Nat.le_of_lt (Nat.lt_of_succ_lt placed.2.1)) awaits, fun _ => rfl⟩
    | set => exact ⟨along (Nat.le_of_lt (Nat.lt_of_succ_lt placed.2.1)) awaits, fun _ => rfl⟩
  | leaving point => cases awaits
  | finished => cases awaits

theorem around : ∀ k : Fin 4, k + 1 - 1 = k ∧ k - 1 + 1 = k := by
  decide

def World.Awaited (world : World) (stuck : Set Nat) (k : Fin 4) : Prop :=
  ∃ t ∈ stuck, ∃ car : Car, world.cars[t]? = some car ∧ car.awaits = some k

/-- Cars that wait for each other would be in all four regions. -/
theorem Sound.no_gridlock (sound : Sound world) : ¬ world.Gridlock := by
  rintro ⟨stuck, ⟨first, member⟩, waits⟩
  have facts : ∀ {t : Nat} {car : Car} {k : Fin 4}, world.cars[t]? = some car → car.awaits = some k →
      (car.cur = some (k + 1) ∧ car.through = true) ∧ ∀ j, car.inRegion j = decide (car.cur = some j) :=
    fun found awaits => Car.awaits_cur (sound.knows _ _ found).placed awaits
  -- whoever is in region `k` and waits, waits for the region before it
  have back : ∀ k, world.Awaited stuck k → world.Awaited stuck (k - 1) := by
    rintro k ⟨t, among, car, found, awaits⟩
    obtain ⟨u, same, other, j, foundSame, awaitsSame, amongOther, -, foundOther, inside⟩ := waits t among
    rw [found] at foundSame
    cases foundSame
    obtain rfl : k = j := Option.some.inj (awaits.symm.trans awaitsSame)
    obtain ⟨-, again, -, next, foundAgain, awaitsOther, -⟩ := waits u amongOther
    rw [foundOther] at foundAgain
    cases foundAgain
    obtain ⟨⟨cur, -⟩, only⟩ := facts foundOther awaitsOther
    rw [only] at inside
    have region : next + 1 = k := Option.some.inj (cur.symm.trans (of_decide_eq_true inside))
    refine ⟨u, amongOther, other, foundOther, ?_⟩
    rw [awaitsOther, ← region, (around next).1]
  have all : ∀ k, world.Awaited stuck k := by
    obtain ⟨u, car, other, k, found, awaits, -⟩ := waits first member
    have start : world.Awaited stuck k := ⟨first, member, car, found, awaits⟩
    have ring : ∀ r k : Fin 4, r = k ∨ r = k - 1 ∨ r = k - 1 - 1 ∨ r = k - 1 - 1 - 1 := by decide
    intro r
    rcases ring r k with rfl | rfl | rfl | rfl
    · exact start
    · exact back _ start
    · exact back _ (back _ start)
    · exact back _ (back _ (back _ start))
  have four : Fintype.card (Fin 4) ≤
      world.cars.countP fun car => (car.awaits.bind fun _ => car.cur).isSome := by
    apply card_le_countP
    intro r
    obtain ⟨t, -, car, found, awaits⟩ := all (r - 1)
    refine ⟨car, mem_of_getElem? found, ?_⟩
    rw [awaits, Option.bind_some, (facts found awaits).1.1, (around r).2]
  have crossing : (world.cars.countP fun car => (car.awaits.bind fun _ => car.cur).isSome) ≤
      world.cars.countP fun car => car.through && car.inside := by
    apply countP_mono_left
    intro car listed some_
    obtain ⟨t, found⟩ := mem_iff_getElem?.mp listed
    obtain ⟨r, both⟩ := Option.isSome_iff_exists.mp some_
    obtain ⟨k, awaits, -⟩ := Option.bind_eq_some_iff.mp both
    obtain ⟨⟨cur, through⟩, only⟩ := facts found awaits
    rw [through, Bool.true_and]
    exact decide_eq_true ⟨k + 1, by rw [only, cur, decide_eq_true rfl]⟩
  have three := sound.crossing_le
  rw [Fintype.card_fin] at four
  omega

/-- For every assignment and interleaving, no cars in the intersection wait for each other's regions and none for
each other's semaphores. -/
theorem intersection_flows (stack : Nat → Nat) (actions : List Action) :
    Always step (fun world => ¬ world.Gridlock ∧ ¬ world.Deadlock) (boot stack) actions :=
  (always_sound stack actions).mono fun world sound => ⟨sound.no_gridlock, no_deadlock world⟩

end Waiting

end Os161.Stoplight
