import Os161.Proofs.StoplightInvariant

/-! Every statement at the intersection keeps the invariant: stores by what they change, then the statements of each
function. -/

namespace Os161.Stoplight

open Crew Function List

variable {world after : World} {t u : Nat} {old new car : Car}

section Stores

section

variable (sound : Sound world) (cars : after.cars = world.cars.set t new) (carries : Carries old new)
include sound cars carries

theorem Moved.regionTo {k value} (region : after.region = update world.region k value)
    (sem : after.sem = world.sem) (held : new.held = old.held) (numCars : after.numCars = world.numCars)
    (counted : new.counted = old.counted) (elsewhere : ∀ j, j ≠ k → new.inRegion j = old.inRegion j)
    (there : value + (old.inRegion k).toNat = world.region k + (new.inRegion k).toNat) (small : value ≤ 1)
    (access : value = 0 ∨ old.holds (.access k) = true) (lanes : Lanes after) (lane : after.lane = world.lane)
    (knows : new.Knows after t) : Moved world after t old new := by
  refine ⟨cars, carries, ?_, ?_, ?_, ?_, ?_, .inl numCars, limit_same counted, lanes,
    fun d u _ => heads_same lane d u, knows⟩
  · intro other
    rw [sem, holds_of_held held]
  · intro j
    rw [region]
    by_cases this : j = k
    · subst this
      rw [update_self]
      exact there
    · rw [update_of_ne this, elsewhere j this]
  · intro j
    rw [region]
    by_cases this : j = k
    · subst this
      rw [update_self]
      exact small
    · rw [update_of_ne this]
      exact sound.atMost j
  · intro j
    rw [region]
    by_cases this : j = k
    · subst this
      rw [update_self]
      rcases access with zero | holds
      · exact .inl zero
      · exact .inr (.inr holds)
    · rw [update_of_ne this]
      exact marks_same rfl j
  · rw [numCars, counted]

theorem Moved.queueTo (sem : after.sem = world.sem) (held : new.held = old.held) (region : after.region = world.region)
    (inRegion : ∀ k, new.inRegion k = old.inRegion k) (numCars : after.numCars = world.numCars)
    (counted : new.counted = old.counted) (lanes : Lanes after)
    (heads : ∀ d u, u ≠ t → world.Heads u d → after.Heads u d) (knows : new.Knows after t) :
    Moved world after t old new := by
  refine ⟨cars, carries, ?_, region_same region inRegion, ?_, marks_same region, ?_, .inl numCars,
    limit_same counted, lanes, heads, knows⟩
  · intro other
    rw [sem, holds_of_held held]
  · rw [region]
    exact sound.atMost
  · rw [numCars, counted]

end

theorem Moved.countTo (point : Point) (sound : Sound world) (found : world.cars[t]? = some old)
    (carries : Carries old { old with point := point }) (started : Car.started { old with point := point } = old.started)
    (queued : old.queued = true → Car.queued { old with point := point } = true)
    (crossing : ∀ d, Car.crossing d { old with point := point } = old.crossing d)
    (inRegion : ∀ k, Car.inRegion k { old with point := point } = old.inRegion k) {value}
    (change : value + old.counted.toNat = world.numCars + (Car.counted { old with point := point }).toNat)
    (held : Car.held { old with point := point } = old.held) (inside : old.holds .numcars = true)
    (limit : old.counted = false → Car.counted { old with point := point } = true → old.through = true →
      world.numCars < 3)
    (knows : ∀ after : World, Car.Knows after t { old with point := point }) :
    ∃ new, Moved world ({ world with numCars := value }.goto t old point) t old new := by
  refine ⟨{ old with point := point }, rfl, carries, ?_, region_same rfl inRegion, sound.atMost, marks_same rfl, change,
    .inr inside, limit, ?_, fun _ _ _ heads => heads, knows _⟩
  · intro sem
    rw [holds_of_held held]
    rfl
  · exact sound.lanes.quiet found rfl carries started queued crossing rfl rfl ⟨rfl, rfl, rfl⟩

theorem Sound.region_full (sound : Sound world) (found : world.cars[t]? = some old) {k}
    (inRegion : old.inRegion k = true) : world.region k = 1 := by
  have positive := countP_pos found inRegion
  have atMost := sound.atMost k
  have count := sound.region k
  omega

end Stores

section Queues

theorem Car.started_of_lined (lined : car.lined = true) : car.started = true := by
  obtain ⟨stack, direction, turn, i, regionSem, point⟩ := car
  cases point with
  | arriving point => cases point <;> simp_all [Car.lined, Car.started]
  | _ => rfl

theorem Carries.on (same : new.stack = old.stack ∧ new.direction = old.direction ∧ new.turn = old.turn)
    (lined : new.lined = true) (live : old.point ≠ .finished) : Carries old new :=
  ⟨same.1, same.2.1, same.2.2, fun _ => Car.started_of_lined lined, fun _ => lined, fun _ => live⟩

theorem Car.lined_of_queued (queued : car.queued = true) : car.lined = true := by
  obtain ⟨stack, direction, turn, i, regionSem, point⟩ := car
  cases point with
  | arriving point => cases point <;> simp_all [Car.queued, Car.lined]
  | _ => rfl

theorem Car.live_of_queued (queued : car.queued = true) : car.point ≠ .finished := by
  intro finished
  rw [Car.queued, finished] at queued
  cases queued

theorem Car.heads_of_crossing {d} (crossing : car.crossing d = true) :
    car.point.heads = true ∧ car.direction = d := by
  obtain ⟨stack, direction, turn, i, regionSem, point⟩ := car
  cases point with
  | entering point k => cases point <;> simp_all [Car.crossing, Point.heads]
  | turning point k => cases point <;> simp_all [Car.crossing, Point.heads]
  | _ => cases crossing

theorem World.Heads.unique {d} (first : world.Heads t d) (second : world.Heads u d) : t = u := by
  obtain ⟨entry, rest, lane, rfl⟩ := first
  obtain ⟨entry', rest', lane', rfl⟩ := second
  rw [lane] at lane'
  cases lane'
  rfl

variable (sound : Sound world)
include sound

/-- `q_getguy` gives the address of a car that has stored its number, its own only to the car at the head. -/
theorem Sound.peek (found : world.cars[t]? = some car) (live : car.point ≠ .finished)
    {address} (seen : world.peek car.direction = some address) :
    world.Used address ∧ (address = car.stack → world.Heads t car.direction) := by
  unfold World.peek at seen
  cases lane : world.lane car.direction with
  | nil =>
    rw [lane] at seen
    cases seen
  | cons entry rest =>
    rw [lane] at seen
    cases seen
    obtain ⟨other, at_, stack, -, queued⟩ := sound.lanes.members car.direction entry (by simp [lane])
    refine ⟨⟨entry.car, other, at_, Car.started_of_lined (Car.lined_of_queued queued), stack⟩, ?_⟩
    intro own
    have same := sound.lanes.alone entry.car t other car at_ found (Car.live_of_queued queued) live
      (stack.trans own)
    exact ⟨entry, rest, lane, same⟩

/-- The comparison with `*firstcar` succeeds only at the head of the lane. -/
theorem Sound.first (found : world.cars[t]? = some car) {address}
    (used : world.Used address) (own : address = car.stack → world.Heads t car.direction)
    (equal : t = world.stack address) : world.Heads t car.direction := by
  apply own
  obtain ⟨u, other, atOther, started, rfl⟩ := used
  obtain ⟨v, owner, atOwner, -, stack, word⟩ := sound.lanes.words u other atOther started
  obtain rfl : t = v := equal.trans word
  rw [found] at atOwner
  cases atOwner
  exact stack.symm

theorem Lanes.begin (found : world.cars[t]? = some old) (carries : Carries old new)
    (out : old.queued = false) (now : new.started = true) (crossing : ∀ d, new.crossing d = old.crossing d) :
    Lanes ({ world with stack := update world.stack old.stack t }.put t new) := by
  apply sound.lanes.step found rfl carries
  · exact sound.lanes.queue
  · exact sound.lanes.nodup
  · intro d entry listed
    refine .inl ⟨?_, listed⟩
    intro mine
    obtain ⟨car, at_, -, -, queued⟩ := sound.lanes.members d entry listed
    rw [mine, found] at at_
    cases at_
    rw [out] at queued
    cases queued
  · intro d u listed
    exact .inl listed
  · intro d
    obtain ⟨pending, sole, order⟩ := sound.lanes.crossing d
    exact ⟨pending, sole.keeps found (crossing d), order⟩
  · exact .inr ⟨rfl, now⟩

theorem Lanes.addtail (found : world.cars[t]? = some old) (carries : Carries old new)
    (started : new.started = old.started) (out : old.lined = false) (queued : new.queued = true)
    (crossing : ∀ d, new.crossing d = old.crossing d) : Lanes ((world.addtail t old).put t new) := by
  have absent : ∀ d, t ∉ world.added d := by
    intro d listed
    obtain ⟨car, at_, lined⟩ := sound.lanes.joined d t listed
    rw [found] at at_
    cases at_
    rw [out] at lined
    cases lined
  apply sound.lanes.step found rfl carries
  · intro d
    change update world.added old.direction _ d = world.popped d ++
      (update world.lane old.direction _ d).map Entry.car
    by_cases this : d = old.direction
    · subst this
      rw [sound.lanes.queue]
      simp
    · rw [update_of_ne this, update_of_ne this]
      exact sound.lanes.queue d
  · intro d
    change (update world.added old.direction _ d).Nodup
    by_cases this : d = old.direction
    · subst this
      rw [update_self, nodup_append]
      refine ⟨sound.lanes.nodup _, by simp, ?_⟩
      intro u listed v last same
      rw [mem_singleton] at last
      subst last
      exact absent _ (same ▸ listed)
    · rw [update_of_ne this]
      exact sound.lanes.nodup d
  · intro d entry listed
    change entry ∈ update world.lane old.direction _ d at listed
    have before : entry ∈ world.lane d → entry.car ≠ t := by
      intro there mine
      apply absent d
      rw [sound.lanes.queue]
      exact mem_append_right _ (mem_map.mpr ⟨entry, there, mine⟩)
    by_cases this : d = old.direction
    · subst this
      rw [update_self] at listed
      rcases mem_append.mp listed with there | last
      · exact .inl ⟨before there, there⟩
      · rw [mem_singleton] at last
        subst last
        exact .inr ⟨rfl, carries.stack, carries.direction, queued⟩
    · rw [update_of_ne this] at listed
      exact .inl ⟨before listed, listed⟩
  · intro d u listed
    change u ∈ update world.added old.direction _ d at listed
    by_cases this : d = old.direction
    · subst this
      rw [update_self] at listed
      rcases mem_append.mp listed with there | last
      · exact .inl there
      · exact .inr ⟨mem_singleton.mp last, Car.lined_of_queued queued⟩
    · rw [update_of_ne this] at listed
      exact .inl listed
  · intro d
    obtain ⟨pending, sole, order⟩ := sound.lanes.crossing d
    exact ⟨pending, sole.keeps found (crossing d), order⟩
  · exact .inl ⟨rfl, started⟩

/-- A car that enters is the next of its lane to enter. -/
theorem Lanes.noteEntry (found : world.cars[t]? = some old) (carries : Carries old new)
    (started : new.started = old.started) (queued : old.queued = true → new.queued = true)
    (before : ∀ d, old.crossing d = false) (now : ∀ d, new.crossing d = decide (old.direction = d))
    (heads : world.Heads t old.direction) {region} :
    Lanes (({ world with region := region }.noteEntry t old.direction).put t new) := by
  apply sound.lanes.step found rfl carries
  · exact sound.lanes.queue
  · exact sound.lanes.nodup
  · intro d entry listed
    by_cases mine : entry.car = t
    · obtain ⟨car, at_, address, direction, isQueued⟩ := sound.lanes.members d entry listed
      rw [mine, found] at at_
      cases at_
      exact .inr ⟨mine, carries.stack.trans address, carries.direction.trans direction, queued isQueued⟩
    · exact .inl ⟨mine, listed⟩
  · intro d u listed
    exact .inl listed
  · intro d
    obtain ⟨pending, sole, order⟩ := sound.lanes.crossing d
    change ∃ pending : Option Nat, _ ∧
      update world.entered old.direction (world.entered old.direction ++ [t]) d = world.popped d ++ _
    by_cases mine : d = old.direction
    · subst mine
      have nobody : pending = none := by
        cases pending with
        | none => rfl
        | some u =>
          obtain ⟨other, at_, crossing⟩ := (sole u).mp rfl
          obtain ⟨first, direction⟩ := Car.heads_of_crossing crossing
          have headed := (sound.knows u other at_).heads first
          rw [direction] at headed
          obtain rfl := heads.unique headed
          rw [found] at at_
          cases at_
          rw [before] at crossing
          cases crossing
      subst nobody
      refine ⟨some t, sole.takes found ?_, ?_⟩
      · rw [now, decide_eq_true rfl]
      · rw [order]
        simp
    · refine ⟨pending, sole.keeps found ?_, ?_⟩
      · rw [now, before]
        exact decide_eq_false (Ne.symm mine)
      · rw [update_of_ne mine]
        exact order
  · exact .inl ⟨rfl, started⟩

theorem Lanes.pop (found : world.cars[t]? = some old) (carries : Carries old new)
    (started : new.started = old.started) (before : ∀ d, old.crossing d = decide (old.direction = d))
    (now : ∀ d, new.crossing d = false) {entry rest}
    (lane : world.lane old.direction = entry :: rest) (mine : entry.car = t) : Lanes ({ world with
      lane := update world.lane old.direction rest,
      popped := update world.popped old.direction (world.popped old.direction ++ [entry.car]) }.put t new) := by
  have added := sound.lanes.queue old.direction
  rw [lane, map_cons, mine] at added
  have absent : ∀ other ∈ rest, other.car ≠ t := by
    have nodup := sound.lanes.nodup old.direction
    rw [added] at nodup
    have tail := (nodup_append.mp nodup).2.1
    intro other member same
    exact (nodup_cons.mp tail).1 (mem_map.mpr ⟨other, member, same⟩)
  apply sound.lanes.step found rfl carries
  · intro d
    change world.added d = update world.popped old.direction _ d ++
      (update world.lane old.direction rest d).map Entry.car
    by_cases this : d = old.direction
    · subst this
      rw [mine, added]
      simp
    · rw [update_of_ne this, update_of_ne this]
      exact sound.lanes.queue d
  · exact sound.lanes.nodup
  · intro d other listed
    change other ∈ update world.lane old.direction rest d at listed
    by_cases this : d = old.direction
    · subst this
      rw [update_self] at listed
      refine .inl ⟨absent other listed, ?_⟩
      rw [lane]
      exact mem_cons_of_mem _ listed
    · rw [update_of_ne this] at listed
      refine .inl ⟨?_, listed⟩
      intro same
      obtain ⟨car, at_, -, direction, -⟩ := sound.lanes.members d other listed
      rw [same, found] at at_
      cases at_
      exact this direction.symm
  · intro d u listed
    exact .inl listed
  · intro d
    obtain ⟨pending, sole, order⟩ := sound.lanes.crossing d
    change ∃ pending : Option Nat, _ ∧ world.entered d =
      update world.popped old.direction (world.popped old.direction ++ [entry.car]) d ++ _
    by_cases this : d = old.direction
    · subst this
      have crossed : old.crossing old.direction = true := by
        rw [before, decide_eq_true rfl]
      obtain rfl := sole.holds found crossed
      refine ⟨none, sole.drops found (now _), ?_⟩
      rw [order, mine]
      simp
    · refine ⟨pending, sole.keeps found ?_, ?_⟩
      · rw [now, before]
        exact (decide_eq_false (Ne.symm this)).symm
      · rw [update_of_ne this]
        exact order
  · exact .inl ⟨rfl, started⟩

end Queues

section Statements

theorem regionOf_route_inside (car : Car) {i} (inside : 0 < i) (before : i < car.turn.stops) :
    ∃ k, regionOf (car.route i) = some k := by
  cases i with
  | zero => cases inside
  | succ i =>
    cases i with
    | zero => exact ⟨_, regionOf_route_one car⟩
    | succ i =>
      obtain ⟨k, here, -⟩ := regionOf_route_succ car (Nat.succ_pos i) before
      exact ⟨k, here⟩

section Goes

variable {point : Point} {sem : Sem} (sound : Sound world) (found : world.cars[t]? = some old)
include sound found

theorem goes (same : Car.profile { old with point := point } = old.profile)
    (held : Car.held { old with point := point } = old.held)
    (knows : Car.Knows world t { old with point := point }) : ∃ new, Moved world (world.goto t old point) t old new :=
  ⟨_, Moved.still sound found (Alike.of_profile same) held knows⟩

theorem goesP (taken : world.p sem (·.goto t old point) = .next after)
    (same : Car.profile { old with point := point } = old.profile)
    (held : Car.held { old with point := point } = sem :: old.held)
    (knows : Car.Knows world t { old with point := point }) : ∃ new, Moved world after t old new := by
  obtain ⟨free, rfl⟩ := p_next taken
  exact ⟨_, Moved.p sound found (Alike.of_profile same) free held knows⟩

theorem goesV (same : Car.profile { old with point := point } = old.profile)
    (held : old.held = sem :: Car.held { old with point := point })
    (knows : Car.Knows world t { old with point := point }) :
    ∃ new, Moved world ((world.v sem).goto t old point) t old new :=
  ⟨_, Moved.v sound found (Alike.of_profile same) held knows⟩

end Goes

theorem leave_moved (sound : Sound world) (found : world.cars[t]? = some old) {point}
    (at_ : old.point = .leaving point) (taken : leave world t old point = .next after) :
    ∃ new, Moved world after t old new := by
  have placed := (sound.knows t old found).placed
  have cur : 0 < old.i → old.i < old.turn.stops → ∃ k, regionOf (old.route old.i) = some k :=
    regionOf_route_inside old
  have end_ : regionOf (old.route old.turn.stops) = none := regionOf_route_stops old
  obtain ⟨stack, direction, turn, i, regionSem, where_⟩ := old
  subst at_
  obtain ⟨inside, last⟩ : 0 < i ∧ i + 1 = turn.stops := placed
  obtain ⟨k, here⟩ := cur inside (show i < turn.stops by omega)
  cases point with
  | accessP =>
    cases regionSem with
    | none => cases taken
    | some k =>
      exact goesP sound found taken rfl rfl
        (.of_placed ⟨inside, last⟩ rfl)
  | clear =>
    cases taken
    have full : world.region k = 1 := sound.region_full found (decide_eq_true here)
    have carries : Carries ⟨stack, direction, turn, i, regionSem, .leaving .clear⟩
        ⟨stack, direction, turn, i, regionSem, .leaving .accessV⟩ := Carries.on ⟨rfl, rfl, rfl⟩ rfl nofun
    have present : Car.inRegion k ⟨stack, direction, turn, i, regionSem, .leaving .clear⟩ = true :=
      decide_eq_true here
    rw [here]
    refine ⟨_, Moved.regionTo sound rfl carries rfl rfl rfl rfl rfl ?_ ?_ (Nat.zero_le 1) (.inl rfl)
      (sound.lanes.quiet found rfl carries rfl id (fun _ => rfl) rfl rfl ⟨rfl, rfl, rfl⟩) rfl
      (.of_placed ⟨inside, last⟩ rfl)⟩
    · intro j other
      refine (decide_eq_false fun alsoHere => other ?_).symm
      exact Option.some.inj (alsoHere.symm.trans here)
    · rw [full, present]
      rfl
  | accessV =>
    cases regionSem with
    | none => cases taken
    | some k =>
      cases taken
      exact goesV sound found rfl rfl
        (.of_placed ⟨inside, last⟩ rfl)
  | numcarsP =>
    exact goesP sound found taken rfl rfl
      (.of_placed ⟨inside, last⟩ rfl)
  | uncount =>
    cases taken
    have counted : Car.counted ⟨stack, direction, turn, i, regionSem, .leaving .uncount⟩ = true :=
      congrArg Option.isSome here
    refine Moved.countTo (.leaving .numcarsV) sound found (Carries.on ⟨rfl, rfl, rfl⟩ rfl nofun) rfl id
      (fun _ => rfl) (fun _ => rfl) ?_ rfl (decide_eq_true (.head _)) ?_
      (fun _ => .of_placed ⟨inside, last⟩ rfl)
    · rw [counted]
      change world.numCars - 1 + 1 = world.numCars + 0
      omega
    · intro _ impossible
      cases impossible
  | numcarsV =>
    cases taken
    exact goesV sound found rfl rfl
      (.of_placed ⟨inside, last⟩ rfl)
  | next =>
    cases taken
    have out : Car.cur ⟨stack, direction, turn, i + 1, regionSem, .loop⟩ = none := by
      rw [← last] at end_
      exact end_
    refine ⟨_, Moved.still sound found ⟨Carries.on ⟨rfl, rfl, rfl⟩ rfl nofun, rfl, ?_, fun _ => rfl, ?_, ?_⟩ rfl
      (.of_placed (Nat.le_of_eq last) rfl)⟩
    · intro impossible
      cases impossible
    · intro k
      refine decide_eq_false fun here => ?_
      rw [out] at here
      cases here
    · exact congrArg Option.isSome out

theorem Turn.ne_right_of_stops {turn : Turn} {i} (inside : 0 < i) (before : i + 1 < turn.stops) :
    turn ≠ .right := by
  rintro rfl
  simp only [Turn.stops] at before
  omega

section

variable (sound : Sound world) (found : world.cars[t]? = some old)
include sound found

theorem move_moved {point k}
    (at_ : old.point = .moving point k) (taken : move world t old k point = .next after) :
    ∃ new, Moved world after t old new := by
  have knows := sound.knows t old found
  have placed := knows.placed
  have vacant := knows.vacant
  have route : ∀ i, 0 < i → i + 1 < old.turn.stops →
      ∃ k, regionOf (old.route (i + 1)) = some k ∧ regionOf (old.route i) = some (k + 1) :=
    fun i => regionOf_route_succ old
  obtain ⟨stack, direction, turn, i, regionSem, where_⟩ := old
  subst at_
  cases point with
  | accessP =>
    exact goesP sound found taken rfl rfl (.of_placed placed rfl)
  | test =>
    cases taken
    obtain ⟨inside, before, next⟩ : 0 < i ∧ i + 1 < turn.stops ∧ _ := placed
    by_cases empty : world.region k = 0
    · rw [if_pos empty]
      refine goes sound found rfl rfl ⟨⟨inside, before, next⟩, ?_, nofun, nofun, nofun⟩
      intro j same
      cases same
      exact empty
    · rw [if_neg empty]
      exact goes sound found rfl rfl
        (.of_placed ⟨inside, Nat.lt_of_succ_lt before, Turn.ne_right_of_stops inside before⟩ rfl)
  | set =>
    cases taken
    obtain ⟨inside, before, next⟩ : 0 < i ∧ i + 1 < turn.stops ∧ _ := placed
    have empty : world.region k = 0 := vacant k rfl
    have absent : Car.inRegion k ⟨stack, direction, turn, i, regionSem, .moving .set k⟩ = false := by
      cases present : Car.inRegion k ⟨stack, direction, turn, i, regionSem, .moving .set k⟩ with
      | false => rfl
      | true =>
        have full := sound.region_full found present
        omega
    have carries : Carries ⟨stack, direction, turn, i, regionSem, .moving .set k⟩
        ⟨stack, direction, turn, i, regionSem, .moving .next k⟩ := Carries.on ⟨rfl, rfl, rfl⟩ rfl nofun
    have present : Car.inRegion k ⟨stack, direction, turn, i, regionSem, .moving .next k⟩ = true :=
      decide_eq_true (.inr rfl)
    refine ⟨_, Moved.regionTo sound rfl carries rfl rfl rfl rfl rfl ?_ ?_ (Nat.le_refl 1)
      (.inr (decide_eq_true (.head _)))
      (sound.lanes.quiet found rfl carries rfl id (fun _ => rfl) rfl rfl ⟨rfl, rfl, rfl⟩) rfl
      (.of_placed ⟨inside, before, next⟩ rfl)⟩
    · intro j other
      exact decide_eq_decide.mpr (or_iff_left (Ne.symm other))
    · rw [absent, present, empty]
      rfl
  | next =>
    cases taken
    obtain ⟨inside, before, next⟩ : 0 < i ∧ i + 1 < turn.stops ∧ _ := placed
    refine ⟨_, Moved.still sound found ⟨Carries.on ⟨rfl, rfl, rfl⟩ rfl nofun, rfl, id, fun _ => rfl, ?_, ?_⟩ rfl
      (.of_placed ⟨Nat.succ_lt_succ inside, before, next, Turn.ne_right_of_stops inside before⟩ rfl)⟩
    · intro j
      refine decide_eq_decide.mpr ⟨?_, ?_⟩
      · rintro (ahead | behind)
        · exact .inr (Option.some.inj (next.symm.trans ahead))
        · exact .inl behind
      · rintro (behind | rfl)
        · exact .inr behind
        · exact .inl next
    · obtain ⟨j, -, here⟩ := route i inside before
      exact (congrArg Option.isSome next).trans (congrArg Option.isSome here).symm
  | clear =>
    cases taken
    obtain ⟨inside, before, here, through⟩ : 1 < i ∧ i < turn.stops ∧ _ := placed
    have back : i - 1 + 1 = i := Nat.sub_add_cancel (Nat.le_of_lt inside)
    obtain ⟨j, same, previous⟩ := route (i - 1) (Nat.sub_pos_of_lt inside) (by rw [back]; exact before)
    rw [back] at same
    obtain rfl : k = j := Option.some.inj (here.symm.trans same)
    have full : world.region (k + 1) = 1 := sound.region_full found (decide_eq_true (.inr previous))
    have carries : Carries ⟨stack, direction, turn, i, regionSem, .moving .clear k⟩
        ⟨stack, direction, turn, i, regionSem, .moving .keep k⟩ := Carries.on ⟨rfl, rfl, rfl⟩ rfl nofun
    have present : Car.inRegion (k + 1) ⟨stack, direction, turn, i, regionSem, .moving .clear k⟩ = true :=
      decide_eq_true (.inr previous)
    have absent : Car.inRegion (k + 1) ⟨stack, direction, turn, i, regionSem, .moving .keep k⟩ = false := by
      refine decide_eq_false fun also => ?_
      have differ : ∀ k : Fin 4, k ≠ k + 1 := by decide
      exact differ k (Option.some.inj (here.symm.trans also))
    rw [previous]
    refine ⟨_, Moved.regionTo sound rfl carries rfl rfl rfl rfl rfl ?_ ?_ (Nat.zero_le 1) (.inl rfl)
      (sound.lanes.quiet found rfl carries rfl id (fun _ => rfl) rfl rfl ⟨rfl, rfl, rfl⟩) rfl
      (.of_placed ⟨inside, before, here, through⟩ rfl)⟩
    · intro j other
      refine decide_eq_decide.mpr ⟨.inl, ?_⟩
      rintro (current | behind)
      · exact current
      · exact absurd (Option.some.inj (behind.symm.trans previous)) other
    · rw [present, absent, full]
      rfl
  | keep =>
    cases taken
    obtain ⟨inside, before, here, through⟩ : 1 < i ∧ i < turn.stops ∧ _ := placed
    exact ⟨_, Moved.still sound found (Alike.of_profile rfl) rfl
      (.of_placed ⟨Nat.lt_of_succ_lt inside, before, through⟩ rfl)⟩
  | accessV =>
    cases taken
    obtain ⟨inside, before, through⟩ : 0 < i ∧ i < turn.stops ∧ turn ≠ .right := placed
    have alike : Alike ⟨stack, direction, turn, i, regionSem, .moving .accessV k⟩ ⟨stack, direction, turn, i, regionSem, .loop⟩ :=
      ⟨Carries.on ⟨rfl, rfl, rfl⟩ rfl nofun, rfl, nofun, fun _ => rfl, fun _ => rfl, rfl⟩
    exact ⟨_, Moved.v sound found alike rfl (.of_placed (Nat.le_of_lt before) rfl)⟩

theorem arrive_moved {point}
    (at_ : old.point = .arriving point) (taken : arrive world t old point = .next after) :
    ∃ new, Moved world after t old new := by
  have knows := sound.knows t old found
  have placed := knows.placed
  obtain ⟨stack, direction, turn, i, regionSem, where_⟩ := old
  subst at_
  obtain rfl : i = 0 := placed
  cases point with
  | begin =>
    cases taken
    have carries : Carries ⟨stack, direction, turn, 0, regionSem, .arriving .begin⟩
        ⟨stack, direction, turn, 0, regionSem, .arriving .laneP⟩ := ⟨rfl, rfl, rfl, nofun, nofun, nofun⟩
    exact ⟨_, Moved.queueTo sound rfl carries rfl rfl rfl (fun _ => rfl) rfl rfl
      (Lanes.begin sound found carries rfl rfl fun _ => rfl) (fun d u _ heads => heads)
      (.of_placed rfl rfl)⟩
  | laneP =>
    exact goesP sound found taken rfl rfl (.of_placed rfl rfl)
  | addtail =>
    cases taken
    have carries : Carries ⟨stack, direction, turn, 0, regionSem, .arriving .addtail⟩
        ⟨stack, direction, turn, 0, regionSem, .arriving .laneV⟩ := Carries.on ⟨rfl, rfl, rfl⟩ rfl nofun
    refine ⟨_, Moved.queueTo sound rfl carries rfl rfl rfl (fun _ => rfl) rfl rfl
      (Lanes.addtail sound found carries rfl rfl rfl fun _ => rfl) ?_ (.of_placed rfl rfl)⟩
    rintro d u - ⟨entry, rest, lane, same⟩
    by_cases this : d = direction
    · subst this
      refine ⟨entry, rest ++ [⟨stack, t⟩], ?_, same⟩
      change update world.lane d _ d = _
      rw [update_self, lane]
      rfl
    · refine ⟨entry, rest, ?_, same⟩
      change update world.lane direction _ d = _
      rw [update_of_ne this]
      exact lane
  | laneV =>
    cases taken
    exact goesV sound found rfl rfl
      (.of_placed (Nat.zero_le _) rfl)

theorem look_moved {point} (at_ : old.point = .looking point) (taken : look world t old point = .next after) :
    ∃ new, Moved world after t old new := by
  have knows := sound.knows t old found
  have placed := knows.placed
  have room := knows.room
  have seen := knows.seen
  have one : regionOf (old.route 1) = some old.direction := regionOf_route_one old
  obtain ⟨stack, direction, turn, i, regionSem, where_⟩ := old
  subst at_
  cases point with
  | numcarsP =>
    exact goesP sound found taken rfl rfl (.of_placed placed rfl)
  | test =>
    cases taken
    obtain ⟨outside, through⟩ : i = 0 ∧ turn ≠ .right := placed
    by_cases few : world.numCars < 3
    · rw [if_pos few]
      exact goes sound found rfl rfl ⟨⟨outside, through⟩, nofun, fun _ => few, nofun, nofun⟩
    · rw [if_neg few]
      exact goes sound found rfl rfl
        (.of_placed ⟨Nat.le_succ_of_le (Nat.le_of_eq outside), through⟩ rfl)
  | laneP =>
    exact goesP sound found taken rfl rfl
      ⟨placed, nofun, fun _ => room rfl, nofun, nofun⟩
  | peek =>
    cases taken
    exact goes sound found rfl rfl
      ⟨placed, nofun, fun _ => room rfl, nofun, fun address peeked => sound.peek found nofun peeked⟩
  | laneV firstcar =>
    cases taken
    exact goesV sound found rfl rfl
      ⟨placed, nofun, fun _ => room rfl, nofun, seen⟩
  | first firstcar =>
    obtain ⟨rfl, through⟩ : i = 0 ∧ turn ≠ .right := placed
    cases firstcar with
    | none => cases taken
    | some address =>
      obtain ⟨used, own⟩ := seen address rfl
      rw [look] at taken
      split at taken
      next both =>
        have heads := sound.first found used own both.2
        rw [one] at taken
        cases taken
        exact goes sound found rfl rfl
          ⟨⟨rfl, through, rfl⟩, nofun, fun _ => room rfl, fun _ => heads, nofun⟩
      next =>
        cases taken
        exact goes sound found rfl rfl (.of_placed ⟨Nat.zero_le 1, through⟩ rfl)
  | numcarsV =>
    cases taken
    obtain ⟨near, through⟩ : i ≤ 1 ∧ turn ≠ .right := placed
    exact goesV sound found rfl rfl
      (.of_placed (near.trans (Nat.le_of_succ_le turn.two_le_stops)) rfl)

end

theorem Moved.enters (point : Point) {k} (sound : Sound world) (found : world.cars[t]? = some old)
    (vacant : old.point.vacant = some k) (first : old.point.heads = true) (live : old.point ≠ .finished)
    (lined : Car.lined { old with point := point } = true) (started : old.started = true)
    (queued : old.queued = true → Car.queued { old with point := point } = true)
    (before : ∀ d, old.crossing d = false)
    (now : ∀ d, Car.crossing d { old with point := point } = decide (old.direction = d))
    (outside : ∀ j, old.inRegion j = false) (inside : ∀ j, Car.inRegion j { old with point := point } = decide (k = j))
    (held : Car.held { old with point := point } = old.held)
    (counted : Car.counted { old with point := point } = old.counted)
    (knows : ∀ after : World, after.lane = world.lane → after.numCars = world.numCars →
      Car.Knows after t { old with point := point }) :
    ∃ new, Moved world (((world.store (some k) 1).noteEntry t old.direction).goto t old point) t old new := by
  have marks := sound.knows t old found
  have carries : Carries old { old with point := point } := Carries.on ⟨rfl, rfl, rfl⟩ lined live
  have startedStill : Car.started { old with point := point } = old.started :=
    (Car.started_of_lined lined).trans started.symm
  refine ⟨{ old with point := point }, Moved.regionTo sound rfl carries rfl rfl held rfl counted ?_ ?_
    (Nat.le_refl 1) (.inr (Car.holds_of_vacant vacant))
    (Lanes.noteEntry sound found carries startedStill queued before now (marks.heads first)) rfl
    (knows _ rfl rfl)⟩
  · intro j other
    rw [inside, outside]
    exact decide_eq_false (Ne.symm other)
  · rw [inside, outside, marks.vacant k vacant, decide_eq_true rfl]
    rfl

variable (sound : Sound world) (found : world.cars[t]? = some old)
include sound found

theorem Moved.pops {point} (taken : world.remhead old.direction (·.goto t old point) = .next after)
    (first : old.point.heads = true) (live : old.point ≠ .finished)
    (lined : Car.lined { old with point := point } = true) (started : old.started = true)
    (before : ∀ d, old.crossing d = decide (old.direction = d))
    (now : ∀ d, Car.crossing d { old with point := point } = false)
    (inRegion : ∀ k, Car.inRegion k { old with point := point } = old.inRegion k)
    (held : Car.held { old with point := point } = old.held)
    (counted : Car.counted { old with point := point } = old.counted)
    (knows : ∀ after : World, after.numCars = world.numCars → Car.Knows after t { old with point := point }) :
    ∃ new, Moved world after t old new := by
  obtain ⟨entry, rest, lane, mine⟩ := (sound.knows t old found).heads first
  have carries : Carries old { old with point := point } := Carries.on ⟨rfl, rfl, rfl⟩ lined live
  have startedStill : Car.started { old with point := point } = old.started :=
    (Car.started_of_lined lined).trans started.symm
  rw [World.remhead, lane] at taken
  cases taken
  refine ⟨{ old with point := point }, Moved.queueTo sound rfl carries rfl held rfl inRegion rfl counted
    (Lanes.pop sound found carries startedStill before now lane mine) ?_ (knows _ rfl)⟩
  intro d u elsewhere heads
  by_cases this : d = old.direction
  · subst this
    exact absurd (heads.unique ⟨entry, rest, lane, mine⟩) elsewhere
  · obtain ⟨other, others, laneOther, same⟩ := heads
    refine ⟨other, others, ?_, same⟩
    change update world.lane old.direction rest d = _
    rw [update_of_ne this]
    exact laneOther

theorem enter_moved {point k}
    (at_ : old.point = .entering point k) (taken : enter world t old k point = .next after) :
    ∃ new, Moved world after t old new := by
  have knows := sound.knows t old found
  have placed := knows.placed
  have room := knows.room
  have heads := knows.heads
  have zero : regionOf (old.route 0) = none := regionOf_route_zero old
  have one : regionOf (old.route 1) = some old.direction := regionOf_route_one old
  obtain ⟨stack, direction, turn, i, regionSem, where_⟩ := old
  subst at_
  by_cases last : point = .accessV
  · subst last
    cases taken
    exact goesV sound found rfl rfl (.of_placed placed rfl)
  obtain ⟨rfl, through, rfl⟩ : i = 0 ∧ turn ≠ .right ∧ k = direction := by
    cases point <;> first | exact placed | exact absurd rfl last
  cases point with
  | accessP =>
    exact goesP sound found taken rfl rfl
      ⟨⟨rfl, through, rfl⟩, nofun, fun _ => room rfl, fun _ => heads rfl, nofun⟩
  | test =>
    cases taken
    by_cases empty : world.region k = 0
    · rw [if_pos empty]
      refine goes sound found rfl rfl
        ⟨⟨rfl, through, rfl⟩, ?_, fun _ => room rfl, fun _ => heads rfl, nofun⟩
      intro j same
      cases same
      exact empty
    · rw [if_neg empty]
      exact goes sound found rfl rfl (.of_placed ⟨Nat.zero_le 1, through⟩ rfl)
  | set =>
    cases taken
    have outside : ∀ j, Car.inRegion j ⟨stack, k, turn, 0, regionSem, .entering .set k⟩ = false := by
      intro j
      refine decide_eq_false fun here => ?_
      cases zero.symm.trans here
    by_cases second : k.val = 2
    · rw [if_pos second]
      exact Moved.enters (.entering .stray k) sound found rfl rfl nofun rfl rfl id (fun _ => rfl) (fun _ => rfl)
        outside (fun _ => rfl) rfl rfl
        fun after lane count => ⟨⟨rfl, through, rfl⟩, nofun, fun _ => count ▸ room rfl,
          fun _ => heads_same lane _ _ (heads rfl), nofun⟩
    · rw [if_neg second]
      exact Moved.enters (.entering .laneP k) sound found rfl rfl nofun rfl rfl id (fun _ => rfl) (fun _ => rfl)
        outside (fun _ => rfl) rfl rfl
        fun after lane count => ⟨⟨rfl, through, rfl⟩, nofun, fun _ => count ▸ room rfl,
          fun _ => heads_same lane _ _ (heads rfl), nofun⟩
  | stray =>
    rw [enter, zero] at taken
    cases taken
    exact goes sound found rfl rfl
      ⟨⟨rfl, through, rfl⟩, nofun, fun _ => room rfl, fun _ => heads rfl, nofun⟩
  | laneP =>
    exact goesP sound found taken rfl rfl
      ⟨⟨rfl, through, rfl⟩, nofun, fun _ => room rfl, fun _ => heads rfl, nofun⟩
  | pop =>
    exact Moved.pops sound found taken rfl nofun rfl rfl (fun _ => rfl) (fun _ => rfl) (fun _ => rfl) rfl rfl
      fun after count => ⟨⟨rfl, through, rfl⟩, nofun, fun _ => count ▸ room rfl, nofun, nofun⟩
  | laneV =>
    cases taken
    exact goesV sound found rfl rfl
      ⟨⟨rfl, through, rfl⟩, nofun, fun _ => room rfl, nofun, nofun⟩
  | keep =>
    cases taken
    exact ⟨_, Moved.still sound found (Alike.of_profile rfl) rfl
      ⟨⟨rfl, through, rfl⟩, nofun, fun _ => room rfl, nofun, nofun⟩⟩
  | count =>
    cases taken
    have uncounted : Car.counted ⟨stack, k, turn, 0, regionSem, .entering .count k⟩ = false :=
      congrArg Option.isSome zero
    refine Moved.countTo (.entering .next k) sound found (Carries.on ⟨rfl, rfl, rfl⟩ rfl nofun) rfl id
      (fun _ => rfl) (fun _ => rfl) ?_ rfl (decide_eq_true (.tail _ (.head _))) (fun _ _ _ => room rfl)
      (fun _ => .of_placed ⟨rfl, through, rfl⟩ rfl)
    rw [uncounted]
    change world.numCars + 1 + 0 = world.numCars + 1
    omega
  | next =>
    cases taken
    refine ⟨_, Moved.still sound found ⟨Carries.on ⟨rfl, rfl, rfl⟩ rfl nofun, rfl, nofun, fun _ => rfl, ?_, ?_⟩ rfl
      (.of_placed ⟨Nat.le_refl 1, through⟩ rfl)⟩
    · intro j
      refine decide_eq_decide.mpr ⟨fun here => ?_, fun same => ?_⟩
      · exact Option.some.inj (one.symm.trans here)
      · exact one.trans (congrArg some same)
    · exact congrArg Option.isSome one
  | accessV => exact absurd rfl last

theorem peek_moved {point}
    (at_ : old.point = .peeking point) (taken : peekRight world t old point = .next after) :
    ∃ new, Moved world after t old new := by
  have knows := sound.knows t old found
  have placed := knows.placed
  have seen := knows.seen
  have one : regionOf (old.route 1) = some old.direction := regionOf_route_one old
  obtain ⟨stack, direction, turn, i, regionSem, where_⟩ := old
  subst at_
  obtain ⟨rfl, right⟩ : i = 0 ∧ turn = .right := placed
  cases point with
  | laneP =>
    exact goesP sound found taken rfl rfl
      (.of_placed ⟨rfl, right⟩ rfl)
  | peek =>
    cases taken
    exact goes sound found rfl rfl
      ⟨⟨rfl, right⟩, nofun, nofun, nofun, fun address peeked => sound.peek found nofun peeked⟩
  | laneV firstcar =>
    cases taken
    exact goesV sound found rfl rfl ⟨⟨rfl, right⟩, nofun, nofun, nofun, seen⟩
  | first firstcar =>
    cases firstcar with
    | none => cases taken
    | some address =>
      obtain ⟨used, own⟩ := seen address rfl
      rw [peekRight] at taken
      split at taken
      next both =>
        have heads := sound.first found used own both.2
        rw [one] at taken
        cases taken
        exact goes sound found rfl rfl ⟨⟨rfl, right, rfl⟩, nofun, nofun, fun _ => heads, nofun⟩
      next =>
        cases taken
        exact goes sound found rfl rfl (.of_placed (Nat.zero_le _) rfl)

theorem turnright_moved {point k}
    (at_ : old.point = .turning point k) (taken : turnright world t old k point = .next after) :
    ∃ new, Moved world after t old new := by
  have knows := sound.knows t old found
  have placed := knows.placed
  have heads := knows.heads
  have zero : regionOf (old.route 0) = none := regionOf_route_zero old
  have one : regionOf (old.route 1) = some old.direction := regionOf_route_one old
  obtain ⟨stack, direction, turn, i, regionSem, where_⟩ := old
  subst at_
  obtain ⟨rfl, right, rfl⟩ : i = 0 ∧ turn = .right ∧ k = direction := placed
  cases point with
  | accessP =>
    exact goesP sound found taken rfl rfl
      ⟨⟨rfl, right, rfl⟩, nofun, nofun, fun _ => heads rfl, nofun⟩
  | test =>
    cases taken
    by_cases empty : world.region k = 0
    · rw [if_pos empty]
      refine goes sound found rfl rfl
        ⟨⟨rfl, right, rfl⟩, ?_, nofun, fun _ => heads rfl, nofun⟩
      intro j same
      cases same
      exact empty
    · rw [if_neg empty]
      exact goes sound found rfl rfl (.of_placed ⟨rfl, right, rfl⟩ rfl)
  | missV =>
    cases taken
    exact goesV sound found rfl rfl
      (.of_placed (Nat.zero_le _) rfl)
  | set =>
    cases taken
    refine Moved.enters (.turning .accessV k) sound found rfl rfl nofun rfl rfl id (fun _ => rfl) (fun _ => rfl)
      ?_ (fun _ => rfl) rfl rfl
      fun after lane count => ⟨⟨rfl, right, rfl⟩, nofun, nofun, fun _ => heads_same lane _ _ (heads rfl), nofun⟩
    intro j
    refine decide_eq_false fun here => ?_
    cases zero.symm.trans here
  | accessV =>
    cases taken
    exact goesV sound found rfl rfl
      ⟨⟨rfl, right, rfl⟩, nofun, nofun, fun _ => heads rfl, nofun⟩
  | laneP =>
    exact goesP sound found taken rfl rfl
      ⟨⟨rfl, right, rfl⟩, nofun, nofun, fun _ => heads rfl, nofun⟩
  | pop =>
    exact Moved.pops sound found taken rfl nofun rfl rfl (fun _ => rfl) (fun _ => rfl) (fun _ => rfl) rfl rfl
      fun after count => (.of_placed ⟨rfl, right, rfl⟩ rfl)
  | laneV =>
    cases taken
    exact goesV sound found rfl rfl
      (.of_placed ⟨rfl, right, rfl⟩ rfl)
  | keep =>
    cases taken
    exact ⟨_, Moved.still sound found (Alike.of_profile rfl) rfl (.of_placed ⟨rfl, right, rfl⟩ rfl)⟩
  | numcarsP =>
    exact goesP sound found taken rfl rfl
      (.of_placed ⟨rfl, right, rfl⟩ rfl)
  | count =>
    cases taken
    have uncounted : Car.counted ⟨stack, k, turn, 0, regionSem, .turning .count k⟩ = false :=
      congrArg Option.isSome zero
    refine Moved.countTo (.turning .numcarsV k) sound found (Carries.on ⟨rfl, rfl, rfl⟩ rfl nofun) rfl id
      (fun _ => rfl) (fun _ => rfl) ?_ rfl (decide_eq_true (.head _)) ?_
      (fun _ => .of_placed ⟨rfl, right, rfl⟩ rfl)
    · rw [uncounted]
      change world.numCars + 1 + 0 = world.numCars + 1
      omega
    · intro _ _ through
      exact absurd right (of_decide_eq_true through)
  | numcarsV =>
    cases taken
    exact goesV sound found rfl rfl
      (.of_placed ⟨rfl, right, rfl⟩ rfl)
  | next =>
    cases taken
    refine ⟨_, Moved.still sound found ⟨Carries.on ⟨rfl, rfl, rfl⟩ rfl nofun, rfl, nofun, fun _ => rfl, ?_, ?_⟩ rfl
      (.of_placed (Nat.le_of_succ_le turn.two_le_stops) rfl)⟩
    · intro j
      refine decide_eq_decide.mpr ⟨fun here => ?_, fun same => ?_⟩
      · exact Option.some.inj (one.symm.trans here)
      · exact one.trans (congrArg some same)
    · exact congrArg Option.isSome one

theorem loop_moved (at_ : old.point = .loop) : ∃ new, Moved world (world.goto t old old.branch) t old new := by
  have placed := (sound.knows t old found).placed
  have end_ : regionOf (old.route old.turn.stops) = none := regionOf_route_stops old
  have two := old.turn.two_le_stops
  have branches : old.i ≤ old.turn.stops → old.Branches old.branch := old.branches
  generalize old.branch = later at branches
  obtain ⟨stack, direction, turn, i, regionSem, where_⟩ := old
  subst at_
  have unqueued (inside : 0 < i) {answer : Bool} (queued : Car.queued ⟨stack, direction, turn, i, regionSem, .loop⟩ = true) :
      answer = true := absurd (of_decide_eq_true queued) (Nat.ne_of_gt inside)
  obtain branched := branches placed
  cases branched with
  | finished arrived =>
    dsimp only at arrived end_ two
    subst arrived
    have out : Car.cur ⟨stack, direction, turn, turn.stops, regionSem, .loop⟩ = none := end_
    refine ⟨_, Moved.still sound found ⟨⟨rfl, rfl, rfl, fun _ => rfl, fun _ => rfl, nofun⟩, rfl, ?_, fun _ => rfl, ?_, ?_⟩
      rfl (.of_placed trivial rfl)⟩
    · intro queued
      have unmoved : turn.stops = 0 := of_decide_eq_true queued
      omega
    · intro k
      refine (decide_eq_false fun here => ?_).symm
      cases out.symm.trans here
    · exact (congrArg Option.isSome out).symm
  | leaving inside last =>
    exact ⟨_, Moved.still sound found ⟨Carries.on ⟨rfl, rfl, rfl⟩ rfl nofun, rfl, unqueued inside, fun _ => rfl,
      fun _ => rfl, rfl⟩ rfl (.of_placed ⟨inside, last⟩ rfl)⟩
  | peeking outside right =>
    exact goes sound found rfl rfl (.of_placed ⟨outside, right⟩ rfl)
  | looking outside through =>
    exact goes sound found rfl rfl (.of_placed ⟨outside, through⟩ rfl)
  | moving inside before k next =>
    exact ⟨_, Moved.still sound found ⟨Carries.on ⟨rfl, rfl, rfl⟩ rfl nofun, rfl, unqueued inside, fun _ => rfl,
      fun _ => rfl, rfl⟩ rfl (.of_placed ⟨inside, before, next⟩ rfl)⟩

theorem Sound.execute (taken : execute world t old = .next after) : Sound after := by
  have moves : ∃ new, Moved world after t old new := by
    unfold Stoplight.execute at taken
    split at taken
    next point at_ => exact arrive_moved sound found at_ taken
    next at_ =>
      cases taken
      exact loop_moved sound found at_
    next point at_ => exact look_moved sound found at_ taken
    next point k at_ => exact enter_moved sound found at_ taken
    next point at_ => exact peek_moved sound found at_ taken
    next point k at_ => exact turnright_moved sound found at_ taken
    next point k at_ => exact move_moved sound found at_ taken
    next point at_ => exact leave_moved sound found at_ taken
    next => cases taken
  obtain ⟨new, moved⟩ := moves
  exact sound.moved found moved

end Statements

end Os161.Stoplight
