import Mathlib.Tactic.Common

/-! Routines over a mutable state. A routine returns a value or an error code and keeps its changes in both cases;
or it halts, after which nothing is observed. `Ensures` excludes a halt. -/

/-- `none` is a halt. -/
def Routine (ε σ α : Type) : Type := σ → Option (Except ε α × σ)

namespace Routine
open Option

variable {ε σ τ α β : Type}

def ret (value : α) : Routine ε σ α := fun state => some (.ok value, state)

/-- Continue with the value; an error code is passed on at once. -/
def andThen (first : Routine ε σ α) (next : α → Routine ε σ β) : Routine ε σ β := fun state =>
  match first state with
  | none => none
  | some (.ok value, after) => next value after
  | some (.error code, after) => some (.error code, after)

instance : Monad (Routine ε σ) where
  pure := ret
  bind := andThen

def fail (code : ε) : Routine ε σ α := fun state => some (.error code, state)

def halt : Routine ε σ α := fun _ => none

def require (condition : Prop) [Decidable condition] : Routine ε σ Unit :=
  if condition then ret () else halt

def get : Routine ε σ σ := fun state => some (.ok state, state)

def modify (f : σ → σ) : Routine ε σ Unit := fun state => some (.ok (), f state)

/-- Hand the error code to the caller as a value. -/
def attempt (routine : Routine ε σ α) : Routine ε σ (Except ε α) := fun state =>
  (routine state).map fun (result, after) => (.ok result, after)

/-- Return what the callee returned. -/
def finish (result : Except ε α) : Routine ε σ α := fun state => some (result, state)

def zoom (view : σ → τ) (put : τ → σ → σ) (routine : Routine ε τ α) : Routine ε σ α := fun state =>
  (routine (view state)).map fun (result, after) => (result, put after state)

/-- Run a routine on the state with a local variable; the result comes with what became of the variable. -/
def withLocal (initial : τ) (routine : Routine ε (σ × τ) α) : Routine ε σ (Except ε α × τ) := fun state =>
  (routine (state, initial)).map fun (result, after, last) => (.ok (result, last), after)

section Runs

variable {first : Routine ε σ α} {next : α → Routine ε σ β} {state later : σ}

theorem bind_halts (halts : first state = none) : (first >>= next) state = none := by
  change andThen first next state = none
  rw [andThen, halts]

variable {value : α} {condition : Prop} {result : Except ε α}

theorem bind_ok (computed : first state = some (.ok value, later)) : (first >>= next) state = next value later := by
  change andThen first next state = next value later
  rw [andThen, computed]

theorem bind_error {code} (computed : first state = some (.error code, later)) :
    (first >>= next) state = some (.error code, later) := by
  change andThen first next state = some (.error code, later)
  rw [andThen, computed]

theorem bind_passed {value final} (computed : (first >>= next) state = some (.ok value, final)) :
    ∃ middle later, first state = some (.ok middle, later) ∧ next middle later = some (.ok value, final) := by
  change andThen first next state = _ at computed
  rw [andThen] at computed
  split at computed
  · cases computed
  next middle later done => exact ⟨middle, later, done, computed⟩
  · cases computed

theorem require_pos [Decidable condition] (holds : condition) :
    (require condition : Routine ε σ Unit) state = some (.ok (), state) := by
  rw [require, if_pos holds]
  rfl

theorem require_neg [Decidable condition] (fails : ¬ condition) :
    (require condition : Routine ε σ Unit) state = none := by
  rw [require, if_neg fails]
  rfl

theorem require_passed [Decidable condition] {next}
    {outcome : Except ε β × σ} (computed : (require condition >>= next) state = some outcome) :
    next () state = some outcome := by
  by_cases holds : condition
  · rwa [bind_ok (require_pos holds)] at computed
  · rw [bind_halts (require_neg holds)] at computed
    cases computed

theorem attempt_halts (halts : first state = none) : first.attempt state = none := by
  rw [attempt, halts, map_none]

theorem attempt_eq (computed : first state = some (result, later)) :
    first.attempt state = some (.ok result, later) := by
  rw [attempt, computed, map_some]

variable {initial last : τ} {inner : Routine ε (σ × τ) α}

theorem withLocal_halts (halts : inner (state, initial) = none) : inner.withLocal initial state = none := by
  rw [withLocal, halts, map_none]

theorem withLocal_eq (computed : inner (state, initial) = some (result, (later, last))) :
    inner.withLocal initial state = some (.ok (result, last), later) := by
  rw [withLocal, computed, map_some]

theorem ok_of_toOption {outcome : Option (Except ε α × σ)}
    (found : outcome.bind (·.1.toOption) = some value) : ∃ after, outcome = some (.ok value, after) := by
  obtain ⟨⟨result, after⟩, computed, same⟩ := bind_eq_some_iff.mp found
  cases result with
  | error code => cases same
  | ok other =>
    cases same
    exact ⟨after, computed⟩

end Runs

/-- The routine does not halt, and its result and final state are as described. -/
def Ensures (routine : Routine ε σ α) (state : σ) (post : Except ε α → σ → Prop) : Prop :=
  ∃ result after, routine state = some (result, after) ∧ post result after

/-- How the description of a routine continues after its first part. -/
def after (next : α → Routine ε σ β) (post : Except ε β → σ → Prop) : Except ε α → σ → Prop
  | .ok value, state => (next value).Ensures state post
  | .error code, state => post (.error code) state

variable {post weaker : Except ε α → σ → Prop} {final : σ} {result : Except ε α}

theorem Ensures.mono {routine : Routine ε σ α} {state}
    (ensures : routine.Ensures state post) (implies : ∀ result after, post result after → weaker result after) :
    routine.Ensures state weaker := by
  obtain ⟨result, after, computed, holds⟩ := ensures
  exact ⟨result, after, computed, implies result after holds⟩

theorem Ensures.of_eq {routine : Routine ε σ α} {state} (computed : routine state = some (result, final)) (holds : post result final) :
    routine.Ensures state post := ⟨result, final, computed, holds⟩

theorem Ensures.elim {routine : Routine ε σ α} {state} (ensures : routine.Ensures state post)
    (computed : routine state = some (result, final)) : post result final := by
  obtain ⟨other, after, found, holds⟩ := ensures
  rw [computed] at found
  cases found
  exact holds

@[simp] theorem ensures_pure (value : α) (state : σ) (post : Except ε α → σ → Prop) :
    (pure value : Routine ε σ α).Ensures state post ↔ post (.ok value) state := by
  constructor
  · rintro ⟨result, after, computed, holds⟩
    cases computed
    exact holds
  · exact fun holds => ⟨_, _, rfl, holds⟩

@[simp] theorem ensures_bind (first : Routine ε σ α) (next : α → Routine ε σ β) (state : σ)
    (post : Except ε β → σ → Prop) :
    (first >>= next).Ensures state post ↔ first.Ensures state (after next post) := by
  change (andThen first next).Ensures state post ↔ _
  simp only [Ensures, andThen]
  cases computed : first state with
  | none => simp
  | some outcome =>
    obtain ⟨result, middle⟩ := outcome
    cases result with
    | ok value => simp [after, Ensures]
    | error code => simp [after, eq_comm, and_assoc]

@[simp] theorem after_ok (next : α → Routine ε σ β) (post : Except ε β → σ → Prop) (value : α) (state : σ) :
    after next post (.ok value) state ↔ (next value).Ensures state post := Iff.rfl

@[simp] theorem after_error (next : α → Routine ε σ β) (post : Except ε β → σ → Prop) (code : ε) (state : σ) :
    after next post (.error code) state ↔ post (.error code) state := Iff.rfl

theorem Ensures.step {first : Routine ε σ α} {next state middle value}
    {post : Except ε β → σ → Prop} (computed : first state = some (.ok value, middle))
    (rest : (next value).Ensures middle post) : (first >>= next).Ensures state post :=
  (ensures_bind first next state post).mpr (.of_eq computed rest)

theorem Ensures.require {condition : Prop} [Decidable condition] {next state}
    {post : Except ε β → σ → Prop} (holds : condition) (rest : (next ()).Ensures state post) :
    (require condition >>= next).Ensures state post := .step (require_pos holds) rest

@[simp] theorem ensures_fail (code : ε) (state : σ) (post : Except ε α → σ → Prop) :
    (fail code : Routine ε σ α).Ensures state post ↔ post (.error code) state := by
  simp [Ensures, fail, eq_comm, and_assoc]

@[simp] theorem ensures_finish (result : Except ε α) (state : σ) (post : Except ε α → σ → Prop) :
    (finish result : Routine ε σ α).Ensures state post ↔ post result state := by
  simp [Ensures, finish, and_assoc]

@[simp] theorem ensures_get (state : σ) (post : Except ε σ → σ → Prop) :
    (get : Routine ε σ σ).Ensures state post ↔ post (.ok state) state := by
  simp [Ensures, get, eq_comm, and_assoc]

@[simp] theorem ensures_modify (f : σ → σ) (state : σ) (post : Except ε Unit → σ → Prop) :
    (modify f : Routine ε σ Unit).Ensures state post ↔ post (.ok ()) (f state) := by
  simp [Ensures, modify, eq_comm, and_assoc]

@[simp] theorem ensures_require (condition : Prop) [Decidable condition] (state : σ)
    (post : Except ε Unit → σ → Prop) :
    (require condition : Routine ε σ Unit).Ensures state post ↔ condition ∧ post (.ok ()) state := by
  by_cases holds : condition
  · simp [Ensures, require, ret, holds, eq_comm, and_assoc]
  · simp [Ensures, require, halt, holds]

@[simp] theorem ensures_attempt (routine : Routine ε σ α) (state : σ)
    (post : Except ε (Except ε α) → σ → Prop) :
    routine.attempt.Ensures state post ↔ routine.Ensures state fun result after => post (.ok result) after := by
  simp only [Ensures, attempt]
  cases routine state with
  | none => simp
  | some outcome => simp [eq_comm, and_assoc, Prod.ext_iff]

@[simp] theorem ensures_zoom (view : σ → τ) (put : τ → σ → σ) (routine : Routine ε τ α) (state : σ)
    (post : Except ε α → σ → Prop) :
    (routine.zoom view put).Ensures state post ↔
      routine.Ensures (view state) fun result after => post result (put after state) := by
  simp only [Ensures, zoom]
  cases routine (view state) with
  | none => simp
  | some outcome => simp [eq_comm, and_assoc, Prod.ext_iff]

@[simp] theorem ensures_withLocal (initial : τ) (routine : Routine ε (σ × τ) α) (state : σ)
    (post : Except ε (Except ε α × τ) → σ → Prop) :
    (routine.withLocal initial).Ensures state post ↔
      routine.Ensures (state, initial) fun result after => post (.ok (result, after.2)) after.1 := by
  simp only [Ensures, withLocal]
  cases routine (state, initial) with
  | none => simp
  | some outcome =>
    simp [eq_comm, and_assoc, Prod.ext_iff]

/-- Partial correctness: if the routine does not halt, its result and final state are as
described. -/
def Allows (routine : Routine ε σ α) (state : σ) (post : Except ε α → σ → Prop) : Prop :=
  ∀ result after, routine state = some (result, after) → post result after

def andThenAllows (next : α → Routine ε σ β) (post : Except ε β → σ → Prop) : Except ε α → σ → Prop
  | .ok value, state => (next value).Allows state post
  | .error code, state => post (.error code) state

theorem Allows.mono {routine : Routine ε σ α} {state}
    (allows : routine.Allows state post) (implies : ∀ result after, post result after → weaker result after) :
    routine.Allows state weaker :=
  fun result after computed => implies result after (allows result after computed)

@[simp] theorem allows_pure (value : α) (state : σ) (post : Except ε α → σ → Prop) :
    (pure value : Routine ε σ α).Allows state post ↔ post (.ok value) state := by
  constructor
  · exact fun allows => allows _ _ rfl
  · rintro holds result after computed
    cases computed
    exact holds

@[simp] theorem allows_bind (first : Routine ε σ α) (next : α → Routine ε σ β) (state : σ)
    (post : Except ε β → σ → Prop) :
    (first >>= next).Allows state post ↔ first.Allows state (andThenAllows next post) := by
  change (andThen first next).Allows state post ↔ _
  simp only [Allows, andThen]
  cases first state with
  | none => simp
  | some outcome =>
    obtain ⟨result, middle⟩ := outcome
    cases result with
    | ok value => simp [andThenAllows, Allows]
    | error code => simp [andThenAllows]

@[simp] theorem andThenAllows_ok (next : α → Routine ε σ β) (post : Except ε β → σ → Prop) (value : α) (state : σ) :
    andThenAllows next post (.ok value) state ↔ (next value).Allows state post := Iff.rfl

@[simp] theorem allows_halt (state : σ) (post : Except ε α → σ → Prop) :
    (halt : Routine ε σ α).Allows state post := by
  intro result after computed
  cases computed

@[simp] theorem allows_fail (code : ε) (state : σ) (post : Except ε α → σ → Prop) :
    (fail code : Routine ε σ α).Allows state post ↔ post (.error code) state := by
  simp [Allows, fail]

@[simp] theorem allows_get (state : σ) (post : Except ε σ → σ → Prop) :
    (get : Routine ε σ σ).Allows state post ↔ post (.ok state) state := by
  simp [Allows, get]

@[simp] theorem allows_modify (f : σ → σ) (state : σ) (post : Except ε Unit → σ → Prop) :
    (modify f : Routine ε σ Unit).Allows state post ↔ post (.ok ()) (f state) := by
  simp [Allows, modify]

@[simp] theorem allows_require (condition : Prop) [Decidable condition] (state : σ)
    (post : Except ε Unit → σ → Prop) :
    (require condition : Routine ε σ Unit).Allows state post ↔ (condition → post (.ok ()) state) := by
  by_cases holds : condition
  · simp [Allows, require, ret, holds]
  · simp [Allows, require, halt, holds]

@[simp] theorem allows_attempt (routine : Routine ε σ α) (state : σ) (post : Except ε (Except ε α) → σ → Prop) :
    routine.attempt.Allows state post ↔ routine.Allows state fun result after => post (.ok result) after := by
  simp only [Allows, attempt]
  cases routine state with
  | none => simp
  | some outcome => simp [Prod.ext_iff]

@[simp] theorem allows_zoom (view : σ → τ) (put : τ → σ → σ) (routine : Routine ε τ α) (state : σ)
    (post : Except ε α → σ → Prop) :
    (routine.zoom view put).Allows state post ↔
      routine.Allows (view state) fun result after => post result (put after state) := by
  simp only [Allows, zoom]
  cases routine (view state) with
  | none => simp
  | some outcome => simp [Prod.ext_iff]

@[simp] theorem allows_withLocal (initial : τ) (routine : Routine ε (σ × τ) α) (state : σ)
    (post : Except ε (Except ε α × τ) → σ → Prop) :
    (routine.withLocal initial).Allows state post ↔
      routine.Allows (state, initial) fun result after => post (.ok (result, after.2)) after.1 := by
  simp only [Allows, withLocal]
  cases routine (state, initial) with
  | none => simp
  | some outcome =>
    simp [Prod.ext_iff]

/-- On `domain`, which it does not leave, the routine neither looks at nor changes what `f` replaces. -/
def Commutes (routine : Routine ε σ α) (domain : σ → Prop) (f : σ → σ) : Prop :=
  ∀ state, domain state →
    routine (f state) = (routine state).map (fun outcome => (outcome.1, f outcome.2)) ∧
      ∀ result after, routine state = some (result, after) → domain after

section Commutes

variable {domain : σ → Prop} {f : σ → σ} {routine : Routine ε σ α}

theorem commutes_finish (result : Except ε α) : (finish result : Routine ε σ α).Commutes domain f := by
  refine fun state inside => ⟨rfl, fun result after computed => ?_⟩
  cases computed
  exact inside

theorem commutes_pure (value : α) : (pure value : Routine ε σ α).Commutes domain f := commutes_finish (.ok value)

theorem commutes_fail (code : ε) : (fail code : Routine ε σ α).Commutes domain f := commutes_finish (.error code)

theorem commutes_halt : (halt : Routine ε σ α).Commutes domain f := fun _ _ => ⟨rfl, nofun⟩

theorem commutes_require (condition : Prop) [Decidable condition] :
    (require condition : Routine ε σ Unit).Commutes domain f := by
  unfold require
  split
  · exact commutes_pure ()
  · exact commutes_halt

theorem commutes_modify {g} (swap : ∀ state, domain state → g (f state) = f (g state))
    (keeps : ∀ state, domain state → domain (g state)) : (modify g : Routine ε σ Unit).Commutes domain f := by
  refine fun state inside => ⟨?_, fun result after computed => ?_⟩
  · simp only [modify, map_some, swap state inside]
  · cases computed
    exact keeps state inside

theorem Commutes.bind {next : α → Routine ε σ β} (front : routine.Commutes domain f)
    (rear : ∀ value, (next value).Commutes domain f) : (routine >>= next).Commutes domain f := by
  intro state inside
  obtain ⟨moved, stays⟩ := front state inside
  cases computed : routine state with
  | none =>
    rw [computed, map_none] at moved
    rw [bind_halts computed, bind_halts moved]
    exact ⟨rfl, nofun⟩
  | some outcome =>
    obtain ⟨result, middle⟩ := outcome
    rw [computed, map_some] at moved
    cases result with
    | ok value =>
      rw [bind_ok computed, bind_ok moved]
      exact rear value middle (stays _ _ computed)
    | error code =>
      rw [bind_error computed, bind_error moved]
      exact commutes_fail code middle (stays _ _ computed)

theorem commutes_get_bind {next : σ → Routine ε σ α} (same : ∀ state, domain state → next (f state) = next state)
    (rear : ∀ state, domain state → (next state).Commutes domain f) : (get >>= next).Commutes domain f := by
  intro state inside
  have here : (get >>= next) (f state) = next state (f state) := by rw [bind_ok rfl, same state inside]
  rw [here]
  exact rear state inside state inside

theorem Commutes.attempt (commutes : routine.Commutes domain f) : routine.attempt.Commutes domain f := by
  intro state inside
  obtain ⟨moved, stays⟩ := commutes state inside
  unfold Routine.attempt
  rw [moved]
  cases computed : routine state with
  | none => exact ⟨rfl, nofun⟩
  | some outcome =>
    refine ⟨rfl, fun result after same => ?_⟩
    cases same
    exact stays _ _ computed

theorem Commutes.zoom {view put} {part : τ → Prop} {g} {inner : Routine ε τ α}
    (commutes : inner.Commutes part g) (views : ∀ state, view (f state) = g (view state))
    (puts : ∀ after state, put (g after) (f state) = f (put after state))
    (inward : ∀ state, domain state → part (view state))
    (outward : ∀ after state, part after → domain state → domain (put after state)) :
    (inner.zoom view put).Commutes domain f := by
  intro state inside
  obtain ⟨moved, stays⟩ := commutes (view state) (inward state inside)
  unfold Routine.zoom
  rw [views, moved]
  cases computed : inner (view state) with
  | none => exact ⟨rfl, nofun⟩
  | some outcome =>
    refine ⟨?_, fun result after same => ?_⟩
    · simp only [map_some, puts]
    · cases same
      exact outward _ _ (stays _ _ computed) inside

theorem commutes_id : routine.Commutes (fun _ => True) id := by
  refine fun state _ => ⟨?_, fun _ _ _ => trivial⟩
  cases computed : routine state with
  | none => rw [id, computed]; rfl
  | some outcome => rw [id, computed]; rfl

theorem Commutes.eq {state final result} (commutes : routine.Commutes domain f)
    (inside : domain state) (computed : routine state = some (result, final)) :
    routine (f state) = some (result, f final) := by
  rw [(commutes state inside).1, computed, map_some]

theorem Commutes.ensures {state} {post : Except ε α → σ → Prop} (commutes : routine.Commutes domain f)
    (inside : domain state) (ensures : routine.Ensures state post) :
    routine.Ensures (f state) fun result after => ∃ final, after = f final ∧ post result final := by
  obtain ⟨result, final, computed, holds⟩ := ensures
  exact ⟨result, f final, commutes.eq inside computed, final, rfl, holds⟩

/-- What the routine does to the changed state it does to the state itself. -/
theorem Commutes.back {state final result} (commutes : routine.Commutes domain f)
    (inside : domain state) (computed : routine (f state) = some (result, final)) :
    ∃ after, routine state = some (result, after) ∧ final = f after := by
  rw [(commutes state inside).1] at computed
  obtain ⟨⟨inner, after⟩, found, same⟩ := map_eq_some_iff.mp computed
  cases same
  exact ⟨after, found, rfl⟩

end Commutes

/-- The relation holds between the states before and after the routine. -/
def Follows (routine : Routine ε σ α) (relation : σ → σ → Prop) : Prop :=
  ∀ state, routine.Allows state fun _ after => relation state after

/-- A part of the state that stays as it is. -/
def Same (view : σ → τ) (state after : σ) : Prop := view after = view state

instance (view : σ → τ) : IsPreorder σ (Same view) where
  refl _ := rfl
  trans _ _ _ first second := second.trans first

section Follows

variable {relation : σ → σ → Prop} [IsPreorder σ relation] {routine : Routine ε σ α}

theorem follows_finish (result : Except ε α) : (finish result : Routine ε σ α).Follows relation := by
  intro state result after computed
  cases computed
  exact refl_of relation state

theorem follows_pure (value : α) : (pure value : Routine ε σ α).Follows relation := follows_finish (.ok value)

theorem follows_fail (code : ε) : (fail code : Routine ε σ α).Follows relation := follows_finish (.error code)

theorem follows_halt : (halt : Routine ε σ α).Follows relation := fun state => allows_halt state _

theorem follows_require (condition : Prop) [Decidable condition] :
    (require condition : Routine ε σ Unit).Follows relation := by
  unfold require
  split
  · exact follows_pure ()
  · exact follows_halt

theorem follows_modify {f} (holds : ∀ state, relation state (f state)) :
    (modify f : Routine ε σ Unit).Follows relation := fun state => (allows_modify f state _).mpr (holds state)

theorem Follows.bind {next : α → Routine ε σ β} (front : routine.Follows relation)
    (rear : ∀ value, (next value).Follows relation) : (routine >>= next).Follows relation := by
  intro state
  rw [allows_bind]
  refine (front state).mono fun result middle first => ?_
  cases result with
  | ok value => exact (rear value middle).mono fun _ after second => trans_of relation first second
  | error code => exact first

theorem follows_get_bind {next : σ → Routine ε σ α} (rear : ∀ state, (next state).Follows relation) :
    (get >>= next).Follows relation := by
  intro state
  exact rear state state

theorem Follows.attempt (follows : routine.Follows relation) : routine.attempt.Follows relation :=
  fun state => (allows_attempt routine state _).mpr (follows state)

theorem Follows.zoom {view : σ → τ} {put} {part : τ → τ → Prop} {inner : Routine ε τ α}
    (follows : inner.Follows part) (outward : ∀ after state, part (view state) after → relation state (put after state)) :
    (inner.zoom view put).Follows relation := by
  intro state
  rw [allows_zoom]
  exact (follows (view state)).mono fun _ after holds => outward after state holds

end Follows

/-- Every value the routine returns has the property. -/
def Yields (routine : Routine ε σ α) (property : α → Prop) : Prop :=
  ∀ state value after, routine state = some (.ok value, after) → property value

section Yields

variable {property : β → Prop}

theorem yields_pure {value} (holds : property value) : (pure value : Routine ε σ β).Yields property := by
  intro state other after computed
  cases computed
  exact holds

theorem yields_fail (code : ε) : (fail code : Routine ε σ β).Yields property := nofun

theorem yields_halt : (halt : Routine ε σ β).Yields property := nofun

theorem Yields.after {first} {next : α → Routine ε σ β} (rear : ∀ value, (next value).Yields property) :
    (first >>= next).Yields property := by
  intro state value final computed
  obtain ⟨middle, later, _, last⟩ := bind_passed computed
  exact rear middle later value final last

end Yields

end Routine
