import Mathlib.Data.Set.Basic
import Mathlib.Tactic.Common

/-! Runs of a partial step function. What every state of a run has is derived from what a step preserves, and which
runs keep a property from which steps do. -/

namespace Runs

variable {σ : Type u} {ι : Type v} {step : σ → ι → Option σ}

/-- Take the actions in order. An action that is not enabled ends the run. -/
def run (step : σ → ι → Option σ) : σ → List ι → Option σ
  | state, [] => some state
  | state, action :: rest => (step state action).bind fun next => run step next rest

/-- Every state the run passes through satisfies the property. -/
def Always (step : σ → ι → Option σ) (property : σ → Prop) : σ → List ι → Prop
  | state, [] => property state
  | state, action :: rest =>
    property state ∧ ∀ next, step state action = some next → Always step property next rest

/-- Every step the run takes satisfies the condition in the state before it. -/
def EachStep (step : σ → ι → Option σ) (condition : σ → ι → Prop) : σ → List ι → Prop
  | _, [] => True
  | state, action :: rest => ∀ next, step state action = some next →
    condition state action ∧ EachStep step condition next rest

theorem Always.head {property : σ → Prop} {state actions}
    (always : Always step property state actions) : property state := by
  cases actions with
  | nil => exact always
  | cons action rest => exact always.1

theorem Always.final {property : σ → Prop} {state final actions}
    (always : Always step property state actions) (reached : run step state actions = some final) :
    property final := by
  induction actions generalizing state with
  | nil =>
    cases reached
    exact always
  | cons action rest ih =>
    obtain ⟨next, taken, reached⟩ := Option.bind_eq_some_iff.mp reached
    exact ih (always.2 next taken) reached

theorem Always.mono {property weaker : σ → Prop} (implies : ∀ state, property state → weaker state)
    {state actions} (always : Always step property state actions) :
    Always step weaker state actions := by
  induction actions generalizing state with
  | nil => exact implies state always
  | cons action rest ih => exact ⟨implies state always.1, fun next taken => ih (always.2 next taken)⟩

/-- Two conditions that imply a third on every step the run takes. -/
theorem EachStep.both {first second third : σ → ι → Prop}
    (implies : ∀ state action next, step state action = some next → first state action → second state action →
      third state action)
    {state actions} (one : EachStep step first state actions)
    (two : EachStep step second state actions) : EachStep step third state actions := by
  induction actions generalizing state with
  | nil => trivial
  | cons action rest ih =>
    intro next taken
    obtain ⟨nowOne, laterOne⟩ := one next taken
    obtain ⟨nowTwo, laterTwo⟩ := two next taken
    exact ⟨implies state action next taken nowOne nowTwo, ih laterOne laterTwo⟩

/-- The invariant rule: what conditional steps preserve, conditional runs preserve. -/
theorem always_of_steps {invariant : σ → Prop} {condition : σ → ι → Prop}
    (keeps : ∀ state action next, invariant state → step state action = some next →
      condition state action → invariant next)
    {state actions} (start : invariant state)
    (each : EachStep step condition state actions) : Always step invariant state actions := by
  induction actions generalizing state with
  | nil => exact start
  | cons action rest ih =>
    refine ⟨start, fun next taken => ?_⟩
    obtain ⟨now, later⟩ := each next taken
    exact ih (keeps state action next start taken now) later

theorem always_of_invariant {invariant : σ → Prop}
    (keeps : ∀ state action next, invariant state → step state action = some next → invariant next)
    {state} (start : invariant state) (actions : List ι) : Always step invariant state actions := by
  induction actions generalizing state with
  | nil => exact start
  | cons action rest ih => exact ⟨start, fun next taken => ih (keeps state action next start taken)⟩

/-- When the property fails right after the first step that misses the condition, the runs that keep it are those
whose steps all meet it. -/
theorem always_iff_steps {invariant property : σ → Prop} {condition : σ → ι → Prop}
    (implies : ∀ state, invariant state → property state)
    (keeps : ∀ state action next, invariant state → step state action = some next →
      condition state action → invariant next)
    (exact_ : ∀ state action next, invariant state → step state action = some next →
      property next → condition state action)
    {state actions} (start : invariant state) :
    Always step property state actions ↔ EachStep step condition state actions := by
  induction actions generalizing state with
  | nil => exact ⟨fun _ => trivial, fun _ => implies state start⟩
  | cons action rest ih =>
    constructor
    · intro always next taken
      have now := exact_ state action next start taken (always.2 next taken).head
      exact ⟨now, (ih (keeps state action next start taken now)).mp (always.2 next taken)⟩
    · intro each
      refine ⟨implies state start, fun next taken => ?_⟩
      obtain ⟨now, later⟩ := each next taken
      exact (ih (keeps state action next start taken now)).mpr later

/-- A fact about steps that every invariant state grants holds of every step taken. -/
theorem EachStep.of_always {invariant : σ → Prop} {condition : σ → ι → Prop}
    (grants : ∀ state action next, invariant state → step state action = some next →
      invariant next → condition state action)
    {state actions} (always : Always step invariant state actions) :
    EachStep step condition state actions := by
  induction actions generalizing state with
  | nil => trivial
  | cons action rest ih =>
    intro next taken
    exact ⟨grants state action next always.1 taken (always.2 next taken).head, ih (always.2 next taken)⟩

theorem run_append (state : σ) (first second : List ι) :
    run step state (first ++ second) = (run step state first).bind fun middle => run step middle second := by
  induction first generalizing state with
  | nil => rfl
  | cons action rest again =>
    rw [List.cons_append, run, run]
    cases step state action with
    | none => rfl
    | some next => exact again next

/-- An invariant that every step preserves holds wherever a run ends. -/
theorem run_preserves {invariant : σ → Prop}
    (keeps : ∀ state action next, invariant state → step state action = some next → invariant next)
    {state final actions} (start : invariant state)
    (reached : run step state actions = some final) : invariant final := by
  induction actions generalizing state with
  | nil => cases reached; exact start
  | cons action rest ih =>
    obtain ⟨next, taken, reached⟩ := Option.bind_eq_some_iff.mp reached
    exact ih (keeps state action next start taken) reached

/-- The same for a property of the state together with the actions taken so far. -/
theorem run_history {property : List ι → σ → Prop}
    (keeps : ∀ done state action next, property done state → step state action = some next →
      property (done ++ [action]) next)
    {state final done actions} (start : property done state)
    (reached : run step state actions = some final) : property (done ++ actions) final := by
  induction actions generalizing state done with
  | nil =>
    cases reached
    rwa [List.append_nil]
  | cons action rest ih =>
    obtain ⟨next, taken, reached⟩ := Option.bind_eq_some_iff.mp reached
    rw [List.append_cons]
    exact ih (keeps done state action next start taken) reached

end Runs
