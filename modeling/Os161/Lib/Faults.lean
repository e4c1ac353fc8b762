import Os161.Lib.Routine

/-! Routines over a device that can fail. `Weathers` compares with the run without failures; `Reverts` is about what
a failed call leaves behind. -/

namespace Routine

variable {ε σ τ υ ρ α β : Type}

/-- The routine leaves the view alone, and where it succeeds it does what it does without failures. -/
def Weathers (routine : Routine ε σ α) (mend : σ → σ) (view : σ → υ) (pre post : σ → Prop) : Prop :=
  ∀ state, pre state → routine.Allows state fun result after => view after = view state ∧ post after ∧
    ∀ value, result = .ok value → routine (mend state) = some (.ok value, mend after)

section Weathers

variable {mend : σ → σ} {view : σ → υ} {pre mid post : σ → Prop} {routine : Routine ε σ α}

theorem weathers_finish (result : Except ε α) : (finish result : Routine ε σ α).Weathers mend view pre pre := by
  rintro state holds _ _ ⟨⟩
  refine ⟨rfl, holds, fun value same => ?_⟩
  rw [same]
  rfl

theorem weathers_pure (value : α) : (pure value : Routine ε σ α).Weathers mend view pre pre := weathers_finish (.ok value)

theorem weathers_fail (code : ε) : (fail code : Routine ε σ α).Weathers mend view pre pre := weathers_finish (.error code)

theorem weathers_halt : (halt : Routine ε σ α).Weathers mend view pre post := fun state _ => allows_halt state _

theorem weathers_require (condition : Prop) [Decidable condition] :
    (require condition : Routine ε σ Unit).Weathers mend view pre pre := by
  unfold require
  split
  · exact weathers_pure ()
  · exact weathers_halt

theorem weathers_modify {f} (same : ∀ state, view (f state) = view state)
    (swap : ∀ state, f (mend state) = mend (f state)) (holds : ∀ state, pre state → post (f state)) :
    (modify f : Routine ε σ Unit).Weathers mend view pre post := by
  rintro state before _ _ ⟨⟩
  refine ⟨same state, holds state before, fun value _ => ?_⟩
  rw [modify, swap]

theorem Weathers.strengthen {pre' : σ → Prop} (weathers : routine.Weathers mend view pre post)
    (implies : ∀ state, pre' state → pre state) : routine.Weathers mend view pre' post :=
  fun state holds => weathers state (implies state holds)

theorem Weathers.weaken {post' : σ → Prop} (weathers : routine.Weathers mend view pre post)
    (implies : ∀ state, post state → post' state) : routine.Weathers mend view pre post' :=
  fun state holds => (weathers state holds).mono fun _ _ outcome => ⟨outcome.1, implies _ outcome.2.1, outcome.2.2⟩

theorem Weathers.bind {next : α → Routine ε σ β} (front : routine.Weathers mend view pre mid)
    (rear : ∀ value, (next value).Weathers mend view mid post) (implies : ∀ state, mid state → post state) :
    (routine >>= next).Weathers mend view pre post := by
  intro state holds
  rw [allows_bind]
  refine (front state holds).mono ?_
  rintro result middle ⟨same, between, mended⟩
  cases result with
  | error code => exact ⟨same, implies middle between, nofun⟩
  | ok value =>
    refine (rear value middle between).mono ?_
    rintro outcome after ⟨still, last, healed⟩
    refine ⟨still.trans same, last, fun final done => ?_⟩
    rw [bind_ok (mended value rfl)]
    exact healed final done

theorem weathers_get_bind {next : σ → Routine ε σ α} (same : ∀ state, pre state → next (mend state) = next state)
    (rear : ∀ state, pre state → (next state).Weathers mend view (· = state) post) :
    (get >>= next).Weathers mend view pre post := by
  intro state holds
  refine (rear state holds state rfl).mono ?_
  rintro result after ⟨kept, last, mended⟩
  refine ⟨kept, last, fun value done => ?_⟩
  rw [bind_ok rfl, same state holds]
  exact mended value done

/-- The error code is handed to the caller, who does not succeed with it. -/
theorem Weathers.attempt_bind {next : Except ε α → Routine ε σ β} (front : routine.Weathers mend view pre mid)
    (rear : ∀ result, (next result).Weathers mend view mid post)
    (lost : ∀ code, (next (.error code)).Yields fun _ => False) :
    (routine.attempt >>= next).Weathers mend view pre post := by
  intro state holds
  rw [allows_bind, allows_attempt]
  refine (front state holds).mono ?_
  rintro result middle ⟨same, between, mended⟩
  intro outcome after computed
  obtain ⟨still, last, healed⟩ := rear result middle between outcome after computed
  refine ⟨still.trans same, last, fun final done => ?_⟩
  subst done
  cases result with
  | error code => exact (lost code middle final after computed).elim
  | ok value =>
    rw [bind_ok (attempt_eq (mended value rfl))]
    exact healed final rfl

/-- The caller gets the result of a routine on a local variable, and does not succeed with an error code. -/
theorem Weathers.local_bind {initial} {inner : Routine ε (σ × τ) α} {next : Except ε α × τ → Routine ε σ β}
    {within last : σ × τ → Prop} (front : inner.Weathers (Prod.map mend id) (view ∘ Prod.fst) within last)
    (inward : ∀ state, pre state → within (state, initial))
    (rear : ∀ result, (next result).Weathers mend view (fun _ => True) post)
    (lost : ∀ code value, (next (.error code, value)).Yields fun _ => False) :
    (inner.withLocal initial >>= next).Weathers mend view pre post := by
  intro state holds
  rw [allows_bind, allows_withLocal]
  refine (front (state, initial) (inward state holds)).mono ?_
  rintro result ⟨middle, value⟩ ⟨same, _, mended⟩
  intro outcome after computed
  obtain ⟨still, holds', healed⟩ := rear (result, value) middle trivial outcome after computed
  refine ⟨still.trans same, holds', fun final done => ?_⟩
  subst done
  cases result with
  | error code => exact (lost code value middle final after computed).elim
  | ok found =>
    have computed' : inner (mend state, initial) = some (.ok found, (mend middle, value)) := mended found rfl
    rw [bind_ok (withLocal_eq computed')]
    exact healed final rfl

theorem Weathers.zoom {look put} {inner : Routine ε τ α} {heal} {part : τ → ρ}
    {within last : τ → Prop} (weathers : inner.Weathers heal part within last)
    (looks : ∀ state, look (mend state) = heal (look state))
    (puts : ∀ after state, put (heal after) (mend state) = mend (put after state))
    (views : ∀ after state, part after = part (look state) → view (put after state) = view state)
    (inward : ∀ state, pre state → within (look state))
    (outward : ∀ after state, last after → pre state → post (put after state)) :
    (inner.zoom look put).Weathers mend view pre post := by
  intro state holds
  rw [allows_zoom]
  refine (weathers (look state) (inward state holds)).mono ?_
  rintro result after ⟨same, final, mended⟩
  refine ⟨views after state same, outward after state final holds, fun value done => ?_⟩
  unfold Routine.zoom
  rw [looks, mended value done, Option.map_some]
  exact congrArg (fun final => some (Except.ok value, final)) (puts after state)

theorem weathers_apart (keeps : ∀ state, pre state → routine.Allows state fun _ after => post after) :
    routine.Weathers id (fun _ => ()) pre post := by
  intro state holds result after computed
  refine ⟨rfl, keeps state holds result after computed, fun value done => ?_⟩
  subst done
  exact computed

end Weathers

def Unfailing (routine : Routine ε σ α) : Prop := ∀ state code after, routine state ≠ some (.error code, after)

/-- A call that returns an error leaves the view of the state alone. -/
def Reverts (routine : Routine ε σ α) (view : σ → υ) : Prop :=
  ∀ state code after, routine state = some (.error code, after) → view after = view state

section Reverts

variable {view : σ → υ} {routine : Routine ε σ α} {next : α → Routine ε σ β}

theorem unfailing_pure (value : α) : (pure value : Routine ε σ α).Unfailing := nofun

theorem unfailing_modify (f : σ → σ) : (modify f : Routine ε σ Unit).Unfailing := nofun

theorem unfailing_require (condition : Prop) [Decidable condition] : (require condition : Routine ε σ Unit).Unfailing := by
  unfold require
  split <;> exact nofun

theorem bind_failed {state final code} (computed : (routine >>= next) state = some (.error code, final)) :
    routine state = some (.error code, final) ∨
      ∃ value middle, routine state = some (.ok value, middle) ∧ next value middle = some (.error code, final) := by
  cases first : routine state with
  | none => cases (bind_halts first).symm.trans computed
  | some outcome =>
    obtain ⟨result, middle⟩ := outcome
    cases result with
    | ok value => exact Or.inr ⟨value, middle, rfl, (bind_ok first).symm.trans computed⟩
    | error other =>
      cases (bind_error first).symm.trans computed
      exact Or.inl rfl

theorem Unfailing.bind (front : routine.Unfailing) (rear : ∀ value, (next value).Unfailing) :
    (routine >>= next).Unfailing := by
  intro state code after computed
  rcases bind_failed computed with failed | ⟨value, middle, _, failed⟩
  · exact front state code after failed
  · exact rear value middle code after failed

theorem unfailing_get_bind {next : σ → Routine ε σ α} (rear : ∀ state, (next state).Unfailing) :
    (get >>= next).Unfailing := fun state => rear state state

theorem Unfailing.reverts (unfailing : routine.Unfailing) : routine.Reverts view :=
  fun state code after computed => absurd computed (unfailing state code after)

theorem reverts_fail (code : ε) : (fail code : Routine ε σ α).Reverts view := by
  rintro state _ _ ⟨⟩
  rfl

theorem Follows.reverts_bind (front : routine.Follows (Same view)) (rear : ∀ value, (next value).Reverts view) :
    (routine >>= next).Reverts view := by
  intro state code after computed
  rcases bind_failed computed with failed | ⟨value, middle, passed, failed⟩
  · exact front state _ _ failed
  · exact (rear value middle code after failed).trans (front state _ _ passed)

/-- What comes after the call that can fail does not fail. -/
theorem Reverts.bind_unfailing (front : routine.Reverts view) (rear : ∀ value, (next value).Unfailing) :
    (routine >>= next).Reverts view := by
  intro state code after computed
  rcases bind_failed computed with failed | ⟨value, middle, _, failed⟩
  · exact front state code after failed
  · exact absurd failed (rear value middle code after)

theorem Reverts.zoom {look put} {inner : Routine ε τ α} {part : τ → ρ} (reverts : inner.Reverts part)
    (views : ∀ after state, part after = part (look state) → view (put after state) = view state) :
    (inner.zoom look put).Reverts view := by
  intro state code after computed
  obtain ⟨⟨result, last⟩, failed, same⟩ := Option.map_eq_some_iff.mp computed
  cases same
  exact views last state (reverts _ _ _ failed)

theorem reverts_get_bind {next : σ → Routine ε σ α} (rear : ∀ state, (next state).Reverts view) :
    (get >>= next).Reverts view := fun state => rear state state

end Reverts

end Routine
