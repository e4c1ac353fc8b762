import Mathlib.Tactic.Common

/-! The loop that looks for the first end mark of a sequence whose elements may be
unreadable. -/

namespace Scan

variable {α : Type}

/-- The first position from `k` on whose element satisfies `stop`; `none` if an element before it is unreadable. -/
def scan (element : Nat → Option α) (stop : α → Prop) [DecidablePred stop] : (fuel k : Nat) → Option Nat
  | 0, _ => none
  | fuel + 1, k =>
    match element k with
    | none => none
    | some value => if stop value then some k else scan element stop fuel (k + 1)

/-- The sequence ends at `n`. -/
structure Ends (element : Nat → Option α) (stop : α → Prop) (k n : Nat) : Prop where
  later : k ≤ n
  body : ∀ j, k ≤ j → j < n → ∃ value, element j = some value ∧ ¬ stop value
  mark : ∃ value, element n = some value ∧ stop value

variable {element : Nat → Option α} {stop : α → Prop} {k : Nat}

theorem Ends.unique {first second}
    (one : Ends element stop k first) (other : Ends element stop k second) : first = second := by
  have before {n m : Nat} (short : Ends element stop k n) (long : Ends element stop k m) : ¬ n < m := by
    intro less
    obtain ⟨value, found, stopped⟩ := short.mark
    obtain ⟨same, again, going⟩ := long.body n short.later less
    rw [found] at again
    cases again
    exact going stopped
  have left := before one other
  have right := before other one
  omega

theorem scan_eq_some [DecidablePred stop] {fuel n} :
    scan element stop fuel k = some n ↔ Ends element stop k n ∧ n < k + fuel := by
  induction fuel generalizing k with
  | zero =>
    refine ⟨nofun, fun ⟨ends, bound⟩ => ?_⟩
    exact absurd ends.later (by omega)
  | succ fuel ih =>
    rw [scan]
    cases found : element k with
    | none =>
      refine ⟨nofun, fun ⟨ends, _⟩ => ?_⟩
      have readable : ∃ value, element k = some value := by
        by_cases last : k = n
        · obtain ⟨value, here, _⟩ := ends.mark
          exact ⟨value, last ▸ here⟩
        · obtain ⟨value, here, _⟩ := ends.body k (Nat.le_refl k) (by have := ends.later; omega)
          exact ⟨value, here⟩
      obtain ⟨value, here⟩ := readable
      rw [found] at here
      cases here
    | some value =>
      by_cases stopped : stop value
      · have here : Ends element stop k k := ⟨Nat.le_refl k, fun j low high => absurd high (by omega), value, found, stopped⟩
        simp only [if_pos stopped, Option.some.injEq]
        refine ⟨fun same => same ▸ ⟨here, by omega⟩, fun ⟨ends, _⟩ => here.unique ends⟩
      · simp only [if_neg stopped, ih]
        constructor
        · intro ⟨ends, bound⟩
          refine ⟨⟨by have := ends.later; omega, fun j low high => ?_, ends.mark⟩, by omega⟩
          by_cases first : j = k
          · exact ⟨value, first ▸ found, stopped⟩
          · exact ends.body j (by omega) high
        · intro ⟨ends, bound⟩
          have different : k ≠ n := by
            intro same
            obtain ⟨other, here, stops⟩ := ends.mark
            rw [← same, found] at here
            cases here
            exact stopped stops
          exact ⟨⟨by have := ends.later; omega, fun j low high => ends.body j (by omega) high, ends.mark⟩, by omega⟩

end Scan
