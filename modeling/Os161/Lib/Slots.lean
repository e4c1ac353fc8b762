import Mathlib.Data.Finset.Card

/-! A table of slots, empty or with a name and a value. With no name twice it is a finite map. -/

namespace Slots
open Function

variable {ν ι : Type}

def Bounded (table : Nat → Option (ν × ι)) (n : Nat) : Prop := ∀ slot, n ≤ slot → table slot = none

def Holds (table : Nat → Option (ν × ι)) (name : ν) (value : ι) : Prop := ∃ slot, table slot = some (name, value)

def Unique (table : Nat → Option (ν × ι)) : Prop :=
  ∀ {first second : Nat} {name : ν} {value other : ι},
    table first = some (name, value) → table second = some (name, other) → first = second

def count [DecidableEq ι] (table : Nat → Option (ν × ι)) (n : Nat) (value : ι) : Nat :=
  ((Finset.range n).filter fun slot => (table slot).map Prod.snd = some value).card

/-- What the table maps a name to. -/
def lookup [DecidableEq ν] (table : Nat → Option (ν × ι)) (n : Nat) (name : ν) : Option ι :=
  (List.range n).findSome? fun slot => (table slot).bind fun (other, value) => if other = name then some value else none

section Maps

variable {table : Nat → Option (ν × ι)} {n slot : Nat} {name : ν} {value : ι}

theorem Unique.agree (unique : Unique table) {other} (first : Holds table name value)
    (second : Holds table name other) : value = other := by
  obtain ⟨slot, here⟩ := first
  obtain ⟨slot', there⟩ := second
  cases unique here there
  rw [here, Option.some.injEq, Prod.mk.injEq] at there
  exact there.2

theorem Unique.put (unique : Unique table) (fresh : ∀ value, ¬ Holds table name value) :
    Unique (update table slot (some (name, value))) := by
  intro first second name' value' other here there
  rw [update_apply] at here there
  split at here
  next same =>
    split at there
    next same' => rw [same, same']
    next =>
      cases here
      exact absurd ⟨second, there⟩ (fresh other)
  next =>
    split at there
    next =>
      cases there
      exact absurd ⟨first, here⟩ (fresh value')
    next => exact unique here there

theorem Unique.clear (unique : Unique table) : Unique (update table slot none) := by
  intro first second name' value' other here there
  rw [update_apply] at here there
  split at here
  next => cases here
  next =>
    split at there
    next => cases there
    next => exact unique here there

theorem holds_put (empty : table slot = none) (name' : ν) (value' : ι) :
    Holds (update table slot (some (name, value))) name' value' ↔
      Holds table name' value' ∨ name' = name ∧ value' = value := by
  constructor
  · rintro ⟨other, here⟩
    rw [update_apply] at here
    split at here
    next =>
      cases here
      exact Or.inr ⟨rfl, rfl⟩
    next => exact Or.inl ⟨other, here⟩
  · rintro (⟨other, here⟩ | ⟨rfl, rfl⟩)
    · refine ⟨other, ?_⟩
      rw [update_of_ne, here]
      rintro rfl
      cases empty.symm.trans here
    · exact ⟨slot, update_self _ _ _⟩

theorem holds_clear (unique : Unique table) (there : table slot = some (name, value)) (name' : ν) (value' : ι) :
    Holds (update table slot none) name' value' ↔ Holds table name' value' ∧ name' ≠ name := by
  constructor
  · rintro ⟨other, here⟩
    rw [update_apply] at here
    split at here
    next => cases here
    next apart =>
      refine ⟨⟨other, here⟩, ?_⟩
      rintro rfl
      exact apart (unique here there)
  · rintro ⟨⟨other, here⟩, apart⟩
    refine ⟨other, ?_⟩
    rw [update_of_ne, here]
    rintro rfl
    rw [here, Option.some.injEq, Prod.mk.injEq] at there
    exact apart there.1

variable [DecidableEq ν]

theorem lookup_eq_some (unique : Unique table) (bounded : Bounded table n) :
    lookup table n name = some value ↔ Holds table name value := by
  have sound (value' : ι) (found : lookup table n name = some value') : Holds table name value' := by
    obtain ⟨slot, _, here⟩ := List.exists_of_findSome?_eq_some found
    obtain ⟨⟨other, stored⟩, entry, matched⟩ := Option.bind_eq_some_iff.mp here
    dsimp only at matched
    split at matched
    next same =>
      cases matched
      exact ⟨slot, same ▸ entry⟩
    next => cases matched
  constructor
  · exact sound value
  · rintro ⟨slot, here⟩
    cases found : lookup table n name with
    | some value' => rw [unique.agree (sound value' found) ⟨slot, here⟩]
    | none =>
      have inside : slot < n := by
        by_contra beyond
        cases here.symm.trans (bounded slot (by omega))
      have missing := List.findSome?_eq_none_iff.mp found slot (List.mem_range.mpr inside)
      rw [here, Option.bind_some] at missing
      simp at missing

theorem lookup_eq_none (unique : Unique table) (bounded : Bounded table n) :
    lookup table n name = none ↔ ∀ value, ¬ Holds table name value := by
  rw [Option.eq_none_iff_forall_ne_some]
  simp only [ne_eq, lookup_eq_some unique bounded]

end Maps

section Counts

variable [DecidableEq ι] {table : Nat → Option (ν × ι)} {n m slot : Nat} {name : ν} {value : ι}

theorem count_le (value : ι) : count table n value ≤ n := by
  calc _ ≤ (Finset.range n).card := Finset.card_filter_le _ _
    _ = n := Finset.card_range n

theorem count_pos (bounded : Bounded table n) : 0 < count table n value ↔ ∃ name, Holds table name value := by
  unfold count
  rw [Finset.card_pos]
  constructor
  · rintro ⟨slot, member⟩
    obtain ⟨_, here⟩ := Finset.mem_filter.mp member
    obtain ⟨⟨name, stored⟩, entry, same⟩ := Option.map_eq_some_iff.mp here
    exact ⟨name, slot, by rw [entry, ← same]⟩
  · rintro ⟨name, slot, here⟩
    refine ⟨slot, Finset.mem_filter.mpr ⟨Finset.mem_range.mpr ?_, by rw [here]; rfl⟩⟩
    by_contra beyond
    cases here.symm.trans (bounded slot (by omega))

theorem count_put (bounded : Bounded table n) (empty : table slot = none) (larger : n ≤ m) (inside : slot < m)
    (other : ι) :
    count (update table slot (some (name, value))) m other = count table n other + if other = value then 1 else 0 := by
  have slots : (Finset.range m).filter (fun k => (update table slot (some (name, value)) k).map Prod.snd = some other) =
      if other = value then insert slot ((Finset.range n).filter fun k => (table k).map Prod.snd = some other)
      else (Finset.range n).filter fun k => (table k).map Prod.snd = some other := by
    ext k
    have used (here : (table k).map Prod.snd = some other) : k < n := by
      by_contra beyond
      rw [bounded k (by omega)] at here
      cases here
    by_cases same : k = slot
    · subst same
      split
      next hit => simp [inside, hit]
      next miss => simp [empty, Ne.symm miss]
    · have rest : k < m ∧ (table k).map Prod.snd = some other ↔ k < n ∧ (table k).map Prod.snd = some other :=
        ⟨fun ⟨_, here⟩ => ⟨used here, here⟩, fun ⟨low, here⟩ => ⟨by omega, here⟩⟩
      rw [Finset.mem_filter, update_of_ne same, Finset.mem_range, rest]
      split
      · rw [Finset.mem_insert, Finset.mem_filter, Finset.mem_range, or_iff_right same]
      · rw [Finset.mem_filter, Finset.mem_range]
  unfold count
  rw [slots]
  split
  · simp [empty]
  · rfl

theorem count_clear (bounded : Bounded table n) (there : table slot = some (name, value)) (other : ι) :
    count (update table slot none) n other + (if other = value then 1 else 0) = count table n other := by
  have again : update (update table slot none) slot (some (name, value)) = table := by
    rw [update_idem, ← there, update_eq_self]
  have cleared : Bounded (update table slot none) n := by
    intro k beyond
    rw [update_apply]
    split
    · rfl
    · exact bounded k beyond
  have inside : slot < n := by
    by_contra beyond
    cases there.symm.trans (bounded slot (by omega))
  have put := @count_put ν ι _ _ n n slot name value cleared (update_self slot none table) (le_refl n) inside other
  rw [again] at put
  exact put.symm

end Counts

end Slots
