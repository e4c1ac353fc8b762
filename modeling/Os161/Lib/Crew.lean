import Mathlib.Data.Fintype.Card

/-! Threads at points of a program, one of which moves at a time. The shared state follows by counting the threads
with a property, or by naming the only one. -/

namespace Crew
open List

variable {α : Type u} {crew : List α} {property : α → Bool} {t u : Nat} {old new member : α}

inductive Outcome (σ : Type u) where
  | next (state : σ)
  | blocked
  | panics

def Outcome.toOption {σ : Type u} : Outcome σ → Option σ
  | .next state => some state
  | .blocked => none
  | .panics => none

theorem Outcome.toOption_eq_some {σ : Type u} {outcome : Outcome σ} {state} :
    outcome.toOption = some state ↔ outcome = .next state := by
  cases outcome with
  | next reached => simp [Outcome.toOption]
  | blocked => simp [Outcome.toOption]
  | panics => simp [Outcome.toOption]

theorem getElem?_moved (found : crew[t]? = some old) :
    (crew.set t new)[u]? = some member ↔ u = t ∧ member = new ∨ u ≠ t ∧ crew[u]? = some member := by
  obtain ⟨inside, -⟩ := List.getElem?_eq_some_iff.mp found
  by_cases same : t = u
  · subst same
    simp [inside, eq_comm]
  · simp [same, Ne.symm same]

theorem getElem?_joined :
    (crew ++ [new])[u]? = some member ↔ u = crew.length ∧ member = new ∨ crew[u]? = some member := by
  rw [List.getElem?_append]
  by_cases inside : u < crew.length
  · simp [inside, Nat.ne_of_lt inside]
  · have outside : crew[u]? = none := by simpa using inside
    rw [if_neg inside, List.getElem?_singleton, outside]
    by_cases last : u = crew.length
    · simp [last, eq_comm]
    · have later : u - crew.length ≠ 0 := by omega
      simp [last, later]

theorem countP_moved (property : α → Bool) (new : α) (found : crew[t]? = some old) :
    (crew.set t new).countP property + (property old).toNat = crew.countP property + (property new).toNat := by
  obtain ⟨inside, rfl⟩ := List.getElem?_eq_some_iff.mp found
  rw [countP_set inside]
  have counted : property crew[t] = true → 0 < crew.countP property :=
    fun holds => countP_pos_iff.mpr ⟨crew[t], getElem_mem inside, holds⟩
  cases atOld : property crew[t] with
  | false => cases property new <;> simp
  | true =>
    have positive := counted atOld
    cases property new <;> simp <;> omega

theorem countP_joined (property : α → Bool) (new : α) :
    (crew ++ [new]).countP property = crew.countP property + (property new).toNat := by
  cases atNew : property new <;> simp [atNew]

theorem countP_pos (found : crew[t]? = some member) (holds : property member = true) :
    0 < crew.countP property :=
  countP_pos_iff.mpr ⟨member, mem_of_getElem? found, holds⟩

variable {other : α} {holder : Option Nat}

theorem unique_of_countP (atMost : crew.countP property ≤ 1) (found : crew[t]? = some member)
    (holds : property member = true) (foundOther : crew[u]? = some other) (holdsOther : property other = true) :
    t = u := by
  induction crew generalizing t u with
  | nil => cases found
  | cons head rest again =>
    have tail : (head :: rest).countP property = rest.countP property + (property head).toNat := by
      cases atHead : property head <;> simp [atHead]
    cases t with
    | zero =>
      cases u with
      | zero => rfl
      | succ u =>
        cases found
        have later : 0 < rest.countP property := countP_pos foundOther holdsOther
        rw [tail, holds, Bool.toNat_true] at atMost
        omega
    | succ t =>
      cases u with
      | zero =>
        cases foundOther
        have later : 0 < rest.countP property := countP_pos found holds
        rw [tail, holdsOther, Bool.toNat_true] at atMost
        omega
      | succ u => exact congrArg Nat.succ (again (by omega) found foundOther)

theorem countP_le_add {first second}
    (either : ∀ member ∈ crew, property member = true → first member = true ∨ second member = true) :
    crew.countP property ≤ crew.countP first + crew.countP second := by
  induction crew with
  | nil => simp
  | cons head rest again =>
    have tail := again fun member listed => either member (mem_cons_of_mem _ listed)
    have atHead := either head mem_cons_self
    rw [countP_cons, countP_cons, countP_cons]
    split
    next holds =>
      rcases atHead holds with one | other
      · rw [if_pos one]
        omega
      · rw [if_pos other]
        omega
    next => omega

/-- Where every class has a member, as many members as classes have one. -/
theorem card_le_countP {ι : Type v} [Fintype ι] [DecidableEq ι] (kind : α → Option ι)
    (each : ∀ k, ∃ member ∈ crew, kind member = some k) :
    Fintype.card ι ≤ crew.countP fun member => (kind member).isSome := by
  have all : Finset.univ ⊆ (crew.filterMap kind).toFinset := by
    intro k _
    obtain ⟨member, listed, same⟩ := each k
    rw [mem_toFinset, mem_filterMap]
    exact ⟨member, listed, same⟩
  calc Fintype.card ι = Finset.univ.card := rfl
    _ ≤ (crew.filterMap kind).toFinset.card := Finset.card_le_card all
    _ ≤ (crew.filterMap kind).length := toFinset_card_le _
    _ = crew.countP fun member => (kind member).isSome := length_filterMap_eq_countP

/-- In a set where everyone waits for someone of higher rank there is nobody. -/
theorem no_climb {stuck : Set ι} {rank : ι → Nat} {bound} (bounded : ∀ t, rank t ≤ bound)
    (climbs : ∀ t ∈ stuck, ∃ u ∈ stuck, rank t < rank u) : ¬ stuck.Nonempty := by
  rintro ⟨t, member⟩
  have higher : ∀ n, ∃ u ∈ stuck, n ≤ rank u := by
    intro n
    induction n with
    | zero => exact ⟨t, member, Nat.zero_le _⟩
    | succ n again =>
      obtain ⟨u, among, reached⟩ := again
      obtain ⟨v, later, above⟩ := climbs u among
      exact ⟨v, later, by omega⟩
  obtain ⟨u, -, above⟩ := higher (bound + 1)
  have below := bounded u
  omega

def Sole (crew : List α) (property : α → Bool) (holder : Option Nat) : Prop :=
  ∀ t, holder = some t ↔ ∃ member, crew[t]? = some member ∧ property member = true

theorem Sole.holds (sole : Sole crew property holder) (found : crew[t]? = some member)
    (holds : property member = true) : holder = some t :=
  (sole t).mpr ⟨member, found, holds⟩

theorem Sole.unique (sole : Sole crew property holder) (found : crew[t]? = some member) (holds : property member = true)
    (foundOther : crew[u]? = some other) (holdsOther : property other = true) : t = u := by
  have first := sole.holds found holds
  rw [sole.holds foundOther holdsOther] at first
  exact (Option.some.inj first).symm

theorem countP_le_one (unique : ∀ (t u : Nat) (first second : α), crew[t]? = some first → property first = true →
    crew[u]? = some second → property second = true → t = u) : crew.countP property ≤ 1 := by
  induction crew with
  | nil => simp
  | cons head rest again =>
    cases atHead : property head with
    | true =>
      have others : rest.countP property = 0 := by
        rw [countP_eq_zero]
        intro member listed holds
        obtain ⟨u, at_⟩ := mem_iff_getElem?.mp listed
        cases unique 0 (u + 1) head member rfl atHead at_ holds
      exact Nat.le_of_eq (by rw [countP_cons_of_pos atHead, others])
    | false =>
      rw [countP_cons_of_neg (by simp [atHead])]
      apply again
      intro t u first second atFirst holdsFirst atSecond holdsSecond
      exact Nat.succ.inj (unique (t + 1) (u + 1) first second atFirst holdsFirst atSecond holdsSecond)

theorem Sole.keeps (sole : Sole crew property holder) (found : crew[t]? = some old)
    (same : property new = property old) : Sole (crew.set t new) property holder := by
  intro u
  rw [sole u]
  constructor
  · rintro ⟨member, at_, holds⟩
    by_cases moved : u = t
    · subst moved
      rw [found] at at_
      cases at_
      exact ⟨new, (getElem?_moved found).mpr (Or.inl ⟨rfl, rfl⟩), same.trans holds⟩
    · exact ⟨member, (getElem?_moved found).mpr (Or.inr ⟨moved, at_⟩), holds⟩
  · rintro ⟨member, at_, holds⟩
    rcases (getElem?_moved found).mp at_ with ⟨rfl, rfl⟩ | ⟨-, at_⟩
    · exact ⟨old, found, same.symm.trans holds⟩
    · exact ⟨member, at_, holds⟩

theorem Sole.takes (sole : Sole crew property none) (found : crew[t]? = some old)
    (holds : property new = true) : Sole (crew.set t new) property (some t) := by
  intro u
  constructor
  · intro same
    cases same
    exact ⟨new, (getElem?_moved found).mpr (Or.inl ⟨rfl, rfl⟩), holds⟩
  · rintro ⟨member, at_, holds⟩
    rcases (getElem?_moved found).mp at_ with ⟨rfl, -⟩ | ⟨-, at_⟩
    · rfl
    · exact absurd (sole.holds at_ holds) (by simp)

theorem Sole.drops (sole : Sole crew property (some t)) (found : crew[t]? = some old)
    (lost : property new = false) : Sole (crew.set t new) property none := by
  intro u
  constructor
  · intro impossible
    cases impossible
  · rintro ⟨member, at_, holds⟩
    rcases (getElem?_moved found).mp at_ with ⟨-, rfl⟩ | ⟨moved, at_⟩
    · rw [lost] at holds
      cases holds
    · exact absurd (Option.some.inj (sole.holds at_ holds)).symm moved

theorem Sole.joins (sole : Sole crew property holder) (without : property new = false) :
    Sole (crew ++ [new]) property holder := by
  intro u
  rw [sole u]
  constructor
  · rintro ⟨member, at_, holds⟩
    exact ⟨member, getElem?_joined.mpr (Or.inr at_), holds⟩
  · rintro ⟨member, at_, holds⟩
    rcases getElem?_joined.mp at_ with ⟨-, rfl⟩ | at_
    · rw [without] at holds
      cases holds
    · exact ⟨member, at_, holds⟩

end Crew
