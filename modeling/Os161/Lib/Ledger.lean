import Mathlib.Tactic.Common

/-! Bookkeeping of a pool. A unit is marked when an owner has it or it is held back, and no unit is had twice. -/

structure Ledger {ω β : Type} (owns : ω → β → Prop) (held marked : β → Prop) : Prop where
  unique : ∀ {first second : ω} {unit : β}, owns first unit → owns second unit → first = second
  apart : ∀ {owner : ω} {unit : β}, owns owner unit → ¬ held unit
  marked_iff : ∀ unit, marked unit ↔ (∃ owner, owns owner unit) ∨ held unit

namespace Ledger

variable {ω β : Type} {owns owns' : ω → β → Prop} {held held' marked marked' : β → Prop}

section

variable (ledger : Ledger owns held marked)
include ledger

theorem marked_of_owns {owner unit} (had : owns owner unit) :
    marked unit := (ledger.marked_iff unit).mpr (Or.inl ⟨owner, had⟩)

theorem congr (same : ∀ owner unit, owns' owner unit ↔ owns owner unit)
    (bits : ∀ unit, marked' unit ↔ marked unit) : Ledger owns' held marked' where
  unique := by
    intro first second unit one other
    exact ledger.unique ((same first unit).mp one) ((same second unit).mp other)
  apart := by
    intro owner unit had
    exact ledger.apart ((same owner unit).mp had)
  marked_iff := by
    intro unit
    rw [bits, ledger.marked_iff]
    simp only [same]

theorem attach (target : ω) {fresh} (free : ¬ marked fresh)
    (given : ∀ owner unit, owns' owner unit ↔ owns owner unit ∨ owner = target ∧ unit = fresh)
    (bits : ∀ unit, marked' unit ↔ marked unit ∨ unit = fresh) : Ledger owns' held marked' where
  unique := by
    intro first second unit one other
    rcases (given first unit).mp one with one | ⟨rfl, rfl⟩
    · rcases (given second unit).mp other with other | ⟨rfl, rfl⟩
      · exact ledger.unique one other
      · exact absurd (ledger.marked_of_owns one) free
    · rcases (given second unit).mp other with other | ⟨same, _⟩
      · exact absurd (ledger.marked_of_owns other) free
      · exact same.symm
  apart := by
    intro owner unit had isHeld
    rcases (given owner unit).mp had with had | ⟨_, rfl⟩
    · exact ledger.apart had isHeld
    · exact free ((ledger.marked_iff unit).mpr (Or.inr isHeld))
  marked_iff := by
    intro unit
    rw [bits, ledger.marked_iff]
    constructor
    · rintro ((⟨owner, had⟩ | isHeld) | rfl)
      · exact Or.inl ⟨owner, (given owner unit).mpr (Or.inl had)⟩
      · exact Or.inr isHeld
      · exact Or.inl ⟨target, (given target unit).mpr (Or.inr ⟨rfl, rfl⟩)⟩
    · rintro (⟨owner, had⟩ | isHeld)
      · rcases (given owner unit).mp had with had | ⟨_, same⟩
        · exact Or.inl (Or.inl ⟨owner, had⟩)
        · exact Or.inr same
      · exact Or.inl (Or.inr isHeld)

theorem detach (leaves : ω → β → Prop) (kept : ∀ owner unit, owns' owner unit ↔ owns owner unit ∧ ¬ leaves owner unit)
    (bits : ∀ unit, marked' unit ↔ marked unit ∧ ¬ ∃ owner, owns owner unit ∧ leaves owner unit) :
    Ledger owns' held marked' where
  unique := by
    intro first second unit one other
    exact ledger.unique ((kept first unit).mp one).1 ((kept second unit).mp other).1
  apart := by
    intro owner unit had
    exact ledger.apart ((kept owner unit).mp had).1
  marked_iff := by
    intro unit
    rw [bits, ledger.marked_iff]
    constructor
    · rintro ⟨⟨owner, had⟩ | isHeld, none⟩
      · exact Or.inl ⟨owner, (kept owner unit).mpr ⟨had, fun left => none ⟨owner, had, left⟩⟩⟩
      · exact Or.inr isHeld
    · rintro (⟨owner, had⟩ | isHeld)
      · obtain ⟨had, stays⟩ := (kept owner unit).mp had
        refine ⟨Or.inl ⟨owner, had⟩, ?_⟩
        rintro ⟨other, has, left⟩
        cases ledger.unique had has
        exact stays left
      · exact ⟨Or.inr isHeld, fun ⟨_, had, _⟩ => ledger.apart had isHeld⟩

end

theorem marked_detached (before : Ledger owns held marked) (after : Ledger owns' held marked') (leaves : ω → β → Prop)
    (kept : ∀ owner unit, owns' owner unit ↔ owns owner unit ∧ ¬ leaves owner unit) (unit : β) :
    marked' unit ↔ marked unit ∧ ¬ ∃ owner, owns owner unit ∧ leaves owner unit := by
  have detached := before.detach leaves kept fun _ => Iff.rfl
  rw [after.marked_iff, ← detached.marked_iff]

theorem hold (ledger : Ledger owns held marked) {fresh} (free : ¬ marked fresh)
    (same : ∀ owner unit, owns' owner unit ↔ owns owner unit)
    (bits : ∀ unit, marked' unit ↔ marked unit ∨ unit = fresh) :
    Ledger owns' (fun unit => held unit ∨ unit = fresh) marked' where
  unique := by
    intro first second unit one other
    exact ledger.unique ((same first unit).mp one) ((same second unit).mp other)
  apart := by
    rintro owner unit had (isHeld | rfl)
    · exact ledger.apart ((same owner unit).mp had) isHeld
    · exact free (ledger.marked_of_owns ((same owner unit).mp had))
  marked_iff := by
    intro unit
    rw [bits, ledger.marked_iff]
    simp only [same, or_assoc]

end Ledger
