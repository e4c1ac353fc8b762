import Mathlib.Algebra.GroupWithZero.Nat
import Mathlib.Data.List.Basic

/-! Blocks laid one after another from a base address. Distinct places do not overlap, and the rest of a row matters
to the places of a part only by its size. -/

namespace Tiling
open List

variable {β : Type u} (size : β → Nat)

def extent (blocks : List β) : Nat := (blocks.map size).sum

def placed (base : Nat) : List β → List (Nat × β)
  | [] => []
  | block :: rest => (base, block) :: placed (base + size block) rest

def picked (pick : β → Bool) (base : Nat) (blocks : List β) : List (Nat × β) :=
  (placed size base blocks).filter fun place => pick place.2

@[simp] theorem extent_nil : extent size ([] : List β) = 0 := rfl

@[simp] theorem extent_cons (block : β) (rest : List β) : extent size (block :: rest) = size block + extent size rest :=
  sum_cons

@[simp] theorem extent_append (first second : List β) :
    extent size (first ++ second) = extent size first + extent size second := by
  rw [extent, map_append, sum_append]
  rfl

theorem placed_append (base : Nat) (first second : List β) :
    placed size base (first ++ second) = placed size base first ++ placed size (base + extent size first) second := by
  induction first generalizing base with
  | nil => rfl
  | cons block rest again =>
    rw [cons_append, placed, placed, again, extent_cons, Nat.add_assoc]
    rfl

variable {base address : Nat} {block : β} {blocks : List β} {pick : β → Bool}

theorem placed_bounds (member : (address, block) ∈ placed size base blocks) :
    base ≤ address ∧ address + size block ≤ base + extent size blocks := by
  induction blocks generalizing base with
  | nil => cases member
  | cons head rest again =>
    rw [extent_cons]
    rcases mem_cons.mp member with same | later
    · cases same
      omega
    · have inside := again later
      omega

theorem placed_split (member : (address, block) ∈ placed size base blocks) :
    ∃ before after, blocks = before ++ block :: after ∧ address = base + extent size before := by
  induction blocks generalizing base with
  | nil => cases member
  | cons head rest again =>
    rcases mem_cons.mp member with same | later
    · cases same
      exact ⟨[], rest, rfl, rfl⟩
    · obtain ⟨before, after, rfl, rfl⟩ := again later
      exact ⟨head :: before, after, rfl, by rw [extent_cons, Nat.add_assoc]⟩

theorem placed_apart {first second left right}
    (one : (first, left) ∈ placed size base blocks) (two : (second, right) ∈ placed size base blocks)
    (distinct : first ≠ second) : first + size left ≤ second ∨ second + size right ≤ first := by
  induction blocks generalizing base with
  | nil => cases one
  | cons head rest again =>
    rcases mem_cons.mp one with same | one
    · rcases mem_cons.mp two with same' | two
      · cases same
        cases same'
        exact absurd rfl distinct
      · cases same
        exact .inl (placed_bounds size two).1
    · rcases mem_cons.mp two with same | two
      · cases same
        exact .inr (placed_bounds size one).1
      · exact again one two

theorem picked_append (pick : β → Bool) (base : Nat) (first second : List β) :
    picked size pick base (first ++ second) =
      picked size pick base first ++ picked size pick (base + extent size first) second := by
  rw [picked, placed_append, filter_append]
  rfl

theorem picked_none (none : ∀ block ∈ blocks, pick block = false) (base : Nat) : picked size pick base blocks = [] := by
  induction blocks generalizing base with
  | nil => rfl
  | cons head rest again =>
    rw [picked, placed, filter_cons_of_neg (by simp [none head mem_cons_self])]
    exact again (fun block member => none block (mem_cons_of_mem head member)) _

theorem picked_one (chosen : pick block = true) (base : Nat) : picked size pick base [block] = [(base, block)] := by
  rw [picked, placed, filter_cons_of_pos (by exact chosen)]
  rfl

/-- Blocks that are not picked may be laid anew in the same room. -/
theorem picked_relaid (base : Nat) (before old new after : List β)
    (oldNone : ∀ block ∈ old, pick block = false) (newNone : ∀ block ∈ new, pick block = false)
    (room : extent size new = extent size old) :
    picked size pick base (before ++ new ++ after) = picked size pick base (before ++ old ++ after) := by
  simp only [picked_append, picked_none size oldNone, picked_none size newNone, extent_append, room]

end Tiling
