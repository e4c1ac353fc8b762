import Mathlib.Data.List.Basic
import Mathlib.Data.Nat.ModEq

/-! Lists in a ring of cells between a read and a write index. One cell stays unused, to tell a full ring from an
empty one. -/

namespace Ring
open List

variable {α : Type}

/-- The cells from index `i` on, up to the write index. -/
def contents (cells : List α) (write : Nat) : (fuel i : Nat) → List α
  | 0, _ => []
  | fuel + 1, i => if i = write then [] else cells[i]?.toList ++ contents cells write fuel ((i + 1) % cells.length)

/-- The ring holds the items, in this order from the read index on. -/
structure Holds (cells : List α) (read write : Nat) (items : List α) : Prop where
  room : items.length < cells.length
  reads : read < cells.length
  ends : write = (read + items.length) % cells.length
  stored : ∀ k < items.length, cells[(read + k) % cells.length]? = items[k]?

section Holds

variable {cells items : List α} {read write : Nat}

theorem Holds.nil (reads : read < cells.length) : Holds cells read read [] :=
  ⟨Nat.lt_of_le_of_lt (Nat.zero_le _) reads, reads, (Nat.mod_eq_of_lt reads).symm, nofun⟩

theorem mod_succ (i n : Nat) : (i % n + 1) % n = (i + 1) % n := Nat.mod_add_mod i n 1

/-- Two places of a ring are different if they are less than a whole turn apart. -/
theorem mod_ne (read : Nat) {n i j} (less : i < j) (turn : j < n) : (read + i) % n ≠ (read + j) % n := by
  intro same
  have congruent : i ≡ j [MOD n] := Nat.ModEq.add_left_cancel' read same
  have equal := congruent.eq_of_lt_of_lt (Nat.lt_trans less turn) turn
  exact Nat.ne_of_lt less equal

theorem Holds.tail {item} (holds : Holds cells read write (item :: items)) :
    cells[read]? = some item ∧ Holds cells ((read + 1) % cells.length) write items := by
  obtain ⟨room, reads, ends, stored⟩ := holds
  rw [length_cons] at room ends
  have positive : 0 < cells.length := Nat.lt_of_le_of_lt (Nat.zero_le _) reads
  have shift (k : Nat) : ((read + 1) % cells.length + k) % cells.length = (read + (k + 1)) % cells.length := by
    rw [Nat.mod_add_mod, Nat.add_assoc, Nat.add_comm 1 k]
  refine ⟨?_, Nat.lt_of_succ_lt room, Nat.mod_lt _ positive, ?_, fun k below => ?_⟩
  · have first := stored 0 (Nat.succ_pos _)
    rw [Nat.add_zero, Nat.mod_eq_of_lt reads] at first
    exact first
  · rw [shift, ends]
  · rw [shift, stored (k + 1) (Nat.succ_lt_succ below), List.getElem?_cons_succ]

section

variable (holds : Holds cells read write items)
include holds

theorem Holds.empty_iff : write = read ↔ items = [] := by
  obtain ⟨room, reads, rfl, stored⟩ := holds
  constructor
  · intro same
    by_contra some_
    have positive := length_pos_iff.mpr some_
    apply mod_ne read positive room
    rw [Nat.add_zero, Nat.mod_eq_of_lt reads, same]
  · rintro rfl
    exact Nat.mod_eq_of_lt reads

theorem Holds.full_iff : (write + 1) % cells.length = read ↔ items.length + 1 = cells.length := by
  obtain ⟨room, reads, rfl, stored⟩ := holds
  rw [mod_succ, Nat.add_assoc]
  constructor
  · intro same
    by_contra less
    apply mod_ne read (Nat.succ_pos items.length) (Nat.lt_of_le_of_ne room less)
    rw [Nat.add_zero, Nat.mod_eq_of_lt reads, same]
  · intro full
    rw [full, Nat.add_mod_right, Nat.mod_eq_of_lt reads]

theorem Holds.push (room : items.length + 1 < cells.length) (item : α) :
    Holds (cells.set write item) read ((write + 1) % cells.length) (items ++ [item]) := by
  obtain ⟨_, reads, rfl, stored⟩ := holds
  have inside : (read + items.length) % cells.length < cells.length := Nat.mod_lt _ (Nat.lt_of_le_of_lt (Nat.zero_le _) reads)
  refine ⟨?_, ?_, ?_, fun k below => ?_⟩
  · rw [length_append, length_set]
    exact room
  · rw [length_set]
    exact reads
  · rw [length_set, length_append, mod_succ, Nat.add_assoc]
    rfl
  · rw [length_set]
    rw [length_append, length_singleton] at below
    rcases Nat.lt_succ_iff_lt_or_eq.mp below with old | rfl
    · rw [List.getElem?_set_ne (mod_ne read old (Nat.lt_of_succ_lt room)).symm, stored k old, List.getElem?_append_left old]
    · rw [List.getElem?_set_self inside, List.getElem?_concat_length]

/-- Every pair of indices delimits some items, and they are what `contents` reads. -/
theorem Holds.contents_eq {fuel} (enough : items.length ≤ fuel) : contents cells write fuel read = items := by
  induction items generalizing read fuel with
  | nil =>
    cases fuel with
    | zero => rfl
    | succ fuel => rw [contents, if_pos (holds.empty_iff.mpr rfl).symm]
  | cons item items ih =>
    obtain ⟨first, rest⟩ := holds.tail
    cases fuel with
    | zero => cases enough
    | succ fuel =>
      have more : read ≠ write := fun same => nomatch holds.empty_iff.mp same.symm
      rw [contents, if_neg more, first, ih rest (Nat.le_of_succ_le_succ enough)]
      rfl

end

theorem exists_holds (reads : read < cells.length) (writes : write < cells.length) :
    ∃ items, Holds cells read write items := by
  have positive : 0 < cells.length := Nat.lt_of_le_of_lt (Nat.zero_le _) reads
  have bound : (write + cells.length - read) % cells.length < cells.length := Nat.mod_lt _ positive
  generalize counted : (write + cells.length - read) % cells.length = count at bound
  refine ⟨(List.range count).map fun k => cells.get ⟨(read + k) % cells.length, Nat.mod_lt _ positive⟩, ?_⟩
  refine ⟨by rwa [length_map, length_range], reads, ?_, fun k below => ?_⟩
  · rw [length_map, length_range, ← counted, Nat.add_mod_mod,
      show read + (write + cells.length - read) = write + cells.length by omega, Nat.add_mod_right,
      Nat.mod_eq_of_lt writes]
  · rw [length_map, length_range] at below
    simp [below, Nat.mod_lt _ positive]

theorem holds_contents (reads : read < cells.length) (writes : write < cells.length) :
    Holds cells read write (contents cells write cells.length read) := by
  obtain ⟨items, holds⟩ := exists_holds reads writes
  rw [holds.contents_eq (Nat.le_of_lt holds.room)]
  exact holds

end Holds

end Ring
