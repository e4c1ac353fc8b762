import Mathlib.Data.List.Nodup

/-! A list of writes to a store, of which only some take effect. -/

namespace Writes
open List

variable {κ ν : Type} [DecidableEq κ] {succeeds : Nat → Bool} {writes : List (κ × ν)} {store : κ → ν}

/-- The store after those writes that succeed; write `n` asks `succeeds n`. -/
def landed (succeeds : Nat → Bool) : List (κ × ν) → (κ → ν) → κ → ν
  | [], store => store
  | (place, value) :: rest, store =>
    landed (fun n => succeeds (n + 1)) rest
      (if succeeds 0 then fun other => if other = place then value else store other else store)

theorem landed_append (second : List (κ × ν)) :
    landed succeeds (writes ++ second) store =
      landed (fun n => succeeds (n + writes.length)) second (landed succeeds writes store) := by
  induction writes generalizing succeeds store with
  | nil => rfl
  | cons write rest ih =>
    simp only [cons_append, landed, ih, length_cons, Nat.add_assoc]

theorem landed_other {place} (apart : place ∉ writes.map Prod.fst) : landed succeeds writes store place = store place := by
  induction writes generalizing succeeds store with
  | nil => rfl
  | cons write rest ih =>
    simp only [map_cons, mem_cons, not_or] at apart
    rw [landed, ih apart.2]
    split
    · exact if_neg apart.1
    · rfl

/-- A place that is written to once has the new value exactly if that write succeeds. -/
theorem landed_written (distinct : (writes.map Prod.fst).Nodup) {k place value}
    (found : writes[k]? = some (place, value)) :
    landed succeeds writes store place = if succeeds k then value else store place := by
  induction writes generalizing succeeds store k with
  | nil => cases found
  | cons write rest ih =>
    obtain ⟨target, other⟩ := write
    rw [map_cons, nodup_cons] at distinct
    cases k with
    | zero =>
      cases found
      rw [landed, landed_other distinct.1]
      split
      · exact if_pos rfl
      · rfl
    | succ k =>
      have later : rest[k]? = some (place, value) := found
      have member : place ∈ rest.map Prod.fst := mem_map_of_mem (mem_of_getElem? later)
      have different : place ≠ target := by
        rintro rfl
        exact distinct.1 member
      rw [landed, ih distinct.2 later]
      split
      · rfl
      · split
        · exact if_neg different
        · rfl

end Writes
