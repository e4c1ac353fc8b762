import Mathlib.Data.List.Basic

/-! The contents of a growing array by position, with windows read from it and patches written over it. -/

namespace Contents
open List Option

variable {α : Type}

def window (content : Nat → α) (start n : Nat) : List α := (List.range n).map fun k => content (start + k)

def patch (content : Nat → α) (start : Nat) (data : List α) : Nat → α := fun pos =>
  if start ≤ pos then data.getD (pos - start) (content pos) else content pos

variable {content : Nat → α} {start : Nat}

@[simp] theorem window_length (n : Nat) : (window content start n).length = n := by
  rw [window, length_map, length_range]

variable {n k pos : Nat} {data : List α}

theorem window_getElem? (inside : k < n) : (window content start n)[k]? = some (content (start + k)) := by
  rw [window, List.getElem?_map, List.getElem?_range inside, map_some]

theorem window_add (n m : Nat) : window content start (n + m) = window content start n ++ window content (start + n) m := by
  simp only [window, List.range_add, List.map_append, List.map_map]
  congr 1
  apply List.map_congr_left
  intro k _
  simp only [Function.comp, Nat.add_assoc]

theorem window_take (within : k ≤ n) : (window content start n).take k = window content start k := by
  rw [window, ← map_take, take_range, Nat.min_eq_left within, window]

theorem window_drop (within : k ≤ n) : (window content start n).drop k = window content (start + k) (n - k) := by
  obtain ⟨m, rfl⟩ := Nat.exists_eq_add_of_le within
  rw [window_add, drop_left' (window_length k), Nat.add_sub_cancel_left]

theorem window_eq_replicate {value} :
    window content start n = List.replicate n value ↔ ∀ pos, start ≤ pos → pos < start + n → content pos = value := by
  rw [eq_replicate_iff, window_length]
  constructor
  · rintro ⟨_, all⟩ pos low high
    have member : content pos ∈ window content start n := by
      refine mem_map.mpr ⟨pos - start, mem_range.mpr (by omega), ?_⟩
      rw [Nat.add_sub_cancel' low]
    exact all _ member
  · intro all
    refine ⟨rfl, fun element member => ?_⟩
    obtain ⟨k, small, rfl⟩ := mem_map.mp member
    rw [mem_range] at small
    exact all _ (by omega) (by omega)

@[simp] theorem patch_nil : patch content start [] = content := by
  funext pos
  simp [patch]

theorem patch_append (first second : List α) :
    patch (patch content start first) (start + first.length) second = patch content start (first ++ second) := by
  funext pos
  unfold patch
  by_cases below : start ≤ pos
  · simp only [below, if_true, getD_eq_getElem?_getD, List.getElem?_append]
    by_cases within : pos - start < first.length
    · rw [if_neg (by omega), if_pos within]
    · have beyond : first[pos - start]? = none := List.getElem?_eq_none (by omega)
      rw [if_pos (by omega), if_neg within, beyond, getD_none, Nat.sub_sub]
  · rw [if_neg (by omega), if_neg below, if_neg below]

theorem patch_window (n : Nat) : patch content start (window content start n) = content := by
  funext pos
  unfold patch
  split
  · next below =>
    rw [getD_eq_getElem?_getD]
    by_cases within : pos - start < n
    · rw [window_getElem? within, getD_some, Nat.add_sub_cancel' below]
    · rw [List.getElem?_eq_none (by rw [window_length]; omega), getD_none]
  · rfl

theorem patch_outside (outside : pos < start ∨ start + data.length ≤ pos) :
    patch content start data pos = content pos := by
  unfold patch
  split
  · rw [getD_eq_getElem?_getD, List.getElem?_eq_none (by omega), getD_none]
  · rfl

theorem patch_inside (inside : k < data.length) : patch content start data (start + k) = data[k] := by
  rw [patch, if_pos (Nat.le_add_right start k), Nat.add_sub_cancel_left, getD_eq_getElem?_getD,
    List.getElem?_eq_getElem inside, getD_some]

theorem window_patch_apart (apart : pos + n ≤ start ∨ start + data.length ≤ pos) :
    window (patch content start data) pos n = window content pos n := by
  apply map_congr_left
  intro k member
  rw [mem_range] at member
  apply patch_outside
  omega

theorem window_patch_self (data : List α) : window (patch content start data) start data.length = data := by
  apply ext_getElem
  · rw [window_length]
  · intro k first second
    simp only [window, getElem_map, getElem_range]
    rw [patch_inside second]

/-- Writing back a window in which a part was replaced replaces that part. -/
theorem patch_refill (fits : k + data.length ≤ n) :
    patch content start ((window content start n).take k ++ data ++ (window content start n).drop (k + data.length)) =
      patch content (start + k) data := by
  have front : start + ((window content start n).take k).length = start + k := by
    rw [length_take, window_length, Nat.min_eq_left (by omega)]
  rw [append_assoc, ← patch_append, front, ← patch_append, window_take (by omega), patch_window,
    window_drop fits, ← Nat.add_assoc, ← window_patch_apart (Or.inr (Nat.le_refl _)), patch_window]

end Contents
