import Mathlib.Tactic.Common
import Os161.Memmove

/-! Whatever the overlap and the size of the elements, `memmove` leaves what a copy of all bytes at
once would leave. -/

namespace Os161.Libc

variable {size d s : Nat}

/-- The bytes from `s` on at `d`, read all at once. -/
def copied (d s len : Nat) (memory : Memory) : Memory := fun address =>
  if d ≤ address ∧ address < d + len then memory (s + (address - d)) else memory address

theorem assign_copied (below : d ≤ s) (n : Nat) (memory : Memory) :
    assign size d s n (copied d s (size * n) memory) = copied d s (size * (n + 1)) memory := by
  funext address
  simp only [assign, copied, Nat.mul_succ]
  split_ifs <;> first | rfl | omega

theorem copied_assign (above : s ≤ d) (n : Nat) (memory : Memory) :
    copied d s (size * n) (assign size d s n memory) = copied d s (size * (n + 1)) memory := by
  funext address
  simp only [assign, copied, Nat.mul_succ]
  split_ifs <;> first | rfl | omega

theorem copied_zero (memory : Memory) : copied d s (size * 0) memory = memory := by
  funext address
  exact if_neg (by omega)

theorem copyUp_eq (below : d ≤ s) (n : Nat) (memory : Memory) :
    copyUp size d s n memory = copied d s (size * n) memory := by
  induction n with
  | zero => exact (copied_zero memory).symm
  | succ n again => rw [copyUp, again, assign_copied below]

theorem copyDown_eq (above : s ≤ d) (n : Nat) (memory : Memory) :
    copyDown size d s n memory = copied d s (size * n) memory := by
  induction n generalizing memory with
  | zero => exact (copied_zero memory).symm
  | succ n again => rw [copyDown, again, copied_assign above]

theorem memmove_eq (dst src len : Nat) (memory : Memory) : memmove dst src len memory = (dst, copied dst src len memory) := by
  have words (aligned : byWords dst src len) : sizeofLong * (len / sizeofLong) = len :=
    Nat.mul_div_cancel' (Nat.dvd_of_mod_eq_zero aligned.2.2)
  rw [memmove, memcpy]
  by_cases below : dst < src
  · rw [if_pos below, copyUp_eq (Nat.le_of_lt below), copyUp_eq (Nat.le_of_lt below), Nat.one_mul]
    split
    next aligned => rw [words aligned]
    next => rfl
  · rw [if_neg below, copyDown_eq (Nat.le_of_not_lt below), copyDown_eq (Nat.le_of_not_lt below), Nat.one_mul]
    split
    next aligned => rw [words aligned]
    next => rfl

/-- The destination has the bytes the source had, and every other byte is as before. -/
theorem memmove_copies (dst src len : Nat) (memory : Memory) :
    (∀ i < len, (memmove dst src len memory).2 (dst + i) = memory (src + i)) ∧
      ∀ address, address < dst ∨ dst + len ≤ address → (memmove dst src len memory).2 address = memory address := by
  rw [memmove_eq]
  constructor
  · intro i inside
    refine (if_pos ⟨Nat.le_add_right dst i, by omega⟩).trans ?_
    rw [Nat.add_sub_cancel_left]
  · intro address outside
    exact if_neg (by omega)

end Os161.Libc
