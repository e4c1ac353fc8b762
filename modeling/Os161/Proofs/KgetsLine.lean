import Mathlib.Data.List.DropRight
import Os161.Kgets

/-! The text in the buffer of `kgets` is what the keys make of a list of characters, whatever was in
the buffer before. -/

namespace Os161.Kgets
open List Function

variable {line : Line} {maxlen : Nat} {ch : Int}

def Line.text (line : Line) : List Int := (range line.pos).map line.buf

/-- A key that does not end the line. -/
def pressed (limit : Nat) (text : List Int) (ch : Int) : List Int :=
  if 32 ≤ ch ∧ ch < 127 ∧ text.length < limit then text ++ [ch]
  else if ch = 8 ∨ ch = 127 then text.dropLast
  else if ch = 21 then []
  else if ch = 23 then (text.rdropWhile (· = 32)).rdropWhile (· ≠ 32)
  else text

/-- Only the caller's buffer has been stored to, and there is room for the NUL. -/
structure Line.Fits (line : Line) (maxlen : Nat) : Prop where
  pos : line.pos < maxlen
  stores : ∀ i ∈ line.stores, i < maxlen

def Stops (ch : Int) : Prop := ch = 10 ∨ ch = 13 ∨ ch = 3

theorem erased_le (erase : Int → Bool) (buf : Nat → Int) (pos : Nat) : erased erase buf pos ≤ pos := by
  induction pos with
  | zero => exact Nat.le_refl 0
  | succ pos again =>
    rw [erased]
    split
    · exact Nat.le_succ_of_le again
    · exact Nat.le_refl _

theorem map_erased (erase : Int → Bool) (buf : Nat → Int) (pos : Nat) :
    (range (erased erase buf pos)).map buf = ((range pos).map buf).rdropWhile erase := by
  induction pos with
  | zero => rfl
  | succ pos again =>
    rw [erased, range_succ, map_append, map_singleton, rdropWhile_concat]
    split
    · exact again
    · rw [range_succ, map_append, map_singleton]

theorem Line.Fits.store (fits : line.Fits maxlen) (ch : Int) : (line.store ch).Fits maxlen :=
  ⟨fits.pos, forall_mem_cons.mpr ⟨fits.pos, fits.stores⟩⟩

theorem Line.text_store (line : Line) (ch : Int) : (line.store ch).text = line.text := by
  refine map_congr_left fun i below => update_of_ne ?_ _ _
  exact Nat.ne_of_lt (mem_range.mp below)

theorem Line.key_ok (fits : line.Fits maxlen) (goes : ¬ Stops ch) :
    ∃ next, line.key maxlen ch = .ok next ∧ next.text = pressed (maxlen - 1) line.text ch ∧ next.Fits maxlen := by
  have length : line.text.length = line.pos := by rw [Line.text, length_map, length_range]
  rw [Line.key, pressed, length, if_neg fun ends => goes (ends.imp_right .inl)]
  by_cases print : 32 ≤ ch ∧ ch < 127 ∧ line.pos < maxlen - 1
  · rw [if_pos print, if_pos print]
    refine ⟨_, rfl, ?_, ⟨by have := print.2.2; change line.pos + 1 < maxlen; omega, (fits.store ch).stores⟩⟩
    rw [← line.text_store ch, Line.text, Line.text, range_succ, map_append, map_singleton]
    exact congrArg (_ ++ [·]) (update_self ..)
  · rw [if_neg print, if_neg print]
    by_cases back : ch = 8 ∨ ch = 127
    · rw [if_pos back]
      cases pos : line.pos with
      | zero =>
        rw [if_neg (by omega), if_neg (by omega), if_neg (by omega), if_neg (by omega), if_neg (by omega)]
        exact ⟨line, rfl, by rw [Line.text, pos]; rfl, fits⟩
      | succ before =>
        rw [if_pos ⟨back, Nat.succ_pos before⟩]
        refine ⟨_, rfl, ?_, ⟨Nat.lt_of_le_of_lt (Nat.sub_le ..) (pos ▸ fits.pos), fits.stores⟩⟩
        rw [Line.text, Line.text, pos, range_succ, map_append, map_singleton, dropLast_concat]
        rfl
    · rw [if_neg back, if_neg fun both => back both.1, if_neg fun stop => goes (.inr (.inr stop))]
      by_cases reprint : ch = 18
      · rw [if_pos reprint, if_neg (by omega), if_neg (by omega)]
        exact ⟨_, rfl, line.text_store 0, fits.store 0⟩
      · rw [if_neg reprint]
        by_cases kill : ch = 21
        · rw [if_pos kill, if_pos kill]
          refine ⟨_, rfl, ?_, ⟨Nat.lt_of_le_of_lt (erased_le ..) fits.pos, fits.stores⟩⟩
          exact (map_erased ..).trans (rdropWhile_eq_nil_iff.mpr fun _ _ => rfl)
        · rw [if_neg kill, if_neg kill]
          by_cases word : ch = 23
          · rw [if_pos word, if_pos word]
            refine ⟨_, rfl, ?_, ⟨Nat.lt_of_le_of_lt ((erased_le ..).trans (erased_le ..)) fits.pos, fits.stores⟩⟩
            rw [Line.text, map_erased, map_erased]
            rfl
          · rw [if_neg word, if_neg word]
            exact ⟨line, rfl, rfl, fits⟩

theorem Line.key_stops (stop : Stops ch) : line.key maxlen ch = .error (if ch = 3 then { line with pos := 0 } else line) := by
  rw [Line.key]
  rcases stop with rfl | rfl | rfl <;> simp

/-- From any line that fits; the keys after the one that ends the line are not read. -/
theorem kgets_from (rest : List Int) {keys stop} (goes : ∀ ch ∈ keys, ¬ Stops ch) (stops : Stops stop)
    (fits : line.Fits maxlen) :
    ∃ last, kgets maxlen (keys ++ stop :: rest) line = some last ∧
      last.text = (if stop = 3 then [] else keys.foldl (pressed (maxlen - 1)) line.text) ∧
      last.buf last.pos = 0 ∧ ∀ i ∈ last.stores, i < maxlen := by
  induction keys generalizing line with
  | nil =>
    rw [nil_append, kgets, Line.key_stops stops]
    refine ⟨_, rfl, ?_, update_self .., ?_⟩
    · rw [Line.text_store]
      split <;> rfl
    · have short : (if stop = 3 then { line with pos := 0 } else line).Fits maxlen := by
        split
        · exact ⟨Nat.zero_lt_of_lt fits.pos, fits.stores⟩
        · exact fits
      exact (short.store 0).stores
  | cons ch keys again =>
    obtain ⟨goes, later⟩ := forall_mem_cons.mp goes
    obtain ⟨next, pressed, text, fits⟩ := Line.key_ok fits goes
    rw [cons_append, kgets, pressed, foldl_cons, ← text]
    exact again later fits

/-- The line holds the text that the keys make of the empty one, or none after `^C`, with the NUL
behind it, and nothing outside the caller's buffer is stored to. -/
theorem kgets_edits (maxlen : Nat) (positive : 1 ≤ maxlen) (buf : Nat → Int) (keys rest : List Int) (stop : Int)
    (goes : ∀ ch ∈ keys, ¬ Stops ch) (stops : Stops stop) :
    ∃ line, kgets maxlen (keys ++ stop :: rest) ⟨0, buf, []⟩ = some line ∧
      line.text = (if stop = 3 then [] else keys.foldl (pressed (maxlen - 1)) []) ∧
      line.buf line.pos = 0 ∧ ∀ i ∈ line.stores, i < maxlen :=
  kgets_from rest goes stops ⟨positive, nofun⟩

theorem kgets_edits_word : ∃ line, kgets 4 [97, 98, 8, 99, 10] ⟨0, fun _ => 7, []⟩ = some line ∧ line.text = [97, 99] := by
  obtain ⟨line, read, text, -⟩ := kgets_edits 4 (by decide) (fun _ => 7) [97, 98, 8, 99] [] 10
    (by simp [Stops]) (.inl rfl)
  exact ⟨line, read, text.trans (by decide)⟩

end Os161.Kgets
