import Os161.Bitmap
import Mathlib.Data.Nat.Bitwise

/-! The bits of a bitmap under allocation and release, and the set of indices it stands for. -/

namespace Os161
open Routine List

structure Bitmap.Sized (b : Bitmap) : Prop where
  bits : b.nbits.toNat = 8 * b.v.length
  small : b.nbits.toNat ≤ 131072

/-- The bits of the last word that are beyond the end are set. -/
structure Bitmap.Padded (b : Bitmap) : Prop where
  fits : b.nbits.toNat + 7 < 2 ^ 32
  length : b.v.length = (b.nbits.toNat + 7) / 8
  padding : ∀ index, b.nbits ≤ index → index.toNat / 8 < b.v.length → b.isset index = true

def Bitmap.mark (b : Bitmap) (index : UInt32) : Bitmap :=
  b.setWord (index.toNat / 8) (b.word (index.toNat / 8) ||| bitMask (index.toNat % 8))

def Bitmap.unmark (b : Bitmap) (index : UInt32) : Bitmap :=
  b.setWord (index.toNat / 8) (b.word (index.toNat / 8) &&& ~~~bitMask (index.toNat % 8))

theorem bitmapWords_toNat {nbits} (fits : nbits.toNat + 7 < 2 ^ 32) :
    (bitmapWords nbits).toNat = (nbits.toNat + 7) / 8 := by
  rw [bitmapWords, UInt32.toNat_div, UInt32.toNat_sub, UInt32.toNat_add]
  simp only [UInt32.reduceToNat]
  omega

variable {offset other : Nat} {word : UInt8}

section

variable (small : offset < 8)
include small

private theorem bitMask_toNat : (bitMask offset).toNat = 2 ^ offset := by
  have cases : ∀ offset < 8, (bitMask offset).toNat = 2 ^ offset := by decide
  exact cases offset small

theorem masked_iff : word &&& bitMask offset ≠ 0 ↔ word.toNat.testBit offset = true := by
  rw [Ne, ← UInt8.toNat_inj, UInt8.toNat_and, bitMask_toNat small, Nat.and_two_pow]
  cases word.toNat.testBit offset <;> simp

theorem unmasked_iff : word &&& bitMask offset = 0 ↔ word.toNat.testBit offset = false := by
  rw [← Bool.not_eq_true, ← masked_iff small, Ne, not_not]

theorem testBit_or_mask :
    (word ||| bitMask offset).toNat.testBit other = (word.toNat.testBit other || decide (offset = other)) := by
  rw [UInt8.toNat_or, bitMask_toNat small, Nat.testBit_or, Nat.testBit_two_pow]

theorem testBit_and_mask (inside : other < 8) :
    (word &&& ~~~bitMask offset).toNat.testBit other = (word.toNat.testBit other && decide (offset ≠ other)) := by
  have cases : ∀ offset < 8, ∀ other < 8, (~~~bitMask offset).toNat.testBit other = decide (offset ≠ other) := by decide
  rw [UInt8.toNat_and, Nat.testBit_and, cases offset small other inside]

end

namespace Bitmap

variable {b : Bitmap}

theorem isset_iff (b : Bitmap) (index : UInt32) :
    b.isset index = true ↔ (b.word (index.toNat / 8)).toNat.testBit (index.toNat % 8) = true := by
  rw [isset, decide_eq_true_iff]
  exact masked_iff (Nat.mod_lt _ (by decide))

theorem word_setWord {ix} (inside : ix < b.v.length) (word : UInt8) (other : Nat) :
    (b.setWord ix word).word other = if ix = other then word else b.word other := by
  simp only [Bitmap.word, setWord, getD_eq_getElem?_getD, List.getElem?_set, inside, if_true]
  split <;> rfl

variable {index : UInt32}

private theorem index_eq {other} (word : index.toNat / 8 = other.toNat / 8)
    (offset : index.toNat % 8 = other.toNat % 8) : other = index := by
  apply UInt32.toNat_inj.mp
  omega

theorem isset_mark (inside : index.toNat / 8 < b.v.length) (other : UInt32) :
    (b.mark index).isset other = true ↔ b.isset other = true ∨ other = index := by
  rw [isset_iff, isset_iff, mark, word_setWord inside]
  split
  · next same =>
    rw [testBit_or_mask (Nat.mod_lt _ (by decide)), Bool.or_eq_true, decide_eq_true_iff, same]
    constructor
    · exact Or.imp_right (index_eq same)
    · exact Or.imp_right (fun eq => eq ▸ rfl)
  · next differs =>
    constructor
    · exact Or.inl
    · rintro (set | rfl)
      · exact set
      · exact absurd rfl differs

theorem isset_unmark (inside : index.toNat / 8 < b.v.length) (other : UInt32) :
    (b.unmark index).isset other = true ↔ b.isset other = true ∧ other ≠ index := by
  rw [isset_iff, isset_iff, unmark, word_setWord inside]
  split
  · next same =>
    rw [testBit_and_mask (Nat.mod_lt _ (by decide)) (Nat.mod_lt _ (by decide)), Bool.and_eq_true, decide_eq_true_iff, same]
    constructor
    · exact And.imp_right (fun differs eq => differs (eq ▸ rfl))
    · exact And.imp_right (fun differs eq => differs (index_eq same eq))
  · next differs =>
    constructor
    · exact fun set => ⟨set, fun eq => differs (eq ▸ rfl)⟩
    · exact And.left

theorem isset_full {ix} (full : b.word ix = wordAllbits) (here : index.toNat / 8 = ix) : b.isset index = true := by
  have bits : ∀ offset < 8, wordAllbits.toNat.testBit offset = true := by decide
  rw [isset_iff, here, full]
  exact bits _ (Nat.mod_lt _ (by decide))

theorem Padded.inside (padded : b.Padded) (range : index < b.nbits) : index.toNat / 8 < b.v.length := by
  rw [UInt32.lt_iff_toNat_lt] at range
  rw [padded.length]
  omega

theorem Padded.words (padded : b.Padded) : (bitmapWords b.nbits).toNat = b.v.length :=
  (bitmapWords_toNat padded.fits).trans padded.length.symm

theorem Padded.mark (padded : b.Padded) (inside : index.toNat / 8 < b.v.length) : (b.mark index).Padded := by
  have length : (b.mark index).v.length = b.v.length := length_set
  refine ⟨padded.fits, length.trans padded.length, fun other beyond within => ?_⟩
  rw [length] at within
  exact (isset_mark inside other).mpr (.inl (padded.padding other beyond within))

theorem Padded.unmark (padded : b.Padded) (range : index < b.nbits) : (b.unmark index).Padded := by
  have length : (b.unmark index).v.length = b.v.length := length_set
  refine ⟨padded.fits, length.trans padded.length, fun other beyond within => ?_⟩
  rw [length] at within
  refine (isset_unmark (padded.inside range) other).mpr ⟨padded.padding other beyond within, ?_⟩
  rintro rfl
  exact UInt32.not_le.mpr range beyond

theorem Sized.padded (sized : b.Sized) : b.Padded := by
  have bits := sized.bits
  have small := sized.small
  refine ⟨by omega, by omega, fun index beyond within => ?_⟩
  rw [UInt32.le_iff_toNat_le] at beyond
  omega

theorem Sized.isset_range (sized : b.Sized) (set : b.isset index = true) : index < b.nbits := by
  rw [UInt32.lt_iff_toNat_lt, sized.bits]
  by_contra beyond
  rw [isset_iff, Bitmap.word, getD_eq_getElem?_getD, List.getElem?_eq_none (by omega), Option.getD_none] at set
  simp at set

theorem Sized.setWord (sized : b.Sized) (ix : Nat) (word : UInt8) : (b.setWord ix word).Sized := by
  refine ⟨?_, sized.small⟩
  rw [Bitmap.setWord, length_set]
  exact sized.bits

end Bitmap

/-- The search of `bitmap_alloc` in a word. -/
private theorem clear_bit {word} (open_ : word ≠ wordAllbits) :
    ∃ offset < 8, (List.range 8).find? (fun offset => word &&& bitMask offset = 0) = some offset ∧
      word.toNat.testBit offset = false ∧ ∀ lower < offset, word.toNat.testBit lower = true := by
  cases search : (List.range 8).find? (fun offset => word &&& bitMask offset = 0) with
  | some offset =>
    obtain ⟨clear, small, before⟩ := List.find?_range_eq_some.mp search
    have small := mem_range.mp small
    refine ⟨offset, small, rfl, (unmasked_iff small).mp (of_decide_eq_true clear), fun lower less => ?_⟩
    apply (masked_iff (Nat.lt_trans less small)).mp
    simpa using before lower less
  | none =>
    refine absurd (UInt8.toNat_inj.mp (Nat.eq_of_testBit_eq fun i => ?_)) open_
    change _ = (2 ^ 8 - 1).testBit i
    rw [Nat.testBit_two_pow_sub_one]
    by_cases small : i < 8
    · have set := List.find?_eq_none.mp search i (mem_range.mpr small)
      rw [decide_eq_true_iff] at set
      rw [(masked_iff small).mp set, decide_eq_true small]
    · rw [decide_eq_false small]
      apply Nat.testBit_lt_two_pow
      exact lt_of_lt_of_le word.toNat_lt (Nat.pow_le_pow_right (by decide) (by omega))

section Alloc

variable {b : Bitmap}

/-- What `bitmap_alloc` does: it takes the least index from `start` on that is not marked. -/
def Bitmap.Finds (b : Bitmap) (start : Nat) (result : Except Errno UInt32) (after : Bitmap) : Prop :=
  (result = .error .enospc ∧ after = b ∧ ∀ index < b.nbits, start ≤ index.toNat → b.isset index = true) ∨
  ∃ index, result = .ok index ∧ index < b.nbits ∧ b.isset index = false ∧ after = b.mark index ∧
    ∀ lower < index, start ≤ lower.toNat → b.isset lower = true

private theorem bitmapAllocLoop_ensures (padded : b.Padded) (left ix : Nat) (rest : ix + left = b.v.length) :
    (bitmapAllocLoop left ix).Ensures b (b.Finds (ix * 8)) := by
  have length := padded.length
  have fits := padded.fits
  induction left generalizing ix with
  | zero =>
    rw [bitmapAllocLoop, ensures_fail]
    refine Or.inl ⟨rfl, rfl, fun index range low => ?_⟩
    have inside := padded.inside range
    omega
  | succ left again =>
    rw [bitmapAllocLoop]
    simp only [ensures_bind, ensures_get, after_ok]
    split
    · next open_ =>
      obtain ⟨offset, small, search, clear, before⟩ := clear_bit open_
      have value : (UInt32.ofNat (ix * 8 + offset)).toNat = ix * 8 + offset := by
        rw [UInt32.toNat_ofNat', Nat.mod_eq_of_lt]
        omega
      have quotient : (UInt32.ofNat (ix * 8 + offset)).toNat / 8 = ix := by omega
      have remainder : (UInt32.ofNat (ix * 8 + offset)).toNat % 8 = offset := by omega
      have unset : b.isset (UInt32.ofNat (ix * 8 + offset)) = false := by
        rw [← Bool.not_eq_true, Bitmap.isset_iff, quotient, remainder, clear]
        exact Bool.false_ne_true
      -- a bit beyond the end would be set
      have range : UInt32.ofNat (ix * 8 + offset) < b.nbits := by
        by_contra beyond
        rw [padded.padding _ (UInt32.not_lt.mp beyond) (by omega)] at unset
        cases unset
      rw [search]
      simp only [ensures_bind, ensures_modify, after_ok, ensures_require, ensures_pure]
      refine ⟨range, Or.inr ⟨_, rfl, range, unset, by rw [Bitmap.mark, quotient, remainder], fun lower less low => ?_⟩⟩
      rw [UInt32.lt_iff_toNat_lt, value] at less
      have same : lower.toNat / 8 = ix := by omega
      rw [Bitmap.isset_iff, same]
      exact before _ (by omega)
    · next full =>
      have set (index : UInt32) (low : ix * 8 ≤ index.toNat) (high : ¬ (ix + 1) * 8 ≤ index.toNat) :
          b.isset index = true := Bitmap.isset_full (not_not.mp full) (by omega)
      apply (again (ix + 1) (by omega)).mono
      rintro result after (⟨failed, same, rest⟩ | ⟨index, found, range, clear, marked, least⟩)
      · refine Or.inl ⟨failed, same, fun index range low => ?_⟩
        by_cases later : (ix + 1) * 8 ≤ index.toNat
        · exact rest index range later
        · exact set index low later
      · refine Or.inr ⟨index, found, range, clear, marked, fun lower less low => ?_⟩
        by_cases later : (ix + 1) * 8 ≤ lower.toNat
        · exact least lower less later
        · exact set lower low later

theorem bitmapAlloc_ensures (padded : b.Padded) : bitmapAlloc.Ensures b (b.Finds 0) := by
  unfold bitmapAlloc
  simp only [ensures_bind, ensures_get, after_ok]
  have found := bitmapAllocLoop_ensures padded b.v.length 0 (Nat.zero_add _)
  rwa [padded.words]

theorem bitmapUnmark_eq {index} (range : index < b.nbits) (set : b.isset index = true) :
    bitmapUnmark index b = some (.ok (), b.unmark index) := by
  unfold bitmapUnmark
  rw [bind_ok rfl, bind_ok (require_pos range), bind_ok (require_pos set)]
  rfl

end Alloc

section Create

variable {nbits : UInt32} (fits : nbits.toNat + 7 < 2 ^ 32)
include fits

theorem bitmapCreate_eq : bitmapCreate nbits =
    ⟨nbits, (List.replicate ((nbits.toNat + 7) / 8) 0).modify (nbits.toNat / 8)
      (fillWord (8 - nbits.toNat % 8) (nbits.toNat % 8))⟩ := by
  have words := bitmapWords_toNat fits
  by_cases short : nbits / 8 < bitmapWords nbits
  · have last : (bitmapWords nbits - 1).toNat = nbits.toNat / 8 := by
      rw [UInt32.lt_iff_toNat_lt, UInt32.toNat_div] at short
      rw [UInt32.toNat_sub]
      simp only [UInt32.reduceToNat] at *
      omega
    have overbits : (nbits - (bitmapWords nbits - 1) * 8).toNat = nbits.toNat % 8 := by
      rw [UInt32.toNat_sub, UInt32.toNat_mul, last]
      simp only [UInt32.reduceToNat]
      omega
    simp only [bitmapCreate, if_pos short, words, last, overbits]
  · rw [modify_eq_self]
    · simp only [bitmapCreate, if_neg short, words]
    · rw [UInt32.lt_iff_toNat_lt, UInt32.toNat_div, words] at short
      rw [length_replicate]
      simp only [UInt32.reduceToNat] at short
      omega

omit fits in
theorem testBit_fillWord {left offset} (within : offset + left ≤ 8) (word : UInt8) (bit : Nat) :
    (fillWord left offset word).toNat.testBit bit =
      (word.toNat.testBit bit || decide (offset ≤ bit ∧ bit < offset + left)) := by
  induction left generalizing offset word with
  | zero => simp [fillWord]
  | succ left ih =>
    rw [fillWord, ih (by omega), testBit_or_mask (by omega), Bool.or_assoc, ← Bool.decide_or]
    congr 2
    apply propext
    omega

theorem bitmapCreate_isset (index : UInt32) :
    (bitmapCreate nbits).isset index = true ↔ nbits ≤ index ∧ index.toNat / 8 < (nbits.toNat + 7) / 8 := by
  rw [Bitmap.isset_iff, bitmapCreate_eq fits, Bitmap.word, getD_eq_getElem?_getD, List.getElem?_modify,
    List.getElem?_replicate, UInt32.le_iff_toNat_le]
  by_cases inside : index.toNat / 8 < (nbits.toNat + 7) / 8
  · rw [if_pos inside, Option.map_eq_map, Option.map_some, Option.getD_some]
    split
    · rw [testBit_fillWord (by omega), UInt8.toNat_zero, Nat.zero_testBit, Bool.false_or, decide_eq_true_iff]
      omega
    · rw [UInt8.toNat_zero, Nat.zero_testBit]
      exact iff_of_false Bool.false_ne_true (by omega)
  · simp [inside]

end Create

/-- The bitmap stands for a set of indices below its end. -/
structure Bitmap.Represents (b : Bitmap) (nbits : UInt32) (marked : Set UInt32) : Prop where
  size : b.nbits = nbits
  padded : b.Padded
  range : ∀ index ∈ marked, index < nbits
  bits : ∀ index < nbits, b.isset index = true ↔ index ∈ marked

section Sets

variable {b : Bitmap} {nbits index : UInt32} {marked : Set UInt32}

theorem bitmapCreate_represents (fits : nbits.toNat + 7 < 2 ^ 32) : (bitmapCreate nbits).Represents nbits ∅ := by
  have bits : (bitmapCreate nbits).nbits = nbits := by rw [bitmapCreate_eq fits]
  have length : (bitmapCreate nbits).v.length = (nbits.toNat + 7) / 8 := by
    rw [bitmapCreate_eq fits, length_modify, length_replicate]
  refine ⟨bits, ⟨by rwa [bits], by rw [bits, length], fun index beyond inside => ?_⟩, nofun, fun index range => ?_⟩
  · rw [bits] at beyond
    rw [length] at inside
    exact (bitmapCreate_isset fits index).mpr ⟨beyond, inside⟩
  · refine iff_of_false (fun set => ?_) id
    exact UInt32.not_le.mpr range ((bitmapCreate_isset fits index).mp set).1

theorem Bitmap.Represents.mark (represents : b.Represents nbits marked) (below : index < nbits) :
    (b.mark index).Represents nbits (insert index marked) := by
  obtain ⟨rfl, padded, range, bits⟩ := represents
  have inside := padded.inside below
  refine ⟨rfl, padded.mark inside, ?_, fun other within => ?_⟩
  · rintro other (rfl | member)
    · exact below
    · exact range other member
  · rw [Bitmap.isset_mark inside, bits other within, or_comm]
    rfl

theorem Bitmap.Represents.unmark (represents : b.Represents nbits marked) (below : index < nbits) :
    (b.unmark index).Represents nbits (marked \ {index}) := by
  obtain ⟨rfl, padded, range, bits⟩ := represents
  refine ⟨rfl, padded.unmark below, fun other member => range other member.1, fun other within => ?_⟩
  rw [Bitmap.isset_unmark (padded.inside below), bits other within]
  rfl

theorem bitmapMark_eq (range : index < b.nbits) (clear : b.isset index = false) :
    bitmapMark index b = some (.ok (), b.mark index) := by
  unfold bitmapMark
  rw [bind_ok rfl, bind_ok (require_pos range), bind_ok (require_pos clear)]
  rfl

end Sets

/-- The bitmaps that calls lead to, each with the set of the indices that are marked. -/
inductive BitmapRun (nbits : UInt32) : Bitmap → Set UInt32 → Prop where
  | create : BitmapRun nbits (bitmapCreate nbits) ∅
  | mark {b after marked index} (run : BitmapRun nbits b marked) (range : index < nbits) (clear : index ∉ marked)
      (done : bitmapMark index b = some (.ok (), after)) : BitmapRun nbits after (insert index marked)
  | unmark {b after marked index} (run : BitmapRun nbits b marked) (set : index ∈ marked)
      (done : bitmapUnmark index b = some (.ok (), after)) : BitmapRun nbits after (marked \ {index})
  | alloc {b after marked index} (run : BitmapRun nbits b marked)
      (done : bitmapAlloc b = some (.ok index, after)) : BitmapRun nbits after (insert index marked)

section Run

variable {b : Bitmap} {nbits : UInt32} {marked : Set UInt32}

theorem BitmapRun.represents (fits : nbits.toNat + 7 < 2 ^ 32) (run : BitmapRun nbits b marked) :
    b.Represents nbits marked := by
  induction run with
  | create => exact bitmapCreate_represents fits
  | @mark b after marked index _ range clear done ih =>
    have unset : b.isset index = false := Bool.eq_false_iff.mpr (mt (ih.bits index range).mp clear)
    rw [bitmapMark_eq (ih.size ▸ range) unset] at done
    cases done
    exact ih.mark range
  | @unmark b after marked index _ set done ih =>
    have range := ih.range index set
    rw [bitmapUnmark_eq (ih.size ▸ range) ((ih.bits index range).mpr set)] at done
    cases done
    exact ih.unmark range
  | alloc _ done ih =>
    rcases (bitmapAlloc_ensures ih.padded).elim done with ⟨failed, -⟩ | ⟨index, same, range, -, rfl, -⟩
    · cases failed
    · cases same
      exact ih.mark (ih.size ▸ range)

/-- Only the bit of the index is other than before. -/
def Bitmap.Sets (b after : Bitmap) (index : UInt32) (value : Bool) : Prop :=
  ∀ other, after.isset other = if other = index then value else b.isset other

end Run

end Os161
