import Mathlib.Tactic.FinCases
import Os161.Kheap

/-! The blocks of a page, the free list of a fresh page, and the bitmap of descriptors. -/

namespace Os161.Heap
open Vm Linked Function List

def IsBlock (page size b : Nat) : Prop := page ≤ b ∧ b < page + pageSize ∧ (b - page) % size = 0

theorem sizes_pos (k : Fin nsizes) : 0 < sizes k := by
  fin_cases k <;> decide

theorem sizes_mul (k : Fin nsizes) : pageSize / sizes k * sizes k = pageSize := by
  fin_cases k <;> decide

theorem blocks_pos (k : Fin nsizes) : 0 < pageSize / sizes k := by
  fin_cases k <;> decide

theorem blocks_le (k : Fin nsizes) : pageSize / sizes k ≤ 256 := by
  fin_cases k <;> decide

section Blocks

variable {k : Fin nsizes} {page b c : Nat}

theorem isBlock_iff : IsBlock page (sizes k) b ↔ ∃ i, i < pageSize / sizes k ∧ b = page + i * sizes k := by
  have whole := sizes_mul k
  constructor
  · rintro ⟨low, high, aligned⟩
    have exact_ : (b - page) / sizes k * sizes k = b - page := Nat.div_mul_cancel (Nat.dvd_of_mod_eq_zero aligned)
    refine ⟨(b - page) / sizes k, ?_, by omega⟩
    rw [Nat.div_lt_iff_lt_mul (sizes_pos k), whole]
    omega
  · rintro ⟨i, small, rfl⟩
    have bound : (i + 1) * sizes k ≤ pageSize / sizes k * sizes k := Nat.mul_le_mul_right _ small
    rw [whole, Nat.succ_mul] at bound
    have positive := sizes_pos k
    refine ⟨by omega, by omega, ?_⟩
    rw [Nat.add_sub_cancel_left]
    exact Nat.mul_mod_left _ _

theorem IsBlock.fits (block : IsBlock page (sizes k) b) : b + sizes k ≤ page + pageSize := by
  obtain ⟨i, small, rfl⟩ := isBlock_iff.mp block
  have bound : (i + 1) * sizes k ≤ pageSize / sizes k * sizes k := Nat.mul_le_mul_right _ small
  rw [sizes_mul, Nat.succ_mul] at bound
  omega

theorem IsBlock.apart (block : IsBlock page (sizes k) b) (other : IsBlock page (sizes k) c) (different : b ≠ c) :
    b + sizes k ≤ c ∨ c + sizes k ≤ b := by
  obtain ⟨i, _, rfl⟩ := isBlock_iff.mp block
  obtain ⟨j, _, rfl⟩ := isBlock_iff.mp other
  rcases Nat.lt_trichotomy i j with less | rfl | greater
  · have bound : (i + 1) * sizes k ≤ j * sizes k := Nat.mul_le_mul_right _ less
    rw [Nat.succ_mul] at bound
    omega
  · exact absurd rfl different
  · have bound : (j + 1) * sizes k ≤ i * sizes k := Nat.mul_le_mul_right _ greater
    rw [Nat.succ_mul] at bound
    omega

end Blocks

def blocksDown (page size : Nat) : (i : Nat) → List Nat
  | 0 => [page]
  | i + 1 => (page + (i + 1) * size) :: blocksDown page size i

variable {size j m : Nat}

theorem mem_blocksDown {page i b} : b ∈ blocksDown page size i ↔ ∃ j, j ≤ i ∧ b = page + j * size := by
  induction i with
  | zero => simp [blocksDown]
  | succ i ih =>
    simp only [blocksDown, mem_cons, ih]
    constructor
    · rintro (rfl | ⟨j, small, rfl⟩)
      · exact ⟨i + 1, Nat.le_refl _, rfl⟩
      · exact ⟨j, Nat.le_succ_of_le small, rfl⟩
    · rintro ⟨j, small, rfl⟩
      rcases Nat.lt_or_eq_of_le small with less | rfl
      · exact .inr ⟨j, Nat.le_of_lt_succ less, rfl⟩
      · exact .inl rfl

theorem length_blocksDown (page size i : Nat) : (blocksDown page size i).length = i + 1 := by
  induction i with
  | zero => rfl
  | succ i ih => rw [blocksDown, length_cons, ih]

theorem nodup_blocksDown (page i : Nat) (positive : 0 < size) : (blocksDown page size i).Nodup := by
  induction i with
  | zero => exact nodup_singleton _
  | succ i ih =>
    refine nodup_cons.mpr ⟨fun member => ?_, ih⟩
    obtain ⟨j, small, same⟩ := mem_blocksDown.mp member
    have equal : (i + 1) * size = j * size := Nat.add_left_cancel same
    have := Nat.eq_of_mul_eq_mul_right positive equal
    omega

theorem mem_allBlocks {k page b} :
    b ∈ blocksDown page (sizes k) (pageSize / sizes k - 1) ↔ IsBlock page (sizes k) b := by
  rw [mem_blocksDown, isBlock_iff]
  have positive := blocks_pos k
  constructor
  · rintro ⟨j, small, rfl⟩
    exact ⟨j, by omega, rfl⟩
  · rintro ⟨j, small, rfl⟩
    exact ⟨j, by omega, rfl⟩

/-- Some blocks of a page, each once: not more than the page has, and if as many then all. -/
theorem blocks_count {k page} {list : List Nat} (distinct : list.Nodup)
    (blocks : ∀ b ∈ list, IsBlock page (sizes k) b) :
    list.length ≤ pageSize / sizes k ∧
      (list.length = pageSize / sizes k → ∀ b, IsBlock page (sizes k) b → b ∈ list) := by
  have inside : list ⊆ blocksDown page (sizes k) (pageSize / sizes k - 1) :=
    fun b member => mem_allBlocks.mpr (blocks b member)
  have partOf := distinct.subperm inside
  have total : (blocksDown page (sizes k) (pageSize / sizes k - 1)).length = pageSize / sizes k := by
    have := blocks_pos k
    rw [length_blocksDown]
    omega
  refine ⟨total ▸ partOf.length_le, fun full b block => ?_⟩
  have same := partOf.perm_of_length_le (by omega)
  exact same.mem_iff.mpr (mem_allBlocks.mpr block)

def link (memory : Nat → Nat) (b : Nat) : Option Nat := if memory b = 0 then none else some (memory b)

theorem link_congr {memory memory' b} (same : memory' b = memory b) :
    link memory' b = link memory b := by
  rw [link, same, link]

theorem linkBlocks_chain {page} (nonzero : page ≠ 0) (positive : 0 < size) (memory : Nat → Nat) (i : Nat) :
    ∃ memory', linkBlocks page size memory i = some memory' ∧
      Chain (link memory') (some (page + i * size)) (blocksDown page size i) ∧
      ∀ a, a ∉ blocksDown page size i → memory' a = memory a := by
  induction i with
  | zero =>
    refine ⟨_, rfl, ⟨by rw [Nat.zero_mul, Nat.add_zero], ?_⟩, fun a outside => ?_⟩
    · change link (update memory page 0) page = none
      simp [link]
    · exact update_of_ne (fun same => outside (by simp [blocksDown, same])) _ _
  | succ i ih =>
    obtain ⟨memory', linked, chain, frame⟩ := ih
    have different : page + (i + 1) * size ≠ page + i * size := by
      rw [Nat.succ_mul]
      omega
    have fresh : page + (i + 1) * size ∉ blocksDown page size i := by
      intro member
      obtain ⟨j, small, same⟩ := mem_blocksDown.mp member
      have equal : (i + 1) * size = j * size := Nat.add_left_cancel same
      have := Nat.eq_of_mul_eq_mul_right positive equal
      omega
    refine ⟨_, by rw [linkBlocks, linked]; exact if_neg different, ⟨rfl, ?_⟩, fun a outside => ?_⟩
    · have here : link (update memory' (page + (i + 1) * size) (page + i * size)) (page + (i + 1) * size) =
          some (page + i * size) := by
        rw [link, update_self, if_neg (by omega)]
      rw [here]
      refine chain.congr fun b member => link_congr (update_of_ne ?_ _ _)
      rintro rfl
      exact fresh member
    · rw [blocksDown, mem_cons, not_or] at outside
      rw [update_of_ne outside.1, frame a outside.2]

def InUse (inuse : Fin inuseWords → BitVec 32) (p : Fin npagerefs) : Prop :=
  (inuse (inuseWord p)).getLsbD (p.val % 32) = true

theorem getLsbD_bit (small : m < 32) : (bit j).getLsbD m = decide (m = j) := by
  have one : (1#32).getLsbD (m - j) = decide (m - j = 0) := by
    simp
  rw [bit, BitVec.getLsbD_shiftLeft, one]
  simp only [small, decide_true, Bool.true_and]
  by_cases below : m < j
  · simp [below, Nat.ne_of_lt below]
  · simp [below]
    omega

theorem getLsbD_set (w : BitVec 32) (small : m < 32) : (w ||| bit j).getLsbD m = (w.getLsbD m || decide (m = j)) := by
  rw [BitVec.getLsbD_or, getLsbD_bit small]

theorem getLsbD_clear (w : BitVec 32) (small : m < 32) :
    (w &&& ~~~bit j).getLsbD m = (w.getLsbD m && !decide (m = j)) := by
  rw [BitVec.getLsbD_and, BitVec.getLsbD_not, getLsbD_bit small]
  simp [small]

theorem ref_eq {p q} (words : inuseWord p = inuseWord q) (bits : p.val % 32 = q.val % 32) : p = q := by
  have words : p.val / 32 = q.val / 32 := congrArg Fin.val words
  apply Fin.ext
  omega

theorem clear_bit {w} (space : w ≠ BitVec.allOnes 32) :
    ∃ j, (List.finRange 32).find? (fun j : Fin 32 => !w.getLsbD j.val) = some j ∧ w.getLsbD j.val = false := by
  cases found : (List.finRange 32).find? fun j : Fin 32 => !w.getLsbD j.val with
  | none =>
    exfalso
    apply space
    apply BitVec.eq_of_getLsbD_eq
    intro m small
    have set := List.find?_eq_none.mp found ⟨m, small⟩ (mem_finRange _)
    rw [BitVec.getLsbD_allOnes]
    simpa [small] using set
  | some j => exact ⟨j, rfl, by simpa using List.find?_some found⟩

theorem allocpageref_cases (inuse : Fin inuseWords → BitVec 32) :
    allocpageref inuse = some none ∨
    ∃ p inuse', allocpageref inuse = some (some (p, inuse')) ∧ ¬ InUse inuse p ∧
      ∀ q, InUse inuse' q ↔ InUse inuse q ∨ q = p := by
  cases found : (List.finRange inuseWords).find? fun i => inuse i ≠ BitVec.allOnes 32 with
  | none =>
    left
    simp only [allocpageref, found]
  | some i =>
    right
    have space : inuse i ≠ BitVec.allOnes 32 := by simpa using List.find?_some found
    obtain ⟨j, first, clear⟩ := clear_bit space
    have word : inuseWord ⟨i.val * 32 + j.val, pageref_lt i j⟩ = i := by
      apply Fin.ext
      simp only [inuseWord]
      omega
    have place : (i.val * 32 + j.val) % 32 = j.val := by omega
    refine ⟨⟨i.val * 32 + j.val, pageref_lt i j⟩, update inuse i (inuse i ||| bit j.val),
      by simp only [allocpageref, found, first], ?_, fun q => ?_⟩
    · rw [InUse, word, place, clear]
      decide
    · by_cases here : inuseWord q = i
      · have same : q = ⟨i.val * 32 + j.val, pageref_lt i j⟩ ↔ q.val % 32 = j.val := by
          constructor
          · rintro rfl
            exact place
          · intro bits
            exact ref_eq (here.trans word.symm) (bits.trans place.symm)
        rw [InUse, here, update_self, getLsbD_set _ (Nat.mod_lt _ (by decide)), InUse, here, same]
        simp
      · have other : q ≠ ⟨i.val * 32 + j.val, pageref_lt i j⟩ := by
          rintro rfl
          exact here word
        rw [InUse, update_of_ne here, InUse]
        simp [other]

theorem freepageref_clears {inuse p} (used : InUse inuse p) :
    ∃ inuse', freepageref inuse p = some inuse' ∧ ∀ q, InUse inuse' q ↔ InUse inuse q ∧ q ≠ p := by
  have small : p.val % 32 < 32 := Nat.mod_lt _ (by decide)
  have set : ¬ inuse (inuseWord p) &&& bit (p.val % 32) = 0 := by
    intro zero
    have cleared := congrArg (fun w : BitVec 32 => w.getLsbD (p.val % 32)) zero
    simp only [BitVec.getLsbD_and, getLsbD_bit small, decide_true, Bool.and_true] at cleared
    rw [used] at cleared
    simp at cleared
  refine ⟨_, if_neg set, fun q => ?_⟩
  by_cases here : inuseWord q = inuseWord p
  · have same : q = p ↔ q.val % 32 = p.val % 32 := ⟨fun equal => by rw [equal], ref_eq here⟩
    rw [InUse, here, update_self, getLsbD_clear _ (Nat.mod_lt _ (by decide)), InUse, here, ne_eq, same]
    simp
  · have other : q ≠ p := by
      rintro rfl
      exact here rfl
    rw [InUse, update_of_ne here, InUse]
    simp [other]

end Os161.Heap
