import Mathlib.Data.List.Nodup

/-! Singly linked lists in memory: a function gives the link of a node. -/

namespace Linked
open Function List

variable {κ : Type u} {next : κ → Option κ} {head : Option κ} {list : List κ}

/-- Following the links from `head` visits the nodes of the list in order, and then ends. -/
def Chain (next : κ → Option κ) : Option κ → List κ → Prop
  | head, [] => head = none
  | head, node :: rest => head = some node ∧ Chain next (next node) rest

theorem Chain.congr {next'} (chain : Chain next head list) (same : ∀ node ∈ list, next' node = next node) :
    Chain next' head list := by
  induction list generalizing head with
  | nil => exact chain
  | cons node rest ih =>
    obtain ⟨here, rest'⟩ := chain
    refine ⟨here, ?_⟩
    rw [same node mem_cons_self]
    exact ih rest' fun other member => same other (mem_cons_of_mem _ member)

theorem Chain.insert [DecidableEq κ] (chain : Chain next head list) {node} (fresh : node ∉ list) :
    Chain (update next node head) (some node) (node :: list) := by
  refine ⟨rfl, ?_⟩
  rw [update_self]
  refine chain.congr fun other member => update_of_ne ?_ _ _
  rintro rfl
  exact fresh member

/-- Walk along a list to the first node that passes. `none`: a check that cannot be made, or a list longer than
`fuel`. -/
def search (next : κ → Option κ) (check : κ → Option Bool) : (fuel : Nat) → Option κ → Option (Option κ)
  | _, none => some none
  | 0, some _ => none
  | fuel + 1, some node =>
    match check node with
    | none => none
    | some true => some (some node)
    | some false => search next check fuel (next node)

theorem search_chain {check test fuel} (chain : Chain next head list)
    (short : list.length ≤ fuel) (checks : ∀ node ∈ list, check node = some (test node)) :
    search next check fuel head = some (list.find? test) := by
  induction list generalizing head fuel with
  | nil =>
    rw [show head = none from chain]
    cases fuel <;> rfl
  | cons node rest ih =>
    obtain ⟨rfl, chain⟩ := chain
    cases fuel with
    | zero => cases short
    | succ fuel =>
      have here := checks node mem_cons_self
      cases passed : test node with
      | true => simp [search, here, passed]
      | false =>
        simp only [search, here, passed, List.find?_cons]
        exact ih chain (Nat.le_of_succ_le_succ short) fun other member => checks other (mem_cons_of_mem _ member)

def unlinkAfter [DecidableEq κ] (next : κ → Option κ) (target : κ) : (fuel : Nat) → (node : κ) → κ → Option κ
  | 0, _ => next
  | fuel + 1, node =>
    match next node with
    | none => next
    | some after => if after = target then update next node (next target) else unlinkAfter next target fuel after

def unlink [DecidableEq κ] (next : κ → Option κ) (target : κ) (fuel : Nat) : Option κ → (κ → Option κ) × Option κ
  | none => (next, none)
  | some node => if node = target then (next, next target) else (unlinkAfter next target fuel node, some node)

section Unlink

variable [DecidableEq κ] {target : κ} {fuel : Nat}

theorem unlinkAfter_chain {node} (chain : Chain next (next node) list) (distinct : (node :: list).Nodup)
    (member : target ∈ list) (short : list.length ≤ fuel) :
    Chain (unlinkAfter next target fuel node) (unlinkAfter next target fuel node node) (list.erase target) ∧
      ∀ other, other ∉ node :: list → unlinkAfter next target fuel node other = next other := by
  induction list generalizing node fuel with
  | nil => cases member
  | cons after rest ih =>
    obtain ⟨link, chain⟩ := chain
    obtain ⟨outside, distinct⟩ := nodup_cons.mp distinct
    cases fuel with
    | zero => cases short
    | succ fuel =>
      simp only [unlinkAfter, link]
      by_cases found : after = target
      · subst found
        rw [if_pos rfl, update_self, erase_cons_head]
        refine ⟨chain.congr fun other here => update_of_ne ?_ _ _, fun other away => update_of_ne ?_ _ _⟩
        · rintro rfl
          exact outside (mem_cons_of_mem _ here)
        · rintro rfl
          exact away mem_cons_self
      · rw [if_neg found, erase_cons_tail (by simpa using found)]
        have inRest : target ∈ rest := (mem_cons.mp member).resolve_left fun same => found same.symm
        obtain ⟨later, frame⟩ := ih chain distinct inRest (Nat.le_of_succ_le_succ short)
        refine ⟨⟨?_, later⟩, fun other away => frame other fun here => away (mem_cons_of_mem _ here)⟩
        rw [frame node outside, link]

theorem unlink_chain (chain : Chain next head list) (distinct : list.Nodup) (member : target ∈ list)
    (short : list.length ≤ fuel) :
    Chain (unlink next target fuel head).1 (unlink next target fuel head).2 (list.erase target) ∧
      ∀ other, other ∉ list → (unlink next target fuel head).1 other = next other := by
  cases list with
  | nil => cases member
  | cons node rest =>
    obtain ⟨rfl, chain⟩ := chain
    by_cases found : node = target
    · subst found
      simp only [unlink, if_true, erase_cons_head]
      exact ⟨chain, fun _ _ => trivial⟩
    · simp only [unlink, if_neg found]
      rw [erase_cons_tail (by simpa using found)]
      have inRest : target ∈ rest := (mem_cons.mp member).resolve_left fun same => found same.symm
      obtain ⟨later, frame⟩ := unlinkAfter_chain chain distinct inRest (Nat.le_of_succ_le short)
      exact ⟨⟨rfl, later⟩, frame⟩

end Unlink

end Linked
