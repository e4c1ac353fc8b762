import Mathlib.Data.Finset.Insert
import Mathlib.Data.Finset.Erase

/-! Memory handed out in blocks, known by what they were requested for and by a serial number. The pool may refuse.
-/

structure Pool.Block (κ : Type) where
  kind : κ
  serial : Nat
  deriving DecidableEq, Repr

/-- `serial` is the number of the next block and `grants` the answers to the coming requests. -/
structure Pool (κ : Type) [DecidableEq κ] where
  live : Finset (Pool.Block κ)
  serial : Nat
  grants : Nat → Bool
  numbered : ∀ block ∈ live, block.serial < serial

namespace Pool

variable {κ : Type} [DecidableEq κ] (pool : Pool κ) (kind : κ)

def answered : Pool κ := { pool with grants := fun n => pool.grants (n + 1) }

def granted : Pool κ :=
  { pool.answered with
    live := insert ⟨kind, pool.serial⟩ pool.live
    serial := pool.serial + 1
    numbered := by
      intro block member
      rcases Finset.mem_insert.mp member with rfl | old
      · exact Nat.lt_succ_self _
      · exact Nat.lt_succ_of_lt (pool.numbered block old) }

def request : Option Nat × Pool κ :=
  if pool.grants 0 then (some pool.serial, pool.granted kind) else (none, pool.answered)

def release (block : Block κ) : Pool κ :=
  { pool with
    live := pool.live.erase block
    numbered := fun other member => pool.numbered other (Finset.mem_of_mem_erase member) }

theorem unused : (⟨kind, pool.serial⟩ : Block κ) ∉ pool.live :=
  fun member => Nat.lt_irrefl _ (pool.numbered _ member)

end Pool
