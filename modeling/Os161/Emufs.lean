import Mathlib.Data.List.Basic

/-! The vnodes of the emulator filesystem and their reference counts. A step is a section under `e_lock` or
`vn_countlock`; between the two of `VOP_DECREF` other threads run. -/

namespace Os161.Emu

structure EmufsVnode where
  handle : Nat
  refcount : Nat
  deriving DecidableEq, Repr

/-- `refs` are the references handed out, `decrefs` the threads in `VOP_DECREF` that have decided to reclaim a
vnode. `closed` and `kept` are history: closed handles, and vnodes for which `emufs_reclaim` failed. -/
structure Emufs where
  vnode : Nat → EmufsVnode
  vnodes : List Nat
  created : Nat
  refs : List Nat
  decrefs : List (Nat × Nat)
  closed : List Nat
  kept : List Nat

inductive EmuCall where
  | loadvnode (handle : Nat) (memory : Bool)
  | decref (t v : Nat)
  | reclaim (t v : Nat) (closes : Bool)
  deriving DecidableEq, Repr

namespace Emufs

def setRefcount (s : Emufs) (v refcount : Nat) : Emufs :=
  { s with vnode := Function.update s.vnode v { s.vnode v with refcount } }

/-- `memory` tells whether the allocations for a new vnode succeed. -/
def loadvnode (s : Emufs) (handle : Nat) (memory : Bool) : Emufs :=
  match s.vnodes.find? fun v => (s.vnode v).handle = handle with
  | some v => { s.setRefcount v ((s.vnode v).refcount + 1) with refs := v :: s.refs }
  | none =>
    if memory then
      { s with
        vnode := Function.update s.vnode s.created ⟨handle, 1⟩
        vnodes := s.vnodes ++ [s.created]
        created := s.created + 1
        refs := s.created :: s.refs }
    else s

/-- The section of `vnode_decref` under `vn_countlock`. `none` is a failed assertion. -/
def vnodeDecref (s : Emufs) (t v : Nat) : Option Emufs :=
  let released := { s with refs := s.refs.erase v }
  match (s.vnode v).refcount with
  | 0 => none
  | 1 => some { released with decrefs := (t, v) :: s.decrefs }
  | refcount + 2 => some (released.setRefcount v (refcount + 1))

/-- `emufs_reclaim`, which ends the thread's `VOP_DECREF`. `closes`: `emu_close` succeeds. `none` is a panic. -/
def reclaim (s : Emufs) (t v : Nat) (closes : Bool) : Option Emufs :=
  let done := { s with decrefs := s.decrefs.erase (t, v) }
  if (s.vnode v).refcount ≠ 1 then some { done with kept := v :: s.kept }
  else if !closes then some { done with kept := v :: s.kept }
  else if v ∈ s.vnodes then some { done with vnodes := s.vnodes.erase v, closed := v :: s.closed }
  else none

end Emufs

/-- A thread releases references that were handed out, and is in one call at a time. -/
def emuStep (s : Emufs) : EmuCall → Option Emufs
  | .loadvnode handle memory => some (s.loadvnode handle memory)
  | .decref t v => if v ∈ s.refs ∧ t ∉ s.decrefs.map Prod.fst then s.vnodeDecref t v else none
  | .reclaim t v closes => if (t, v) ∈ s.decrefs then s.reclaim t v closes else none

def noVnodes : Emufs := ⟨fun _ => ⟨0, 0⟩, [], 0, [], [], [], []⟩

end Os161.Emu
