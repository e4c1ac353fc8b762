import Os161.Proofs.SfsCalls

/-! A transfer from or to user memory that does not fault is the same as one from or to
kernel memory. -/

namespace Os161
open Routine

def Uio.kernel (uio : Uio) : Uio := { uio with segflg := .sysspace }

def Uio.NoFaults (uio : Uio) : Prop := uio.faults = fun _ => none

section Moves

theorem uioCopy_commutes (buffer : List UInt8) (size : Nat) : (uioCopy buffer size).Commutes Uio.NoFaults Uio.kernel := by
  have fault (uio : Uio) (inside : uio.NoFaults) : (if uio.segflg = .sysspace then none else uio.faults 0) = none := by
    rw [inside, ite_self]
  refine commutes_get_bind (fun uio inside => ?_) fun uio inside => ?_
  · have inside' : uio.kernel.NoFaults := inside
    rw [fault uio inside, fault uio.kernel inside']
    rfl
  · rw [fault uio inside]
    refine Commutes.bind (commutes_modify (fun state none => ?_) fun state none => ?_) fun _ => ?_
    · unfold Uio.NoFaults at none
      simp only [Uio.kernel, if_true]
      split
      · rfl
      · simp only [none]
    · unfold Uio.NoFaults at none ⊢
      split
      · exact none
      · simp only [none]
    · split
      · refine Commutes.bind (commutes_modify ?_ ?_) fun _ => commutes_pure buffer
        · exact fun _ _ => rfl
        · exact fun _ inside => inside
      · exact commutes_pure _
      · contradiction
      · contradiction

theorem uiomoveLoop_commutes (fuel : Nat) (buffer : List UInt8) :
    (uiomoveLoop fuel buffer).Commutes Uio.NoFaults Uio.kernel := by
  induction fuel generalizing buffer with
  | zero => exact commutes_pure buffer
  | succ fuel again =>
    refine commutes_get_bind (fun _ _ => rfl) fun uio _ => ?_
    split
    · exact commutes_pure buffer
    · refine (commutes_require _).bind fun _ => (uioCopy_commutes _ _).bind fun filled => ?_
      refine Commutes.bind (commutes_modify ?_ ?_) fun _ => (again _).bind fun later => commutes_pure _
      · exact fun _ _ => rfl
      · exact fun _ inside => inside

theorem uiomovezeros_commutes (n : Nat) : (uiomovezeros n).Commutes Uio.NoFaults Uio.kernel := by
  have loop (fuel n : Nat) : (uiomovezerosLoop fuel n).Commutes Uio.NoFaults Uio.kernel := by
    induction fuel generalizing n with
    | zero => exact commutes_pure ()
    | succ fuel again =>
      unfold uiomovezerosLoop
      split
      · exact commutes_pure ()
      · exact (uiomoveLoop_commutes _ _).bind fun _ => again _
  exact commutes_get_bind (fun _ _ => rfl) fun _ _ => (commutes_require _).bind fun _ => loop n n

end Moves

section Beside

variable {σ α : Type}

def uioFaultless (both : σ × Uio) : Prop := both.2.NoFaults

def uioKernel (both : σ × Uio) : σ × Uio := (both.1, both.2.kernel)

theorem onUio_commutes {routine} (commutes : routine.Commutes Uio.NoFaults Uio.kernel) :
    (onUio routine : Routine Errno (σ × Uio) α).Commutes uioFaultless uioKernel :=
  commutes.zoom (fun _ => rfl) (fun _ _ => rfl) (fun _ inside => inside) fun _ _ inside _ => inside

theorem onUio_modify_commutes {g} (swap : ∀ uio, g uio.kernel = (g uio).kernel)
    (keeps : ∀ uio, (g uio).faults = uio.faults) :
    (onUio (modify g) : Routine Errno (σ × Uio) Unit).Commutes uioFaultless uioKernel :=
  onUio_commutes (commutes_modify (fun uio _ => swap uio) fun uio inside => (keeps uio).trans inside)

theorem onDisk_commutes (routine : Routine Errno Lhd α) : (onDisk routine).Commutes uioFaultless uioKernel :=
  commutes_id.zoom (fun _ => rfl) (fun _ _ => rfl) (fun _ _ => trivial) fun _ _ _ inside => inside

theorem onSfs_commutes (routine : Routine Errno Sfs α) : (onSfs routine).Commutes uioFaultless uioKernel :=
  commutes_id.zoom (fun _ => rfl) (fun _ _ => rfl) (fun _ _ => trivial) fun _ _ _ inside => inside

end Beside

section Driver

theorem lhdSector_commutes (sector : UInt32) : (lhdSector sector).Commutes uioFaultless uioKernel := by
  refine commutes_get_bind (fun _ _ => rfl) fun both _ => ?_
  dsimp only
  split
  · refine (onUio_commutes (uiomoveLoop_commutes _ _)).bind fun _ => (onDisk_commutes _).bind fun _ => ?_
    exact commutes_pure ()
  · refine (onDisk_commutes _).bind fun _ => (onUio_commutes (uiomoveLoop_commutes _ _)).bind fun _ => ?_
    exact commutes_pure ()

theorem lhdLoop_commutes (len : Nat) (sector : UInt32) : (lhdLoop len sector).Commutes uioFaultless uioKernel := by
  induction len generalizing sector with
  | zero => exact commutes_pure ()
  | succ len again => exact (lhdSector_commutes sector).bind fun _ => again _

theorem lhdIo_commutes : lhdIo.Commutes uioFaultless uioKernel := by
  refine commutes_get_bind (fun _ _ => rfl) fun both _ => ?_
  dsimp only
  split
  · exact commutes_fail _
  · split
    · exact commutes_fail _
    · exact lhdLoop_commutes _ _

theorem sfsAttempt_commutes {again} (commutes : again.Commutes uioFaultless uioKernel) :
    (sfsAttempt again).Commutes uioFaultless uioKernel := by
  refine lhdIo_commutes.attempt.bind fun result => ?_
  split
  · exact commutes_halt
  · exact commutes
  · exact commutes_finish _

theorem sfsRwblock_commutes : sfsRwblock.Commutes uioFaultless uioKernel := by
  have retry (left : Nat) : (sfsRetry left).Commutes uioFaultless uioKernel := by
    induction left with
    | zero => exact sfsAttempt_commutes (commutes_fail _)
    | succ left again => exact sfsAttempt_commutes again
  exact retry 10

theorem onTransfer_commutes : (onTransfer sfsRwblock).Commutes uioFaultless uioKernel :=
  sfsRwblock_commutes.zoom (fun _ => rfl) (fun _ _ => rfl) (fun _ inside => inside) fun _ _ inside _ => inside

end Driver

section File

variable (sv : UInt32)

theorem sfsPartialio_commutes (skipstart len : UInt32) :
    (sfsPartialio sv skipstart len).Commutes uioFaultless uioKernel := by
  refine commutes_get_bind (fun _ _ => rfl) fun both _ => ?_
  refine (commutes_require _).bind fun _ => (onSfs_commutes _).bind fun diskblock => ?_
  refine (onSfs_commutes _).bind fun iobuf => (onUio_commutes (uiomoveLoop_commutes _ _)).bind fun moved => ?_
  split
  · exact commutes_pure ()
  · exact onSfs_commutes _

theorem sfsBlockio_commutes : (sfsBlockio sv).Commutes uioFaultless uioKernel := by
  refine commutes_get_bind (fun _ _ => rfl) fun both _ => (onSfs_commutes _).bind fun diskblock => ?_
  split
  · exact (commutes_require _).bind fun _ => onUio_commutes (uiomovezeros_commutes _)
  · refine (commutes_require _).bind fun _ => ?_
    refine Commutes.bind (onUio_modify_commutes ?_ ?_) fun _ => onTransfer_commutes.attempt.bind fun result =>
      Commutes.bind (onUio_modify_commutes ?_ ?_) fun _ => commutes_finish result
    · intro uio
      simp only [Uio.kernel]
    · exact fun _ => rfl
    · intro uio
      simp only [Uio.kernel]
    · exact fun _ => rfl

theorem sfsBlocks_commutes (nblocks : Nat) : (sfsBlocks sv nblocks).Commutes uioFaultless uioKernel := by
  induction nblocks with
  | zero => exact commutes_pure ()
  | succ nblocks again => exact (sfsBlockio_commutes sv).bind fun _ => again

theorem sfsLeading_commutes : (sfsLeading sv).Commutes uioFaultless uioKernel := by
  refine commutes_get_bind (fun _ _ => rfl) fun both _ => ?_
  dsimp only
  split
  · exact sfsPartialio_commutes sv _ _
  · exact commutes_pure ()

theorem sfsAligned_commutes : (sfsAligned sv).Commutes uioFaultless uioKernel := by
  refine commutes_get_bind (fun _ _ => rfl) fun both _ => ?_
  dsimp only
  split
  · exact commutes_pure ()
  · refine (commutes_require _).bind fun _ => (sfsBlocks_commutes sv _).bind fun _ => ?_
    refine commutes_get_bind (fun _ _ => rfl) fun both _ => (commutes_require _).bind fun _ => ?_
    split
    · exact sfsPartialio_commutes sv _ _
    · exact commutes_pure ()

theorem sfsTransfer_commutes (extraresid : UInt32) : (sfsTransfer sv extraresid).Commutes uioFaultless uioKernel := by
  have extend : (sfsExtend sv).Commutes uioFaultless uioKernel := by
    refine commutes_get_bind (fun _ _ => rfl) fun both _ => (onSfs_commutes _).bind fun vnode => ?_
    split
    · exact onSfs_commutes _
    · exact commutes_pure ()
  refine ((sfsLeading_commutes sv).bind fun _ => sfsAligned_commutes sv).attempt.bind fun result => ?_
  refine extend.bind fun _ => Commutes.bind (onUio_modify_commutes ?_ ?_) fun _ => commutes_finish result
  · exact fun _ => rfl
  · exact fun _ => rfl

theorem sfsIo_commutes : (sfsIo sv).Commutes uioFaultless uioKernel := by
  refine commutes_get_bind (fun _ _ => rfl) fun both _ => (onSfs_commutes _).bind fun vnode => ?_
  dsimp only
  split
  · exact sfsTransfer_commutes sv 0
  · split
    · exact commutes_pure ()
    · split
      · refine (commutes_require _).bind fun _ => Commutes.bind (onUio_modify_commutes ?_ ?_) fun _ =>
          sfsTransfer_commutes sv _
        · exact fun _ => rfl
        · exact fun _ => rfl
      · exact sfsTransfer_commutes sv 0

theorem vopRead_commutes : (vopRead sv).Commutes uioFaultless uioKernel := by
  refine commutes_get_bind (fun _ _ => rfl) fun both _ => (onSfs_commutes _).bind fun vnode => ?_
  split
  · exact commutes_fail _
  · exact (commutes_require _).bind fun _ => sfsIo_commutes sv

end File

end Os161
