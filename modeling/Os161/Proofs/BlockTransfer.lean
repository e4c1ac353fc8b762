import Os161.Proofs.UioTransfer

/-! One sector through the disk driver. A write moves the uio before the operation starts, a read after it
succeeded. -/

namespace Os161
open Routine

def Lhd.tick (lh : Lhd) : Lhd := { lh with outcomes := fun n => lh.outcomes (n + 1) }

def Uio.sector (uio : Uio) : UInt32 := u32 (uio.offset.tdiv 512)

structure Uio.OneSector (uio : Uio) : Prop where
  aligned : u32 (uio.offset.tmod 512) = 0
  resid : uio.resid = 512
  enough : 512 ≤ uio.rest.length

variable {lh : Lhd} {sector : UInt32} {uio : Uio}

private theorem in_range (inside : sector < lh.dBlocks) : ¬ lh.dBlocks < sector + UInt32.ofNat 1 := by
  rw [UInt32.lt_iff_toNat_lt] at inside
  simp only [UInt32.lt_iff_toNat_lt, UInt32.toNat_add]
  simp
  omega

private theorem lhdStart_ensures (lh : Lhd) (rw : UioRw) (buffer : Block) (inside : sector < lh.dBlocks) :
    (lhdStart rw sector buffer).Ensures lh fun result after =>
      (lh.outcomes 0 = false ∧ result = .error .eio ∧ after = lh.tick) ∨ (lh.outcomes 0 = true ∧ match rw with
        | .read => result = .ok (lh.sectors sector) ∧ after = lh.tick
        | .write => result = .ok buffer ∧ after = lh.tick.store sector buffer) := by
  have low : ¬ lh.dBlocks ≤ sector := by simpa using inside
  unfold lhdStart
  simp only [ensures_bind, ensures_get, after_ok, if_neg low, ensures_modify]
  cases outcome : lh.outcomes 0 with
  | false =>
    simp only [Bool.false_eq_true, ite_false, ensures_fail]
    exact Or.inl ⟨trivial, trivial, rfl⟩
  | true =>
    simp only [ite_true]
    cases rw with
    | read =>
      simp only [ensures_pure]
      exact Or.inr ⟨trivial, trivial, rfl⟩
    | write =>
      simp only [ensures_bind, ensures_modify, after_ok, ensures_pure]
      exact Or.inr ⟨trivial, trivial, rfl⟩

private theorem lhdIo_one (one : uio.OneSector) (inside : uio.sector < lh.dBlocks)
    (post : Except Errno Unit → Lhd × Uio → Prop) (body : (lhdSector uio.sector).Ensures (lh, uio) post) :
    lhdIo.Ensures (lh, uio) post := by
  have range := in_range inside
  unfold Uio.sector at range body
  unfold lhdIo
  simp only [ensures_bind, ensures_get, after_ok, one.aligned, one.resid, ne_eq, not_true_eq_false, Nat.mod_self,
    or_self, ite_false]
  rw [if_neg range]
  simp only [lhdLoop, ensures_bind]
  apply body.mono
  intro result next holds
  cases result with
  | ok value => simpa using holds
  | error code => simpa using holds

theorem lhdIo_write (direction : uio.rw = .write) (one : uio.OneSector) (inside : uio.sector < lh.dBlocks) :
    lhdIo.Ensures (lh, uio) fun result next =>
      (result = .error .efault ∧ uio.segflg ≠ .sysspace ∧ next.1 = lh ∧ uio.Stays next.2) ∨
      (lh.outcomes 0 = false ∧ result = .error .eio ∧ next.1 = lh.tick ∧ uio.Moves next.2 (uio.rest.take 512)) ∨
      (lh.outcomes 0 = true ∧ result = .ok () ∧ next.1 = lh.tick.store uio.sector (Block.ofList (uio.rest.take 512)) ∧
        uio.Moves next.2 (uio.rest.take 512)) := by
  apply lhdIo_one one inside
  unfold lhdSector onUio onDisk
  simp only [ensures_bind, ensures_get, after_ok, direction, ensures_zoom]
  have length := Block.length_toList Block.zeros
  have enough := one.enough
  have asked := one.resid
  apply (uiomove_ensures uio (by omega) (by omega) (by omega)).mono
  intro result next outcome
  rcases outcome with ⟨rfl, user, stays⟩ | ⟨rfl, moves⟩
  · exact Or.inl ⟨rfl, user, rfl, stays⟩
  · have carried : uio.payload Block.zeros.toList = uio.rest.take 512 := by simp [Uio.payload, direction, length]
    rw [carried] at moves ⊢
    simp only [after_ok, ensures_bind, ensures_zoom]
    apply (lhdStart_ensures lh .write _ inside).mono
    intro result disk outcome
    rcases outcome with ⟨failed, rfl, rfl⟩ | ⟨succeeded, rfl, rfl⟩
    · exact Or.inr (Or.inl ⟨failed, rfl, rfl, moves⟩)
    · simp only [after_ok, ensures_pure]
      exact Or.inr (Or.inr ⟨succeeded, trivial, trivial, moves⟩)

theorem lhdIo_read (direction : uio.rw = .read) (one : uio.OneSector) (inside : uio.sector < lh.dBlocks) :
    lhdIo.Ensures (lh, uio) fun result next =>
      (lh.outcomes 0 = true ∧ result = .error .efault ∧ uio.segflg ≠ .sysspace ∧ next.1 = lh.tick ∧ uio.Stays next.2) ∨
      (lh.outcomes 0 = false ∧ result = .error .eio ∧ next = (lh.tick, uio)) ∨
      (lh.outcomes 0 = true ∧ result = .ok () ∧ next.1 = lh.tick ∧
        uio.Moves next.2 (lh.sectors uio.sector).toList) := by
  apply lhdIo_one one inside
  unfold lhdSector onUio onDisk
  simp only [ensures_bind, ensures_get, after_ok, direction, ensures_zoom]
  apply (lhdStart_ensures lh .read _ inside).mono
  intro result disk outcome
  rcases outcome with ⟨failed, rfl, rfl⟩ | ⟨succeeded, rfl, rfl⟩
  · exact Or.inr (Or.inl ⟨failed, rfl, rfl⟩)
  · simp only [after_ok, ensures_bind, ensures_zoom]
    have length := Block.length_toList (lh.sectors uio.sector)
    have enough := one.enough
    have asked := one.resid
    apply (uiomove_ensures uio (by omega) (by omega) (by omega)).mono
    intro result next outcome
    rcases outcome with ⟨rfl, user, stays⟩ | ⟨rfl, moves⟩
    · exact Or.inl ⟨succeeded, rfl, user, rfl, stays⟩
    · have carried : uio.payload (lh.sectors uio.sector).toList = (lh.sectors uio.sector).toList := by
        simp [Uio.payload, direction]
      rw [carried] at moves
      simp only [after_ok, ensures_pure]
      exact Or.inr (Or.inr ⟨succeeded, trivial, trivial, moves⟩)

theorem lhdIo_refused (kernel : uio.segflg = .sysspace) (one : uio.OneSector)
    (outside : lh.dBlocks ≤ uio.sector) : lhdIo.Ensures (lh, uio) fun result _ => result = .error .einval := by
  have asked := one.resid
  have enough := one.enough
  have refused (buffer : Block) (rw : UioRw) : lhdStart rw uio.sector buffer lh = some (.error .einval, lh) := by
    simp [lhdStart, bind, andThen, Routine.get, outside, fail]
  unfold lhdIo
  simp only [ensures_bind, ensures_get, after_ok, one.aligned, one.resid, ne_eq, not_true_eq_false, Nat.mod_self,
    or_self, ite_false]
  split
  · simp only [ensures_fail]
  · simp only [lhdLoop, lhdSector, onUio, onDisk, ensures_bind, ensures_get, after_ok]
    have start (buffer : Block) (rw : UioRw) (post : Except Errno Block → Lhd → Prop)
        (holds : post (.error .einval) lh) : (lhdStart rw (u32 (uio.offset.tdiv 512)) buffer).Ensures lh post :=
      .of_eq (refused buffer rw) holds
    cases uio.rw with
    | read =>
      simp only [ensures_bind, ensures_zoom]
      apply start
      simp only [after_error]
    | write =>
      simp only [ensures_bind, ensures_zoom]
      have length := Block.length_toList Block.zeros
      apply (uiomove_ensures uio (by omega) (by omega) (by omega)).mono
      intro result next outcome
      rcases outcome with ⟨rfl, user, stays⟩ | ⟨rfl, moves⟩
      · exact absurd kernel user
      · simp only [after_ok, ensures_bind, ensures_zoom]
        apply start
        simp only [after_error]

theorem lhdIo_empty (aligned : u32 (uio.offset.tmod 512) = 0) (finished : uio.resid = 0) :
    lhdIo (lh, uio) = some (if lh.dBlocks < uio.sector then .error .einval else .ok (), (lh, uio)) := by
  have added : u32 (uio.offset.tdiv 512) + UInt32.ofNat 0 = uio.sector := by simp [Uio.sector]
  unfold lhdIo
  simp only [bind, andThen, Routine.get, aligned, finished, ne_eq, not_true_eq_false, Nat.zero_mod, or_self, ite_false,
    Nat.zero_div, added]
  split <;> rfl

end Os161
