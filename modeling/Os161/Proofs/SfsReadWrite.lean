import Os161.Proofs.SfsBlockIo

/-! `sfs_io` as a whole: leading part, whole blocks, trailing part and the end of the file. -/

namespace Os161
open Routine Contents

def Transfers (live held : UInt32 → Prop) (i : UInt32) (s : Sfs) (uio : Uio) (n : Nat) (result : Except Errno Unit)
    (next : Sfs × Uio) : Prop :=
  match uio.rw with
  | .read => Gets i s uio n result next
  | .write => Puts live held i s uio n result next

def Continues (live held : UInt32 → Prop) (i : UInt32) (s : Sfs) (uio : Uio) (n : Nat) (result : Except Errno Unit)
    (next : Sfs × Uio) : Prop :=
  Transfers live held i s uio n result next ∧ (n = 0 → result = .ok ())

structure Ready (live held : UInt32 → Prop) (i : UInt32) (s : Sfs) (uio : Uio) : Prop where
  consistent : s.Consistent live held
  loaded : ∃ vnode, s.vnode? i = some vnode
  fits : uio.Fits

section Steps

variable {live held : UInt32 → Prop} {i : UInt32} {s : Sfs} {uio : Uio} {n m : Nat}

theorem Ready.nothing (ready : Ready live held i s uio) : Continues live held i s uio 0 (.ok ()) (s, uio) := by
  refine ⟨?_, fun _ => rfl⟩
  unfold Transfers
  split
  next direction => exact ⟨rfl, direction, Or.inr ⟨rfl, Uio.Carries.refl uio, ready.fits, Or.inl rfl⟩⟩
  next =>
    exact ⟨[], rfl, Uio.Carries.refl uio, ready.fits, Or.inl rfl, (Kept.refl ready.consistent).written _, rfl, rfl⟩

theorem Uio.Beyond.more (beyond : uio.Beyond n) (m : Nat) : uio.Beyond (n + m) := by
  rcases beyond with user | far | far
  · exact Or.inl user
  · exact Or.inr (Or.inl far)
  · exact Or.inr (Or.inr (by omega))

theorem Uio.Hits.more (hits : uio.Hits i s n) (m : Nat) : uio.Hits i s (n + m) := by
  obtain ⟨p, hole, touched⟩ := hits
  exact ⟨p, hole, by omega⟩

theorem Transfers.of_error {code next} (failed : Transfers live held i s uio n (.error code) next) :
    Transfers live held i s uio (n + m) (.error code) next := by
  unfold Transfers at failed ⊢
  split
  next direction =>
    simp only [direction] at failed
    obtain ⟨same, reading, ⟨_, _, beyond⟩ | ⟨finished, _⟩⟩ := failed
    · exact ⟨same, reading, Or.inl ⟨code, rfl, beyond.more m⟩⟩
    · cases finished
  next direction =>
    simp only [direction] at failed
    obtain ⟨data, taken, carries, fits, within, written, stopped, reason⟩ := failed
    refine ⟨data, taken, carries, fits, within, written, stopped.imp_right ?_, reason.imp (·.more m) (·.more m)⟩
    exact fun ⟨short, boundary⟩ => ⟨by omega, boundary⟩

section

variable (ready : Ready live held i s uio)
include ready

theorem Ready.between {s' middle} (done : Transfers live held i s uio n (.ok ()) (s', middle)) :
    Ready live held i s' middle ∧ middle.position = uio.position + n ∧ middle.resid + n = uio.resid ∧
      middle.rw = uio.rw := by
  obtain ⟨before, ⟨vnode, loaded⟩, fits⟩ := ready
  cases direction : uio.rw with
  | read =>
    simp only [Transfers, direction] at done
    obtain ⟨same, reading, failed | ⟨_, carries, still, _⟩⟩ := done
    · obtain ⟨code, failed, _⟩ := failed
      cases failed
    · cases same
      have position := carries.position fits
      have resid := carries.resid
      rw [window_length] at position resid
      exact ⟨⟨before, ⟨vnode, loaded⟩, still⟩, position, resid, reading⟩
  | write =>
    simp only [Transfers, direction] at done
    obtain ⟨data, taken, carries, still, _, written, length, _⟩ := done
    have position := carries.position fits
    have resid := carries.resid
    rw [length] at position resid
    exact ⟨⟨written.consistent, written.step.loaded loaded, still⟩, position, resid, carries.rw.trans direction⟩

/-- Two parts of a transfer, one after the other, the first one up to the end of a block. -/
theorem Ready.append {first second : Routine Errno (Sfs × Uio) Unit} (seam : (uio.position + n) % 512 = 0 ∨ m = 0)
    (front : first.Ensures (s, uio) (Transfers live held i s uio n))
    (rear : ∀ s' middle, Ready live held i s' middle → middle.position = uio.position + n →
      middle.resid + n = uio.resid → second.Ensures (s', middle) (Continues live held i s' middle m)) :
    (first >>= fun _ => second).Ensures (s, uio) (Transfers live held i s uio (n + m)) := by
  rw [ensures_bind]
  apply front.mono
  intro result next done
  cases result with
  | error code => exact done.of_error
  | ok value =>
    obtain ⟨s', middle⟩ := next
    obtain ⟨later, position, resid, same⟩ := ready.between done
    apply (rear s' middle later position resid).mono
    intro result last finish
    obtain ⟨rest, nothing⟩ := finish
    cases direction : uio.rw with
    | read =>
      simp only [Transfers, same, direction] at done rest ⊢
      exact done.append ready.fits rest nothing
    | write =>
      simp only [Transfers, same, direction] at done rest ⊢
      exact done.append ready.fits rest seam nothing

theorem sfsPartialio_transfers {skip len}
    (inside : uio.position % 512 = skip.toNat) (within : skip.toNat + len.toNat ≤ 512) (asked : len.toNat ≤ uio.resid) :
    (sfsPartialio i skip len).Ensures (s, uio) (Transfers live held i s uio len.toNat) := by
  obtain ⟨before, ⟨vnode, loaded⟩, fits⟩ := ready
  unfold Transfers
  split
  next direction => exact sfsPartialio_read before loaded fits inside within asked direction
  next direction => exact sfsPartialio_write before loaded fits inside within asked direction

theorem sfsBlockio_transfers (aligned : uio.position % 512 = 0)
    (asked : 512 ≤ uio.resid) : (sfsBlockio i).Ensures (s, uio) (Transfers live held i s uio 512) := by
  obtain ⟨before, ⟨vnode, loaded⟩, fits⟩ := ready
  unfold Transfers
  split
  next direction => exact sfsBlockio_read before loaded fits aligned asked direction
  next direction => exact sfsBlockio_write before loaded fits aligned asked direction

end

theorem sfsBlocks_continues (blocks : Nat) (ready : Ready live held i s uio) (aligned : uio.position % 512 = 0)
    (asked : blocks * 512 ≤ uio.resid) :
    (sfsBlocks i blocks).Ensures (s, uio) (Continues live held i s uio (blocks * 512)) := by
  induction blocks generalizing s uio with
  | zero =>
    rw [Nat.zero_mul, sfsBlocks, ensures_pure]
    exact ready.nothing
  | succ blocks again =>
    have total : (blocks + 1) * 512 = 512 + blocks * 512 := by omega
    rw [total, sfsBlocks]
    have whole : (sfsBlockio i >>= fun _ => sfsBlocks i blocks).Ensures (s, uio)
        (Transfers live held i s uio (512 + blocks * 512)) := by
      apply ready.append (Or.inl (by omega)) (sfsBlockio_transfers ready aligned (by omega))
      intro s' middle later position resid
      rw [total, ← resid] at asked
      exact again later (by omega) (by omega)
    exact whole.mono fun result next done => ⟨done, fun zero => by omega⟩

def Uio.leading (uio : Uio) : Nat := if uio.position % 512 = 0 then 0 else min (512 - uio.position % 512) uio.resid

variable (ready : Ready live held i s uio)
include ready

theorem sfsLeading_transfers : (sfsLeading i).Ensures (s, uio) (Transfers live held i s uio uio.leading) := by
  have blkoff := ready.fits.blkoff
  have small := ready.fits.size
  unfold sfsLeading
  simp only [ensures_bind, ensures_get, after_ok]
  split
  next unaligned =>
    have offset : uio.position % 512 ≠ 0 := by
      intro zero
      rw [zero] at blkoff
      exact unaligned (UInt32.toNat_inj.mp blkoff)
    have length : (512 - u32 (uio.offset.tmod 512)).toNat = 512 - uio.position % 512 := by
      have bound : u32 (uio.offset.tmod 512) ≤ 512 := by
        rw [UInt32.le_iff_toNat_le, blkoff]
        exact Nat.le_of_lt (Nat.mod_lt _ (by decide))
      rw [UInt32.toNat_sub_of_le _ _ bound, blkoff]
      rfl
    rw [Uio.leading, if_neg offset, length]
    split
    next short =>
      have count : (UInt32.ofNat uio.resid).toNat = uio.resid := by
        rw [UInt32.toNat_ofNat', Nat.mod_eq_of_lt small]
      rw [Nat.min_eq_right (by omega)]
      nth_rewrite 2 [← count]
      exact sfsPartialio_transfers ready blkoff.symm (by omega) (by omega)
    next long =>
      rw [Nat.min_eq_left (by omega), ← length]
      exact sfsPartialio_transfers ready blkoff.symm (by omega) (by omega)
  next aligned =>
    have offset : uio.position % 512 = 0 := by
      rw [← blkoff, not_not.mp aligned]
      rfl
    rw [Uio.leading, if_pos offset, ensures_pure]
    exact ready.nothing.1

theorem trailing_continues (aligned : uio.position % 512 = 0) (short : uio.resid < 512) :
    (if 0 < uio.resid then sfsPartialio i 0 (UInt32.ofNat uio.resid) else pure ()).Ensures (s, uio)
      (Continues live held i s uio uio.resid) := by
  have count : (UInt32.ofNat uio.resid).toNat = uio.resid := by
    rw [UInt32.toNat_ofNat', Nat.mod_eq_of_lt (by omega)]
  have zero : (0 : UInt32).toNat = 0 := rfl
  split
  next some =>
    have moved : (sfsPartialio i 0 (UInt32.ofNat uio.resid)).Ensures (s, uio)
        (Transfers live held i s uio (UInt32.ofNat uio.resid).toNat) :=
      sfsPartialio_transfers ready aligned (by omega) (by omega)
    rw [count] at moved
    exact moved.mono fun result next done => ⟨done, fun none => by omega⟩
  next none =>
    rw [ensures_pure, Nat.eq_zero_of_not_pos none]
    exact ready.nothing

theorem trailing_checked (aligned : uio.position % 512 = 0) (short : uio.resid < 512) (count : uio.resid = n) : (do
      let (_, uio) ← get
      require (uio.resid < sfsBlocksize)
      if 0 < uio.resid then sfsPartialio i 0 (UInt32.ofNat uio.resid) else return () :
      Routine Errno (Sfs × Uio) Unit).Ensures (s, uio) (Continues live held i s uio n) := by
  simp only [ensures_bind, ensures_get, after_ok, ensures_require]
  subst count
  exact ⟨short, trailing_continues ready aligned short⟩

theorem sfsAligned_continues (aligned : uio.position % 512 = 0 ∨ uio.resid = 0) :
    (sfsAligned i).Ensures (s, uio) (Continues live held i s uio uio.resid) := by
  unfold sfsAligned
  simp only [ensures_bind, ensures_get, after_ok]
  split
  next done =>
    rw [ensures_pure, done]
    exact ready.nothing
  next more =>
    have boundary := aligned.resolve_right more
    have low := ready.fits.low
    have position := ready.fits.position_eq
    rw [ensures_bind, ensures_require, after_ok]
    refine ⟨by rw [Int.tmod_eq_emod_of_nonneg low]; omega, ?_⟩
    have total : uio.resid / 512 * 512 + uio.resid % 512 = uio.resid := by omega
    have blocks := (sfsBlocks_continues (uio.resid / 512) ready boundary (by omega)).mono fun _ _ done => done.1
    have whole := ready.append (m := uio.resid % 512) (Or.inl (by omega)) blocks fun s' middle later start resid =>
      trailing_checked later (by omega) (by omega) (by omega)
    rw [total] at whole
    exact whole.mono fun result next done => ⟨done, fun none => absurd none more⟩

theorem sfsMove_transfers : (do sfsLeading i; sfsAligned i : Routine Errno (Sfs × Uio) Unit).Ensures (s, uio)
      (Transfers live held i s uio uio.resid) := by
  have short : uio.leading ≤ uio.resid := by
    unfold Uio.leading
    split <;> omega
  have seam : (uio.position + uio.leading) % 512 = 0 ∨ uio.resid - uio.leading = 0 := by
    unfold Uio.leading
    split <;> omega
  rw [← Nat.add_sub_cancel' short]
  apply ready.append seam (sfsLeading_transfers ready)
  intro s' middle later position resid
  have left : middle.resid = uio.resid - uio.leading := by omega
  rw [← left]
  apply sfsAligned_continues later
  rw [position, left]
  exact seam

end Steps

section Read

variable {live held : UInt32 → Prop} {i : UInt32} {s : Sfs} {vnode : SfsVnode} {uio next : Uio}

theorem sfsExtend_eq (loaded : s.vnode? i = some vnode) :
    sfsExtend i (s, uio) = some (.ok (), (if uio.rw = .write ∧ offT vnode.inode.size.toNat < uio.offset then
      s.setInode i fun inode => { inode with size := u32 uio.offset } else s, uio)) := by
  have found : onSfs (theVnode i) (s, uio) = some (.ok vnode, (s, uio)) := by
    unfold onSfs zoom
    rw [theVnode_eq loaded]
    rfl
  unfold sfsExtend
  rw [bind_ok rfl]
  simp only
  rw [bind_ok found]
  split
  · rfl
  · rfl

def Uio.shorten (uio : Uio) (extra : Nat) : Uio := { uio with resid := uio.resid - extra }

theorem Uio.Fits.shorten (fits : uio.Fits) (extra : Nat) : (uio.shorten extra).Fits where
  low := fits.low
  high := fits.high
  buffer := Nat.le_trans (Nat.sub_le _ _) fits.buffer
  size := Nat.lt_of_le_of_lt (Nat.sub_le _ _) fits.size

theorem Uio.Carries.lengthen {data extra} (carries : (uio.shorten extra).Carries next data)
    (fits : uio.Fits) (within : extra ≤ uio.resid) :
    uio.Carries { next with resid := (next.resid + extra) % 2 ^ 32 } data := by
  have size := fits.size
  have resid : next.resid + data.length = uio.resid - extra := carries.resid
  refine ⟨carries.moved, ?_, carries.offset, carries.length, carries.rw, carries.segflg⟩
  simp only
  omega

theorem sfsTransfer_read (before : s.Consistent live held) (loaded : s.vnode? i = some vnode) (fits : uio.Fits)
    (direction : uio.rw = .read) (extra : UInt32) (within : extra.toNat ≤ uio.resid) :
    (sfsTransfer i extra).Ensures (s, uio.shorten extra.toNat) fun result next =>
      next.1 = s ∧ ((∃ code, result = .error code ∧ uio.Beyond (uio.resid - extra.toNat)) ∨
        result = .ok () ∧ uio.Carries next.2 (window (s.byte i) uio.position (uio.resid - extra.toNat)) ∧
          uio.Inside (uio.resid - extra.toNat)) := by
  have moves := sfsMove_transfers ⟨before, ⟨vnode, loaded⟩, fits.shorten extra.toNat⟩
  unfold sfsTransfer
  rw [ensures_bind, ensures_attempt]
  apply moves.mono
  intro result next done
  obtain ⟨s', middle⟩ := next
  have reading : (uio.shorten extra.toNat).rw = .read := direction
  simp only [Transfers, Gets, reading] at done
  obtain ⟨rfl, still, outcome⟩ := done
  rw [after_ok, ensures_bind]
  refine .of_eq (sfsExtend_eq loaded) ?_
  have noWrite : ¬ (middle.rw = .write ∧ offT vnode.inode.size.toNat < middle.offset) := by
    rw [still]
    rintro ⟨⟨⟩, _⟩
  rw [if_neg noWrite, after_ok]
  simp only [ensures_bind, ensures_onUio, ensures_modify, after_ok, ensures_finish]
  refine ⟨trivial, outcome.imp_right ?_⟩
  rintro ⟨finished, carries, _, inside⟩
  exact ⟨finished, carries.lengthen fits within, inside⟩

def readable (size : UInt32) (uio : Uio) : Nat :=
  if offT size.toNat ≤ uio.offset then 0
  else if offT size.toNat < offT (uio.offset + uio.resid) then (offT size.toNat - uio.offset).toNat
  else uio.resid

theorem offT_le {value} (low : 0 ≤ value) (high : value < 2 ^ 31 + 2 ^ 32) :
    offT value = value ∨ offT value = value - 2 ^ 32 := by
  unfold offT Int.bmod
  simp only [Nat.reducePow]
  split <;> omega

theorem sfsIo_read (before : s.Consistent live held) (loaded : s.vnode? i = some vnode) (fits : uio.Fits)
    (direction : uio.rw = .read) :
    (sfsIo i).Ensures (s, uio) fun result next =>
      next.1 = s ∧ ((∃ code, result = .error code ∧ uio.Beyond (readable (s.inodeOf i).size uio)) ∨
        result = .ok () ∧ uio.Carries next.2 (window (s.byte i) uio.position (readable (s.inodeOf i).size uio)) ∧
          uio.Inside (readable (s.inodeOf i).size uio)) := by
  have low := fits.low
  have high := fits.high
  have small := fits.size
  unfold sfsIo
  simp only [ensures_bind, ensures_get, after_ok, ensures_onSfs]
  refine .of_eq (theVnode_eq loaded) ?_
  rw [Sfs.inodeOf_loaded loaded, after_ok]
  simp only [direction]
  unfold readable
  split
  next behind =>
    rw [ensures_pure]
    exact ⟨rfl, Or.inr ⟨rfl, Uio.Carries.refl uio, Or.inl rfl⟩⟩
  next inside =>
    split
    next crossing =>
      have low' : 0 ≤ uio.offset + uio.resid := by omega
      have ending := offT_le low' (by omega)
      have exact_ : offT (uio.offset + uio.resid) = uio.offset + uio.resid := by omega
      rw [exact_] at crossing ⊢
      have extra : (u32 (uio.offset + uio.resid - offT vnode.inode.size.toNat)).toNat =
          (uio.offset + uio.resid - offT vnode.inode.size.toNat).toNat := u32_small (by omega) (by omega)
      have count : (offT vnode.inode.size.toNat - uio.offset).toNat =
          uio.resid - (u32 (uio.offset + uio.resid - offT vnode.inode.size.toNat)).toNat := by omega
      simp only [ensures_bind, ensures_require, after_ok, ensures_onUio, ensures_modify]
      rw [count]
      exact ⟨by omega, sfsTransfer_read before loaded fits direction _ (by omega)⟩
    next within => exact sfsTransfer_read before loaded fits direction 0 (Nat.zero_le _)

end Read

section Write

variable {live held : UInt32 → Prop} {i : UInt32} {s s' : Sfs} {vnode : SfsVnode} {uio : Uio} {start : Nat}
  {data : List UInt8}

def grown (size : UInt32) (endpos : Nat) : UInt32 := if offT size.toNat < endpos then UInt32.ofNat endpos else size

/-- `data` was written to file `i` at `start`, and its size was adjusted. -/
structure Wrote (live held : UInt32 → Prop) (i : UInt32) (start : Nat) (data : List UInt8) (s s' : Sfs) : Prop where
  step : FileStep live i s s'
  consistent : s'.Consistent live held
  bytes : s'.byte i = patch (s.byte i) start data
  size : (s'.inodeOf i).size = grown (s.inodeOf i).size (start + data.length)
  type : (s'.inodeOf i).type = (s.inodeOf i).type
  linkcount : (s'.inodeOf i).linkcount = (s.inodeOf i).linkcount

theorem kept_attributes (before : s.Consistent live held) (loaded : s.vnode? i = some vnode) {f}
    (direct : ∀ inode, (f inode).direct = inode.direct) (indirect : ∀ inode, (f inode).indirect = inode.indirect) :
    (s.setInode i f).Consistent live held ∧ (s.setInode i f).byte i = s.byte i := by
  have step : FileStep live i s (s.setInode i f) := step_setInode f
  have inode := inodeOf_setInode loaded f
  have listed : (s.setInode i f).listed i = s.listed i := by
    unfold Sfs.listed
    rw [inode, indirect]
    rfl
  have slots : ∀ p, (s.setInode i f).slot i p = s.slot i p := Sfs.slot_congr (by rw [inode, direct]) listed
  refine ⟨step.consistent before (step.ledger_same before (by rw [inode, indirect]) slots fun _ => Iff.rfl), ?_⟩
  funext pos
  unfold Sfs.byte
  rw [slots]
  rfl

theorem Written.extend (written : Written live held i start data s s') (loaded : s'.vnode? i = some vnode)
    (position : uio.offset = start + data.length) (room : start + data.length < 2 ^ 32) :
    Wrote live held i start data s (if offT vnode.inode.size.toNat < uio.offset then
      s'.setInode i fun inode => { inode with size := u32 uio.offset } else s') := by
  have size := written.size
  rw [Sfs.inodeOf_loaded loaded] at size
  have offset : u32 uio.offset = UInt32.ofNat (start + data.length) := by
    apply UInt32.toNat_inj.mp
    rw [u32_small (by omega) (by omega), UInt32.toNat_ofNat', Nat.mod_eq_of_lt room]
    omega
  rw [size]
  split
  next longer =>
    have target := kept_attributes (f := fun inode => { inode with size := u32 uio.offset }) written.consistent loaded
      (fun _ => rfl) fun _ => rfl
    have inode := inodeOf_setInode loaded fun inode => { inode with size := u32 uio.offset }
    refine ⟨written.step.trans (step_setInode _), target.1, target.2.trans written.bytes, ?_, ?_, ?_⟩
    · rw [inode, grown, if_pos (by omega), offset]
    · rw [inode]
      exact written.type
    · rw [inode]
      exact written.linkcount
  next shorter =>
    refine ⟨written.step, written.consistent, written.bytes, ?_, written.type, written.linkcount⟩
    rw [written.size, grown, if_neg (by omega)]

theorem sfsIo_write (before : s.Consistent live held) (loaded : s.vnode? i = some vnode) (fits : uio.Fits)
    (direction : uio.rw = .write) :
    (sfsIo i).Ensures (s, uio) fun result next => ∃ data,
      data = uio.rest.take data.length ∧ uio.Carries next.2 data ∧ uio.Inside data.length ∧
      Wrote live held i uio.position data s next.1 ∧
      match result with
      | .ok () => data.length = uio.resid
      | .error _ => (data = [] ∨ data.length < uio.resid ∧ (uio.position + data.length) % 512 = 0) ∧
        (uio.Beyond uio.resid ∨ uio.Hits i s uio.resid) := by
  unfold sfsIo
  simp only [ensures_bind, ensures_get, after_ok, ensures_onSfs]
  refine .of_eq (theVnode_eq loaded) ?_
  rw [after_ok]
  simp only [direction]
  unfold sfsTransfer
  rw [ensures_bind, ensures_attempt]
  apply (sfsMove_transfers ⟨before, ⟨vnode, loaded⟩, fits⟩).mono
  intro result next done
  obtain ⟨s', middle⟩ := next
  simp only [Transfers, Puts, direction] at done
  obtain ⟨data, taken, carries, still, inside, written, outcome⟩ := done
  have writing : middle.rw = .write := carries.rw.trans direction
  obtain ⟨vnode', present⟩ := written.step.loaded loaded
  have position := fits.position_eq
  have offset := carries.offset
  have high := still.high
  rw [after_ok, ensures_bind]
  refine .of_eq (sfsExtend_eq present) ?_
  simp only [writing, true_and, after_ok, ensures_bind, ensures_onUio, ensures_modify, ensures_finish]
  refine ⟨data, taken, ?_, inside, written.extend present (by omega) (by omega), ?_⟩
  · have rest := carries.resid
    have size := fits.size
    refine ⟨carries.moved, ?_, carries.offset, carries.length, direction.symm, carries.segflg⟩
    simp only [UInt32.toNat_zero, Nat.add_zero]
    rw [Nat.mod_eq_of_lt (by omega)]
    exact rest
  · cases result with
    | ok value => exact outcome.1
    | error code => exact outcome

end Write

end Os161
