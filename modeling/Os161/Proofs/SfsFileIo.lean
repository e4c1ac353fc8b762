import Os161.Lib.Contents
import Os161.Proofs.SfsBmap
import Os161.Proofs.UioProgress

/-! Transfers of one block of a file. A read delivers the contents and changes nothing, a write puts over them what
it counts as transferred. -/

namespace Os161
open Routine Contents List

/-- `data` was written to file `i` at `start`, its size not yet adjusted. -/
structure Written (live held : UInt32 → Prop) (i : UInt32) (start : Nat) (data : List UInt8) (s s' : Sfs) : Prop where
  step : FileStep live i s s'
  consistent : s'.Consistent live held
  filled : ∀ p, s.slot i p ≠ 0 → s'.slot i p = s.slot i p
  bytes : s'.byte i = patch (s.byte i) start data
  size : (s'.inodeOf i).size = (s.inodeOf i).size
  type : (s'.inodeOf i).type = (s.inodeOf i).type
  linkcount : (s'.inodeOf i).linkcount = (s.inodeOf i).linkcount

section Written

variable {live held : UInt32 → Prop} {i : UInt32} {s s' s'' : Sfs} {start : Nat} {data more : List UInt8}

theorem Kept.written (kept : Kept live held i s s') (start : Nat) : Written live held i start [] s s' :=
  ⟨kept.step, kept.consistent, kept.filled, by rw [patch_nil]; exact funext kept.bytes, kept.size, kept.type,
    kept.linkcount⟩

theorem Written.append (first : Written live held i start data s s')
    (second : Written live held i (start + data.length) more s' s'') :
    Written live held i start (data ++ more) s s'' where
  step := first.step.trans second.step
  consistent := second.consistent
  filled := by
    intro p present
    have same := first.filled p present
    rw [second.filled p (same ▸ present), same]
  bytes := by rw [second.bytes, first.bytes, patch_append]
  size := second.size.trans first.size
  type := second.type.trans first.type
  linkcount := second.linkcount.trans first.linkcount

theorem Kept.andWritten (kept : Kept live held i s s') (written : Written live held i start data s' s'') :
    Written live held i start data s s'' :=
  @Written.append live held i s s' s'' start [] data (kept.written start) written

end Written

section FileBlock

variable {live held : UInt32 → Prop} {i : UInt32} {s : Sfs} {p : Nat}

def Sfs.fileBlock (s : Sfs) (i : UInt32) (p : Nat) : Block := fun k => s.byte i (p * 512 + k)

theorem Block.toList_eq (block : Block) : block.toList = List.ofFn block := by rw [Block.toList]

theorem fileBlock_toList : (s.fileBlock i p).toList = window (s.byte i) (p * 512) 512 := by
  rw [Block.toList_eq]
  apply ext_getElem
  · rw [length_ofFn, window_length]
  · intro k first second
    simp only [List.getElem_ofFn, window, List.getElem_map, List.getElem_range, Sfs.fileBlock]

theorem byte_index (k : Fin 512) : (p * 512 + k.val) / 512 = p ∧ (p * 512 + k.val) % 512 = k := by omega

theorem fileBlock_hole (hole : s.slot i p = 0) : s.fileBlock i p = Block.zeros := by
  funext k
  rw [Sfs.fileBlock, Sfs.byte, (byte_index k).1, if_pos hole]
  rfl

theorem fileBlock_present (present : s.slot i p ≠ 0) : s.device.sectors (s.slot i p) = s.fileBlock i p := by
  funext k
  have index := byte_index (p := p) k
  unfold Sfs.fileBlock Sfs.byte
  simp only [index.1, if_neg present, index.2]

theorem written_store {vnode} (before : s.Consistent live held) (loaded : s.vnode? i = some vnode)
    (present : s.slot i p ≠ 0) (block : Block) :
    Written live held i (p * 512) block.toList s (s.store (s.slot i p) block) := by
  have isLive := before.isLive loaded
  have owns : s.Owns live (.data i p) (s.slot i p) := ⟨isLive, present, rfl⟩
  have within : (Owner.data i p).Within i := rfl
  have step : FileStep live i s (s.store (s.slot i p) block) := step_store before isLive within nofun owns block
  generalize target : s.store (s.slot i p) block = s' at step ⊢
  have stored : s'.device.sectors (s.slot i p) = block := by
    rw [← target]
    exact if_pos rfl
  have sectors : ∀ other, other ≠ s.slot i p → s'.device.sectors other = s.device.sectors other := by
    intro other differs
    rw [← target]
    exact if_neg differs
  have inode : s'.inodeOf i = s.inodeOf i := by
    have still : s'.vnode? i = some vnode := by
      rw [← target]
      exact loaded
    rw [Sfs.inodeOf_loaded still, Sfs.inodeOf_loaded loaded]
  have listed : s'.listed i = s.listed i := by
    unfold Sfs.listed
    rw [inode]
    split
    · rfl
    · next there =>
      rw [sectors]
      intro same
      have indirect : s.Owns live (.indirect i) (s.inodeOf i).indirect := ⟨isLive, there, rfl⟩
      rw [same] at indirect
      cases before.ledger.unique indirect owns
  have slots : ∀ q, s'.slot i q = s.slot i q := Sfs.slot_congr (by rw [inode]) listed
  refine ⟨step, step.consistent before ?_, fun p _ => slots p, ?_, by rw [inode], by rw [inode], by rw [inode]⟩
  · refine step.ledger_same before (by rw [inode]) slots ?_
    rw [← target]
    exact fun _ => Iff.rfl
  · funext pos
    unfold Sfs.byte
    rw [slots]
    by_cases here : pos / 512 = p
    · subst here
      rw [if_neg present, stored, patch, if_pos (by omega), getD_eq_getElem?_getD,
        List.getElem?_eq_getElem (by rw [Block.length_toList]; omega), Option.getD_some]
      simp only [Block.toList_eq, List.getElem_ofFn]
      congr
      omega
    · have outside : pos < p * 512 ∨ p * 512 + block.toList.length ≤ pos := by
        rw [Block.length_toList]
        omega
      rw [patch_outside outside]
      split
      · rfl
      · next there =>
        rw [sectors]
        intro same
        have other : s.Owns live (.data i (pos / 512)) (s.slot i (pos / 512)) := ⟨isLive, there, rfl⟩
        rw [same] at other
        cases before.ledger.unique other owns
        exact here rfl

theorem partialBuffer_eq (before : s.Consistent live held) (isLive : live i) (rw : UioRw)
    (readable : s.slot i p = 0 → rw = .read) :
    partialBuffer (s.slot i p) rw s = some (.ok (s.fileBlock i p), s) := by
  unfold partialBuffer
  split
  · next hole =>
    rw [bind_ok (require_pos (readable hole)), fileBlock_hole hole]
    rfl
  · next present =>
    have owns : s.Owns live (.data i p) (s.slot i p) := ⟨isLive, present, rfl⟩
    rw [rblock_eq before.geometry (before.inside owns), fileBlock_present present]

end FileBlock

def Uio.Beyond (uio : Uio) (n : Nat) : Prop :=
  uio.segflg ≠ .sysspace ∨ 143 ≤ uio.position / 512 ∨ 143 * 512 < uio.position + n

def Uio.Hits (i : UInt32) (s : Sfs) (uio : Uio) (n : Nat) : Prop :=
  ∃ p, s.slot i p = 0 ∧ (p = uio.position / 512 ∨ uio.position < p * 512 ∧ p * 512 < uio.position + n)

def Uio.Inside (uio : Uio) (n : Nat) : Prop := n = 0 ∨ uio.position + n ≤ 143 * 512

def Gets (i : UInt32) (s : Sfs) (uio : Uio) (n : Nat) (result : Except Errno Unit) (next : Sfs × Uio) : Prop :=
  next.1 = s ∧ next.2.rw = .read ∧
    ((∃ code, result = .error code ∧ uio.Beyond n) ∨
      (result = .ok () ∧ uio.Carries next.2 (window (s.byte i) uio.position n) ∧ next.2.Fits ∧ uio.Inside n))

/-- A write of `n` bytes that stops at an error with nothing or with whole blocks written. -/
def Puts (live held : UInt32 → Prop) (i : UInt32) (s : Sfs) (uio : Uio) (n : Nat) (result : Except Errno Unit)
    (next : Sfs × Uio) : Prop :=
  ∃ data, data = uio.rest.take data.length ∧ uio.Carries next.2 data ∧ next.2.Fits ∧ uio.Inside data.length ∧
    Written live held i uio.position data s next.1 ∧
    match result with
    | .ok () => data.length = n ∧ next.2.rest = uio.rest.drop n
    | .error _ => (data = [] ∨ data.length < n ∧ (uio.position + data.length) % 512 = 0) ∧
      (uio.Beyond n ∨ uio.Hits i s n)

section Progress

variable {live held : UInt32 → Prop} {i : UInt32} {s s' : Sfs} {uio middle : Uio} {n m : Nat}
  {result : Except Errno Unit} {next : Sfs × Uio}

theorem Uio.Carries.beyond {data} (carries : uio.Carries middle data) (fits : uio.Fits)
    (length : data.length = n) (asked : m ≠ 0) (beyond : middle.Beyond m) : uio.Beyond (n + m) := by
  have position := carries.position fits
  unfold Uio.Beyond at beyond ⊢
  rw [carries.segflg, position, length] at beyond
  rcases beyond with user | far | far
  · exact Or.inl user
  · exact Or.inr (Or.inr (by omega))
  · exact Or.inr (Or.inr (by omega))

theorem Uio.Inside.append (first : uio.Inside n) (second : middle.Inside m) (position : middle.position = uio.position + n) :
    uio.Inside (n + m) := by
  unfold Uio.Inside at first second ⊢
  omega

theorem Gets.append (fits : uio.Fits) (first : Gets i s uio n (.ok ()) (s', middle))
    (second : Gets i s' middle m result next) (nothing : m = 0 → result = .ok ()) :
    Gets i s uio (n + m) result next := by
  obtain ⟨same, _, failed | ⟨_, carries, _, within⟩⟩ := first
  · obtain ⟨code, failed, _⟩ := failed
    cases failed
  · cases same
    obtain ⟨same, direction, outcome⟩ := second
    refine ⟨same, direction, ?_⟩
    rcases outcome with ⟨code, rfl, beyond⟩ | ⟨finished, later, still, within'⟩
    · exact Or.inl ⟨code, rfl, carries.beyond fits (window_length n) (fun zero => nomatch nothing zero) beyond⟩
    · have position := carries.position fits
      rw [window_length] at position
      refine Or.inr ⟨finished, ?_, still, within.append within' position⟩
      rw [window_add, ← position]
      exact carries.trans later

theorem Puts.append (fits : uio.Fits) (first : Puts live held i s uio n (.ok ()) (s', middle))
    (second : Puts live held i s' middle m result next) (seam : (uio.position + n) % 512 = 0 ∨ m = 0)
    (nothing : m = 0 → result = .ok ()) : Puts live held i s uio (n + m) result next := by
  obtain ⟨data, taken, carries, _, within, written, length, dropped⟩ := first
  obtain ⟨more, taken', carries', still, within', written', outcome⟩ := second
  have position := carries.position fits
  have together := within.append within' position
  rw [← length_append] at together
  rw [position] at written'
  refine ⟨data ++ more, ?_, carries.trans carries', still, together, written.append written', ?_⟩
  · rw [length_append, take_add, ← taken, length, ← dropped, ← taken']
  · rw [length_append, length]
    cases result with
    | ok value =>
      obtain ⟨length', dropped'⟩ := outcome
      rw [length', dropped', dropped, drop_drop]
      exact ⟨rfl, rfl⟩
    | error code =>
      have asked : m ≠ 0 := fun zero => nomatch nothing zero
      have edge := seam.resolve_right asked
      obtain ⟨stopped, reason⟩ := outcome
      refine ⟨Or.inr ?_, reason.imp (carries.beyond fits length asked) ?_⟩
      · rcases stopped with rfl | ⟨short, boundary⟩
        · rw [length_nil, Nat.add_zero]
          exact ⟨by omega, edge⟩
        · rw [position, length] at boundary
          exact ⟨by omega, by omega⟩
      · rintro ⟨p, hole, touched⟩
        rw [position, length] at touched
        refine ⟨p, ?_, by omega⟩
        by_contra full
        exact full (written.filled p full ▸ hole)

theorem puts_nothing (kept : Kept live held i s s') (carries : uio.Carries middle []) (fits : uio.Fits) (code : Errno)
    (reason : uio.Beyond n ∨ uio.Hits i s n) : Puts live held i s uio n (.error code) (s', middle) := by
  have offset := carries.offset
  have high := fits.high
  refine ⟨[], rfl, carries, carries.fits fits ?_, Or.inl rfl, kept.written _, Or.inl rfl, reason⟩
  simp only [length_nil] at offset
  omega

end Progress

end Os161
