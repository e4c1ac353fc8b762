import Os161.AddrSpace
import Mathlib.Data.Nat.Find

/-! Stores to user memory. A block is written up to the first page that is not mapped; nothing outside it changes.
-/

namespace Os161.Vm
open Routine

structure SameSpace (m m' : Machine) : Prop where
  spaces : m'.spaces = m.spaces
  vmspace : m'.vmspace = m.vmspace
  ramsize : m'.ramsize = m.ramsize
  created : m'.created = m.created

namespace SameSpace

theorem refl (m : Machine) : SameSpace m m := ⟨rfl, rfl, rfl, rfl⟩

variable {m m' m'' : Machine}

theorem trans (first : SameSpace m m') (second : SameSpace m' m'') : SameSpace m m'' :=
  ⟨second.spaces.trans first.spaces, second.vmspace.trans first.vmspace, second.ramsize.trans first.ramsize,
    second.created.trans first.created⟩

theorem as (same : SameSpace m m') : m'.as = m.as := by
  rw [Machine.as, same.spaces, same.vmspace]
  rfl

theorem kernelPaddr (same : SameSpace m m') (vaddr : Nat) : m'.kernelPaddr vaddr = m.kernelPaddr vaddr := by
  simp only [Machine.kernelPaddr, same.as, same.ramsize]

theorem setByte (m : Machine) (paddr : Nat) (byte : UInt8) : SameSpace m (m.setByte paddr byte) :=
  ⟨rfl, rfl, rfl, rfl⟩

end SameSpace

def AddrSpace.Mapped (as : AddrSpace) (vaddr : Nat) : Prop := ∃ paddr, as.translate vaddr = some paddr

def AddrSpace.Writable (as : AddrSpace) (vaddr len : Nat) : Prop :=
  vaddr + len ≤ userTop ∧ ∀ k, k < len → as.Mapped (vaddr + k)

def AddrSpace.Separate (as : AddrSpace) : Prop :=
  ∀ first second paddr, as.translate first = some paddr → as.translate second = some paddr → first = second

theorem copycheck_iff {userptr len} (address : userptr < word) (nonempty : 0 < len) (size : len ≤ word) :
    Copycheck userptr len ↔ userptr + len ≤ userTop := by
  simp only [Copycheck, userTop, mipsKseg0, word] at address size ⊢
  omega

theorem frame_cases {as : AddrSpace} {page frame} (found : as.frame page = some frame) :
    (as.vbase1 ≤ page ∧ page < (as.vbase1 + as.npages1 * pageSize) % word ∧ frame = page - as.vbase1 + as.pbase1) ∨
    (as.vbase2 ≤ page ∧ page < (as.vbase2 + as.npages2 * pageSize) % word ∧ frame = page - as.vbase2 + as.pbase2) ∨
    (stackBase ≤ page ∧ page < userStack ∧ frame = page - stackBase + as.stackpbase) := by
  simp only [AddrSpace.frame] at found
  split_ifs at found with one two three
  · exact .inl ⟨one.1, one.2, (Option.some.inj found).symm⟩
  · exact .inr (.inl ⟨two.1, two.2, (Option.some.inj found).symm⟩)
  · exact .inr (.inr ⟨three.1, three.2, (Option.some.inj found).symm⟩)

section Stores

variable {m : Machine} {vaddr paddr : Nat} {byte : UInt8}

theorem storeByte_mapped (ready : m.as.Ready) (mapped : m.as.translate vaddr = some paddr) :
    storeByte vaddr byte m = some (.ok (), m.setByte paddr byte) := by
  rw [storeByte, bind_ok rfl, bind_ok (require_pos ready), mapped]
  rfl

theorem storeByte_unmapped (ready : m.as.Ready) (unmapped : m.as.translate vaddr = none) :
    storeByte vaddr byte m = some (.error .efault, m) := by
  rw [storeByte, bind_ok rfl, bind_ok (require_pos ready), unmapped]
  rfl

theorem storeByte_halts (unready : ¬ m.as.Ready) : storeByte vaddr byte m = none := by
  rw [storeByte, bind_ok rfl, bind_halts (require_neg unready)]

theorem userByte_setByte_same (mapped : m.as.translate vaddr = some paddr) (user : vaddr < userTop) :
    (m.setByte paddr byte).userByte vaddr = some byte := by
  rw [Machine.userByte, if_pos user]
  change (m.as.translate vaddr).map _ = _
  rw [mapped]
  simp [Machine.setByte]

theorem userByte_setByte_other (separate : m.as.Separate) (mapped : m.as.translate vaddr = some paddr) {other}
    (different : other ≠ vaddr) : (m.setByte paddr byte).userByte other = m.userByte other := by
  simp only [Machine.userByte]
  change (if other < userTop then (m.as.translate other).map (m.setByte paddr byte).ram else none) = _
  cases found : m.as.translate other with
  | none => rfl
  | some place =>
    have apart : place ≠ paddr := by
      intro same
      exact different (separate other vaddr paddr (same ▸ found) mapped)
    simp [Machine.setByte, apart]

end Stores

/-- What a `memcpy` leaves: byte after byte and upwards, each loaded from the memory as
it is then. -/
def copyUp (value : Machine → Nat → UInt8) (dest : Nat) : (k left : Nat) → Machine → Machine
  | _, 0, m => m
  | k, left + 1, m =>
    copyUp value dest (k + 1) left (m.setByte ((m.as.translate (dest + k)).getD 0) (value m k))

section Copies

variable {value : Machine → Nat → UInt8} {source : Nat → Routine Errno Machine UInt8} {dest : Nat}

theorem copyUp_same (k left : Nat) (m : Machine) : SameSpace m (copyUp value dest k left m) := by
  induction left generalizing k m with
  | zero => exact .refl m
  | succ left ih => exact (SameSpace.setByte m _ _).trans (ih (k + 1) _)

/-- The source can be loaded from as long as the address space stays. -/
def Loads (source : Nat → Routine Errno Machine UInt8) (value : Machine → Nat → UInt8) (m : Machine) (len : Nat) : Prop :=
  ∀ k, k < len → ∀ m', SameSpace m m' → source k m' = some (.ok (value m' k), m')

theorem Loads.mono {m m' len} (loads : Loads source value m len) (same : SameSpace m m') :
    Loads source value m' len :=
  fun k bound other further => loads k bound other (same.trans further)

variable {k left : Nat}

theorem memcpy_done {len m} (loads : Loads source value m len) (inside : k + left ≤ len)
    (ready : m.as.Ready) (mapped : ∀ j, k ≤ j → j < k + left → m.as.Mapped (dest + j)) :
    memcpy source dest k left m = some (.ok (), copyUp value dest k left m) := by
  induction left generalizing k m with
  | zero => rfl
  | succ left ih =>
    obtain ⟨paddr, found⟩ := mapped k (Nat.le_refl k) (by omega)
    have same := SameSpace.setByte m paddr (value m k)
    rw [memcpy, bind_ok (loads k (by omega) m (.refl m)), bind_ok (storeByte_mapped ready found), copyUp, found,
      Option.getD_some]
    apply ih (loads.mono same) (by omega) (same.as ▸ ready)
    intro j low high
    exact same.as ▸ mapped j (by omega) (by omega)

theorem memcpy_stops {len stop m} (loads : Loads source value m len) (inside : k + left ≤ len)
    (ready : m.as.Ready) (mapped : ∀ j, k ≤ j → j < k + stop → m.as.Mapped (dest + j))
    (unmapped : m.as.translate (dest + (k + stop)) = none) (bound : stop < left) :
    memcpy source dest k left m = some (.error .efault, copyUp value dest k stop m) := by
  induction stop generalizing k left m with
  | zero =>
    obtain ⟨rest, rfl⟩ : ∃ rest, left = rest + 1 := ⟨left - 1, by omega⟩
    rw [Nat.add_zero] at unmapped
    rw [memcpy, bind_ok (loads k (by omega) m (.refl m)), bind_error (storeByte_unmapped ready unmapped), copyUp]
  | succ stop ih =>
    obtain ⟨rest, rfl⟩ : ∃ rest, left = rest + 1 := ⟨left - 1, by omega⟩
    obtain ⟨paddr, found⟩ := mapped k (Nat.le_refl k) (by omega)
    have same := SameSpace.setByte m paddr (value m k)
    rw [memcpy, bind_ok (loads k (by omega) m (.refl m)), bind_ok (storeByte_mapped ready found), copyUp, found,
      Option.getD_some]
    apply ih (loads.mono same) (by omega) (same.as ▸ ready) _ _ (by omega)
    · intro j low high
      exact same.as ▸ mapped j (by omega) (by omega)
    · rw [same.as, Nat.add_right_comm k 1 stop]
      exact unmapped

theorem memcpy_halts {m} (loads : Loads source value m (k + 1)) (unready : ¬ m.as.Ready) :
    memcpy source dest k (left + 1) m = none := by
  rw [memcpy, bind_ok (loads k (by omega) m (.refl m)), bind_halts (storeByte_halts unready)]

theorem copyUp_other {m} (separate : m.as.Separate)
    (mapped : ∀ j, k ≤ j → j < k + left → m.as.Mapped (dest + j)) {vaddr}
    (outside : vaddr < dest + k ∨ dest + (k + left) ≤ vaddr) :
    (copyUp value dest k left m).userByte vaddr = m.userByte vaddr := by
  induction left generalizing k m with
  | zero => rfl
  | succ left ih =>
    obtain ⟨paddr, found⟩ := mapped k (Nat.le_refl k) (by omega)
    have same := SameSpace.setByte m paddr (value m k)
    rw [copyUp, found, Option.getD_some, ih (same.as ▸ separate) _ (by omega)]
    · exact userByte_setByte_other separate found (by omega)
    · intro j low high
      exact same.as ▸ mapped j (by omega) (by omega)

/-- The block holds what was loaded for it, if that does not depend on memory. -/
theorem copyUp_inside {bytes m} (separate : m.as.Separate)
    (mapped : ∀ j, k ≤ j → j < k + left → m.as.Mapped (dest + j)) (user : dest + (k + left) ≤ userTop) {j}
    (low : k ≤ j) (high : j < k + left) :
    (copyUp (fun _ => bytes) dest k left m).userByte (dest + j) = some (bytes j) := by
  induction left generalizing k m with
  | zero => omega
  | succ left ih =>
    obtain ⟨paddr, found⟩ := mapped k (Nat.le_refl k) (by omega)
    have same := SameSpace.setByte m paddr (bytes k)
    have later (j : Nat) (low : k + 1 ≤ j) (high : j < k + 1 + left) :
        (m.setByte paddr (bytes k)).as.Mapped (dest + j) := same.as ▸ mapped j (by omega) (by omega)
    rw [copyUp, found, Option.getD_some]
    by_cases first : j = k
    · subst first
      rw [copyUp_other (same.as ▸ separate) later (by omega)]
      exact userByte_setByte_same found (by omega)
    · exact ih (same.as ▸ separate) later (by omega) (by omega) (by omega)

end Copies

section Blocks

variable {value : Machine → Nat → UInt8} {source : Nat → Routine Errno Machine UInt8} {dest len : Nat} {m : Machine}
  (address : dest < word) (nonempty : 0 < len) (size : len ≤ word)

include address nonempty size

theorem copyout_done (loads : Loads source value m len) (ready : m.as.Ready) (writable : m.as.Writable dest len) :
    copyout source dest len m = some (.ok (), copyUp value dest 0 len m) := by
  rw [copyout, if_pos ((copycheck_iff address nonempty size).mpr writable.1)]
  apply memcpy_done loads (by omega) ready
  intro j _ high
  exact writable.2 j (by omega)

theorem copyout_rejected (outside : ¬ dest + len ≤ userTop) : copyout source dest len m = some (.error .efault, m) := by
  rw [copyout, if_neg (mt (copycheck_iff address nonempty size).mp outside)]
  rfl

/-- A block with a page that is not mapped is written up to that page. -/
theorem copyout_stops (loads : Loads source value m len) (ready : m.as.Ready) (user : dest + len ≤ userTop)
    (unwritable : ¬ m.as.Writable dest len) :
    ∃ stop, stop < len ∧ (∀ j, j < stop → m.as.Mapped (dest + j)) ∧ m.as.translate (dest + stop) = none ∧
      copyout source dest len m = some (.error .efault, copyUp value dest 0 stop m) := by
  have missing : ∃ k, k < len ∧ m.as.translate (dest + k) = none := by
    by_contra everywhere
    refine unwritable ⟨user, fun k bound => ?_⟩
    cases found : m.as.translate (dest + k) with
    | none => exact absurd ⟨k, bound, found⟩ everywhere
    | some paddr => exact ⟨paddr, found⟩
  classical
  have first := Nat.find_spec missing
  have before (j : Nat) (less : j < Nat.find missing) : m.as.Mapped (dest + j) := by
    cases found : m.as.translate (dest + j) with
    | none => exact absurd ⟨by omega, found⟩ (Nat.find_min missing less)
    | some paddr => exact ⟨paddr, found⟩
  refine ⟨Nat.find missing, first.1, before, first.2, ?_⟩
  rw [copyout, if_pos ((copycheck_iff address nonempty size).mpr user)]
  apply memcpy_stops loads (by omega) ready _ _ first.1
  · intro j _ high
    exact before j (by omega)
  · rw [Nat.zero_add]
    exact first.2

theorem copyout_halts (loads : Loads source value m len) (unready : ¬ m.as.Ready) (user : dest + len ≤ userTop) :
    copyout source dest len m = none := by
  rw [copyout, if_pos ((copycheck_iff address nonempty size).mpr user)]
  obtain ⟨rest, rfl⟩ : ∃ rest, len = rest + 1 := ⟨len - 1, by omega⟩
  exact memcpy_halts (fun k bound => loads k (by omega)) unready

end Blocks

end Os161.Vm
