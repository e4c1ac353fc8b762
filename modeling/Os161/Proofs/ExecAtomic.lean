import Os161.Exec
import Os161.Lib.Faults
import Os161.Proofs.LoadOutcome

/-! When a failed `execv` leaves the caller as it was. The new address space is installed before the file is looked
at; and `getdevice` ends a device name inside the caller's string. -/

namespace Os161.Vm
open Routine Option

structure Unchanged (m m' : Machine) : Prop where
  vmspace : m'.vmspace = m.vmspace
  as : m'.as = m.as
  bytes : ∀ vaddr, m'.userByte vaddr = m.userByte vaddr

def AtomicOnFailure (kernel : Kernel) (program args : Nat) (m : Machine) : Prop :=
  ∀ code m', sysExecv kernel program args m = some (.error code, m') → Unchanged m m'

/-- The path begins with no device name, or its colon is not in user memory. -/
def ColonUnseen (program : Nat) (path : List UInt8) (m : Machine) : Prop :=
  ∀ colon paddr vaddr, deviceColon path = some colon → m.kernelPaddr (program + colon) = some paddr →
    vaddr < userTop → m.as.translate vaddr ≠ some paddr

/-- With a file open and an address space made, loading must not fail; an earlier failure is harmless unless the
path was cut. -/
def FailureHarmless (kernel : Kernel) (program : Nat) (m : Machine) : Prop :=
  ∀ path, m.path program = some path →
    match kernel.vfsOpen path, kernel.heap with
    | .ok file, some cm => Loadable file cm
    | _, _ => ColonUnseen program path m

theorem cutDevice_same (program : Nat) (path : List UInt8) (m : Machine) : SameSpace m (cutDevice program path m) := by
  rw [cutDevice]
  split
  · exact .refl m
  · split
    · exact .refl m
    · exact .setByte m _ 0

theorem colon_byte {m : Machine} {program colon path} (readable : m.path program = some path)
    (cut : deviceColon path = some colon) : m.kernelByte (program + colon) = some 0x3a := by
  obtain ⟨len, _, rfl⟩ := map_eq_some_iff.mp readable
  simp only [deviceColon] at cut
  split at cut
  next found =>
    cases cut
    have here := found.1
    rw [List.getElem?_map, map_eq_some_iff] at here
    obtain ⟨k, inside, colon⟩ := here
    obtain ⟨_, rfl⟩ := List.getElem?_eq_some_iff.mp inside
    rw [List.getElem_range] at colon
    cases byte : m.kernelByte (program + _) with
    | none =>
      rw [byte] at colon
      cases colon
    | some value =>
      rw [byte] at colon
      exact congrArg some colon
  next => cases cut

/-- Nothing but the cut is left of an `execv` that fails before the address space is
switched. -/
theorem unchanged_cutDevice_iff {m : Machine} {program path} (readable : m.path program = some path) :
    Unchanged m (cutDevice program path m) ↔ ColonUnseen program path m := by
  have same := cutDevice_same program path m
  cases cut : deviceColon path with
  | none =>
    have kept : cutDevice program path m = m := by rw [cutDevice, cut]
    rw [kept]
    refine ⟨fun _ colon paddr vaddr found => ?_, fun _ => ⟨rfl, rfl, fun _ => rfl⟩⟩
    rw [cut] at found
    cases found
  | some colon =>
    have byte := colon_byte readable cut
    obtain ⟨paddr, found, value⟩ := map_eq_some_iff.mp byte
    have stored : cutDevice program path m = m.setByte paddr 0 := by
      rw [cutDevice, cut]
      simp only [found]
    constructor
    · intro unchanged other place vaddr again placed user mapped
      rw [cut] at again
      cases again
      rw [found] at placed
      cases placed
      have bytes := unchanged.bytes vaddr
      rw [stored, userByte_setByte_same mapped user, Machine.userByte, if_pos user, mapped, map_some, value] at bytes
      cases bytes
    · intro unseen
      refine ⟨same.vmspace, same.as, fun vaddr => ?_⟩
      rw [Machine.userByte, Machine.userByte, same.as]
      split
      next user =>
        cases mapped : m.as.translate vaddr with
        | none => rfl
        | some place =>
          have apart : place ≠ paddr := fun hit => unseen colon paddr vaddr cut found user (hit ▸ mapped)
          rw [stored]
          simp [Machine.setByte, apart]
      next => rfl

/-- Once the program is loaded there is no way back. -/
def NeverFails {α : Type} (routine : Routine Errno Machine α) : Prop := ∀ m code m', routine m ≠ some (.error code, m')

variable {α : Type}

theorem NeverFails.bind {β : Type} {first} {next : α → Routine Errno Machine β}
    (safe : NeverFails first) (later : ∀ value, NeverFails (next value)) : NeverFails (first >>= next) :=
  Unfailing.bind safe later

theorem neverFails_pure (value : α) : NeverFails (pure value) := unfailing_pure value

theorem neverFails_halt : NeverFails (halt : Routine Errno Machine α) := nofun

theorem neverFails_get : NeverFails (get : Routine Errno Machine Machine) := nofun

theorem neverFails_attempt (routine : Routine Errno Machine α) : NeverFails (attempt routine) := by
  intro m code m' run
  obtain ⟨outcome, _, same⟩ := map_eq_some_iff.mp run
  cases same

theorem copyStrings_neverFails (args i left place : Nat) : NeverFails (copyStrings args i left place) := by
  induction left generalizing i place with
  | zero => exact neverFails_pure _
  | succ left ih =>
    apply neverFails_get.bind
    intro m
    split
    · exact neverFails_halt
    · split
      · exact neverFails_halt
      · apply (neverFails_attempt _).bind
        intro _
        apply (ih _ _).bind
        intro _
        exact neverFails_pure _

theorem passArguments_neverFails (args stackptr entry : Nat) : NeverFails (passArguments args stackptr entry) := by
  apply neverFails_get.bind
  intro m
  split
  · exact neverFails_halt
  · apply (copyStrings_neverFails _ _ _ _).bind
    intro _
    apply (neverFails_attempt _).bind
    intro _
    exact neverFails_pure _

theorem asDefineStack_neverFails : NeverFails asDefineStack := by
  apply neverFails_get.bind
  intro m
  by_cases stack : m.as.stackpbase ≠ 0
  · rw [require, if_pos stack]
    exact (neverFails_pure ()).bind fun _ => neverFails_pure _
  · rw [require, if_neg stack]
    exact neverFails_halt.bind fun _ => neverFails_pure _

section Runs

variable {kernel : Kernel} {program args : Nat} {m : Machine} {path : List UInt8}

theorem sysExecv_unreadable (unreadable : m.path program = none) : sysExecv kernel program args m = none := by
  rw [sysExecv, bind_ok rfl, unreadable]
  rfl

variable (readable : m.path program = some path)

include readable

theorem sysExecv_unopened {code} (unopened : kernel.vfsOpen path = .error code) :
    sysExecv kernel program args m = some (.error code, cutDevice program path m) := by
  rw [sysExecv, bind_ok rfl, readable]
  simp only
  rw [bind_ok rfl, unopened, bind_error rfl]

variable {file : File} (opened : kernel.vfsOpen path = .ok file)

include opened

theorem sysExecv_unmade (unmade : kernel.heap = none) :
    sysExecv kernel program args m = some (.error .enomem, cutDevice program path m) := by
  rw [sysExecv, bind_ok rfl, readable]
  simp only
  rw [bind_ok rfl, opened, bind_ok rfl, unmade]
  rfl

theorem sysExecv_made {cm} (made : kernel.heap = some cm) :
    sysExecv kernel program args m =
      (loadElf file >>= fun entry => asDefineStack >>= fun stackptr => passArguments args stackptr entry)
        ((cutDevice program path m).switchAs cm) := by
  rw [sysExecv, bind_ok rfl, readable]
  simp only
  rw [bind_ok rfl, opened, bind_ok rfl, made]
  simp only
  rw [bind_ok rfl]

end Runs

theorem switchAs_as (m : Machine) (cm : Coremap) : (m.switchAs cm).as = asCreate := by
  simp [Machine.as, Machine.switchAs]

theorem execv_atomic_iff (kernel : Kernel) (program args : Nat) (m : Machine) :
    AtomicOnFailure kernel program args m ↔ FailureHarmless kernel program m := by
  cases readable : m.path program with
  | none =>
    refine ⟨fun _ path found => ?_, fun _ code m' run => ?_⟩
    · rw [readable] at found
      cases found
    · rw [sysExecv_unreadable readable] at run
      cases run
  | some path =>
    have reduced : FailureHarmless kernel program m ↔
        match kernel.vfsOpen path, kernel.heap with
        | .ok file, some cm => Loadable file cm
        | _, _ => ColonUnseen program path m := by
      refine ⟨fun harmless => harmless path readable, fun holds other found => ?_⟩
      rw [readable] at found
      cases found
      exact holds
    have failed {code : Errno} (run : sysExecv kernel program args m = some (.error code, cutDevice program path m)) :
        AtomicOnFailure kernel program args m ↔ ColonUnseen program path m := by
      rw [← unchanged_cutDevice_iff readable]
      refine ⟨fun atomic => atomic code _ run, fun unchanged other m' again => ?_⟩
      rw [run] at again
      cases again
      exact unchanged
    rw [reduced]
    cases opened : kernel.vfsOpen path with
    | error code => exact failed (sysExecv_unopened readable opened)
    | ok file =>
      cases made : kernel.heap with
      | none => exact failed (sysExecv_unmade readable opened made)
      | some cm =>
        have run := @sysExecv_made kernel program args m path readable file opened cm made
        have fresh := switchAs_as (cutDevice program path m) cm
        constructor
        · intro atomic
          by_contra refused
          obtain ⟨code, m', current, stopped⟩ := loadElf_fails fresh refused
          have unchanged := atomic code m' (by rw [run, bind_error stopped])
          have created : m'.vmspace = m.created := current.trans (cutDevice_same program path m).created
          have old := m.current
          rw [← unchanged.vmspace, created] at old
          exact absurd old (Nat.lt_irrefl _)
        · intro loadable code m' stopped
          rw [run] at stopped
          rcases loadElf_loads fresh loadable with halted | ⟨entry, loaded, done⟩
          · rw [bind_halts halted] at stopped
            cases stopped
          · rw [bind_ok done] at stopped
            exact absurd stopped
              (asDefineStack_neverFails.bind (fun stackptr => passArguments_neverFails args stackptr entry) loaded code m')

/-- A process with the string `a` at the start of its first region and a vector that points to it. -/
def caller : Machine where
  ram := fun paddr => if paddr = 0x10000 then 0x61 else if paddr = 0x10011 then 0x40 else 0
  ramsize := 0x80000
  bounded := by decide
  cm := ⟨[], 0⟩
  spaces := fun _ => ⟨0x400000, 0x10000, 1, 0x410000, 0x11000, 1, 0x12000⟩
  created := 1
  vmspace := 0
  current := Nat.one_pos

def emptyFile : File where
  read := fun _ _ _ => ([], none)
  bounded := fun _ _ resid => Nat.zero_le resid

/-- A file that is not an executable, and memory for a new address space. -/
def notExecutable : Kernel where
  vfsOpen := fun _ => .ok emptyFile
  heap := some ⟨[], 4096⟩
  laid := by
    intro cm same
    cases same
    exact ⟨nofun, by decide, by decide, by decide⟩

theorem failed_execv_loses_space : ¬ AtomicOnFailure notExecutable 0x400000 0x400010 caller := by
  intro atomic
  have run : ((sysExecv notExecutable 0x400000 0x400010 caller).map fun outcome =>
      (outcome.1.toOption.isNone, outcome.2.vmspace)) = some (true, 1) := by decide +kernel
  obtain ⟨⟨result, m'⟩, stopped, observed⟩ := map_eq_some_iff.mp run
  cases result with
  | ok usermode => cases congrArg Prod.fst observed
  | error code =>
    have same := (atomic code m' stopped).vmspace
    rw [show m'.vmspace = 1 from congrArg Prod.snd observed] at same
    cases same

end Os161.Vm
