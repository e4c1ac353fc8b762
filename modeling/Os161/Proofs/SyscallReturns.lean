import Os161.Proofs.ForkUndo
import Os161.Proofs.WaitpidSafety
import Os161.Syscall

/-! What a system call leaves in the registers of the program. -/

namespace Os161

theorem Errno.code_known (code : Errno) : 1 ≤ code.code ∧ code.code ≤ 26 := by
  cases code <;> decide

namespace Proc
open Routine

/-- The pid is that of a child of the caller, unless the call does not get to look. -/
def WaitCall.Known (call : WaitCall) (table : Int → Option Process) : Prop :=
  call.Refused ∨ ∃ process, table call.pid.toInt = some process ∧ process.parentPid = call.caller

theorem waitExit_zero (call : WaitCall) : (waitExit call).Yields (· = 0) := by
  refine Yields.after fun _ => Yields.after fun _ => Yields.after fun _ => Yields.after fun _ => ?_
  refine Yields.after fun _ => Yields.after fun _ => Yields.after fun _ => Yields.after fun _ => ?_
  exact yields_pure rfl

theorem field_eq {α : Type} {s pid process} (there : s.table pid = some process)
    (select : Process → α) : field pid select s = some (.ok (select process), s.used pid) := by
  have read : entry pid s = some (.ok (some process), s.used pid) := by
    rw [← there]
    rfl
  rw [field, bind_ok read]
  rfl

/-- The value is an error code or 0, or it is -1 for a pid that is not known. -/
theorem waitpid_values (call : WaitCall) (table : Int → Option Process) (value : Int) (after : TableState)
    (returns : waitpid call ⟨table, []⟩ = some (.ok value, after)) :
    call.Known table ∧ 0 ≤ value ∧ value ≤ 26 ∨ ¬ call.Known table ∧ value = -1 := by
  by_cases refused : call.Refused
  · have safe := (waitpid_refused refused table).elim returns
    rcases safe.returns with zero | ⟨code, same, positive, known, _⟩
    · cases zero
      exact .inl ⟨.inl refused, by decide, by decide⟩
    · cases same
      exact .inl ⟨.inl refused, Int.le_trans (by decide) positive, known⟩
  · have passed := refused
    simp only [WaitCall.Refused, not_or, not_not] at passed
    obtain ⟨nonzero, aligned, noOptions⟩ := passed
    simp only [waitpid, if_neg nonzero, if_neg (not_not.mpr aligned), if_neg (not_not.mpr noOptions)] at returns
    have read : entry call.pid.toInt ⟨table, []⟩ = some (.ok (table call.pid.toInt), _) := rfl
    rw [bind_ok read] at returns
    cases found : table call.pid.toInt with
    | none =>
      rw [found] at returns
      cases returns
      refine .inr ⟨?_, rfl⟩
      rintro (wrong | ⟨process, there, _⟩)
      · exact refused wrong
      · cases found.symm.trans there
    | some process =>
      rw [found] at returns
      dsimp only at returns
      rw [bind_ok (@field_eq _ _ _ process found _)] at returns
      split at returns
      next stranger =>
        cases returns
        refine .inr ⟨?_, rfl⟩
        rintro (wrong | ⟨other, there, parent⟩)
        · exact refused wrong
        · cases found.symm.trans there
          exact stranger parent
      next parent =>
        have zero : value = 0 := by
          refine @Yields.after _ _ _ _ (· = 0) _ _ (fun exited => ?_) _ _ _ returns
          split
          · exact Yields.after fun _ => Yields.after fun _ => yields_pure rfl
          · exact waitExit_zero call
        rw [zero]
        exact .inl ⟨.inr ⟨process, found, not_not.mp parent⟩, by decide, by decide⟩

end Proc

namespace Sys

/-- A result that is a code of `kern/errno.h` or 0. -/
def Return.Known (returned : Return) : Prop := 0 ≤ returned.err ∧ returned.err ≤ 26

theorem failure_known (code : Errno) : (failure code).Known :=
  ⟨Int.natCast_nonneg _, Int.ofNat_le.mpr code.code_known.2⟩

theorem success_known (retval : UInt32) : Return.Known ⟨0, retval⟩ :=
  ⟨Int.le_refl 0, (by decide : (0 : Int) ≤ 26)⟩

variable {returned : Return} {env : Env} {tf : Trapframe}

theorem sysReboot_known {code} (returns : sysReboot code = some returned) : returned.Known := by
  rw [sysReboot] at returns
  split at returns
  · cases returns
  · cases returns
    exact failure_known .einval

theorem console_known {outcome}
    (returns : console outcome = some returned) : returned.Known := by
  obtain ⟨⟨result, _⟩, _, rfl⟩ := Option.map_eq_some_iff.mp returns
  cases result with
  | error code => exact failure_known code
  | ok count => exact success_known _

theorem fork_known (returns : fork env tf = some returned) : returned.Known := by
  rw [fork] at returns
  split at returns
  · cases returns
  · cases returns
    exact failure_known _
  · obtain ⟨pid, _, rfl⟩ := Option.map_eq_some_iff.mp returns
    exact success_known _

theorem sysGetpid_known (returns : sysGetpid env = some returned) : returned.Known := by
  obtain ⟨thread, _, rfl⟩ := Option.map_eq_some_iff.mp returns
  exact success_known _

theorem execv_known (returns : execv env tf = some returned) : returned.Known := by
  rw [execv] at returns
  split at returns
  · cases returns
    exact failure_known _
  · cases returns

/-- The call is a `waitpid` for something else than a child of the caller. -/
def WaitsStranger (env : Env) (tf : Trapframe) : Prop :=
  callno (tf .v0) = some .waitpid ∧ ¬ (waitCall env tf).Known env.table

theorem waitpid_returns (returns : waitpid env tf = some returned) :
    (waitCall env tf).Known env.table ∧ returned.Known ∨ ¬ (waitCall env tf).Known env.table ∧ returned = ⟨-1, 0⟩ := by
  rw [waitpid] at returns
  split at returns
  next value after computed =>
    cases returns
    rcases Proc.waitpid_values _ _ _ _ computed with ⟨known, positive, small⟩ | ⟨unknown, rfl⟩
    · exact .inl ⟨known, positive, small⟩
    · exact .inr ⟨unknown, rfl⟩
  · cases returns

/-- Every handler returns 0 or an error code, but for a `waitpid` for a stranger. -/
theorem handler_returns (returns : handler env tf = some returned) :
    ¬ WaitsStranger env tf ∧ returned.Known ∨ WaitsStranger env tf ∧ returned = ⟨-1, 0⟩ := by
  by_cases waits : callno (tf .v0) = some .waitpid
  · simp only [handler, waits] at returns
    rcases waitpid_returns returns with ⟨known, result⟩ | ⟨unknown, result⟩
    · exact .inl ⟨fun stranger => stranger.2 known, result⟩
    · exact .inr ⟨⟨waits, unknown⟩, result⟩
  · refine .inl ⟨fun stranger => waits stranger.1, ?_⟩
    rw [handler] at returns
    split at returns
    · exact sysReboot_known returns
    · exact console_known returns
    · exact console_known returns
    · exact fork_known returns
    · exact sysGetpid_known returns
    next waiting => exact absurd waiting waits
    · cases returns
    · exact execv_known returns
    · cases returns
      exact ⟨by decide, by decide⟩

/-- The program goes on behind the call, with the handler's value or with an error code. -/
def Convention (env : Env) (tf after : Trapframe) : Prop :=
  after .epc = tf .epc + 4 ∧
    ((∃ retval, handler env tf = some ⟨0, retval⟩ ∧ after .a3 = 0 ∧ after .v0 = retval) ∨
      after .a3 = 1 ∧ 1 ≤ (after .v0).toNat ∧ (after .v0).toNat ≤ 26)

theorem answer_epc (tf : Trapframe) (returned : Return) : answer tf returned .epc = tf .epc + 4 := by
  rw [answer]
  split <;> simp

theorem answer_success (tf : Trapframe) (retval : UInt32) :
    answer tf ⟨0, retval⟩ .a3 = 0 ∧ answer tf ⟨0, retval⟩ .v0 = retval := by
  simp [answer]

theorem answer_failure (tf : Trapframe) (failed : returned.err ≠ 0) :
    answer tf returned .a3 = 1 ∧ answer tf returned .v0 = u32 returned.err := by
  simp [answer, failed]

theorem u32_small {value} (positive : 0 ≤ value) (small : value ≤ 26) : (u32 value).toNat = value.toNat := by
  rw [u32, UInt32.toNat_ofNat']
  omega

/-- A system call keeps to the convention exactly when it is no `waitpid` for a stranger. -/
theorem return_convention_iff (env : Env) (tf after : Trapframe) (returns : mipsSyscall env tf = some after) :
    Convention env tf after ↔ ¬ WaitsStranger env tf := by
  obtain ⟨returned, handled, rfl⟩ := Option.map_eq_some_iff.mp returns
  rcases handler_returns handled with ⟨familiar, positive, small⟩ | ⟨stranger, rfl⟩
  · refine ⟨fun _ => familiar, fun _ => ⟨answer_epc tf returned, ?_⟩⟩
    by_cases failed : returned.err = 0
    · obtain ⟨err, retval⟩ := returned
      cases failed
      exact .inl ⟨retval, handled, answer_success tf retval⟩
    · obtain ⟨flag, value⟩ := answer_failure tf failed
      refine .inr ⟨flag, ?_⟩
      rw [value, u32_small positive small]
      omega
  · refine ⟨fun convention => ?_, fun familiar => absurd stranger familiar⟩
    obtain ⟨flag, value⟩ := @answer_failure ⟨-1, 0⟩ tf (by decide)
    rcases convention.2 with ⟨retval, other, _⟩ | ⟨_, _, small⟩
    · cases handled.symm.trans other
    · rw [value] at small
      exact absurd small (by decide)

def oneEnv : Env where
  granted := true
  terminal := ⟨Fork.programMachine, fun _ => 0, [], []⟩
  kern := Fork.oneProgram fun _ => true
  stale := ⟨6, 0⟩
  reused := none
  table := fun _ => none
  caller := 1
  writable := true
  atP := fun _ => none
  later := fun _ => none
  kernel := ⟨fun _ => .error .enoent, none, nofun⟩
  machine := Fork.programMachine

/-- A system call with its number and two arguments. -/
def trap (number a0 a1 : UInt32) : Trapframe
  | .v0 => number
  | .a0 => a0
  | .a1 => a1
  | _ => 0

theorem return_convention_getpid :
    ∃ after, mipsSyscall oneEnv (trap 11 0 0) = some after ∧ Convention oneEnv (trap 11 0 0) after := by
  refine ⟨_, rfl, (return_convention_iff oneEnv (trap 11 0 0) _ rfl).mpr fun stranger => ?_⟩
  exact absurd stranger.1 (by decide)

/-- `waitpid` for pid 5, which no process has, leaves -1 as the error code. -/
theorem waitpid_breaks_convention :
    ∃ after, mipsSyscall oneEnv (trap 3 5 0x7ffffff0) = some after ∧ after .a3 = 1 ∧ after .v0 = 0xffffffff ∧
      ¬ Convention oneEnv (trap 3 5 0x7ffffff0) after := by
  refine ⟨_, rfl, rfl, rfl, ?_⟩
  rintro ⟨_, ⟨_, _, success, _⟩ | ⟨_, _, small⟩⟩
  · exact absurd success (by decide)
  · exact absurd small (by decide)

end Sys

end Os161
