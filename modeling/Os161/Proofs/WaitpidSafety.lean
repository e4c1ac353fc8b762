import Os161.Waitpid

/-! For which calls `sys_waitpid` stays inside the process table. -/

namespace Os161.Proc
open Routine

section Accesses

variable {α : Type} {s : TableState} {pid : Int} {process : Process}

theorem ensures_entry (pid : Int) (s : TableState) (post : Except Fault (Option Process) → TableState → Prop) :
    (entry pid).Ensures s post ↔ post (.ok (s.table pid)) (s.used pid) := by
  simp only [entry, ensures_bind, ensures_modify, after_ok, ensures_get, ensures_pure]
  rfl

theorem ensures_field (there : s.table pid = some process) (select : Process → α)
    (post : Except Fault α → TableState → Prop) :
    (field pid select).Ensures s post ↔ post (.ok (select process)) (s.used pid) := by
  simp only [field, ensures_bind, ensures_entry, after_ok, there, ensures_pure]

theorem ensures_field_null (gone : s.table pid = none) (select : Process → α)
    (post : Except Fault α → TableState → Prop) :
    (field pid select).Ensures s post ↔ post (.error .nullEntry) (s.used pid) := by
  simp only [field, ensures_bind, ensures_entry, after_ok, gone, ensures_fail]

end Accesses

/-- Every index is one of the table, and the call returns 0, or an error code with the table as it
was. -/
structure Safe (table : Int → Option Process) (result : Except Fault Int) (after : TableState) : Prop where
  indices : ∀ index ∈ after.indices, 0 ≤ index ∧ index < maxthreads
  returns : result = .ok 0 ∨ ∃ code, result = .ok code ∧ 1 ≤ code ∧ code ≤ 26 ∧ after.table = table

variable {table : Int → Option Process} {after : TableState}

theorem not_safe_minus_one : ¬ Safe table (.ok (-1)) after := by
  rintro ⟨_, returns | ⟨code, returns, positive, _⟩⟩
  · cases returns
  · cases returns
    exact absurd positive (by decide)

theorem not_safe_fault {fault} : ¬ Safe table (.error fault) after := by
  rintro ⟨_, returns | ⟨code, returns, _⟩⟩
  · cases returns
  · cases returns

theorem safe_zero {pid} (used : pid ∈ after.indices)
    (only : ∀ index ∈ after.indices, index = pid) : Safe table (.ok 0) after ↔ 0 ≤ pid ∧ pid < maxthreads := by
  constructor
  · exact fun safe => safe.indices pid used
  · intro inside
    refine ⟨fun index looked => ?_, .inl rfl⟩
    rw [only index looked]
    exact inside

def WaitCall.Refused (call : WaitCall) : Prop := call.status = 0 ∨ call.status % 4 ≠ 0 ∨ call.options ≠ 0

/-- When the child has not exited: it has a semaphore, and its entry is still there after the wait. -/
def WaitCall.Stays (call : WaitCall) : Prop :=
  (∃ process sem, call.atP call.pid.toInt = some process ∧ process.exitSem = some sem) ∧
    (call.later call.pid.toInt).isSome = true

/-- The pid is that of a child of the caller, whose exit code can be stored. -/
def WaitCall.Waitable (call : WaitCall) (table : Int → Option Process) : Prop :=
  (0 ≤ call.pid.toInt ∧ call.pid.toInt < maxthreads) ∧ call.writable = true ∧
    ∃ process, table call.pid.toInt = some process ∧ process.parentPid = call.caller ∧
      (process.exited = true ∨ call.Stays)

theorem waitExit_safe_iff (call : WaitCall) (s : TableState) (table : Int → Option Process)
    (only : ∀ index ∈ s.indices, index = call.pid.toInt) :
    (waitExit call).Ensures s (Safe table) ↔
      (0 ≤ call.pid.toInt ∧ call.pid.toInt < maxthreads) ∧ call.writable = true ∧ call.Stays := by
  simp only [waitExit, others, semPEntry, ensures_bind, ensures_modify, after_ok]
  cases before : call.atP call.pid.toInt with
  | none =>
    rw [ensures_field_null before]
    refine ⟨fun safe => absurd safe not_safe_fault, ?_⟩
    rintro ⟨_, _, ⟨process, _, there, _⟩, _⟩
    cases before.symm.trans there
  | some process =>
    rw [ensures_field before, after_ok]
    cases held : process.exitSem with
    | none =>
      rw [ensures_fail]
      refine ⟨fun safe => absurd safe not_safe_fault, ?_⟩
      rintro ⟨_, _, ⟨_, _, there, found⟩, _⟩
      cases before.symm.trans there
      cases held.symm.trans found
    | some sem =>
      rw [ensures_pure, after_ok, ensures_bind, ensures_modify, after_ok, ensures_bind]
      cases later : call.later call.pid.toInt with
      | none =>
        rw [ensures_field_null later]
        refine ⟨fun safe => absurd safe not_safe_fault, ?_⟩
        rintro ⟨_, _, _, there⟩
        rw [later] at there
        cases there
      | some last =>
        rw [ensures_field later, after_ok, ensures_bind, storeStatus]
        have stays : call.Stays := ⟨⟨process, sem, before, held⟩, by rw [later]; rfl⟩
        split
        next writable =>
          rw [ensures_pure, after_ok, ensures_bind, @ensures_field _ _ _ last later, after_ok, ensures_bind, ensures_entry,
            after_ok, ensures_bind, ensures_modify, after_ok, ensures_pure]
          refine (@safe_zero table _ call.pid.toInt List.mem_cons_self fun index looked => ?_).trans ?_
          · simp only [TableState.used, List.mem_cons] at looked
            rcases looked with same | same | same | same | same | old
            all_goals first | exact same | exact only index old
          · exact ⟨fun inside => ⟨inside, writable, stays⟩, fun waited => waited.1⟩
        next refused =>
          rw [ensures_fail]
          exact ⟨fun safe => absurd safe not_safe_fault, fun waited => absurd waited.2.1 refused⟩

theorem waitpid_refused {call} (refused : call.Refused) (table : Int → Option Process) :
    (waitpid call).Ensures ⟨table, []⟩ (Safe table) := by
  have returns (code : Errno) (known : 1 ≤ code.code ∧ code.code ≤ 26) :
      (pure (code.code : Int) : Routine Fault TableState Int).Ensures ⟨table, []⟩ (Safe table) := by
    refine (ensures_pure _ _ _).mpr ⟨nofun, .inr ⟨code.code, rfl, ?_⟩⟩
    exact ⟨Int.ofNat_le.mpr known.1, Int.ofNat_le.mpr known.2, rfl⟩
  rw [waitpid]
  split
  · exact returns .efault (by decide)
  next nonzero =>
    split
    · exact returns .efault (by decide)
    next aligned =>
      rw [if_pos ((refused.resolve_left nonzero).resolve_left aligned)]
      exact returns .einval (by decide)

/-- `sys_waitpid` is safe exactly for refused arguments and for the caller's own children. -/
theorem waitpid_safe_iff (call : WaitCall) (table : Int → Option Process) :
    (waitpid call).Ensures ⟨table, []⟩ (Safe table) ↔ call.Refused ∨ call.Waitable table := by
  by_cases refused : call.Refused
  · exact ⟨fun _ => .inl refused, fun _ => waitpid_refused refused table⟩
  rw [or_iff_right refused]
  simp only [WaitCall.Refused, not_or, not_not] at refused
  obtain ⟨nonzero, aligned, noOptions⟩ := refused
  simp only [waitpid, if_neg nonzero, if_neg (not_not.mpr aligned), if_neg (not_not.mpr noOptions), ensures_bind,
    ensures_entry, after_ok]
  cases found : table call.pid.toInt with
  | none =>
    rw [ensures_pure]
    refine ⟨fun safe => absurd safe not_safe_minus_one, ?_⟩
    rintro ⟨_, _, process, there, _⟩
    cases found.symm.trans there
  | some process =>
    rw [ensures_bind, @ensures_field _ _ _ process found, after_ok]
    split
    next stranger =>
      rw [ensures_pure]
      refine ⟨fun safe => absurd safe not_safe_minus_one, ?_⟩
      rintro ⟨_, _, other, there, parent, _⟩
      cases found.symm.trans there
      exact absurd parent stranger
    next parent =>
      rw [ensures_bind, @ensures_field _ _ _ process found, after_ok]
      split
      next exited =>
        rw [ensures_bind, @ensures_field _ _ _ process found, after_ok, ensures_bind, storeStatus]
        split
        next writable =>
          rw [ensures_pure, after_ok, ensures_pure]
          refine (@safe_zero table _ call.pid.toInt List.mem_cons_self fun index looked => ?_).trans ?_
          · simpa [TableState.used] using looked
          · exact ⟨fun inside => ⟨inside, writable, process, found, not_not.mp parent, .inl exited⟩, fun waited => waited.1⟩
        next readonly =>
          rw [ensures_fail]
          exact ⟨fun safe => absurd safe not_safe_fault, fun waited => absurd waited.2.1 readonly⟩
      next running =>
        have only : ∀ index ∈ ((TableState.used ⟨table, []⟩ call.pid.toInt).used call.pid.toInt).used
            call.pid.toInt |>.indices, index = call.pid.toInt := by
          intro index looked
          simpa [TableState.used] using looked
        rw [waitExit_safe_iff call _ table only]
        constructor
        · rintro ⟨inside, writable, stays⟩
          exact ⟨inside, writable, process, found, not_not.mp parent, .inr stays⟩
        · rintro ⟨inside, writable, other, there, _, exited | stays⟩
          · cases found.symm.trans there
            exact absurd exited running
          · exact ⟨inside, writable, stays⟩

def waitNobody : WaitCall := ⟨5, 0x7ffffff0, 0, 1, true, fun _ => none, fun _ => none⟩

/-- The pid of no process makes the call return -1, and a negative one reads memory before the
table. -/
theorem waitpid_strays :
    waitpid waitNobody ⟨fun _ => none, []⟩ = some (.ok (-1), ⟨fun _ => none, [5]⟩) ∧
      waitpid { waitNobody with pid := -7 } ⟨fun _ => none, []⟩ = some (.ok (-1), ⟨fun _ => none, [-7]⟩) ∧
      ¬ (waitpid waitNobody).Ensures ⟨fun _ => none, []⟩ (Safe fun _ => none) := by
  refine ⟨rfl, rfl, ?_⟩
  rintro ⟨result, after, computed, safe⟩
  cases computed
  exact not_safe_minus_one safe

end Os161.Proc
