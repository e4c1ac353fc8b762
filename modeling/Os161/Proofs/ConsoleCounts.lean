import Os161.ConsoleVnode
import Os161.Lib.Runs

/-! The counts of the console's vnode over any reads and writes. A call that opens the console adds to both for
good. -/

namespace Os161.Con
open Routine Runs

def ConsoleCall.Opens (call : ConsoleCall) : Prop := call.lookup = .ok () ∧ call.opened = .ok ()

theorem one_lt_add_one {count : Int32} (positive : 0 < count) (checked : 0 < count + 1) : 1 < count + 1 := by
  rw [Int32.lt_iff_toInt_lt] at *
  rw [Int32.toInt_add] at *
  have upper := count.toInt_lt
  simp only [Int32.toInt_zero, Int32.toInt_one, Int.bmod_def] at *
  omega

variable {vn next : Vnode} {call : ConsoleCall}

theorem vfsOpen_allows (call : ConsoleCall) (checked : vn.Checked) : (vfsOpen call).Allows vn fun result after =>
      ¬ call.Opens ∧ (∃ code, result = .error code) ∧ after = vn ∨
        call.Opens ∧ result = .ok () ∧ after = ⟨vn.refcount + 1, vn.opencount + 1⟩ := by
  rw [vfsOpen]
  cases lookup : call.lookup with
  | error code =>
    refine (allows_fail _ _ _).mpr (.inl ⟨fun opens => ?_, ⟨code, rfl⟩, rfl⟩)
    cases lookup.symm.trans opens.1
  | ok _ =>
    simp only [allows_bind, vnodeIncref, allows_modify, andThenAllows_ok, vnodeCheck, allows_get, allows_require]
    intro counted
    cases opened : call.opened with
    | error code =>
      simp only [vnodeDecref, allows_bind, allows_get, andThenAllows_ok, allows_require]
      intro positive
      rw [if_pos (one_lt_add_one checked.1 positive), allows_modify, andThenAllows_ok, allows_fail]
      refine .inl ⟨fun opens => ?_, ⟨code, rfl⟩, ?_⟩
      · cases opened.symm.trans opens.2
      · rw [Int32.add_sub_cancel]
    | ok _ =>
      rw [vnodeIncopen, allows_modify]
      exact .inr ⟨⟨lookup, opened⟩, rfl, rfl⟩

theorem returned_eq_one {transfer : Except Errno Unit} : returned transfer = 1 ↔ transfer = .error .einval := by
  cases transfer with
  | ok _ => exact ⟨nofun, nofun⟩
  | error code => cases code <;> simp [returned, Errno.code]

/-- What a call does that gets past the check of the file handle. -/
theorem consoleCall_allows (call : ConsoleCall) (checked : vn.Checked) (own : call.fd = call.fileno) :
    (consoleCall call).Allows vn fun result after =>
      ((∃ retval, result = .ok retval) ↔ call.transfer ≠ .error .einval) ∧
        (call.Opens ∧ after = ⟨vn.refcount + 1, vn.opencount + 1⟩ ∨ ¬ call.Opens ∧ after = vn) := by
  rw [consoleCall, if_neg (not_not.mpr own), allows_bind, allows_attempt]
  refine (vfsOpen_allows call checked).mono fun ret opened outcome => ?_
  have counts : call.Opens ∧ opened = ⟨vn.refcount + 1, vn.opencount + 1⟩ ∨ ¬ call.Opens ∧ opened = vn := by
    rcases outcome with ⟨closed, _, same⟩ | ⟨opens, _, counted⟩
    · exact .inr ⟨closed, same⟩
    · exact .inl ⟨opens, counted⟩
  rw [andThenAllows_ok, allows_bind]
  have check : (call.check ret).Allows opened fun result after => result = .ok () ∧ after = opened := by
    cases ret with
    | ok _ =>
      rw [ConsoleCall.check, vnodeCheck, allows_bind, allows_get, andThenAllows_ok, allows_require]
      exact fun _ => ⟨rfl, rfl⟩
    | error _ =>
      rw [ConsoleCall.check, allows_require]
      exact fun _ => ⟨rfl, rfl⟩
  refine check.mono fun result after passed => ?_
  obtain ⟨rfl, rfl⟩ := passed
  split
  next refused =>
    refine (allows_fail _ _ _).mpr ⟨⟨nofun, fun transferred => ?_⟩, counts⟩
    exact absurd (returned_eq_one.mp refused) transferred
  next accepted =>
    exact (allows_pure _ _ _).mpr ⟨⟨fun _ refused => accepted (returned_eq_one.mpr refused), fun _ => ⟨_, rfl⟩⟩, counts⟩

theorem consoleCall_ebadf (other : call.fd ≠ call.fileno) (vn : Vnode) :
    consoleCall call vn = some (.error .ebadf, vn) := by
  rw [consoleCall, if_pos other]
  rfl

/-- The call returns 0 only if the open and the transfer both have. -/
def Honest (vn : Vnode) (call : ConsoleCall) : Prop :=
  ∀ retval after, consoleCall call vn = some (.ok retval, after) → call.Opens ∧ call.transfer = .ok ()

/-- The call is for another handle, or the open fails and the transfer fails with `EINVAL`. -/
def Harmless (call : ConsoleCall) : Prop :=
  call.fd ≠ call.fileno ∨ ¬ call.Opens ∧ call.transfer = .error .einval

theorem Harmless.step (harmless : Harmless call) (checked : vn.Checked)
    (taken : consoleStep vn call = some next) : next = vn := by
  obtain ⟨⟨result, _⟩, computed, rfl⟩ := Option.map_eq_some_iff.mp taken
  by_cases own : call.fd = call.fileno
  · obtain ⟨-, ⟨opens, _⟩ | ⟨_, same⟩⟩ := consoleCall_allows call checked own _ _ computed
    · exact absurd opens (harmless.resolve_left (not_not.mpr own)).1
    · exact same
  · rw [consoleCall_ebadf own] at computed
    cases computed
    rfl

/-- A call that is not harmless shows in the counts or in its result. -/
theorem harmless_of_kept (checked : vn.Checked)
    (taken : consoleStep vn call = some next) (kept : next = vn) (honest : Honest vn call) : Harmless call := by
  obtain ⟨⟨result, _⟩, computed, rfl⟩ := Option.map_eq_some_iff.mp taken
  by_cases own : call.fd = call.fileno
  · obtain ⟨accepted, ⟨_, counted⟩ | ⟨closed, _⟩⟩ := consoleCall_allows call checked own _ _ computed
    · have same := congrArg Vnode.refcount (counted.symm.trans kept)
      cases Int32.add_eq_left.mp same
    · refine .inr ⟨closed, ?_⟩
      by_contra transferred
      obtain ⟨retval, rfl⟩ := accepted.mpr transferred
      exact closed (honest retval _ computed).1
  · exact .inl own

theorem Harmless.honest (harmless : Harmless call) (checked : vn.Checked) : Honest vn call := by
  intro retval after computed
  by_cases own : call.fd = call.fileno
  · obtain ⟨_, refused⟩ := harmless.resolve_left (not_not.mpr own)
    obtain ⟨accepted, _⟩ := consoleCall_allows call checked own _ _ computed
    exact absurd refused (accepted.mp ⟨retval, rfl⟩)
  · rw [consoleCall_ebadf own] at computed
    cases computed

/-- The calls leave the counts alone and report every failure exactly when all are harmless. -/
theorem console_counts_kept_iff (vn : Vnode) (checked : vn.Checked) (calls : List ConsoleCall) :
    Always consoleStep (· = vn) vn calls ∧ EachStep consoleStep Honest vn calls ↔
      EachStep consoleStep (fun _ call => Harmless call) vn calls := by
  constructor
  · rintro ⟨always, honest⟩
    have kept : EachStep consoleStep (fun state call => state = vn ∧ consoleStep state call = some vn) vn calls := by
      refine EachStep.of_always ?_ always
      rintro state call next same taken rfl
      exact ⟨same, taken⟩
    refine EachStep.both ?_ kept honest
    rintro state call next taken ⟨rfl, stays⟩ now
    exact harmless_of_kept checked stays rfl now
  · intro harmless
    have always : Always consoleStep (· = vn) vn calls := by
      refine always_of_steps ?_ rfl harmless
      rintro state call next rfl taken now
      exact now.step checked taken
    have here : EachStep consoleStep (fun state _ => state = vn) vn calls :=
      EachStep.of_always (fun _ _ _ same _ _ => same) always
    refine ⟨always, EachStep.both ?_ here harmless⟩
    rintro state call next _ rfl now
    exact now.honest checked

def writeCall : ConsoleCall := ⟨.write, 1, 1, .ok (), .ok (), false, .ok (), 0⟩

theorem console_counts_kept_ebadf :
    (⟨1, 0⟩ : Vnode).Checked ∧ Always consoleStep (· = ⟨1, 0⟩) ⟨1, 0⟩ [{ writeCall with fd := 2 }] ∧
      EachStep consoleStep Honest ⟨1, 0⟩ [{ writeCall with fd := 2 }] := by
  refine ⟨by decide, (console_counts_kept_iff ⟨1, 0⟩ (by decide) _).mpr fun next taken => ⟨.inl ?_, trivial⟩⟩
  decide

/-- One write adds to both counts, and a transfer failing with anything but `EINVAL` counts as a success. -/
theorem write_raises_counts :
    consoleCall writeCall ⟨1, 0⟩ = some (.ok 1, ⟨2, 1⟩) ∧
      ¬ Always consoleStep (· = ⟨1, 0⟩) ⟨1, 0⟩ [writeCall] ∧
      ¬ EachStep consoleStep Honest ⟨1, 0⟩ [{ writeCall with transfer := .error .efault, resid := 1 }] := by
  refine ⟨rfl, fun always => ?_, fun honest => ?_⟩
  · have kept : (⟨2, 1⟩ : Vnode) = ⟨1, 0⟩ := always.2 ⟨2, 1⟩ rfl
    exact absurd kept (by decide)
  · obtain ⟨now, _⟩ := honest ⟨2, 1⟩ rfl
    cases (now 0 ⟨2, 1⟩ rfl).2

end Os161.Con
