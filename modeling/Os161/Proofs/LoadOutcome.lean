import Os161.Proofs.CoremapFrames
import Os161.Proofs.SegmentLoad

/-! What decides whether `load_elf` returns an error: the file, and the frames that are
free. -/

namespace Os161.Vm
open Routine

section SetAs

variable (m : Machine) (as other : AddrSpace)

@[simp] theorem setAs_as : (m.setAs as).as = as := by
  simp [Machine.as, Machine.setAs]

@[simp] theorem setAs_setAs : (m.setAs as).setAs other = m.setAs other := by
  simp only [Machine.setAs, Machine.mk.injEq, true_and, and_true]
  funext i
  split <;> rfl

theorem setAs_self : m.setAs m.as = m := by
  have unchanged : (fun i => if i = m.vmspace then m.as else m.spaces i) = m.spaces := by
    funext i
    split
    next same => rw [same]; rfl
    next => rfl
  simp only [Machine.setAs, unchanged]

end SetAs

/-- The region table the program headers give, from header `i` on. -/
def regionTable (file : File) (eh : ElfEhdr) : (i left : Nat) → AddrSpace → Except Errno AddrSpace
  | _, 0, as => .ok as
  | i, left + 1, as => do
    match ← file.phdr (.define i) (eh.phdrOffset i) with
    | none => regionTable file eh (i + 1) left as
    | some ph => regionTable file eh (i + 1) left (← asDefineRegion as ph.vaddr ph.memsz)

variable {file : File} {eh : ElfEhdr} {i left : Nat}

theorem defineSegments_ok {m table} (found : regionTable file eh i left m.as = .ok table) :
    defineSegments file eh i left m = some (.ok (), m.setAs table) := by
  induction left generalizing i m with
  | zero =>
    cases found
    rw [setAs_self]
    rfl
  | succ left ih =>
    rw [regionTable] at found
    rw [defineSegments]
    cases header : file.phdr (.define i) (eh.phdrOffset i) with
    | error code =>
      rw [header] at found
      cases found
    | ok header' =>
      rw [header] at found
      rw [bind_ok rfl]
      cases header' with
      | none => exact ih found
      | some ph =>
        change (asDefineRegion m.as ph.vaddr ph.memsz >>= regionTable file eh (i + 1) left) = .ok table at found
        simp only
        rw [bind_ok rfl]
        cases region : asDefineRegion m.as ph.vaddr ph.memsz with
        | error code =>
          rw [region] at found
          cases found
        | ok as =>
          rw [region] at found
          rw [bind_ok rfl, bind_ok rfl, ih (by rw [setAs_as]; exact found), setAs_setAs]

theorem defineSegments_error {m code} (found : regionTable file eh i left m.as = .error code) :
    ∃ m', m'.vmspace = m.vmspace ∧ defineSegments file eh i left m = some (.error code, m') := by
  induction left generalizing i m with
  | zero => cases found
  | succ left ih =>
    rw [regionTable] at found
    rw [defineSegments]
    cases header : file.phdr (.define i) (eh.phdrOffset i) with
    | error other =>
      rw [header] at found
      cases found
      exact ⟨m, rfl, bind_error rfl⟩
    | ok header' =>
      rw [header] at found
      rw [bind_ok rfl]
      cases header' with
      | none => exact ih found
      | some ph =>
        change (asDefineRegion m.as ph.vaddr ph.memsz >>= regionTable file eh (i + 1) left) = .error code at found
        simp only
        rw [bind_ok rfl]
        cases region : asDefineRegion m.as ph.vaddr ph.memsz with
        | error other =>
          rw [region] at found
          cases found
          exact ⟨m, rfl, bind_error rfl⟩
        | ok as =>
          rw [region] at found
          obtain ⟨m', same, failed⟩ := @ih (i + 1) (m.setAs as) (by rw [setAs_as]; exact found)
          exact ⟨m', same, by rw [bind_ok rfl, bind_ok rfl, failed]⟩

def prepared (cm : Coremap) (table : AddrSpace) : Option AddrSpace :=
  let region1 := cmGetppages cm table.npages1
  let region2 := cmGetppages region1.2 table.npages2
  let stack := cmGetppages region2.2 dumbvmStackpages
  if region1.1 = 0 ∨ region2.1 = 0 ∨ stack.1 = 0 then none
  else some { table with pbase1 := region1.1, pbase2 := region2.1, stackpbase := stack.1 }

section Prepare

variable {m : Machine} {npages : Nat} {store : AddrSpace → Nat → AddrSpace}

theorem takeFrames_ok (found : (cmGetppages m.cm npages).1 ≠ 0) :
    takeFrames npages store m = some (.ok (), m.take npages store) := by
  rw [takeFrames, bind_ok rfl, bind_ok rfl, if_neg found]
  rfl

theorem takeFrames_error (none : (cmGetppages m.cm npages).1 = 0) :
    takeFrames npages store m = some (.error .enomem, m.take npages store) := by
  rw [takeFrames, bind_ok rfl, bind_ok rfl, if_pos none]
  rfl

theorem take_as : (m.take npages store).as = store m.as (cmGetppages m.cm npages).1 := by
  simp [Machine.take]

theorem take_cm : (m.take npages store).cm = (cmGetppages m.cm npages).2 := rfl

theorem asPrepareLoad_ok {as} (unprepared : m.as.Unprepared) (found : prepared m.cm m.as = some as) :
    ∃ m', asPrepareLoad m = some (.ok (), m') ∧ m'.as = as ∧ m'.vmspace = m.vmspace := by
  simp only [prepared] at found
  split at found
  · cases found
  next all =>
    simp only [not_or] at all
    obtain ⟨one, two, three⟩ := all
    cases found
    rw [asPrepareLoad, bind_ok rfl, bind_ok (require_pos unprepared), bind_ok (takeFrames_ok one),
      bind_ok (takeFrames_ok (m := m.take _ _) two), takeFrames_ok (m := (m.take _ _).take _ _) three]
    exact ⟨_, rfl, by simp only [take_as, take_cm], rfl⟩

theorem asPrepareLoad_error (unprepared : m.as.Unprepared) (none : prepared m.cm m.as = none) :
    ∃ m', asPrepareLoad m = some (.error .enomem, m') ∧ m'.vmspace = m.vmspace := by
  simp only [prepared] at none
  split at none
  next missing =>
    rw [asPrepareLoad, bind_ok rfl, bind_ok (require_pos unprepared)]
    by_cases one : (cmGetppages m.cm m.as.npages1).1 = 0
    · exact ⟨_, bind_error (takeFrames_error one), rfl⟩
    rw [bind_ok (takeFrames_ok one)]
    by_cases two : (cmGetppages (cmGetppages m.cm m.as.npages1).2 m.as.npages2).1 = 0
    · exact ⟨_, bind_error (takeFrames_error (m := m.take _ _) two), rfl⟩
    rw [bind_ok (takeFrames_ok (m := m.take _ _) two)]
    exact ⟨_, takeFrames_error (m := (m.take _ _).take _ _) ((missing.resolve_left one).resolve_left two), rfl⟩
  · cases none

end Prepare

variable {file : File} {eh : ElfEhdr} {table : AddrSpace}

theorem regionTable_unprepared {i left as}
    (unprepared : as.Unprepared) (found : regionTable file eh i left as = .ok table) : table.Unprepared := by
  induction left generalizing i as with
  | zero =>
    cases found
    exact unprepared
  | succ left ih =>
    rw [regionTable] at found
    cases header : file.phdr (.define i) (eh.phdrOffset i) with
    | error code =>
      rw [header] at found
      cases found
    | ok header' =>
      rw [header] at found
      cases header' with
      | none => exact ih unprepared found
      | some ph =>
        change (asDefineRegion as ph.vaddr ph.memsz >>= regionTable file eh (i + 1) left) = .ok table at found
        cases region : asDefineRegion as ph.vaddr ph.memsz with
        | error code =>
          rw [region] at found
          cases found
        | ok next =>
          rw [region] at found
          refine ih ?_ found
          simp only [asDefineRegion] at region
          split at region
          · cases region
            exact unprepared
          · split at region
            · cases region
              exact unprepared
            · cases region

/-- What `load_elf` needs to return no error: the header of an executable, program headers of known types for at
most two regions, frames, and segments read in full into mapped memory, up to the first that fails an assertion of
`vm_fault`. -/
def Loadable (file : File) (cm : Coremap) : Prop :=
  ∃ eh table as, file.ehdr = .ok eh ∧ regionTable file eh 0 eh.phnum asCreate = .ok table ∧
    prepared cm table = some as ∧ (HeadersDone as file eh 0 eh.phnum ∨ HeadersTrip as file eh 0 eh.phnum)

theorem loadElf_passes {m} (fresh : m.as = asCreate) {as}
    (header : file.ehdr = .ok eh) (regions : regionTable file eh 0 eh.phnum asCreate = .ok table)
    (frames : prepared m.cm table = some as) : ∃ m', m'.as = as ∧ m'.vmspace = m.vmspace ∧
      loadElf file m = (loadSegments file eh 0 eh.phnum >>= fun _ => pure eh.entry) m' := by
  have unprepared : table.Unprepared := regionTable_unprepared ⟨rfl, rfl, rfl⟩ regions
  obtain ⟨m', run, same, current⟩ := @asPrepareLoad_ok (m.setAs table) as
    (by rw [setAs_as]; exact unprepared) (by rw [setAs_as]; exact frames)
  refine ⟨m', same, current, ?_⟩
  rw [loadElf, header, bind_ok rfl, bind_ok (defineSegments_ok (fresh ▸ regions)), bind_ok run]

theorem loadElf_fails {m} (fresh : m.as = asCreate) (refused : ¬ Loadable file m.cm) :
    ∃ code m', m'.vmspace = m.vmspace ∧ loadElf file m = some (.error code, m') := by
  cases header : file.ehdr with
  | error code => exact ⟨code, m, rfl, by rw [loadElf, header]; rfl⟩
  | ok eh =>
    cases regions : regionTable file eh 0 eh.phnum asCreate with
    | error code =>
      obtain ⟨m', same, run⟩ := defineSegments_error (fresh ▸ regions)
      exact ⟨code, m', same, by rw [loadElf, header, bind_ok rfl, bind_error run]⟩
    | ok table =>
      cases frames : prepared m.cm table with
      | none =>
        have unprepared : table.Unprepared := regionTable_unprepared ⟨rfl, rfl, rfl⟩ regions
        obtain ⟨m', run, same⟩ := @asPrepareLoad_error (m.setAs table)
          (by rw [setAs_as]; exact unprepared) (by rw [setAs_as]; exact frames)
        exact ⟨_, m', same,
          by rw [loadElf, header, bind_ok rfl, bind_ok (defineSegments_ok (fresh ▸ regions)), bind_error run]⟩
      | some as =>
        obtain ⟨m', same, current, run⟩ := loadElf_passes fresh header regions frames
        have outcome := @loadSegments_outcome file eh 0 eh.phnum m'
        rw [same, Nat.zero_add] at outcome
        obtain ⟨code, final, kept, failed⟩ := outcome.fails
          (fun done => refused ⟨eh, table, as, header, regions, frames, .inl done⟩)
          (fun trips => refused ⟨eh, table, as, header, regions, frames, .inr trips⟩)
        exact ⟨code, final, kept.vmspace.trans current, by rw [run, bind_error failed]⟩

theorem loadElf_loads {m} (fresh : m.as = asCreate) (loadable : Loadable file m.cm) :
    loadElf file m = none ∨ ∃ entry m', loadElf file m = some (.ok entry, m') := by
  obtain ⟨eh, table, as, header, regions, frames, ends⟩ := loadable
  obtain ⟨m', same, _, run⟩ := loadElf_passes fresh header regions frames
  have outcome := @loadSegments_outcome file eh 0 eh.phnum m'
  rw [same, Nat.zero_add] at outcome
  rcases ends with done | trips
  · obtain ⟨final, _, finished⟩ := outcome.finishes done
    exact .inr ⟨eh.entry, final, by rw [run, bind_ok finished]; rfl⟩
  · exact .inl (by rw [run, bind_halts (outcome.halts trips)])

theorem loadElf_as {m m' entry} (fresh : m.as = asCreate)
    (loaded : loadElf file m = some (.ok entry, m')) : ∃ table, prepared m.cm table = some m'.as := by
  by_cases loadable : Loadable file m.cm
  · obtain ⟨eh, table, as, header, regions, frames, ends⟩ := loadable
    obtain ⟨middle, same, _, run⟩ := loadElf_passes fresh header regions frames
    have outcome := @loadSegments_outcome file eh 0 eh.phnum middle
    rw [same, Nat.zero_add] at outcome
    rcases ends with done | trips
    · obtain ⟨final, kept, finished⟩ := outcome.finishes done
      rw [run, bind_ok finished] at loaded
      cases loaded
      exact ⟨table, by rw [kept.as, same]; exact frames⟩
    · rw [run, bind_halts (outcome.halts trips)] at loaded
      cases loaded
  · obtain ⟨code, other, _, failed⟩ := loadElf_fails fresh loadable
    rw [failed] at loaded
    cases loaded

end Os161.Vm
