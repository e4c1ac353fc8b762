import Os161.Emufs
import Os161.Lib.Runs
import Mathlib.Data.List.Nodup

/-! References to emulator vnodes. `emufs_reclaim` returns `EBUSY` without giving up its reference, so that the
count stays too high once the vnode was loaded between the two sections of `VOP_DECREF`. -/

namespace Os161.Emu
open Runs Function List

/-- The counts agree with the references, and vnodes without one are gone. -/
def Settled (s : Emufs) : Prop :=
  (∀ v ∈ s.vnodes, (s.vnode v).refcount = s.refs.count v) ∧
  ∀ v < s.created, s.refs.count v = 0 → v ∉ s.vnodes ∧ v ∈ s.closed

/-- Nobody has loaded the vnode since the decision to reclaim it, and its handle can be closed. -/
def Undisturbed (s : Emufs) : EmuCall → Prop
  | .loadvnode _ _ => True
  | .decref _ _ => True
  | .reclaim _ v closes => (s.vnode v).refcount = 1 ∧ closes = true

/-- Each reference, each thread about to reclaim and each failed attempt counts once. -/
structure Counted (s : Emufs) : Prop where
  distinct : s.vnodes.Nodup
  known : ∀ v ∈ s.vnodes, v < s.created
  counted : ∀ v ∈ s.vnodes,
    (s.vnode v).refcount = s.refs.count v + (s.decrefs.map Prod.snd).count v + s.kept.count v
  positive : ∀ v ∈ s.vnodes, 0 < (s.vnode v).refcount
  refsInTable : ∀ v ∈ s.refs, v ∈ s.vnodes
  decrefsInTable : ∀ call ∈ s.decrefs, call.2 ∈ s.vnodes
  keptInTable : ∀ v ∈ s.kept, v ∈ s.vnodes
  gone : ∀ v < s.created, v ∈ s.vnodes ∨ v ∈ s.closed

inductive Stepped (s : Emufs) : EmuCall → Emufs → Prop where
  | found (handle : Nat) (memory : Bool) (v : Nat) : v ∈ s.vnodes → Stepped s (.loadvnode handle memory)
      { s.setRefcount v ((s.vnode v).refcount + 1) with refs := v :: s.refs }
  | made (handle : Nat) : Stepped s (.loadvnode handle true)
      { s with
        vnode := update s.vnode s.created ⟨handle, 1⟩
        vnodes := s.vnodes ++ [s.created]
        created := s.created + 1
        refs := s.created :: s.refs }
  | refused (handle : Nat) : Stepped s (.loadvnode handle false) s
  | dropped (t v refcount : Nat) : v ∈ s.refs → (s.vnode v).refcount = refcount + 2 →
      Stepped s (.decref t v) ({ s with refs := s.refs.erase v }.setRefcount v (refcount + 1))
  | decided (t v : Nat) : v ∈ s.refs → (s.vnode v).refcount = 1 →
      Stepped s (.decref t v) { s with refs := s.refs.erase v, decrefs := (t, v) :: s.decrefs }
  | kept (t v : Nat) (closes : Bool) : (t, v) ∈ s.decrefs → ¬ Undisturbed s (.reclaim t v closes) →
      Stepped s (.reclaim t v closes) { s with decrefs := s.decrefs.erase (t, v), kept := v :: s.kept }
  | removed (t v : Nat) : (t, v) ∈ s.decrefs → (s.vnode v).refcount = 1 → Stepped s (.reclaim t v true)
      { s with decrefs := s.decrefs.erase (t, v), vnodes := s.vnodes.erase v, closed := v :: s.closed }

theorem stepped {s next call} (taken : emuStep s call = some next) : Stepped s call next := by
  cases call with
  | loadvnode handle memory =>
    simp only [emuStep, Emufs.loadvnode, Option.some.injEq] at taken
    subst taken
    split
    next v found => exact .found handle memory v (mem_of_find?_eq_some found)
    next =>
      cases memory with
      | true => exact .made handle
      | false => exact .refused handle
  | decref t v =>
    simp only [emuStep, Emufs.vnodeDecref] at taken
    split at taken
    next allowed =>
      split at taken
      · cases taken
      next one =>
        cases taken
        exact .decided t v allowed.1 one
      next refcount more =>
        cases taken
        exact .dropped t v refcount allowed.1 more
    next => cases taken
  | reclaim t v closes =>
    simp only [emuStep, Emufs.reclaim] at taken
    split at taken
    next pending =>
      split at taken
      next busy =>
        cases taken
        exact .kept t v closes pending fun undisturbed => busy undisturbed.1
      next last =>
        cases closes with
        | false =>
          cases taken
          exact .kept t v false pending fun undisturbed => nomatch undisturbed.2
        | true =>
          simp only [Bool.not_true, Bool.false_eq_true, if_false] at taken
          split at taken
          · cases taken
            exact .removed t v pending (not_not.mp last)
          · cases taken
    next => cases taken

section Step

variable {s next : Emufs} {call : EmuCall}

theorem refcount_setRefcount (s : Emufs) (v w refcount : Nat) :
    ((s.setRefcount v refcount).vnode w).refcount = if w = v then refcount else (s.vnode w).refcount := by
  by_cases same : w = v
  · subst same
    simp [Emufs.setRefcount]
  · simp [Emufs.setRefcount, same]

theorem map_erase_pending {t v} (pending : (t, v) ∈ s.decrefs) :
    (s.decrefs.map Prod.snd).Perm (v :: (s.decrefs.erase (t, v)).map Prod.snd) :=
  (perm_cons_erase pending).map Prod.snd

/-- The last reference to a vnode: there is no other reference and no other thread. -/
theorem Counted.alone (counted : Counted s) {t v} (pending : (t, v) ∈ s.decrefs)
    (last : (s.vnode v).refcount = 1) :
    v ∉ s.refs ∧ v ∉ s.kept ∧ v ∉ (s.decrefs.erase (t, v)).map Prod.snd := by
  have total := counted.counted v (counted.decrefsInTable _ pending)
  rw [last, (map_erase_pending pending).count_eq, count_cons_self] at total
  refine ⟨?_, ?_, ?_⟩
  · rw [← count_eq_zero]
    omega
  · rw [← count_eq_zero]
    omega
  · rw [← count_eq_zero]
    omega

theorem Stepped.counted (counted : Counted s) (step : Stepped s call next) : Counted next := by
  obtain ⟨distinct, known, total, positive, refsIn, decrefsIn, keptIn, gone⟩ := counted
  cases step with
  | found handle memory v member =>
    refine ⟨distinct, known, fun w here => ?_, fun w here => ?_, fun w here => ?_, decrefsIn, keptIn, gone⟩
    · have before := total w here
      change _ = (v :: s.refs).count w + (s.decrefs.map Prod.snd).count w + s.kept.count w
      simp only [refcount_setRefcount, count_cons, beq_iff_eq]
      by_cases same : w = v
      · subst same
        simp only [if_true]
        omega
      · rw [if_neg same, if_neg (Ne.symm same)]
        omega
    · have before := positive w here
      simp only [refcount_setRefcount]
      split <;> omega
    · rcases mem_cons.mp here with rfl | old
      · exact member
      · exact refsIn w old
  | made handle =>
    have fresh : s.created ∉ s.vnodes := fun member => Nat.lt_irrefl _ (known _ member)
    have others : ∀ w ∈ s.vnodes, w ≠ s.created := fun w member => Nat.ne_of_lt (known w member)
    refine ⟨?_, fun w here => ?_, fun w here => ?_, fun w here => ?_, fun w here => ?_, fun c here => ?_, fun w here => ?_,
      fun w below => ?_⟩
    · rw [nodup_append]
      refine ⟨distinct, nodup_singleton _, fun w member other single => ?_⟩
      rw [mem_singleton.mp single]
      exact others w member
    · rcases mem_append.mp here with old | new
      · exact Nat.lt_succ_of_lt (known w old)
      · rw [mem_singleton.mp new]
        exact Nat.lt_succ_self _
    · rcases mem_append.mp here with old | new
      · simp only [update_of_ne (others w old), count_cons_of_ne (Ne.symm (others w old))]
        exact total w old
      · rw [mem_singleton.mp new]
        have noRef : s.refs.count s.created = 0 := count_eq_zero.mpr fun member => fresh (refsIn _ member)
        have noKept : s.kept.count s.created = 0 := count_eq_zero.mpr fun member => fresh (keptIn _ member)
        have noDecref : (s.decrefs.map Prod.snd).count s.created = 0 := by
          refine count_eq_zero.mpr fun member => ?_
          obtain ⟨c, pending, same⟩ := mem_map.mp member
          exact fresh (same ▸ decrefsIn c pending)
        simp only [update_self, count_cons_self, noRef, noKept, noDecref]
    · rcases mem_append.mp here with old | new
      · simp only [update_of_ne (others w old)]
        exact positive w old
      · rw [mem_singleton.mp new]
        simp only [update_self]
        exact Nat.one_pos
    · rcases mem_cons.mp here with rfl | old
      · exact mem_append_right _ (mem_singleton_self _)
      · exact mem_append_left _ (refsIn w old)
    · exact mem_append_left _ (decrefsIn c here)
    · exact mem_append_left _ (keptIn w here)
    · rcases Nat.lt_or_eq_of_le (Nat.le_of_lt_succ below) with less | rfl
      · exact (gone w less).imp_left fun old => mem_append_left _ old
      · exact .inl (mem_append_right _ (mem_singleton_self _))
  | refused handle => exact ⟨distinct, known, total, positive, refsIn, decrefsIn, keptIn, gone⟩
  | dropped t v refcount held more =>
    refine ⟨distinct, known, fun w here => ?_, fun w here => ?_, fun w here => refsIn w (mem_of_mem_erase here),
      decrefsIn, keptIn, gone⟩
    · have before := total w here
      simp only [refcount_setRefcount]
      change _ = (s.refs.erase v).count w + (s.decrefs.map Prod.snd).count w + s.kept.count w
      by_cases same : w = v
      · subst same
        have some_ := count_pos_iff.mpr held
        rw [if_pos rfl, count_erase_self]
        omega
      · rw [if_neg same, count_erase_of_ne same]
        exact before
    · have before := positive w here
      simp only [refcount_setRefcount]
      split
      · exact Nat.succ_pos _
      · exact before
  | decided t v held one =>
    refine ⟨distinct, known, fun w here => ?_, positive, fun w here => refsIn w (mem_of_mem_erase here),
      fun c here => ?_, keptIn, gone⟩
    · have before := total w here
      simp only [map_cons, count_cons, beq_iff_eq]
      by_cases same : w = v
      · subst same
        have some_ := count_pos_iff.mpr held
        rw [if_pos rfl, count_erase_self]
        omega
      · rw [if_neg (Ne.symm same), count_erase_of_ne same]
        omega
    · rcases mem_cons.mp here with rfl | old
      · exact refsIn v held
      · exact decrefsIn c old
  | kept t v closes pending disturbed =>
    refine ⟨distinct, known, fun w here => ?_, positive, refsIn, fun c here => decrefsIn c (mem_of_mem_erase here),
      fun w here => ?_, gone⟩
    · have before := total w here
      rw [(map_erase_pending pending).count_eq] at before
      simp only [count_cons, beq_iff_eq] at before ⊢
      omega
    · rcases mem_cons.mp here with rfl | old
      · exact decrefsIn _ pending
      · exact keptIn w old
  | removed t v pending last =>
    obtain ⟨noRef, noKept, noDecref⟩ :=
      Counted.alone ⟨distinct, known, total, positive, refsIn, decrefsIn, keptIn, gone⟩ pending last
    have stays (w : Nat) : w ∈ s.vnodes.erase v ↔ w ≠ v ∧ w ∈ s.vnodes := distinct.mem_erase_iff
    refine ⟨distinct.erase v, fun w here => known w ((stays w).mp here).2, fun w here => ?_,
      fun w here => positive w ((stays w).mp here).2, fun w here => ?_, fun c here => ?_, fun w here => ?_,
      fun w below => ?_⟩
    · obtain ⟨different, old⟩ := (stays w).mp here
      have before := total w old
      rw [(map_erase_pending pending).count_eq, count_cons_of_ne (Ne.symm different)] at before
      exact before
    · refine (stays w).mpr ⟨?_, refsIn w here⟩
      rintro rfl
      exact noRef here
    · refine (stays c.2).mpr ⟨fun same => ?_, decrefsIn c (mem_of_mem_erase here)⟩
      exact noDecref (mem_map.mpr ⟨c, here, same⟩)
    · refine (stays w).mpr ⟨?_, keptIn w here⟩
      rintro rfl
      exact noKept here
    · rcases gone w below with old | done
      · by_cases same : w = v
        · exact .inr (same ▸ mem_cons_self)
        · exact .inl ((stays w).mpr ⟨same, old⟩)
      · exact .inr (mem_cons_of_mem _ done)

/-- Only a reclaim that another thread has disturbed keeps the vnode. -/
theorem Stepped.kept_iff (step : Stepped s call next) : next.kept = [] ↔ s.kept = [] ∧ Undisturbed s call := by
  cases step with
  | found handle memory v member => simp [Undisturbed, Emufs.setRefcount]
  | made handle => simp [Undisturbed]
  | refused handle => simp [Undisturbed]
  | dropped t v refcount held more => simp [Undisturbed, Emufs.setRefcount]
  | decided t v held one => simp [Undisturbed]
  | kept t v closes pending disturbed => simp [disturbed]
  | removed t v pending last => simp [Undisturbed, last]

end Step

theorem kept_iff_steps {s final calls} (reached : run emuStep s calls = some final) :
    final.kept = [] ↔ s.kept = [] ∧ EachStep emuStep Undisturbed s calls := by
  induction calls generalizing s with
  | nil =>
    cases reached
    simp [EachStep]
  | cons call rest ih =>
    obtain ⟨next, taken, reached⟩ := Option.bind_eq_some_iff.mp reached
    rw [ih reached, (stepped taken).kept_iff, and_assoc]
    simp [EachStep, taken]

theorem noVnodes_counted : Counted noVnodes :=
  ⟨nodup_nil, nofun, nofun, nofun, nofun, nofun, nofun, nofun⟩

theorem Counted.settled_iff {s} (counted : Counted s) (quiet : s.decrefs = []) : Settled s ↔ s.kept = [] := by
  have total (v : Nat) (member : v ∈ s.vnodes) : (s.vnode v).refcount = s.refs.count v + s.kept.count v := by
    have all := counted.counted v member
    rw [quiet] at all
    exact all
  constructor
  · intro settled
    refine eq_nil_iff_forall_not_mem.mpr fun v kept => ?_
    have member := counted.keptInTable v kept
    have some_ := count_pos_iff.mpr kept
    have agreed := settled.1 v member
    have all := total v member
    omega
  · intro none_
    rw [none_] at total
    refine ⟨total, fun v below unreferenced => ?_⟩
    have absent : v ∉ s.vnodes := by
      intro member
      have all := total v member
      have some_ := counted.positive v member
      rw [count_nil] at all
      omega
    exact ⟨absent, (counted.gone v below).resolve_left absent⟩

/-- Where no `VOP_DECREF` is in progress, the counts agree with the references exactly if no vnode was loaded
between its two sections and every handle could be closed. -/
theorem emufs_settled_iff (calls : List EmuCall) (s : Emufs) (reached : run emuStep noVnodes calls = some s)
    (quiet : s.decrefs = []) : Settled s ↔ EachStep emuStep Undisturbed noVnodes calls := by
  have counted : Counted s :=
    run_preserves (fun _ _ _ counted taken => (stepped taken).counted counted) noVnodes_counted reached
  rw [counted.settled_iff quiet, kept_iff_steps reached]
  exact ⟨fun both => both.2, fun each => ⟨rfl, each⟩⟩

theorem emufs_settled_one_thread :
    ∃ s, run emuStep noVnodes [.loadvnode 5 true, .decref 0 0, .reclaim 0 0 true] = some s ∧ s.decrefs = [] ∧
      (Settled s ↔ EachStep emuStep Undisturbed noVnodes [.loadvnode 5 true, .decref 0 0, .reclaim 0 0 true]) := by
  refine ⟨_, rfl, rfl, ?_⟩
  exact emufs_settled_iff [.loadvnode 5 true, .decref 0 0, .reclaim 0 0 true] _ rfl rfl

/-- A second thread loads the file while the first one is between the two sections, and
releases it later. -/
def loadedMeanwhile : List EmuCall :=
  [.loadvnode 5 true, .decref 0 0, .loadvnode 5 true, .reclaim 0 0 true, .decref 1 0]

theorem reference_never_released :
    ∃ s, run emuStep noVnodes loadedMeanwhile = some s ∧ s.decrefs = [] ∧ s.refs = [] ∧ s.vnodes = [0] ∧
      (s.vnode 0).refcount = 1 ∧ ¬ Settled s := by
  refine ⟨_, rfl, rfl, rfl, rfl, rfl, fun settled => ?_⟩
  have counted : 1 = 0 := settled.1 0 mem_cons_self
  cases counted

end Os161.Emu
