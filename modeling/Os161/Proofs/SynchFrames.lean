import Os161.Synch
import Mathlib.Tactic.IntervalCases

/-! The thread lists after a wakeup, and the places of threads in the code of their calls: the levels saved there,
and what stands before and behind an instruction. -/

namespace Os161.Synch
open List

@[simp] theorem Threads.sleepsOn_iff (threads : Threads) (addr : Object) (t : Nat) :
    threads.sleepsOn addr t = true ↔ threads.sleepaddr t = some addr := beq_iff_eq

@[simp] theorem Threads.wake_sleepsOn (threads : Threads) (i t : Nat) :
    (threads.wake i t).sleepsOn = threads.sleepsOn := rfl

theorem wakeupLoop_eq (addr : Object) {before rest threads}
    (listed : threads.sleepers = before ++ rest) :
    wakeupLoop addr rest.length before.length threads =
      { threads with
        sleepers := before ++ rest.filter fun t => !threads.sleepsOn addr t
        runqueue := threads.runqueue ++ rest.filter (threads.sleepsOn addr) } := by
  induction rest generalizing before threads with
  | nil => simp [wakeupLoop, ← listed]
  | cons t rest ih =>
    have here : threads.sleepers[before.length]? = some t := by simp [listed]
    have removed : threads.sleepers.eraseIdx before.length = before ++ rest := by
      simp [listed, eraseIdx_append_of_length_le]
    rw [length_cons, wakeupLoop, here]
    dsimp only
    split
    next sleeps =>
      rw [@ih before (threads.wake before.length t) removed, Threads.wake_sleepsOn,
        filter_cons_of_neg (by simpa using sleeps), filter_cons_of_pos sleeps]
      simp [Threads.wake, Threads.makeRunnable]
    next awake =>
      have moved := @ih (before ++ [t]) threads (by simp [listed])
      rw [length_append, length_singleton] at moved
      simp [moved, awake]

/-- Everybody who sleeps on the address moves to the run queue, in order. -/
theorem threadWakeup_eq (addr : Object) (threads : Threads) :
    threadWakeup addr threads =
      { threads with
        sleepers := threads.sleepers.filter fun t => !threads.sleepsOn addr t
        runqueue := threads.runqueue ++ threads.sleepers.filter (threads.sleepsOn addr) } := by
  exact @wakeupLoop_eq addr [] threads.sleepers threads rfl

/-- The instructions that are only executed within a section, and leave the level alone. -/
def Instr.plain : Instr → Bool
  | .splhigh | .splx | .setspl _ => false
  | _ => true

/-- The saved levels after an instruction. Outside a section only `splhigh` and a plain change of level run. -/
def Instr.depth : Instr → Nat → Option Nat
  | .splhigh, n => some (n + 1)
  | .splx, n + 1 => some n
  | .splx, 0 => none
  | .setspl _, 0 => some 0
  | .setspl _, _ + 1 => none
  | _, n + 1 => some (n + 1)
  | _, 0 => none

def depthAfter : Nat → List Instr → Option Nat
  | n, [] => some n
  | n, instr :: code => (instr.depth n).bind fun n => depthAfter n code

/-- How the programs are put together: what a guarded instruction comes after, and what follows one that leaves
something to be done. -/
@[mk_iff] structure Follows (instr : Instr) (next : Option Instr) : Prop where
  lockAwaited : ∀ l, instr = .awaitLock l ↔ next = some (.takeLock l)
  countAwaited : ∀ s, instr = .awaitCount s ↔ next = some (.takeCount s)
  dropLock : ∀ l, next = some (.dropLock l) → instr = .assertHolding l
  lockDropped : ∀ l, instr = .dropLock l → next = some (.wakeup (.lock l))
  countAdded : ∀ s, instr = .addCount s → next = some (.wakeup (.sem s))
  switched : instr = .switchReady → next = some .splx
  slept : ∀ addr, instr = .sleep addr → (∃ c, addr = .cv c) ∧ ∃ l, next = some (.wakeup (.lock l))

def Linked : List Instr → Prop
  | [] => True
  | instr :: code => Follows instr code.head? ∧ Linked code

/-- The instruction is a loop around `thread_sleep`, or the one before it is `thread_sleep`. -/
def Call.blocksAt (call : Call) (k : Nat) : Prop :=
  (∃ l, call.code[k]? = some (.awaitLock l)) ∨ (∃ s, call.code[k]? = some (.awaitCount s)) ∨
    ∃ j addr, k = j + 1 ∧ call.code[j]? = some (.sleep addr)

/-- At an instruction, back from `thread_sleep`, or back from a trap before the first one. -/
def Placed : Option Call → List Instr → Prop
  | some call, code => ∃ k < call.code.length,
    code = call.code.drop k ∨ code = .woke :: call.code.drop k ∧ call.blocksAt k ∨ code = .splx :: call.code ∧ k = 0
  | none, code => code = [] ∨ code = [.splx] ∨ ∃ level, code = [.setspl level] ∨ code = [.splx, .setspl level]

/-- Where a switch leaves a thread: in `thread_sleep`, in a trap before a call's first instruction, in
`thread_yield`, or outside the calls. -/
def Frame.Suspended (frame : Frame) : Prop :=
  match frame.call with
  | some call => frame.code.head? = some .woke ∨ frame.code = .splx :: call.code ∨
    call = .threadYield ∧ frame.code = [.splx]
  | none => frame.code ≠ []

structure Frame.Sound (frame : Frame) : Prop where
  placed : Placed frame.call frame.code
  closed : depthAfter frame.saved.length frame.code = some 0
  linked : Linked frame.code
  raised : ∀ level ∈ frame.saved.dropLast, 0 < level

theorem depthAfter_code (call : Call) : depthAfter 0 call.code = some 0 := by
  cases call <;> rfl

theorem linked_code (call : Call) : Linked call.code := by
  cases call <;>
    simp [Call.code, lockAcquire, lockRelease, cvWait, cvSignal, cvBroadcast, semP, semV, threadYield, Linked,
      follows_iff]

variable {n k : Nat} {frame : Frame}

theorem depthAfter_cons {instr code}
    (closed : depthAfter n (instr :: code) = some 0) : ∃ k, instr.depth n = some k ∧ depthAfter k code = some 0 :=
  Option.bind_eq_some_iff.mp closed

theorem code_ne_nil (call : Call) : call.code ≠ [] := by
  cases call <;> simp [Call.code, lockAcquire, lockRelease, cvWait, cvSignal, cvBroadcast, semP, semV, threadYield]

@[simp] theorem leave_cons (t : Nat) (call : Option Call) (instr : Instr) (code : List Instr) :
    Machine.leave t call (instr :: code) = (call, []) := by
  cases call <;> rfl

theorem drop_next {whole : List Instr} {instr next code}
    (here : instr :: next :: code = whole.drop k) : k + 1 < whole.length ∧ next :: code = whole.drop (k + 1) := by
  have rest : next :: code = whole.drop (k + 1) := by
    rw [drop_add_one_eq_tail_drop, ← here]
    rfl
  refine ⟨?_, rest⟩
  by_contra past
  rw [drop_eq_nil_of_le (by omega)] at rest
  cases rest

theorem Placed.next {call : Option Call} {instr code} (placed : Placed call (instr :: code))
    (t : Nat) : Placed (Machine.leave t call code).1 code := by
  cases call with
  | none =>
    rcases placed with impossible | only | ⟨level, only | both⟩
    · cases impossible
    · exact .inl (List.cons.inj only).2
    · exact .inl (List.cons.inj only).2
    · exact .inr (.inr ⟨level, .inl (List.cons.inj both).2⟩)
  | some call =>
    obtain ⟨k, inside, here⟩ := placed
    cases code with
    | nil => exact .inl rfl
    | cons next code =>
      rcases here with here | ⟨here, -⟩ | ⟨here, -⟩
      · obtain ⟨bound, rest⟩ := drop_next here
        exact ⟨k + 1, bound, .inl rest⟩
      · exact ⟨k, inside, .inl (List.cons.inj here).2⟩
      · exact ⟨0, by omega, .inl (List.cons.inj here).2⟩

/-- Only within a call there is anything to do but to return from a trap or to lower the level. -/
theorem Placed.within {call instr code} (placed : Placed call (instr :: code))
    (plain : instr.plain) (awake : instr ≠ .woke) :
    ∃ c k, call = some c ∧ k < c.code.length ∧ instr :: code = c.code.drop k := by
  cases call with
  | none =>
    rcases placed with impossible | only | ⟨level, only | both⟩
    · cases impossible
    · cases only
      cases plain
    · cases only
      cases plain
    · cases both
      cases plain
  | some call =>
    obtain ⟨k, inside, here | ⟨here, -⟩ | ⟨here, -⟩⟩ := placed
    · exact ⟨call, k, rfl, inside, here⟩
    · exact absurd (List.cons.inj here).1 awake
    · cases (List.cons.inj here).1
      cases plain

theorem Frame.Sound.enter (sound : frame.Sound) (ended : frame.code = []) (call : Call) :
    Frame.Sound ⟨some call, call.code, frame.saved⟩ := by
  have none_saved : frame.saved = [] := by
    have closed := sound.closed
    rw [ended, depthAfter, Option.some_inj] at closed
    exact length_eq_zero_iff.mp closed
  refine ⟨⟨0, length_pos_iff.mpr (code_ne_nil call), .inl rfl⟩, ?_, linked_code call, sound.raised⟩
  rw [none_saved]
  exact depthAfter_code call

/-- Outside a section a thread is at the start or the end of a call. -/
theorem Frame.Sound.outside (sound : frame.Sound) (none_saved : frame.saved = []) :
    ∀ instr, frame.code.head? = some instr → instr = .splhigh ∨ ∃ level, instr = .setspl level := by
  intro instr head
  obtain ⟨code, whole⟩ := List.head?_eq_some_iff.mp head
  have closed := sound.closed
  rw [none_saved, whole] at closed
  obtain ⟨k, depth, -⟩ := depthAfter_cons closed
  cases instr <;> simp [Instr.depth] at depth ⊢

/-- No section is left before the end of a call. -/
theorem start_of_closed (call : Call) (k : Nat) (inside : k < call.code.length)
    (closed : depthAfter 0 (call.code.drop k) = some 0) : k = 0 := by
  cases call <;>
    simp only [Call.code, lockAcquire, lockRelease, cvWait, cvSignal, cvBroadcast, semP, semV, threadYield,
      length_cons, length_append, length_nil] at inside <;>
    interval_cases k <;> first | rfl | cases closed

theorem Frame.Sound.start {call code} (sound : Frame.Sound ⟨call, code, []⟩) (level : Nat) :
    Placed call (.splx :: code) ∧ Frame.Suspended ⟨call, .splx :: code, [level]⟩ := by
  have placed := sound.placed
  have closed := sound.closed
  cases call with
  | none =>
    rcases placed with rfl | rfl | ⟨level, rfl | rfl⟩
    · exact ⟨.inr (.inl rfl), nofun⟩
    · cases closed
    · exact ⟨.inr (.inr ⟨level, .inr rfl⟩), nofun⟩
    · cases closed
  | some call =>
    obtain ⟨k, inside, rfl | ⟨rfl, -⟩ | ⟨rfl, -⟩⟩ := placed
    · obtain rfl := start_of_closed call k inside closed
      exact ⟨⟨0, inside, .inr (.inr ⟨rfl, rfl⟩)⟩, .inr (.inl rfl)⟩
    · cases closed
    · cases closed

theorem Frame.Sound.trapped {call code} (sound : Frame.Sound ⟨call, code, []⟩) (level : Nat) :
    Frame.Sound ⟨call, .splx :: code, [level]⟩ := by
  refine ⟨(sound.start level).1, sound.closed, ⟨?_, sound.linked⟩, nofun⟩
  cases head : code.head? with
  | none => simp [follows_iff]
  | some instr => rcases sound.outside rfl instr head with rfl | ⟨level, rfl⟩ <;> simp [follows_iff]

theorem call_of_switchReady {call code} (placed : Placed call (.switchReady :: code)) :
    call = some .threadYield ∧ code = [.splx] := by
  obtain ⟨c, k, rfl, inside, here⟩ := placed.within rfl nofun
  cases c <;>
    simp only [Call.code, lockAcquire, lockRelease, cvWait, cvSignal, cvBroadcast, semP, semV, threadYield,
      length_cons, length_append, length_nil] at inside here <;>
    interval_cases k <;> cases here
  exact ⟨rfl, rfl⟩

theorem Frame.Suspended.head (suspended : frame.Suspended) (placed : Placed frame.call frame.code)
    {instr} (head : frame.code.head? = some instr) : instr = .woke ∨ instr.plain = false := by
  obtain ⟨call, code, saved⟩ := frame
  cases call with
  | none =>
    rcases placed with impossible | here | ⟨level, here | here⟩
    · exact absurd impossible suspended
    all_goals
      rw [here] at head
      cases head
      exact .inr rfl
  | some call =>
    rcases suspended with woke | here | ⟨-, here⟩
    · exact .inl (Option.some.inj (head.symm.trans woke))
    all_goals
      rw [here] at head
      cases head
      exact .inr rfl

theorem Instr.depth_plain {instr : Instr} (plain : instr.plain) (depth : instr.depth n = some k) : k = n ∧ 0 < n := by
  cases n <;> cases instr <;> simp_all [Instr.depth, Instr.plain] <;> omega

section Next

variable {call : Option Call} {instr : Instr} {code : List Instr} {saved : List Nat}

theorem Frame.Sound.plain (sound : Frame.Sound ⟨call, instr :: code, saved⟩) (plain : instr.plain) (t : Nat) :
    saved ≠ [] ∧ Frame.Sound ⟨(Machine.leave t call code).1, code, saved⟩ := by
  obtain ⟨k, depth, closed⟩ := depthAfter_cons sound.closed
  obtain ⟨rfl, positive⟩ := Instr.depth_plain plain depth
  exact ⟨length_pos_iff.mp positive, sound.placed.next t, closed, sound.linked.2, sound.raised⟩

theorem Frame.Sound.splhigh (sound : Frame.Sound ⟨call, .splhigh :: code, saved⟩) {level}
    (raised : saved ≠ [] → 0 < level) (t : Nat) : Frame.Sound ⟨(Machine.leave t call code).1, code, level :: saved⟩ := by
  refine ⟨sound.placed.next t, sound.closed, sound.linked.2, fun old member => ?_⟩
  cases saved with
  | nil => simp at member
  | cons top rest =>
    rcases mem_cons.mp member with rfl | member
    · exact raised (cons_ne_nil _ _)
    · exact sound.raised old member

theorem Frame.Sound.splx {old} (sound : Frame.Sound ⟨call, .splx :: code, old :: saved⟩) (t : Nat) :
    (saved ≠ [] → 0 < old) ∧ Frame.Sound ⟨(Machine.leave t call code).1, code, saved⟩ := by
  refine ⟨fun more => ?_, sound.placed.next t, sound.closed, sound.linked.2, fun level member => ?_⟩
  · exact sound.raised old (by simp [dropLast_cons_of_ne_nil more])
  · refine sound.raised level ?_
    cases saved with
    | nil => simp at member
    | cons top rest => exact mem_cons_of_mem _ member

theorem Frame.Sound.setspl {newspl} (sound : Frame.Sound ⟨call, .setspl newspl :: code, saved⟩) (t : Nat) :
    saved = [] ∧ Frame.Sound ⟨(Machine.leave t call code).1, code, saved⟩ := by
  obtain ⟨k, depth, closed⟩ := depthAfter_cons sound.closed
  cases saved with
  | nil =>
    cases depth
    exact ⟨rfl, sound.placed.next t, closed, sound.linked.2, sound.raised⟩
  | cons top rest => cases depth

theorem Frame.Sound.asleep (sound : Frame.Sound ⟨call, code, saved⟩) (inside : saved ≠ []) {c k}
    (within : call = some c) (bound : k < c.code.length) (here : code = c.code.drop k) (blocks : c.blocksAt k)
    (place : Follows .woke code.head?) : Frame.Sound ⟨call, .woke :: code, saved⟩ := by
  refine ⟨?_, ?_, ⟨place, sound.linked⟩, sound.raised⟩
  · rw [within]
    exact ⟨k, bound, .inr (.inl ⟨by rw [here], blocks⟩)⟩
  · obtain ⟨top, rest, whole⟩ := exists_cons_of_ne_nil inside
    have closed := sound.closed
    simp only [whole] at closed ⊢
    exact closed

end Next

end Os161.Synch
