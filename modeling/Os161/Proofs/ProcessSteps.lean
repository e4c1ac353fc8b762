import Os161.Proofs.ProcessTable

/-! The sections of `sys__exit`, the collection of an entry and `thread_fork` keep the invariant, and so does every
run. -/

namespace Os161.Proc
open State

variable {s : State} {t : Nat} {thread : Thread}

section Collect

variable (valid : Valid s) (found : s.threads t = some thread) {pid child : Nat}
  (collecting : thread.phase = .collecting pid child) {p : Process} (slot : s.pTable pid = some p)
  {owner : Thread} (lookup : s.threads p.me = some owner) (collected : owner.collected = true)
include valid found collecting slot lookup collected

/-- The entry goes away together with its semaphore; its owner has been collected. -/
theorem Valid.clear {sems} (freed : ∀ sem, sem ≠ p.me → sems sem = s.sems sem) :
    Valid (({ s with sems := sems }.setSlot pid none).setPhase t .running) := by
  have waits : thread.phase.waitsFor = some (pid, child) := by rw [collecting]; rfl
  obtain ⟨quiet, before, -⟩ := waitsFor_quiet waits
  have kept := valid.uncollected found fun code exited => by rw [exited] at quiet; cases quiet
  have past : Phase.running.pastV = thread.phase.pastV := before.symm
  have me : p.me = child := by
    obtain ⟨q, slot', me, -, -⟩ := valid.attended t thread found pid child waits
    cases slot.symm.trans slot'
    exact me
  have survives {i : Nat} {q : Process}
      (remains : (({ s with sems := sems }.setSlot pid none).setPhase t .running).pTable i = some q) :
      i ≠ pid ∧ s.pTable i = some q := by
    simp only [State.setPhase, State.setThread, setSlot] at remains
    split at remains
    · cases remains
    · next different => exact ⟨different, remains⟩
  have stays {i : Nat} {q : Process} (different : i ≠ pid) (slot' : s.pTable i = some q) :
      (({ s with sems := sems }.setSlot pid none).setPhase t .running).pTable i = some q := by
    simpa [State.setPhase, State.setThread, setSlot, different] using slot'
  have ledger : Ledger (s.setPhase t .running) := valid.ledger.setThread found rfl id
  have marked : Marked (s.setPhase t .running) := valid.marked.setPhase found quiet.symm kept
  refine ⟨⟨?_, ?_, ledger.fresh⟩, ⟨?_, marked.reaped⟩, valid.exclusive.setPhase found rfl, ?_, ⟨?_, ?_, ?_⟩⟩
  · intro i q remains
    exact ledger.entry i q (survives remains).2
  · intro u other after uncollected
    obtain ⟨q, slot', owns⟩ := ledger.owner u other after uncollected
    refine ⟨q, stays ?_ slot', owns⟩
    intro same
    rw [same] at slot'
    cases slot.symm.trans slot'
    rcases setThread_lookup (s := s) found after with ⟨rfl, rfl⟩ | ⟨_, after⟩
    · rw [owns, found] at lookup
      cases lookup
      cases kept.symm.trans collected
    · rw [owns, after] at lookup
      cases lookup
      cases uncollected.symm.trans collected
  · intro i q other remains after
    exact marked.shows i q other (survives remains).2 after
  · intro u other after pid' child' waits'
    rcases setThread_lookup (s := s) found after with ⟨rfl, rfl⟩ | ⟨different, unchanged⟩
    · cases waits'
    · obtain ⟨q, slot', me', parent, sem⟩ := valid.attended u other unchanged pid' child' waits'
      refine ⟨q, stays ?_ slot', me', parent, sem⟩
      intro same
      subst same
      cases slot.symm.trans slot'
      rw [me] at me'
      exact different (valid.one_waiter unchanged waits' found (me' ▸ waits))
  · intro i q sem other remains hasSem after
    obtain ⟨different, slot'⟩ := survives remains
    have apart : thread.phase ≠ .collecting i q.me := by
      rw [collecting]
      intro same
      cases same
      exact different rfl
    obtain ⟨own, total, value, rest⟩ := valid.signals.count_setPhase found past after apart slot' hasSem rfl
    refine ⟨own, total, ?_, rest⟩
    have unfreed : sem ≠ p.me := by
      intro same
      exact different (valid.ledger.same_entry slot' slot (own.symm.trans same))
    exact (freed sem unfreed).trans value
  · exact valid.signals.asleep_setPhase found past (by rintro _ _ _ _ ⟨⟩)
  · exact valid.signals.taken_setPhase found past (by rintro _ _ _ ⟨⟩)

end Collect

theorem waitCollect_valid (valid : Valid s) (found : s.threads t = some thread) {pid child}
    (collecting : thread.phase = .collecting pid child) (free : s.lock = none) : Valid (waitCollect s t pid).2 := by
  have waits : thread.phase.waitsFor = some (pid, child) := by rw [collecting]; rfl
  obtain ⟨p, slot, me, -, -⟩ := valid.attended t thread found pid child waits
  obtain ⟨-, -, owner, lookup, -⟩ := valid.ledger.entry pid p slot
  have past := valid.signals.taken t thread pid child owner found collecting (me ▸ lookup)
  obtain ⟨code, exited⟩ : ∃ code, owner.phase = .exited code := by
    cases phase : owner.phase with
    | exited code => exact ⟨code, rfl⟩
    | signalled code =>
      have held := valid.exclusive p.me owner lookup (by rw [phase]; rfl)
      cases free.symm.trans held
    | _ => rw [phase] at past; cases past
  have apart : t ≠ p.me := by
    intro same
    rw [← same, found] at lookup
    cases lookup
    cases exited.symm.trans collecting
  have marked := valid.collect lookup exited
  have still : (s.setThread p.me Thread.collect).threads t = some thread := (setThread_other apart).trans found
  have flagged := setThread_self (f := Thread.collect) lookup
  simp only [waitCollect, slot]
  cases hasSem : p.exitSem with
  | none => exact marked.clear still collecting slot flagged rfl fun _ _ => rfl
  | some sem =>
    have own := (valid.signals.count pid p sem owner slot hasSem lookup).1
    refine marked.clear still collecting slot flagged rfl ?_
    intro other different
    simp [own, different]

section Exit

theorem Exclusive.apart (exclusive : Exclusive s) {u other} (held : s.lock = some t)
    (found : s.threads u = some other) (locks : other.phase.locks = true) : u = t := by
  have own := exclusive u other found locks
  rw [held] at own
  cases own
  rfl

theorem exitMark_valid (valid : Valid s) (found : s.threads t = some thread) (running : thread.phase = .running)
    (free : s.lock = none) (code : Int) : Valid (exitMark s t thread code) := by
  have kept := valid.uncollected found fun code exited => by rw [exited] at running; cases running
  obtain ⟨p, slot, me⟩ := valid.ledger.owner t thread found kept
  have ledger : Ledger (s.setPhase t (.exiting code)) := valid.ledger.setThread found rfl id
  simp only [exitMark, slot]
  have table (i : Nat) (q : Process)
      (lookup : (s.setSlot thread.pid (some { p with exited := true, exitcode := code })).pTable i = some q) :
      ∃ original, s.pTable i = some original ∧ q.me = original.me ∧ q.parentPid = original.parentPid ∧
        q.exitSem = original.exitSem ∧ (i = thread.pid ∧ q.exited = true ∧ q.exitcode = code ∨
          i ≠ thread.pid ∧ q = original) := by
    simp only [setSlot] at lookup
    split at lookup
    · next same =>
      cases lookup
      exact ⟨p, same ▸ slot, rfl, rfl, rfl, .inl ⟨same, rfl, rfl⟩⟩
    · next different => exact ⟨q, lookup, rfl, rfl, rfl, .inr ⟨different, rfl⟩⟩
  have back (i : Nat) (original : Process) (lookup : s.pTable i = some original) :
      ∃ q, (s.setSlot thread.pid (some { p with exited := true, exitcode := code })).pTable i = some q ∧
        q.me = original.me ∧ q.parentPid = original.parentPid ∧ q.exitSem = original.exitSem := by
    by_cases same : i = thread.pid
    · subst same
      cases slot.symm.trans lookup
      exact ⟨_, if_pos rfl, rfl, rfl, rfl⟩
    · exact ⟨original, (if_neg same).trans lookup, rfl, rfl, rfl⟩
  have past : (Phase.exiting code).pastV = thread.phase.pastV := by rw [running]; rfl
  refine ⟨⟨?_, ?_, ledger.fresh⟩, ⟨?_, ?_⟩, ?_, ?_, ⟨?_, ?_, ?_⟩⟩
  · intro i q lookup
    obtain ⟨original, before, same, -⟩ := table i q lookup
    rw [same]
    exact ledger.entry i original before
  · intro u other after uncollected
    obtain ⟨original, before, owns⟩ := ledger.owner u other after uncollected
    obtain ⟨q, lookup, same, -⟩ := back other.pid original before
    exact ⟨q, lookup, same.trans owns⟩
  · intro i q other lookup after
    obtain ⟨original, before, same, -, -, changed⟩ := table i q lookup
    rcases setThread_lookup found after with ⟨own, rfl⟩ | ⟨apart, after⟩
    · have entry := valid.ledger.same_entry before slot (same.symm.trans (own.trans me.symm))
      rcases changed with ⟨_, exited, exitcode⟩ | ⟨different, _⟩
      · refine ⟨exited, ?_⟩
        intro value given
        cases given
        exact exitcode
      · exact absurd entry different
    · rcases changed with ⟨same', -, -⟩ | ⟨_, rfl⟩
      · subst same'
        cases slot.symm.trans before
        exact absurd (same.trans me) apart
      · exact valid.marked.shows i q other before after
  · intro u other after collected
    rcases setThread_lookup found after with ⟨rfl, rfl⟩ | ⟨_, after⟩
    · cases kept.symm.trans collected
    · exact valid.marked.reaped u other after collected
  · intro u other after locks
    rcases setThread_lookup found after with ⟨rfl, rfl⟩ | ⟨_, after⟩
    · rfl
    · cases free.symm.trans (valid.exclusive u other after locks)
  · intro u other after pid child waits
    rcases setThread_lookup found after with ⟨rfl, rfl⟩ | ⟨_, after⟩
    · cases waits
    · obtain ⟨original, before, owns, parent, sem⟩ := valid.attended u other after pid child waits
      obtain ⟨q, lookup, sameMe, sameParent, sameSem⟩ := back pid original before
      exact ⟨q, lookup, sameMe.trans owns, sameParent.trans parent, fun addr asleep => sameSem.trans (sem addr asleep)⟩
  · intro i q sem other lookup hasSem after
    obtain ⟨original, before, sameMe, -, sameSem, -⟩ := table i q lookup
    rw [sameMe]
    refine valid.signals.count_setPhase found past after ?_ before (sameSem.symm.trans hasSem) sameMe.symm
    rw [running]
    exact nofun
  · exact valid.signals.asleep_setPhase found past nofun
  · exact valid.signals.taken_setPhase found past nofun

structure Wakes (sem : Nat) (before after : Thread) : Prop where
  pid : after.pid = before.pid
  collected : after.collected = before.collected
  code : after.phase.code = before.phase.code
  pastV : after.phase.pastV = before.phase.pastV
  locks : after.phase.locks = before.phase.locks
  waitsFor : after.phase.waitsFor = before.phase.waitsFor
  address : after.phase.sem = before.phase.sem
  exited : ∀ code, before.phase = .exited code → after.phase = .exited code
  collecting : ∀ pid child, after.phase = .collecting pid child ↔ before.phase = .collecting pid child
  sleeping : ∀ pid child addr, after.phase = .sleeping pid child addr → addr ≠ sem ∧ after = before

theorem wakes (sem : Nat) (thread : Thread) : Wakes sem thread (wake sem thread) := by
  unfold wake
  split
  · next pid child addr asleep =>
    split
    · next same =>
      subst same
      constructor <;> simp [asleep, Phase.code, Phase.pastV, Phase.locks, Phase.waitsFor, Phase.sem]
    · next different =>
      refine ⟨rfl, rfl, rfl, rfl, rfl, rfl, rfl, fun _ same => same, fun _ _ => Iff.rfl, ?_⟩
      intro pid' child' addr' same
      cases asleep.symm.trans same
      exact ⟨different, rfl⟩
  · next awake =>
    refine ⟨rfl, rfl, rfl, rfl, rfl, rfl, rfl, fun _ same => same, fun _ _ => Iff.rfl, ?_⟩
    intro pid child addr same
    exact absurd same (awake pid child addr)

theorem wake_keeps (sem : Nat) (thread : Thread) : (wake sem thread).creator = thread.creator ∧
    (wake sem thread).pid = thread.pid ∧ (wake sem thread).collected = thread.collected := by
  unfold wake
  split
  · split <;> exact ⟨rfl, rfl, rfl⟩
  · exact ⟨rfl, rfl, rfl⟩

theorem exitSignal_valid (valid : Valid s) (found : s.threads t = some thread) {code}
    (exiting : thread.phase = .exiting code) : Valid (exitSignal s t thread code) := by
  have kept := valid.uncollected found fun code exited => by rw [exited] at exiting; cases exiting
  have held := valid.exclusive t thread found (by rw [exiting]; rfl)
  obtain ⟨p, slot, me⟩ := valid.ledger.owner t thread found kept
  simp only [exitSignal, slot]
  split
  · exact valid.halt
  next sem hasSem =>
  obtain ⟨own, count, value, -, -⟩ := valid.signals.count thread.pid p sem thread slot hasSem (me ▸ found)
  simp only [value]
  have woken : ({ s with threads := fun u => (s.threads u).map (wake sem) } : State).threads t = some (wake sem thread) :=
    congrArg (Option.map (wake sem)) found
  have same : wake sem thread = thread := by simp [wake, exiting]
  rw [same] at woken
  -- every thread but `t` has at most been woken
  have earlier {u : Nat} {other : Thread}
      (after : ({ s with threads := fun u => (s.threads u).map (wake sem) }.setPhase t (.signalled code)).threads u =
        some other) :
      u = t ∧ other = { thread with phase := .signalled code } ∨
        u ≠ t ∧ ∃ original, s.threads u = some original ∧ Wakes sem original other := by
    rcases setThread_lookup woken after with ⟨same, rfl⟩ | ⟨different, after⟩
    · exact .inl ⟨same, rfl⟩
    · obtain ⟨original, lookup, rfl⟩ := Option.map_eq_some_iff.mp after
      exact .inr ⟨different, original, lookup, wakes sem original⟩
  have later {u : Nat} {original : Thread} (different : u ≠ t) (lookup : s.threads u = some original) :
      ({ s with threads := fun u => (s.threads u).map (wake sem) }.setPhase t (.signalled code)).threads u =
        some (wake sem original) :=
    (setThread_other different).trans (congrArg (Option.map (wake sem)) lookup)
  refine ⟨⟨?_, ?_, ?_⟩, ⟨?_, ?_⟩, ?_, ?_, ⟨?_, ?_, ?_⟩⟩
  · intro i q lookup
    obtain ⟨low, high, owner, lookupOwner, pid⟩ := valid.ledger.entry i q lookup
    by_cases mine : q.me = t
    · rw [mine, found] at lookupOwner
      cases lookupOwner
      exact ⟨low, high, { thread with phase := .signalled code }, by rw [mine]; exact setThread_self woken, pid⟩
    · exact ⟨low, high, _, later mine lookupOwner, (wakes sem owner).pid.trans pid⟩
  · intro u other after uncollected
    rcases earlier after with ⟨rfl, rfl⟩ | ⟨_, original, lookup, wakes⟩
    · exact ⟨p, slot, me⟩
    · rw [wakes.pid]
      exact valid.ledger.owner u original lookup (wakes.collected.symm.trans uncollected)
  · intro u other after
    rcases earlier after with ⟨rfl, rfl⟩ | ⟨_, original, lookup, _⟩
    · exact valid.ledger.fresh u thread found
    · exact valid.ledger.fresh u original lookup
  · intro i q other lookup after
    rcases earlier after with ⟨mine, rfl⟩ | ⟨_, original, lookupOwner, wakes⟩
    · have shown := valid.marked.shows i q thread lookup (mine ▸ found)
      rwa [exiting] at shown
    · have shown := valid.marked.shows i q original lookup lookupOwner
      unfold Process.Shows at shown ⊢
      rwa [wakes.code]
  · intro u other after collected
    rcases earlier after with ⟨rfl, rfl⟩ | ⟨_, original, lookup, wakes⟩
    · cases kept.symm.trans collected
    · obtain ⟨value, exited⟩ := valid.marked.reaped u original lookup (wakes.collected.symm.trans collected)
      exact ⟨value, wakes.exited value exited⟩
  · intro u other after locks
    rcases earlier after with ⟨rfl, rfl⟩ | ⟨_, original, lookup, wakes⟩
    · exact held
    · exact valid.exclusive u original lookup (wakes.locks.symm.trans locks)
  · intro u other after pid child waits
    rcases earlier after with ⟨rfl, rfl⟩ | ⟨_, original, lookup, wakes⟩
    · cases waits
    · obtain ⟨q, lookup', owns, parent, asleep⟩ :=
        valid.attended u original lookup pid child (wakes.waitsFor.symm.trans waits)
      refine ⟨q, lookup', owns, ?_, ?_⟩
      · rw [wakes.pid]
        exact parent
      · rw [wakes.address]
        exact asleep
  · intro i q sem' other lookup hasSem' after
    rcases earlier after with ⟨mine, rfl⟩ | ⟨apart, original, lookupOwner, wakes⟩
    · cases valid.ledger.same_entry lookup slot (mine.trans me.symm)
      cases slot.symm.trans lookup
      cases hasSem.symm.trans hasSem'
      exact ⟨own, count + 1, if_pos rfl, fun _ => rfl, fun _ => .inl (Nat.succ_pos count)⟩
    · obtain ⟨own', total, value', positive, lowered⟩ :=
        valid.signals.count i q sem' original lookup hasSem' lookupOwner
      have different : sem' ≠ sem := fun same => apart (own'.symm.trans (same.trans (own.trans me)))
      rw [wakes.pastV]
      refine ⟨own', total, (if_neg different).trans value', positive, fun past => (lowered past).imp_right ?_⟩
      intro ⟨u, waiter, lookupWaiter, taking⟩
      have outside : u ≠ t := by
        intro same
        rw [same, found] at lookupWaiter
        cases lookupWaiter
        cases exiting.symm.trans taking
      exact ⟨u, _, later outside lookupWaiter, ((Proc.wakes sem waiter).collecting i q.me).mpr taking⟩
  · intro u other pid child addr last after sleeping afterChild
    rcases earlier after with ⟨rfl, rfl⟩ | ⟨_, original, lookup, wakes⟩
    · cases sleeping
    obtain ⟨elsewhere, rfl⟩ := wakes.sleeping pid child addr sleeping
    rcases earlier afterChild with ⟨rfl, rfl⟩ | ⟨_, originalChild, lookupChild, wakesChild⟩
    · obtain ⟨q, lookup', owns, -, asleep⟩ := valid.attended u other lookup pid child (by rw [sleeping]; rfl)
      cases valid.ledger.same_entry lookup' slot (owns.trans me.symm)
      cases slot.symm.trans lookup'
      cases hasSem.symm.trans (asleep addr (by rw [sleeping]; rfl))
      exact absurd rfl elsewhere
    · rw [wakesChild.pastV]
      exact valid.signals.asleep u other pid child addr originalChild lookup sleeping lookupChild
  · intro u other pid child last after taking afterChild
    rcases earlier after with ⟨rfl, rfl⟩ | ⟨_, original, lookup, wakes⟩
    · cases taking
    rcases earlier afterChild with ⟨rfl, rfl⟩ | ⟨_, originalChild, lookupChild, wakesChild⟩
    · rfl
    · rw [wakesChild.pastV]
      exact valid.signals.taken u original pid child originalChild lookup ((wakes.collecting pid child).mp taking) lookupChild

theorem exitLeave_valid (valid : Valid s) (found : s.threads t = some thread) {code}
    (signalled : thread.phase = .signalled code) : Valid (exitLeave s t code) := by
  have kept := valid.uncollected found fun code exited => by rw [exited] at signalled; cases signalled
  have held := valid.exclusive t thread found (by rw [signalled]; rfl)
  have ledger : Ledger (s.setPhase t (.exited code)) := valid.ledger.setThread found rfl id
  have marked : Marked (s.setPhase t (.exited code)) := valid.marked.setPhase found (by rw [signalled]; rfl) kept
  have attended : Attended (s.setPhase t (.exited code)) := valid.attended.setPhase found nofun
  have past : (Phase.exited code).pastV = thread.phase.pastV := by rw [signalled]; rfl
  refine ⟨⟨ledger.entry, ledger.owner, ledger.fresh⟩, ⟨marked.shows, marked.reaped⟩, ?_, attended, ⟨?_, ?_, ?_⟩⟩
  · intro u other after locks
    rcases setThread_lookup found after with ⟨rfl, rfl⟩ | ⟨apart, after⟩
    · cases locks
    · exact absurd (valid.exclusive.apart held after locks) apart
  · intro i q sem other slot hasSem after
    refine valid.signals.count_setPhase found past after ?_ slot hasSem rfl
    rw [signalled]
    exact nofun
  · exact valid.signals.asleep_setPhase found past nofun
  · exact valid.signals.taken_setPhase found past nofun

end Exit

section Fork

theorem freeSlot_spec {i} (free : s.freeSlot = some i) : 1 ≤ i ∧ i < maxthreads ∧ s.pTable i = none := by
  have inside := List.mem_of_find?_eq_some free
  have empty := List.find?_some free
  rw [List.mem_range'_1] at inside
  exact ⟨inside.1, by omega, Option.isNone_iff_eq_none.mp empty⟩

structure Stores (s created : State) (i : Nat) (curthread : Option (Nat × Thread)) (start : Start) (sem : Bool) : Prop where
  low : 1 ≤ i
  high : i < maxthreads
  empty : s.pTable i = none
  table : created.pTable = fun j => if j = i then some (newProcess s.created curthread sem) else s.pTable j
  threads : created.threads = fun u => if u = s.created then some (newThread i curthread start) else s.threads u
  next : created.created = s.created + 1
  sems : ∀ u, u ≠ s.created → created.sems u = s.sems u
  zero : sem = true → created.sems s.created = some 0
  lock : created.lock = s.lock

structure Creates (s created : State) (i : Nat) (curthread : Option (Nat × Thread)) (start : Start) (sem : Bool) : Prop where
  free : s.freeSlot = some i
  table : created.pTable = fun j => if j = i then some (newProcess s.created curthread sem) else s.pTable j
  threads : created.threads = fun u => if u = s.created then some (newThread i curthread start) else s.threads u
  next : created.created = s.created + 1
  sems : ∀ u, u ≠ s.created → created.sems u = s.sems u
  zero : sem = true → created.sems s.created = some 0
  lock : created.lock = s.lock
  halted : created.halted = s.halted

theorem threadCreate_creates {curthread start memory me created} (computed : threadCreate s curthread start memory = some (me, created)) :
    me = s.created ∧ ∃ i, Creates s created i curthread start memory.sem := by
  unfold threadCreate at computed
  split at computed
  · next i free =>
    split at computed
    · cases computed
      refine ⟨rfl, i, ?_⟩
      cases memory.sem with
      | false => exact ⟨free, rfl, rfl, rfl, fun _ _ => rfl, Bool.noConfusion, rfl, rfl⟩
      | true => exact ⟨free, rfl, rfl, rfl, fun _ different => if_neg different, fun _ => if_pos rfl, rfl, rfl⟩
    · cases computed
  · cases computed

theorem Creates.stores {created i curthread start sem}
    (creates : Creates s created i curthread start sem) : Stores s created i curthread start sem := by
  obtain ⟨low, high, empty⟩ := freeSlot_spec creates.free
  exact ⟨low, high, empty, creates.table, creates.threads, creates.next, creates.sems, creates.zero, creates.lock⟩

theorem Stores.valid {created i curthread start sem}
    (stores : Stores s created i curthread start sem) (valid : Valid s) : Valid created := by
  have slots {j : Nat} {q : Process} (lookup : created.pTable j = some q) :
      j = i ∧ q = newProcess s.created curthread sem ∨ j ≠ i ∧ s.pTable j = some q := by
    rw [stores.table] at lookup
    dsimp only at lookup
    split at lookup
    · next same => exact .inl ⟨same, (Option.some.inj lookup).symm⟩
    · next different => exact .inr ⟨different, lookup⟩
  have threads {u : Nat} {other : Thread} (lookup : created.threads u = some other) :
      u = s.created ∧ other = newThread i curthread start ∨ u ≠ s.created ∧ s.threads u = some other := by
    rw [stores.threads] at lookup
    dsimp only at lookup
    split at lookup
    · next same => exact .inl ⟨same, (Option.some.inj lookup).symm⟩
    · next different => exact .inr ⟨different, lookup⟩
  have older {u : Nat} {other : Thread} (lookup : s.threads u = some other) :
      u ≠ s.created ∧ created.threads u = some other := by
    have different : u ≠ s.created := Nat.ne_of_lt (valid.ledger.fresh u other lookup)
    exact ⟨different, by rw [stores.threads]; exact (if_neg different).trans lookup⟩
  have kept {j : Nat} {q : Process} (lookup : s.pTable j = some q) : created.pTable j = some q := by
    have different : j ≠ i := by
      intro same
      rw [same, stores.empty] at lookup
      cases lookup
    rw [stores.table]
    exact (if_neg different).trans lookup
  have newSlot : created.pTable i = some (newProcess s.created curthread sem) := by rw [stores.table]; exact if_pos rfl
  have newLookup : created.threads s.created = some (newThread i curthread start) := by
    rw [stores.threads]
    exact if_pos rfl
  refine ⟨⟨?_, ?_, ?_⟩, ⟨?_, ?_⟩, ?_, ?_, ⟨?_, ?_, ?_⟩⟩
  · intro j q lookup
    rcases slots lookup with ⟨rfl, rfl⟩ | ⟨_, lookup⟩
    · exact ⟨stores.low, stores.high, _, newLookup, rfl⟩
    · obtain ⟨low, high, owner, lookupOwner, pid⟩ := valid.ledger.entry j q lookup
      exact ⟨low, high, owner, (older lookupOwner).2, pid⟩
  · intro u other lookup uncollected
    rcases threads lookup with ⟨rfl, rfl⟩ | ⟨_, lookup⟩
    · exact ⟨_, newSlot, rfl⟩
    · obtain ⟨p, slot, me⟩ := valid.ledger.owner u other lookup uncollected
      exact ⟨p, kept slot, me⟩
  · intro u other lookup
    rw [stores.next]
    rcases threads lookup with ⟨rfl, rfl⟩ | ⟨_, lookup⟩
    · exact Nat.lt_succ_self s.created
    · exact Nat.lt_succ_of_lt (valid.ledger.fresh u other lookup)
  · intro j q other lookup lookupOwner
    rcases slots lookup with ⟨rfl, rfl⟩ | ⟨_, lookup⟩
    · cases newLookup.symm.trans lookupOwner
      refine ⟨rfl, ?_⟩
      intro code impossible
      cases impossible
    · obtain ⟨-, -, owner, before, -⟩ := valid.ledger.entry j q lookup
      cases (older before).2.symm.trans lookupOwner
      exact valid.marked.shows j q other lookup before
  · intro u other lookup collected
    rcases threads lookup with ⟨rfl, rfl⟩ | ⟨_, lookup⟩
    · cases collected
    · exact valid.marked.reaped u other lookup collected
  · intro u other lookup locks
    rw [stores.lock]
    rcases threads lookup with ⟨rfl, rfl⟩ | ⟨_, lookup⟩
    · cases locks
    · exact valid.exclusive u other lookup locks
  · intro u other lookup pid child waits
    rcases threads lookup with ⟨rfl, rfl⟩ | ⟨_, lookup⟩
    · cases waits
    · obtain ⟨p, slot, rest⟩ := valid.attended u other lookup pid child waits
      exact ⟨p, kept slot, rest⟩
  · intro j q addr other lookup hasSem lookupOwner
    rcases slots lookup with ⟨rfl, rfl⟩ | ⟨_, lookup⟩
    · cases newLookup.symm.trans lookupOwner
      have given : sem = true := by
        cases sem with
        | true => rfl
        | false => cases hasSem
      subst given
      cases hasSem
      refine ⟨rfl, 0, stores.zero rfl, fun positive => absurd positive (Nat.lt_irrefl 0), fun past => ?_⟩
      cases past
    · obtain ⟨-, -, owner, before, -⟩ := valid.ledger.entry j q lookup
      obtain ⟨different, after⟩ := older before
      cases after.symm.trans lookupOwner
      obtain ⟨own, total, value, positive, lowered⟩ := valid.signals.count j q addr other lookup hasSem before
      refine ⟨own, total, ?_, positive, fun past => (lowered past).imp_right ?_⟩
      · rw [stores.sems addr (own ▸ different)]
        exact value
      · intro ⟨u, waiter, lookupWaiter, taking⟩
        exact ⟨u, waiter, (older lookupWaiter).2, taking⟩
  · intro u other pid child addr last lookup sleeping lookupChild
    rcases threads lookup with ⟨rfl, rfl⟩ | ⟨_, lookup⟩
    · cases sleeping
    rcases threads lookupChild with ⟨rfl, rfl⟩ | ⟨_, lookupChild⟩
    · rfl
    · exact valid.signals.asleep u other pid child addr last lookup sleeping lookupChild
  · intro u other pid child last lookup taking lookupChild
    rcases threads lookup with ⟨rfl, rfl⟩ | ⟨_, lookup⟩
    · cases taking
    obtain ⟨p, slot, me, -⟩ := valid.attended u other lookup pid child (by rw [taking]; rfl)
    obtain ⟨-, -, owner, before, -⟩ := valid.ledger.entry pid p slot
    rw [me] at before
    cases (older before).2.symm.trans lookupChild
    exact valid.signals.taken u other pid child last lookup taking before

theorem Creates.valid {created i curthread start sem}
    (creates : Creates s created i curthread start sem) (valid : Valid s) : Valid created :=
  creates.stores.valid valid

theorem Valid.start (valid : Valid s) (found : s.threads t = some thread) (idle : thread.phase = .discarded) :
    Valid (s.setPhase t .running) := by
  refine valid.setPhase found (by rw [idle]; rfl) rfl ?_ ?_ ?_ ?_
  · intro pid child waits
    cases waits
  · intro pid child sem other sleeping
    cases sleeping
  · intro pid child taking
    cases idle.symm.trans taking
  · intro pid child taking
    cases taking

theorem Stores.newcomer {created i curthread start sem}
    (stores : Stores s created i curthread start sem) :
    created.threads s.created = some (newThread i curthread start) := by
  rw [stores.threads]
  exact if_pos rfl

theorem threadFork_valid (valid : Valid s) (curthread : Nat × Thread) (start : Start) (memory : Memory) :
    Valid (threadFork s curthread start memory) := by
  unfold threadFork
  split
  · exact valid
  · next newguy created computed =>
    obtain ⟨rfl, i, creates⟩ := threadCreate_creates computed
    have grown := creates.valid valid
    split
    · exact grown.start creates.stores.newcomer rfl
    · exact grown

end Fork

theorem Valid.return (valid : Valid s) (found : s.threads t = some thread) (running : thread.phase = .running) :
    Valid (s.setPhase t .returned) := by
  refine valid.setPhase found (by rw [running]; rfl) rfl ?_ ?_ ?_ ?_
  · intro pid child waits
    cases waits
  · intro pid child sem other sleeping
    cases sleeping
  · intro pid child taking
    cases running.symm.trans taking
  · intro pid child taking
    cases taking

theorem waitSem_valid (valid : Valid s) (found : s.threads t = some thread) {pid child}
    (waiting : thread.phase = .waiting pid child) : Valid (waitSem s t pid child) := by
  unfold waitSem
  split
  · exact valid.halt
  · next p slot =>
    split
    · exact valid.halt
    · next sem hasSem =>
      have pending (pid' child' : Nat) : thread.phase ≠ .collecting pid' child' := by
        rw [waiting]
        intro impossible
        cases impossible
      exact semWait_valid valid found (by rw [waiting]; rfl) pending slot hasSem

/-- What a thread can do, with the phase it does it from. -/
inductive Performs (s : State) (thread : Thread) : Step → State → Prop
  | fork {t : Nat} {start : Start} {memory : Memory} (running : thread.phase = .running) :
    Performs s thread (.fork t start memory) (threadFork s (t, thread) start memory)
  | waitpid {t pid status : Nat} {options : Int} (running : thread.phase = .running) (free : s.lock = none) (inside : pid < maxthreads) :
    Performs s thread (.waitpid t pid status options) (sysWaitpid s t thread pid status options).2
  | wait {t pid child : Nat} (waiting : thread.phase = .waiting pid child) :
    Performs s thread (.semP t) (waitSem s t pid child)
  | again {t pid child sem : Nat} (woken : thread.phase = .woken pid child sem) :
    Performs s thread (.semP t) (semWait s t pid child sem)
  | collect {t pid child : Nat} (collecting : thread.phase = .collecting pid child) (free : s.lock = none) :
    Performs s thread (.collect t) (waitCollect s t pid).2
  | exit {t : Nat} {code : Int} (running : thread.phase = .running) (free : s.lock = none) :
    Performs s thread (.exit t code) (exitMark s t thread code)
  | semV {t : Nat} {code : Int} (exiting : thread.phase = .exiting code) :
    Performs s thread (.semV t) (exitSignal s t thread code)
  | leave {t : Nat} {code : Int} (signalled : thread.phase = .signalled code) :
    Performs s thread (.leave t) (exitLeave s t code)
  | threadReturn {t : Nat} (running : thread.phase = .running) (kernel : thread.start = .kernel) :
    Performs s thread (.threadReturn t) (s.setPhase t .returned)

theorem performs_of_perform {action next} (taken : perform s thread action = some next) :
    Performs s thread action next := by
  cases action <;> simp only [perform] at taken <;> split at taken <;> cases taken
  · next running _ => exact .fork running
  · next enabled => exact .waitpid enabled.1 enabled.2.1 enabled.2.2
  · next waiting => exact .wait waiting
  · next woken => exact .again woken
  · next collecting free => exact .collect collecting free
  · next enabled => exact .exit enabled.1 enabled.2
  · next exiting => exact .semV exiting
  · next signalled => exact .leave signalled
  · next enabled => exact .threadReturn enabled.1 enabled.2

theorem step_performs {action next} (taken : step s action = some next) :
    ∃ thread, s.threads action.thread = some thread ∧ Performs s thread action next := by
  unfold step at taken
  split at taken
  · cases taken
  · obtain ⟨thread, found, performed⟩ := Option.bind_eq_some_iff.mp taken
    exact ⟨thread, found, performs_of_perform performed⟩

theorem step_valid (valid : Valid s) {action next} (taken : step s action = some next) : Valid next := by
  obtain ⟨thread, found, performed⟩ := step_performs taken
  cases performed with
  | fork => exact threadFork_valid valid _ _ _
  | waitpid running free => exact sysWaitpid_valid valid found running free _ _ _
  | wait waiting => exact waitSem_valid valid found waiting
  | @again t pid child sem woken =>
    have waits : thread.phase.waitsFor = some (pid, child) := by rw [woken]; rfl
    obtain ⟨p, slot, -, -, asleep⟩ := valid.attended t thread found pid child waits
    have pending (pid' child' : Nat) : thread.phase ≠ .collecting pid' child' := by
      rw [woken]
      intro impossible
      cases impossible
    exact semWait_valid valid found waits pending slot (asleep sem (by rw [woken]; rfl))
  | collect collecting free => exact waitCollect_valid valid found collecting free
  | exit running free => exact exitMark_valid valid found running free _
  | semV exiting => exact exitSignal_valid valid found exiting
  | leave signalled => exact exitLeave_valid valid found signalled
  | threadReturn running => exact valid.return found running

theorem emptyState_valid : Valid emptyState := by
  refine ⟨⟨?_, ?_, ?_⟩, ⟨?_, ?_⟩, fun _ _ found => ?_, fun _ _ found => ?_, ⟨?_, ?_, ?_⟩⟩
  all_goals
    intros
    contradiction

theorem boot_valid (sem : Bool) : Valid (boot sem) := by
  unfold boot
  split
  · exact emptyState_valid.halt
  · next me created computed =>
    obtain ⟨rfl, i, creates⟩ := threadCreate_creates computed
    exact (creates.valid emptyState_valid).start creates.stores.newcomer rfl

end Os161.Proc
