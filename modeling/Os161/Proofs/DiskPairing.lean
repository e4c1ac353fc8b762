import Os161.LhdDriver
import Os161.Lib.Runs

/-! The protocol between `lhd_io` and the interrupt. Between `P(lh_clear)` and `V(lh_clear)` a thread is alone; the
card is busy exactly while that thread waits for its operation. -/

namespace Os161.LhdDriver

open Crew Runs List

section Ranges

def Point.holds : Point → Bool
  | .loop | .acquire | .check _ => false
  | _ => true

def Thread.holds : Thread → Bool
  | .inside _ _ point => point.holds
  | _ => false

def Thread.waits : Thread → Bool
  | .inside _ _ (.await _) => true
  | _ => false

def Thread.touches : Thread → Bool
  | .inside call _ .fill => decide (call.rw = .write)
  | .inside call _ (.drain result) => decide (result = none ∧ call.rw = .read)
  | _ => false

theorem Thread.holds_of_waits {thread : Thread} (waits : thread.waits = true) : thread.holds = true := by
  cases thread with
  | outside => cases waits
  | returned result => cases waits
  | inside call i point =>
    cases point with
    | await operation => rfl
    | _ => cases waits

theorem Thread.holds_of_touches {thread : Thread} (touches : thread.touches = true) : thread.holds = true := by
  cases thread with
  | outside => cases touches
  | returned result => cases touches
  | inside call i point =>
    cases point with
    | fill => rfl
    | drain result => rfl
    | _ => cases touches

end Ranges

section Card

variable {card after : Card} {operation : Operation}

/-- No operation is anywhere between its start and its `P(lh_done)`. -/
structure Card.Ready (card : Card) : Prop where
  stat : card.stat = lhdIdle
  done : card.done = 0
  working : card.working = []
  finished : card.finished = []
  posted : card.posted = []

/-- One operation is, and the other fields tell how far it is. -/
inductive Card.Busy (card : Card) (operation : Operation) : Prop where
  | working (stat : card.stat = operation.statval) (done : card.done = 0) (working : card.working = [operation])
      (finished : card.finished = []) (posted : card.posted = [])
  | finished (verdict : Verdict) (stat : card.stat = verdict.code ||| (operation.statval &&& lhdIswrite))
      (done : card.done = 0) (working : card.working = []) (finished : card.finished = [(operation, verdict)])
      (posted : card.posted = [])
  | posted (verdict : Verdict) (stat : card.stat = lhdIdle) (result : card.result = lhdCodeToErrno verdict.code)
      (done : card.done = 1) (working : card.working = []) (finished : card.finished = [])
      (posted : card.posted = [(operation, verdict)])

/-- What `lhd_io` writes to the status register. -/
def Started (statval : UInt32) : Prop := statval = lhdWorking ∨ statval = lhdWorking ||| lhdIswrite

theorem Call.statval_started (call : Call) : Started call.statval := by
  unfold Call.statval
  cases call.rw with
  | read => exact Or.inl rfl
  | write => exact Or.inr rfl

theorem lhdIrq_idle (stat : card.stat = lhdIdle ∨ Started card.stat) : lhdIrq card = card := by
  unfold lhdIrq
  rcases stat with idle | reading | writing
  · rw [idle]
    rfl
  · rw [reading]
    rfl
  · rw [writing]
    rfl

theorem lhdIrq_finished {verdict : Verdict} (started : Started operation.statval)
    (stat : card.stat = verdict.code ||| (operation.statval &&& lhdIswrite)) :
    lhdIrq card = { card with
      stat := 0, result := lhdCodeToErrno verdict.code, done := card.done + 1,
      finished := [], posted := card.posted ++ card.finished } := by
  unfold lhdIrq
  rcases started with reading | writing
  · rw [stat, reading]
    cases verdict <;> rfl
  · rw [stat, writing]
    cases verdict <;> rfl

theorem Card.Ready.irq (ready : card.Ready) : lhdIrq card = card := lhdIrq_idle (Or.inl ready.stat)

/-- The handler reports an operation that has ended, and nothing else. -/
theorem Card.Busy.irq (busy : card.Busy operation) (started : Started operation.statval) :
    (lhdIrq card).Busy operation := by
  cases busy with
  | working stat done working finished posted =>
    rw [lhdIrq_idle (Or.inr (stat ▸ started))]
    exact .working stat done working finished posted
  | finished verdict stat done working finished posted =>
    rw [lhdIrq_finished started stat]
    refine .posted verdict rfl rfl ?_ working rfl ?_
    · rw [done]
    · rw [posted, finished]
      rfl
  | posted verdict stat result done working finished posted =>
    rw [lhdIrq_idle (Or.inl stat)]
    exact .posted verdict stat result done working finished posted

theorem Card.Busy.finish (busy : card.Busy operation) {verdict}
    (taken : card.finish verdict = some after) : after.Busy operation ∧ after.sect = card.sect := by
  unfold Card.finish at taken
  cases busy with
  | working stat done working finished posted =>
    rw [working] at taken
    cases taken
    refine ⟨.finished verdict rfl done rfl ?_ posted, rfl⟩
    rw [finished]
    rfl
  | finished other stat done working finished posted =>
    rw [working] at taken
    cases taken
  | posted other stat result done working finished posted =>
    rw [working] at taken
    cases taken

theorem Card.Ready.start (ready : card.Ready) (owner : Nat) (statval : UInt32) :
    (card.start owner statval).1.Busy (card.start owner statval).2 := by
  refine .working rfl ready.done ?_ ready.finished ready.posted
  rw [Card.start, ready.working]
  rfl

def Card.outstanding (card : Card) : List Operation :=
  card.working ++ card.finished.map Prod.fst ++ card.posted.map Prod.fst

theorem Card.Ready.outstanding (ready : card.Ready) : card.outstanding = [] := by
  rw [Card.outstanding, ready.working, ready.finished, ready.posted]
  rfl

theorem Card.Busy.outstanding (busy : card.Busy operation) : card.outstanding = [operation] := by
  rw [Card.outstanding]
  cases busy with
  | working stat done working finished posted =>
    rw [working, finished, posted]
    rfl
  | finished verdict stat done working finished posted =>
    rw [working, finished, posted]
    rfl
  | posted verdict stat result done working finished posted =>
    rw [working, finished, posted]
    rfl

theorem Card.Busy.consume (busy : card.Busy operation) (done : card.done ≠ 0) :
    ∃ verdict, card.posted = [(operation, verdict)] ∧ card.result = lhdCodeToErrno verdict.code ∧
      Card.Ready { card with done := card.done - 1, posted := card.posted.tail } := by
  cases busy with
  | working stat none_ working finished posted => exact absurd none_ done
  | finished verdict stat none_ working finished posted => exact absurd none_ done
  | posted verdict stat result one working finished posted =>
    refine ⟨verdict, posted, result, stat, ?_, working, finished, ?_⟩
    · rw [one]
    · rw [posted]
      rfl

end Card

section Invariant

def Operation.Of (operation : Operation) (t : Nat) (call : Call) (i : Nat) : Prop :=
  operation.owner = t ∧ operation.sector = call.sector + UInt32.ofNat i ∧ operation.statval = call.statval

def Point.Knows (card : Card) (t : Nat) (call : Call) (i : Nat) : Point → Prop
  | .start => card.sect = call.sector + UInt32.ofNat i
  | .await operation => card.Busy operation ∧ operation.Of t call i
  | .fetch operation completion => operation.Of t call i ∧
      ∃ verdict, completion = some (operation, verdict) ∧ card.result = lhdCodeToErrno verdict.code
  | _ => True

def Thread.Knows (card : Card) (t : Nat) : Thread → Prop
  | .inside call i point => point.Knows card t call i
  | _ => True

structure Sound (world : World) : Prop where
  clear : world.clear + world.threads.countP Thread.holds = 1
  ready : (∀ thread ∈ world.threads, thread.waits = false) → world.card.Ready
  knows : ∀ (t : Nat) (thread : Thread), world.threads[t]? = some thread → thread.Knows world.card t

structure Moved (world after : World) (t : Nat) (old new : Thread) : Prop where
  threads : after.threads = world.threads.set t new
  clear : after.clear + new.holds.toNat = world.clear + old.holds.toNat
  card : after.card = world.card ∨ old.holds = true
  ready : new.waits = false → (old.waits = false → world.card.Ready) → after.card.Ready
  knows : new.Knows after.card t

theorem Thread.Knows.outside {thread : Thread} (outside : thread.holds = false) (card : Card) (t : Nat) :
    thread.Knows card t := by
  cases thread with
  | outside => trivial
  | returned result => trivial
  | inside call i point =>
    cases point with
    | start => cases outside
    | await operation => cases outside
    | fetch operation completion => cases outside
    | _ => trivial

variable {world after : World} {t u : Nat} {old new : Thread}

theorem Sound.alone (sound : Sound world) {first second} (foundFirst : world.threads[t]? = some first)
    (holdsFirst : first.holds = true) (foundSecond : world.threads[u]? = some second)
    (holdsSecond : second.holds = true) : t = u := by
  have atMost : world.threads.countP Thread.holds ≤ 1 := by
    have clear := sound.clear
    omega
  exact unique_of_countP atMost foundFirst holdsFirst foundSecond holdsSecond

theorem Sound.moved (sound : Sound world) (found : world.threads[t]? = some old)
    (moved : Moved world after t old new) : Sound after := by
  refine ⟨?_, ?_, ?_⟩
  · have count := countP_moved Thread.holds new found
    have change := moved.clear
    have before := sound.clear
    rw [moved.threads]
    omega
  · intro quiet
    rw [moved.threads] at quiet
    have newQuiet : new.waits = false := by
      apply quiet
      exact mem_of_getElem? ((getElem?_moved found).mpr (Or.inl ⟨rfl, rfl⟩))
    refine moved.ready newQuiet fun oldQuiet => sound.ready ?_
    intro thread member
    obtain ⟨u, at_⟩ := mem_iff_getElem?.mp member
    by_cases same : u = t
    · subst same
      rw [found] at at_
      cases at_
      exact oldQuiet
    · exact quiet thread (mem_of_getElem? ((getElem?_moved found).mpr (Or.inr ⟨same, at_⟩)))
  · intro u thread at_
    rw [moved.threads] at at_
    rcases (getElem?_moved found).mp at_ with ⟨rfl, rfl⟩ | ⟨elsewhere, at_⟩
    · exact moved.knows
    · rcases moved.card with same | inside
      · rw [same]
        exact sound.knows u thread at_
      · apply Thread.Knows.outside
        cases holds : thread.holds with
        | false => rfl
        | true => exact absurd (sound.alone at_ holds found inside) elsewhere

end Invariant

section Statements

variable {world after : World} {t : Nat} {call : Call} {i : Nat}

theorem Moved.aside {old new} (threads : after.threads = world.threads.set t new)
    (clear : after.clear + new.holds.toNat = world.clear + old.holds.toNat) (card : after.card = world.card)
    (awake : old.waits = false) (knows : new.Knows world.card t) : Moved world after t old new := by
  refine ⟨threads, clear, Or.inl card, fun _ ready => ?_, ?_⟩
  · rw [card]
    exact ready awake
  · rw [card]
    exact knows

/-- While a thread that holds `lh_clear` does not wait, the card has nothing to do. -/
theorem Sound.ready_of_holds (sound : Sound world) {thread : Thread} (found : world.threads[t]? = some thread)
    (holds : thread.holds = true) (awake : thread.waits = false) : world.card.Ready := by
  apply sound.ready
  intro other member
  obtain ⟨u, at_⟩ := mem_iff_getElem?.mp member
  cases waits : other.waits with
  | false => rfl
  | true =>
    have same := sound.alone found holds at_ (Thread.holds_of_waits waits)
    subst same
    rw [found] at at_
    cases at_
    rw [awake] at waits
    cases waits

theorem execute_moved (sound : Sound world) {point} (found : world.threads[t]? = some (.inside call i point))
    {moved} (taken : execute world t call i moved point = .next after) :
    ∃ new, Moved world after t (.inside call i point) new := by
  have knows := sound.knows t _ found
  cases point with
  | loop =>
    cases taken
    by_cases more : i < call.len
    · rw [if_pos more]
      exact ⟨_, Moved.aside rfl rfl rfl rfl trivial⟩
    · rw [if_neg more]
      exact ⟨_, Moved.aside rfl rfl rfl rfl trivial⟩
  | acquire =>
    simp only [execute] at taken
    split at taken
    · cases taken
    next free =>
      cases taken
      refine ⟨_, Moved.aside rfl ?_ rfl rfl trivial⟩
      exact Nat.sub_add_cancel (Nat.pos_of_ne_zero free)
  | fill =>
    simp only [execute] at taken
    split at taken <;> cases taken <;> exact ⟨_, Moved.aside rfl rfl rfl rfl trivial⟩
  | abandon error =>
    cases taken
    exact ⟨_, Moved.aside rfl rfl rfl rfl trivial⟩
  | setSector =>
    cases taken
    have ready := sound.ready_of_holds found rfl rfl
    exact ⟨.inside call i .start, rfl, rfl, Or.inr rfl,
      fun _ _ => ⟨ready.stat, ready.done, ready.working, ready.finished, ready.posted⟩, rfl⟩
  | start =>
    cases taken
    have ready := sound.ready_of_holds found rfl rfl
    refine ⟨_, rfl, rfl, Or.inr rfl, fun awake => absurd awake (by simp [Thread.waits]), ?_⟩
    exact ⟨ready.start t call.statval, rfl, knows, rfl⟩
  | await operation =>
    simp only [execute] at taken
    split at taken
    · cases taken
    next done =>
      cases taken
      obtain ⟨busy, of⟩ := knows
      obtain ⟨verdict, posted, result, ready⟩ := busy.consume done
      refine ⟨_, rfl, rfl, Or.inr rfl, fun _ _ => ready, of, verdict, ?_, result⟩
      rw [posted]
      rfl
  | fetch operation completion =>
    cases taken
    exact ⟨_, Moved.aside rfl rfl rfl rfl trivial⟩
  | drain result =>
    simp only [execute] at taken
    split at taken <;> cases taken <;> exact ⟨_, Moved.aside rfl rfl rfl rfl trivial⟩
  | release result =>
    cases taken
    exact ⟨_, Moved.aside rfl rfl rfl rfl trivial⟩
  | check result =>
    simp only [execute] at taken
    split at taken <;> cases taken <;> exact ⟨_, Moved.aside rfl rfl rfl rfl trivial⟩

theorem lhdIo_holds (dBlocks : UInt32) (rw_ : UioRw) (offset : Int) (resid : Nat) :
    (lhdIo dBlocks rw_ offset resid).holds = false := by
  simp only [lhdIo]
  split
  · rfl
  · split <;> rfl

theorem Sound.enters (sound : Sound world) {old : Thread} (found : world.threads[t]? = some old)
    (out : old.holds = false) (rw_ : UioRw) (offset : Int) (resid : Nat) :
    Sound (world.goto t (lhdIo world.dBlocks rw_ offset resid)) := by
  have awake : old.waits = false := by
    cases waits : old.waits with
    | false => rfl
    | true => rw [Thread.holds_of_waits waits] at out; cases out
  apply sound.moved found
  have stays := lhdIo_holds world.dBlocks rw_ offset resid
  refine Moved.aside rfl ?_ rfl awake (Thread.Knows.outside stays _ _)
  rw [out, stays]
  rfl

theorem Sound.ready_or_busy (sound : Sound world) :
    world.card.Ready ∨ ∃ t call i operation, world.threads[t]? = some (.inside call i (.await operation)) ∧
      world.card.Busy operation ∧ operation.Of t call i := by
  by_cases quiet : ∀ thread ∈ world.threads, thread.waits = false
  · exact Or.inl (sound.ready quiet)
  · simp only [not_forall, Bool.not_eq_false] at quiet
    obtain ⟨thread, member, waits⟩ := quiet
    obtain ⟨t, found⟩ := mem_iff_getElem?.mp member
    have knows := sound.knows t thread found
    cases thread with
    | outside => cases waits
    | returned result => cases waits
    | inside call i point =>
      cases point with
      | await operation => exact Or.inr ⟨t, call, i, operation, found, knows⟩
      | _ => cases waits

/-- The card and its handler only carry on the operation that a thread waits for. -/
theorem Sound.device (sound : Sound world) {card : Card}
    (carries : ∀ operation, Started operation.statval → world.card.Busy operation → card.Busy operation)
    (rests : world.card.Ready → card = world.card) : Sound { world with card := card } := by
  rcases sound.ready_or_busy with ready | ⟨t, call, i, operation, found, busy, of⟩
  · rw [rests ready]
    exact sound
  · refine ⟨sound.clear, ?_, ?_⟩
    · intro quiet
      cases quiet _ (mem_of_getElem? found)
    · intro u thread at_
      cases holds : thread.holds with
      | false => exact Thread.Knows.outside holds _ _
      | true =>
        have same := sound.alone at_ holds found rfl
        subst same
        rw [found] at at_
        cases at_
        exact ⟨carries operation (of.2.2 ▸ call.statval_started) busy, of⟩

theorem Sound.step (sound : Sound world) {action} (taken : step world action = some after) :
    Sound after := by
  cases action with
  | call t rw_ offset resid =>
    simp only [LhdDriver.step] at taken
    split at taken
    next found =>
      cases taken
      exact sound.enters found rfl rw_ offset resid
    next found =>
      cases taken
      exact sound.enters found rfl rw_ offset resid
    · cases taken
  | advance t moved =>
    simp only [LhdDriver.step] at taken
    split at taken
    next found =>
      obtain ⟨new, moves⟩ := execute_moved sound found (Outcome.toOption_eq_some.mp taken)
      exact sound.moved found moves
    · cases taken
  | finish verdict =>
    obtain ⟨card, finished, rfl⟩ := Option.map_eq_some_iff.mp taken
    refine sound.device (fun operation _ busy => (busy.finish finished).1) ?_
    intro ready
    rw [Card.finish, ready.working] at finished
    cases finished
  | interrupt =>
    cases taken
    exact sound.device (fun operation started busy => busy.irq started) fun ready => ready.irq

theorem sound_boot (dBlocks : UInt32) (n : Nat) : Sound (boot dBlocks n) := by
  refine ⟨?_, fun _ => ⟨rfl, rfl, rfl, rfl, rfl⟩, ?_⟩
  · have nobody : (List.replicate n Thread.outside).countP Thread.holds = 0 := by
      simp [countP_replicate, Thread.holds]
    rw [boot, nobody]
  · intro t thread at_
    obtain rfl := eq_of_mem_replicate (mem_of_getElem? at_)
    trivial

end Statements

section Pairing

variable {world : World}

/-- At most one operation is outstanding, the buffer belongs to the holder of `lh_clear`, completions reach the
threads that started their operations, and `lh_clear` is free after a return. -/
structure World.Paired (world : World) : Prop where
  outstanding : world.card.outstanding.length ≤ 1
  buffer : ∀ (t : Nat) (thread : Thread), world.threads[t]? = some thread → thread.touches = true →
    thread.holds = true ∧ world.clear = 0 ∧
    ∀ (u : Nat) (other : Thread), world.threads[u]? = some other → other.holds = true → u = t
  waiting : ∀ (t : Nat) (call : Call) (i : Nat) (operation : Operation),
    world.threads[t]? = some (.inside call i (.await operation)) →
    operation.owner = t ∧ world.card.outstanding = [operation] ∧
    (world.card.done ≠ 0 → world.card.posted.map Prod.fst = [operation])
  completion : ∀ (t : Nat) (call : Call) (i : Nat) (operation : Operation)
      (completion : Option (Operation × Verdict)),
    world.threads[t]? = some (.inside call i (.fetch operation completion)) →
    operation.owner = t ∧
    ∃ verdict, completion = some (operation, verdict) ∧ world.card.result = lhdCodeToErrno verdict.code
  returned : ∀ (t : Nat) (result : Option Errno), world.threads[t]? = some (.returned result) →
    (∀ (u : Nat) (other : Thread), u ≠ t → world.threads[u]? = some other → other.holds = false) →
    world.clear = 1

theorem Sound.outstanding (sound : Sound world) : world.card.outstanding.length ≤ 1 := by
  rcases sound.ready_or_busy with ready | ⟨t, call, i, operation, -, busy, -⟩
  · rw [ready.outstanding]
    exact Nat.zero_le 1
  · rw [busy.outstanding]
    exact Nat.le_refl 1

theorem Sound.paired (sound : Sound world) : world.Paired := by
  refine ⟨sound.outstanding, ?_, ?_, ?_, ?_⟩
  · intro t thread found touches
    have holds := Thread.holds_of_touches touches
    refine ⟨holds, ?_, ?_⟩
    · have positive := countP_pos found holds
      have clear := sound.clear
      omega
    · intro u other at_ also
      exact sound.alone at_ also found holds
  · intro t call i operation found
    obtain ⟨busy, of⟩ := sound.knows t _ found
    refine ⟨of.1, busy.outstanding, ?_⟩
    intro done
    obtain ⟨verdict, posted, -⟩ := busy.consume done
    rw [posted]
    rfl
  · intro t call i operation completion found
    obtain ⟨of, verdict, same, result⟩ := sound.knows t _ found
    exact ⟨of.1, verdict, same, result⟩
  · intro t result found others
    have nobody : world.threads.countP Thread.holds = 0 := by
      rw [countP_eq_zero]
      intro thread member holds
      obtain ⟨u, at_⟩ := mem_iff_getElem?.mp member
      by_cases same : u = t
      · subst same
        rw [found] at at_
        cases at_
        cases holds
      · rw [others u thread same at_] at holds
        cases holds
    have clear := sound.clear
    omega

/-- Any number of threads, with every interleaving of their statements, the card and its interrupt. -/
theorem driver_pairs (dBlocks : UInt32) (n : Nat) (actions : List Action) :
    Always step World.Paired (boot dBlocks n) actions :=
  (always_of_invariant (fun _ _ _ sound taken => sound.step taken) (sound_boot dBlocks n) actions).mono
    fun _ sound => sound.paired

/-- While a thread is inside `lhd_io`, some thread can go on, or the card is at work or its interrupt is to come. -/
def World.GoesOn (world : World) : Prop :=
  (∃ call i point, .inside call i point ∈ world.threads) →
    (∃ t, (step world (.advance t none)).isSome) ∨ world.card.working ≠ [] ∨ world.card.finished ≠ []

theorem advances {t call i point} (found : world.threads[t]? = some (.inside call i point))
    (clear : point = .acquire → world.clear ≠ 0) (done : (Thread.inside call i point).waits → world.card.done ≠ 0) :
    (step world (.advance t none)).isSome := by
  simp only [step, found]
  cases point with
  | acquire => simp [execute, clear rfl, Outcome.toOption]
  | await operation => simp [execute, done rfl, Outcome.toOption]
  | fill | drain | check =>
    simp only [execute]
    split <;> rfl
  | _ => rfl

theorem Sound.goesOn (sound : Sound world) : world.GoesOn := by
  rintro ⟨call, i, point, member⟩
  have clear := sound.clear
  by_cases taken : world.clear = 0
  · rw [taken, Nat.zero_add] at clear
    obtain ⟨thread, present, holds⟩ := countP_pos_iff.mp (Nat.lt_of_lt_of_eq Nat.one_pos clear.symm)
    obtain ⟨u, found⟩ := mem_iff_getElem?.mp present
    have knows := sound.knows u _ found
    cases thread with
    | outside | returned => cases holds
    | inside call i point =>
      cases point with
      | loop | acquire | check => cases holds
      | await operation =>
        cases knows.1 with
        | working _ _ working => exact .inr (.inl (by rw [working]; exact cons_ne_nil _ _))
        | finished _ _ _ _ finished => exact .inr (.inr (by rw [finished]; exact cons_ne_nil _ _))
        | posted _ _ _ done => exact .inl ⟨u, advances found (by rintro ⟨⟩) fun _ => by rw [done]; exact Nat.one_ne_zero⟩
      | _ => exact .inl ⟨u, advances found (by rintro ⟨⟩) (by rintro ⟨⟩)⟩
  · obtain ⟨t, found⟩ := mem_iff_getElem?.mp member
    refine .inl ⟨t, advances found (fun _ => taken) fun waits => ?_⟩
    have holds := countP_pos found (Thread.holds_of_waits waits)
    omega

theorem driver_goes_on (dBlocks : UInt32) (n : Nat) (actions : List Action) :
    Always step World.GoesOn (boot dBlocks n) actions :=
  (always_of_invariant (fun _ _ _ sound taken => sound.step taken) (sound_boot dBlocks n) actions).mono
    fun _ sound => sound.goesOn

end Pairing

end Os161.LhdDriver
