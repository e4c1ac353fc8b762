import Os161.SfsIo
import Os161.Lib.Crew

/-! `lhd_io` run by any number of threads, interleaved with the card and its interrupt. -/

namespace Os161.LhdDriver

open Crew

def lhdIdle : UInt32 := 0
def lhdWorking : UInt32 := 1
def lhdOk : UInt32 := 4
def lhdInvsect : UInt32 := 12
def lhdMedia : UInt32 := 20
def lhdIswrite : UInt32 := 2
def lhdStatemask : UInt32 := 0x1d

/-- `none` is the result 0. -/
def lhdCodeToErrno (code : UInt32) : Option Errno :=
  if code &&& lhdStatemask = lhdOk then none
  else if code &&& lhdStatemask = lhdInvsect then some .einval
  else if code &&& lhdStatemask = lhdMedia then some .eio
  else some .eagain

inductive Verdict where
  | ok
  | invsect
  | media
  deriving DecidableEq, Repr

def Verdict.code : Verdict → UInt32
  | .ok => lhdOk
  | .invsect => lhdInvsect
  | .media => lhdMedia

/-- An operation of the card: its number, the thread that started it, and the registers then. -/
structure Operation where
  serial : Nat
  owner : Nat
  sector : UInt32
  statval : UInt32
  deriving DecidableEq, Repr

/-- The card and the fields of `lhd_softc` the handler writes. The lists follow the operations: in work, ended with
the interrupt to come, and reported but not waited for. -/
structure Card where
  sect : UInt32
  stat : UInt32
  result : Option Errno
  done : Nat
  started : Nat
  working : List Operation
  finished : List (Operation × Verdict)
  posted : List (Operation × Verdict)

/-- `lhd_irq`, with `lhd_iodone`. -/
def lhdIrq (card : Card) : Card :=
  let val := card.stat
  if val &&& lhdStatemask = lhdOk ∨ val &&& lhdStatemask = lhdInvsect ∨ val &&& lhdStatemask = lhdMedia then
    { card with
      stat := 0, result := lhdCodeToErrno val, done := card.done + 1,
      finished := [], posted := card.posted ++ card.finished }
  else card

/-- The card ends the operation it works on and raises its interrupt. -/
def Card.finish (card : Card) (verdict : Verdict) : Option Card :=
  match card.working with
  | [] => none
  | operation :: rest => some { card with
      stat := verdict.code ||| (operation.statval &&& lhdIswrite), working := rest,
      finished := card.finished ++ [(operation, verdict)] }

/-- `lhd_wreg(lh, LHD_REG_STAT, statval)`. -/
def Card.start (card : Card) (owner : Nat) (statval : UInt32) : Card × Operation :=
  let operation := ⟨card.started, owner, card.sect, statval⟩
  ({ card with stat := statval, started := card.started + 1, working := card.working ++ [operation] }, operation)

structure Call where
  rw : UioRw
  sector : UInt32
  len : Nat
  deriving DecidableEq

def Call.statval (call : Call) : UInt32 :=
  match call.rw with
  | .write => lhdWorking ||| lhdIswrite
  | .read => lhdWorking

/-- The loop of `lhd_io`. At `await` a thread knows its operation, at `fetch` also the completion its `P(lh_done)`
consumed. -/
inductive Point where
  | loop
  | acquire
  | fill
  | abandon (result : Errno)
  | setSector
  | start
  | await (operation : Operation)
  | fetch (operation : Operation) (completion : Option (Operation × Verdict))
  | drain (result : Option Errno)
  | release (result : Option Errno)
  | check (result : Option Errno)
  deriving DecidableEq

inductive Thread where
  | outside
  | inside (call : Call) (i : Nat) (point : Point)
  | returned (result : Option Errno)
  deriving DecidableEq

structure World where
  dBlocks : UInt32
  clear : Nat
  card : Card
  threads : List Thread

/-- What `config_lhd` leaves, with `n` threads that may call `lhd_io`. -/
def boot (dBlocks : UInt32) (n : Nat) : World where
  dBlocks := dBlocks
  clear := 1
  card := ⟨0, lhdIdle, none, 0, 0, [], [], []⟩
  threads := List.replicate n .outside

def World.goto (world : World) (t : Nat) (thread : Thread) : World :=
  { world with threads := world.threads.set t thread }

/-- The checks at the start of `lhd_io`. -/
def lhdIo (dBlocks : UInt32) (rw : UioRw) (offset : Int) (resid : Nat) : Thread :=
  let sector := u32 (offset.tdiv 512)
  let sectoff := u32 (offset.tmod 512)
  let len := resid / 512
  let lenoff := resid % 512
  if sectoff ≠ 0 ∨ lenoff ≠ 0 then .returned (some .einval)
  else if dBlocks < sector + UInt32.ofNat len then .returned (some .einval)
  else .inside ⟨rw, sector, len⟩ 0 .loop

/-- One statement of the loop; `moved` is the result of `uiomove` in it. -/
def execute (world : World) (t : Nat) (call : Call) (i : Nat) (moved : Option Errno) : Point → Outcome World
  | .loop => .next (world.goto t (if i < call.len then .inside call i .acquire else .returned none))
  | .acquire =>
    if world.clear = 0 then .blocked
    else .next ({ world with clear := world.clear - 1 }.goto t (.inside call i .fill))
  | .fill =>
    match call.rw, moved with
    | .write, some error => .next (world.goto t (.inside call i (.abandon error)))
    | _, _ => .next (world.goto t (.inside call i .setSector))
  | .abandon error => .next ({ world with clear := world.clear + 1 }.goto t (.returned (some error)))
  | .setSector =>
    .next ({ world with card := { world.card with sect := call.sector + UInt32.ofNat i } }.goto t
      (.inside call i .start))
  | .start =>
    .next ({ world with card := (world.card.start t call.statval).1 }.goto t
      (.inside call i (.await (world.card.start t call.statval).2)))
  | .await operation =>
    if world.card.done = 0 then .blocked
    else .next
      ({ world with card := { world.card with done := world.card.done - 1, posted := world.card.posted.tail } }.goto t
        (.inside call i (.fetch operation world.card.posted.head?)))
  | .fetch _ _ => .next (world.goto t (.inside call i (.drain world.card.result)))
  | .drain result =>
    match result, call.rw with
    | none, .read => .next (world.goto t (.inside call i (.release moved)))
    | _, _ => .next (world.goto t (.inside call i (.release result)))
  | .release result => .next ({ world with clear := world.clear + 1 }.goto t (.inside call i (.check result)))
  | .check result =>
    match result with
    | some error => .next (world.goto t (.returned (some error)))
    | none => .next (world.goto t (.inside call (i + 1) .loop))

inductive Action where
  | call (t : Nat) (rw : UioRw) (offset : Int) (resid : Nat)
  | advance (t : Nat) (moved : Option Errno)
  | finish (verdict : Verdict)
  | interrupt

def step (world : World) : Action → Option World
  | .call t rw offset resid =>
    match world.threads[t]? with
    | some .outside | some (.returned _) => some (world.goto t (lhdIo world.dBlocks rw offset resid))
    | _ => none
  | .advance t moved =>
    match world.threads[t]? with
    | some (.inside call i point) => (execute world t call i moved point).toOption
    | _ => none
  | .finish verdict => (world.card.finish verdict).map fun card => { world with card := card }
  | .interrupt => some { world with card := lhdIrq world.card }

end Os161.LhdDriver
