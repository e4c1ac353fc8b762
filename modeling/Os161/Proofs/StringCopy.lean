import Os161.Proofs.ExecAtomic
import Os161.Proofs.ProgramSpace

/-! The strings of the argument vector on their way to the new stack: each is read in the new address space and
copied below the one before. -/

namespace Os161.Vm
open Routine List

structure Machine.UserString (m : Machine) (vaddr : Nat) (text : List UInt8) : Prop where
  bytes : ∀ k, k < text.length → m.userByte (vaddr + k) = text[k]?
  clean : 0 ∉ text
  mark : m.userByte (vaddr + text.length) = some 0

structure Machine.ArgVector (m : Machine) (args : Nat) (strings : List (List UInt8)) : Prop where
  string : ∀ (i : Nat) text, strings[i]? = some text →
    ∃ pointer, wordAt m.userByte (args + 4 * i) = some pointer ∧ pointer ≠ 0 ∧ m.UserString pointer text
  mark : wordAt m.userByte (args + 4 * strings.length) = some 0

def stringByte (string : Nat) (m : Machine) (k : Nat) : UInt8 := (m.kernelByte (string + k)).getD 0

def Machine.lay (m : Machine) (string len place : Nat) : Machine :=
  copyUp (stringByte string) (place - (len + 1)) 0 (len + 1) m

section Bytes

variable {m m' : Machine} {vaddr : Nat} {text : List UInt8}

theorem mapped_of_userByte {byte} (found : m.userByte vaddr = some byte) :
    vaddr < userTop ∧ m.as.Mapped vaddr := by
  rw [Machine.userByte] at found
  split at found
  next user =>
    obtain ⟨paddr, here, _⟩ := Option.map_eq_some_iff.mp found
    exact ⟨user, paddr, here⟩
  next => cases found

theorem Machine.UserString.congr (string : m.UserString vaddr text) (same : ∀ k, vaddr ≤ k → m'.userByte k = m.userByte k) :
    m'.UserString vaddr text := by
  refine ⟨fun k inside => ?_, string.clean, ?_⟩
  · rw [same _ (by omega)]
    exact string.bytes k inside
  · rw [same _ (by omega)]
    exact string.mark

theorem Machine.UserString.mapped (string : m.UserString vaddr text) {k} (inside : k ≤ text.length) :
    m.as.Mapped (vaddr + k) := by
  by_cases last : k = text.length
  · exact (mapped_of_userByte (last ▸ string.mark)).2
  · have byte := string.bytes k (by omega)
    rw [List.getElem?_eq_getElem (show k < text.length by omega)] at byte
    exact (mapped_of_userByte byte).2

theorem Machine.UserString.user (string : m.UserString vaddr text) : vaddr < userTop := by
  cases text with
  | nil => exact (mapped_of_userByte string.mark).1
  | cons byte rest => exact (mapped_of_userByte (string.bytes 0 (Nat.zero_lt_succ _))).1

end Bytes

section Strlen

variable {m : Machine} {string len : Nat}

theorem strlen_readable (found : m.strlen string = some len) {k} (inside : k ≤ len) : m.Readable (string + k) := by
  obtain ⟨ends, _⟩ := Scan.scan_eq_some.mp found
  by_cases last : k = len
  · obtain ⟨byte, here, _⟩ := ends.mark
    exact last ▸ readable_of_byte here
  · obtain ⟨byte, here, _⟩ := ends.body k (Nat.zero_le k) (by omega)
    exact readable_of_byte here

theorem strlen_short (program : Program m.as) (found : m.strlen string = some len) : len + 1 ≤ 0x80000000 :=
  stretch_short program fun _ inside => strlen_readable found (by omega)

theorem strlen_loads (program : Program m.as) (found : m.strlen string = some len) :
    Loads (fun k => loadByte (string + k)) (stringByte string) m (len + 1) := by
  intro k inside m' same
  obtain ⟨paddr, here⟩ := strlen_readable found (show k ≤ len by omega)
  have byte : m'.kernelByte (string + k) = some (m'.ram paddr) := by
    rw [Machine.kernelByte, same.kernelPaddr, here]
    rfl
  have ready : Direct (string + k) ∨ m'.as.Ready := .inr (same.as ▸ program.ready)
  change loadByte (string + k) m' = _
  rw [loadByte, bind_ok rfl, bind_ok (require_pos ready)]
  simp only [stringByte, byte]
  rfl

/-- The bytes before the mark are copied as no marks, also where the copy overwrites its source. -/
theorem copyUp_text {dest k left} (text : ∀ j, j < len → ∃ byte, m.kernelByte (string + j) = some byte ∧ byte ≠ 0)
    (bound : k + left ≤ len) (separate : m.as.Separate) (user : dest + (k + left) ≤ userTop)
    (mapped : ∀ j, k ≤ j → j < k + left → m.as.Mapped (dest + j)) {j} (low : k ≤ j) (high : j < k + left) :
    ∃ byte, (copyUp (stringByte string) dest k left m).userByte (dest + j) = some byte ∧ byte ≠ 0 := by
  induction left generalizing k m with
  | zero => omega
  | succ left ih =>
    obtain ⟨paddr, found⟩ := mapped k (Nat.le_refl k) (by omega)
    obtain ⟨byte, here, nonzero⟩ := text k (by omega)
    have value : stringByte string m k = byte := by rw [stringByte, here]; rfl
    have same := SameSpace.setByte m paddr byte
    have later (j : Nat) (low : k + 1 ≤ j) (high : j < k + 1 + left) : (m.setByte paddr byte).as.Mapped (dest + j) :=
      same.as ▸ mapped j (by omega) (by omega)
    rw [copyUp, found, Option.getD_some, value]
    by_cases first : j = k
    · subst first
      rw [copyUp_other (same.as ▸ separate) later (by omega)]
      exact ⟨byte, userByte_setByte_same found (by omega), nonzero⟩
    · refine ih ?_ (by omega) (same.as ▸ separate) (by omega) later (by omega) (by omega)
      intro t inside
      obtain ⟨old, there, clean⟩ := text t inside
      obtain ⟨place, address, stored⟩ := Option.map_eq_some_iff.mp there
      rw [Machine.kernelByte, same.kernelPaddr, address, Option.map_some]
      by_cases hit : place = paddr
      · exact ⟨byte, by simp [Machine.setByte, hit], nonzero⟩
      · exact ⟨old, by simp [Machine.setByte, hit, stored], clean⟩

end Strlen

theorem below_le {address size} (bound : address < word) (fits : size ≤ address) :
    below address size = address - size := by
  simp only [below, word] at *
  omega

theorem below_wraps {address size} (bound : size ≤ word) (long : address < size) :
    below address size = address + word - size := by
  simp only [below, word] at *
  omega

/-- What one round of the loop leaves, whether or not its `copyout` succeeds. -/
structure Copied (m : Machine) (string len place : Nat) (m' : Machine) : Prop where
  same : SameSpace m m'
  other : ∀ vaddr, place ≤ vaddr → m'.userByte vaddr = m.userByte vaddr
  whole : m.as.Writable (place - (len + 1)) (len + 1) → m' = m.lay string len place
  broken : ¬ m.as.Writable (place - (len + 1)) (len + 1) → ∀ text, ¬ m'.UserString (place - (len + 1)) text

section Rounds

variable {m : Machine} {string len place : Nat}

theorem lay_copied (program : Program m.as) (fits : len + 1 ≤ place)
    (writable : m.as.Writable (place - (len + 1)) (len + 1)) : Copied m string len place (m.lay string len place) := by
  refine ⟨copyUp_same _ _ _, fun vaddr above => ?_, fun _ => rfl, fun unwritable => absurd writable unwritable⟩
  exact copyUp_other program.separate (fun j _ high => writable.2 j (by omega)) (by omega)

theorem copyout_copied (program : Program m.as) (found : m.strlen string = some len) (fits : len + 1 ≤ place)
    (user : place ≤ userTop) : ∃ result m', Copied m string len place m' ∧
      attempt (copyout (fun k => loadByte (string + k)) (place - (len + 1)) (len + 1)) m = some (.ok result, m') := by
  have short := strlen_short program found
  have loads := strlen_loads program found
  have below : place - (len + 1) < word := by
    simp only [userTop, mipsKseg0, word] at user ⊢
    omega
  have size : len + 1 ≤ word := Nat.le_trans short (by decide)
  by_cases writable : m.as.Writable (place - (len + 1)) (len + 1)
  · exact ⟨_, _, lay_copied program fits writable,
      attempt_eq (copyout_done below (by omega) size loads program.ready writable)⟩
  · obtain ⟨stop, bound, mapped, unmapped, run⟩ :=
      copyout_stops below (by omega) size loads program.ready (by omega) writable
    refine ⟨_, _, ⟨copyUp_same 0 stop m, fun vaddr above => ?_, fun contrary => absurd contrary writable, ?_⟩, attempt_eq run⟩
    · exact copyUp_other program.separate (fun j _ high => mapped j (by omega)) (by omega)
    · -- the copy stopped inside the string, so that what was written has no end
      intro _ text copied
      obtain ⟨ends, _⟩ := Scan.scan_eq_some.mp found
      have early : text.length < stop := by
        by_contra late
        obtain ⟨paddr, here⟩ := copied.mapped (show stop ≤ text.length by omega)
        rw [(copyUp_same 0 stop m).as, unmapped] at here
        cases here
      obtain ⟨byte, here, nonzero⟩ := copyUp_text (fun j inside => ends.body j (Nat.zero_le j) inside)
        (show 0 + stop ≤ len by omega) program.separate (by omega) (fun j _ high => mapped j (by omega))
        (Nat.zero_le _) (show text.length < 0 + stop by omega)
      have mark := copied.mark
      rw [here] at mark
      cases mark
      exact nonzero rfl

theorem copyStrings_round {args i left} (pointer : m.kernelWord (args + 4 * i) = some string)
    (found : m.strlen string = some len) {result m'}
    (copied : attempt (copyout (fun k => loadByte (string + k)) (below place (len + 1)) (len + 1)) m = some (.ok result, m')) :
    copyStrings args i (left + 1) place m =
      (copyStrings args (i + 1) left (below place (len + 1)) >>= fun rest =>
        pure (below place (len + 1) :: rest.1, rest.2)) m' := by
  rw [copyStrings, bind_ok rfl, pointer]
  simp only
  rw [found]
  simp only
  rw [bind_ok copied]

end Rounds

def PointersFit (as : AddrSpace) (argc place : Nat) : Prop :=
  4 * (argc + 1) ≤ place ∧ as.Writable ((place - 4 * (argc + 1)) / 4 * 4) (4 * (argc + 1))

/-- The memory of the new program happens to hold the caller's strings: pointer `i` leads to a string which, copied
below the ones before it, is the one the caller passed, and all of it fits on mapped pages. -/
def Survive (args : Nat) : (i place : Nat) → Machine → List (List UInt8) → Prop
  | i, place, m, [] => PointersFit m.as i place
  | i, place, m, text :: rest => ∃ string len, m.kernelWord (args + 4 * i) = some string ∧ m.strlen string = some len ∧
    len + 1 ≤ place ∧ m.as.Writable (place - (len + 1)) (len + 1) ∧
    (m.lay string len place).UserString (place - (len + 1)) text ∧
    Survive args (i + 1) (place - (len + 1)) (m.lay string len place) rest

structure LaidOut (m m' : Machine) (place last : Nat) (pointers : List Nat) (strings : List (List UInt8)) : Prop where
  same : SameSpace m m'
  lower : last ≤ place
  other : ∀ vaddr, place ≤ vaddr → m'.userByte vaddr = m.userByte vaddr
  count : pointers.length = strings.length
  above : ∀ pointer ∈ pointers, last ≤ pointer
  string : ∀ (k : Nat) text, strings[k]? = some text → ∃ pointer, pointers[k]? = some pointer ∧ m'.UserString pointer text

theorem copyStrings_laidOut {args i place m strings} (program : Program m.as)
    (user : place ≤ userTop) (survive : Survive args i place m strings) :
    ∃ pointers last m', copyStrings args i strings.length place m = some (.ok (pointers, last), m') ∧
      LaidOut m m' place last pointers strings ∧ PointersFit m.as (i + strings.length) last := by
  induction strings generalizing i place m with
  | nil => exact ⟨[], place, m, rfl, ⟨.refl m, Nat.le_refl _, fun _ _ => rfl, rfl, nofun, nofun⟩, survive⟩
  | cons text rest ih =>
    obtain ⟨string, len, pointer, found, fits, writable, landed, later⟩ := survive
    have copied : Copied m string len place (m.lay string len place) := lay_copied program fits writable
    have down : below place (len + 1) = place - (len + 1) :=
      below_le (Nat.lt_of_le_of_lt user (by decide)) fits
    obtain ⟨result, m', copied', run⟩ := copyout_copied program found fits user
    rw [copied'.whole writable] at run
    obtain ⟨pointers, last, final, rounds, laid, fit⟩ := ih (copied.same.as ▸ program) (by omega) later
    rw [copied.same.as] at fit
    refine ⟨(place - (len + 1)) :: pointers, last, final, ?_, ?_, ?_⟩
    · rw [length_cons, copyStrings_round pointer found (by rw [down]; exact run), down, bind_ok rounds]
      rfl
    · refine ⟨copied.same.trans laid.same, by have := laid.lower; omega, fun vaddr above => ?_,
        by simp [laid.count], ?_, ?_⟩
      · rw [laid.other vaddr (by omega), copied.other vaddr above]
      · intro pointer member
        rcases mem_cons.mp member with rfl | inside
        · exact laid.lower
        · exact laid.above pointer inside
      · intro k wanted at_
        cases k with
        | zero =>
          cases at_
          exact ⟨_, rfl, landed.congr laid.other⟩
        | succ k => exact laid.string k wanted at_
    · rwa [length_cons, Nat.add_comm rest.length 1, ← Nat.add_assoc]

def KeepsSpace {α : Type} (routine : Routine Errno Machine α) : Prop :=
  ∀ m result m', routine m = some (result, m') → SameSpace m m'

instance : IsPreorder Machine SameSpace where
  refl := SameSpace.refl
  trans _ _ _ := SameSpace.trans

theorem KeepsSpace.bind {α β : Type} {first} {next : α → Routine Errno Machine β}
    (keeps : KeepsSpace first) (later : ∀ value, KeepsSpace (next value)) : KeepsSpace (first >>= next) :=
  Follows.bind keeps later

theorem storeByte_keepsSpace (vaddr : Nat) (byte : UInt8) : KeepsSpace (storeByte vaddr byte) := by
  apply follows_get_bind
  intro m
  apply (follows_require _).bind
  intro _
  split
  · next paddr _ => exact follows_modify fun m => .setByte m paddr byte
  · exact follows_fail _

theorem loadByte_keepsSpace (vaddr : Nat) : KeepsSpace (loadByte vaddr) := by
  apply follows_get_bind
  intro m
  apply (follows_require _).bind
  intro _
  split
  · exact follows_pure _
  · exact follows_fail _

theorem copyout_keepsSpace {source : Nat → Routine Errno Machine UInt8} (loads : ∀ k, KeepsSpace (source k)) (dest len : Nat) :
    KeepsSpace (copyout source dest len) := by
  have copies (left : Nat) : ∀ k, KeepsSpace (memcpy source dest k left) := by
    induction left with
    | zero => exact fun k => follows_pure ()
    | succ left ih =>
      intro k
      apply (loads k).bind
      intro byte
      apply (storeByte_keepsSpace _ byte).bind
      intro _
      exact ih (k + 1)
  rw [copyout]
  split
  · exact copies len 0
  · exact follows_fail _

theorem KeepsSpace.attempt {α : Type} {routine : Routine Errno Machine α} (keeps : KeepsSpace routine) :
    KeepsSpace (attempt routine) := Follows.attempt keeps

section Backwards

variable {args i left place last : Nat} {m final : Machine} {pointers : List Nat}

theorem copyStrings_begins (run : copyStrings args i (left + 1) place m = some (.ok (pointers, last), final)) :
    ∃ string len result middle rest, m.kernelWord (args + 4 * i) = some string ∧ m.strlen string = some len ∧
      attempt (copyout (fun k => loadByte (string + k)) (below place (len + 1)) (len + 1)) m = some (.ok result, middle) ∧
      pointers = below place (len + 1) :: rest ∧
      copyStrings args (i + 1) left (below place (len + 1)) middle = some (.ok (rest, last), final) := by
  cases pointer : m.kernelWord (args + 4 * i) with
  | none =>
    rw [copyStrings, bind_ok rfl, pointer] at run
    cases run
  | some string =>
    cases found : m.strlen string with
    | none =>
      rw [copyStrings, bind_ok rfl, pointer] at run
      simp only at run
      rw [found] at run
      cases run
    | some len =>
      cases outcome : attempt (copyout (fun k => loadByte (string + k)) (below place (len + 1)) (len + 1)) m with
      | none =>
        rw [copyStrings, bind_ok rfl, pointer] at run
        simp only at run
        rw [found] at run
        simp only at run
        rw [bind_halts outcome] at run
        cases run
      | some pair =>
        obtain ⟨answer, middle⟩ := pair
        cases answer with
        | error code => exact absurd outcome (neverFails_attempt _ m code middle)
        | ok result =>
          rw [copyStrings_round pointer found outcome] at run
          cases later : copyStrings args (i + 1) left (below place (len + 1)) middle with
          | none =>
            rw [bind_halts later] at run
            cases run
          | some pair =>
            obtain ⟨answer, after⟩ := pair
            cases answer with
            | error code => exact absurd later (copyStrings_neverFails _ _ _ _ middle code after)
            | ok rest =>
              rw [bind_ok later] at run
              cases run
              exact ⟨string, len, result, middle, rest.1, rfl, found, outcome, rfl, later⟩

theorem copyStrings_any (run : copyStrings args i left place m = some (.ok (pointers, last), final)) :
    SameSpace m final ∧ pointers.length = left ∧ ∀ pointer ∈ pointers, pointer < word := by
  induction left generalizing i place m pointers with
  | zero =>
    cases run
    exact ⟨.refl _, rfl, nofun⟩
  | succ left ih =>
    obtain ⟨string, len, result, middle, rest, _, _, copied, rfl, later⟩ := copyStrings_begins run
    obtain ⟨same, count, small⟩ := ih later
    have first := (copyout_keepsSpace (fun k => loadByte_keepsSpace (string + k)) _ _).attempt m _ _ copied
    refine ⟨first.trans same, by rw [length_cons, count], fun pointer member => ?_⟩
    rcases mem_cons.mp member with rfl | inside
    · exact Nat.mod_lt _ (by decide)
    · exact small pointer inside

variable (program : Program m.as) (user : place ≤ userTop)
include program user

/-- While the places stay in user memory, the loop goes down without a jump. -/
theorem copyStrings_descends (run : copyStrings args i (left + 1) place m = some (.ok (pointers, last), final))
    (low : ∀ pointer ∈ pointers, pointer < userTop) :
    ∃ string len middle rest, m.kernelWord (args + 4 * i) = some string ∧ m.strlen string = some len ∧
      len + 1 ≤ place ∧ Copied m string len place middle ∧ pointers = (place - (len + 1)) :: rest ∧
      copyStrings args (i + 1) left (place - (len + 1)) middle = some (.ok (rest, last), final) := by
  obtain ⟨string, len, result, middle, rest, pointer, found, copied, split, later⟩ := copyStrings_begins run
  have short := strlen_short program found
  have fits : len + 1 ≤ place := by
    by_contra long
    have first := low (below place (len + 1)) (by rw [split]; exact mem_cons_self)
    rw [below_wraps (Nat.le_trans short (by decide)) (by omega)] at first
    simp only [userTop, mipsKseg0, word] at first
    omega
  have down : below place (len + 1) = place - (len + 1) :=
    below_le (Nat.lt_of_le_of_lt user (by decide)) fits
  rw [down] at copied split later
  obtain ⟨result', middle', effect, same⟩ := copyout_copied program found fits user
  rw [same] at copied
  cases copied
  exact ⟨string, len, middle, rest, pointer, found, fits, effect, split, later⟩

theorem copyStrings_frame (run : copyStrings args i left place m = some (.ok (pointers, last), final))
    (low : ∀ pointer ∈ pointers, pointer < userTop) :
    SameSpace m final ∧ last ≤ place ∧ (∀ vaddr, place ≤ vaddr → final.userByte vaddr = m.userByte vaddr) ∧
      ∀ pointer ∈ pointers, last ≤ pointer := by
  induction left generalizing i place m pointers with
  | zero =>
    cases run
    exact ⟨.refl _, Nat.le_refl _, fun _ _ => rfl, nofun⟩
  | succ left ih =>
    obtain ⟨string, len, middle, rest, _, _, fits, copied, rfl, later⟩ := copyStrings_descends program user run low
    obtain ⟨same, lower, other, above⟩ := ih (copied.same.as ▸ program) (by omega) later
      fun pointer member => low pointer (mem_cons_of_mem _ member)
    refine ⟨copied.same.trans same, by omega, fun vaddr high => ?_, fun pointer member => ?_⟩
    · rw [other vaddr (by omega), copied.other vaddr high]
    · rcases mem_cons.mp member with rfl | inside
      · exact lower
      · exact above pointer inside

/-- If the strings arrive, they were there. -/
theorem survive_of_copyStrings {strings}
    (run : copyStrings args i strings.length place m = some (.ok (pointers, last), final))
    (low : ∀ pointer ∈ pointers, pointer < userTop)
    (arrived : ∀ (k : Nat) text pointer, strings[k]? = some text → pointers[k]? = some pointer →
      final.UserString pointer text)
    (fit : PointersFit m.as (i + strings.length) last) : Survive args i place m strings := by
  induction strings generalizing i place m pointers with
  | nil =>
    cases run
    exact fit
  | cons text rest ih =>
    obtain ⟨string, len, middle, others, pointer, found, fits, copied, rfl, later⟩ :=
      copyStrings_descends program user run low
    have tail (pointer : Nat) (member : pointer ∈ others) : pointer < userTop :=
      low pointer (mem_cons_of_mem _ member)
    have program' : Program middle.as := copied.same.as ▸ program
    obtain ⟨_, _, other, _⟩ := copyStrings_frame program' (by omega) later tail
    have landed : middle.UserString (place - (len + 1)) text :=
      (arrived 0 text _ rfl rfl).congr fun vaddr high => (other vaddr high).symm
    have writable : m.as.Writable (place - (len + 1)) (len + 1) := by
      by_contra unwritable
      exact copied.broken unwritable text landed
    have whole := copied.whole writable
    subst whole
    refine ⟨string, len, pointer, found, fits, writable, landed, ?_⟩
    apply ih program' (by omega) later tail
    · intro k wanted place' at_ there
      exact arrived (k + 1) wanted place' at_ there
    · rw [copied.same.as]
      rwa [length_cons, Nat.add_comm rest.length 1, ← Nat.add_assoc] at fit

end Backwards

end Os161.Vm
