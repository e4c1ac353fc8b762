import Os161.Proofs.StringCopy

/-! When `execv` passes the caller's arguments: the vector is read in the new address space, so that it arrives only
if the new program holds it already. -/

namespace Os161.Vm
open Routine List

section Words

theorem pointerBytes_getD (words : List Nat) (k t : Nat) (inside : t < 4) :
    (words.flatMap wordBytes).getD (4 * k + t) 0 = (wordBytes (words.getD k 0)).getD t 0 := by
  induction words generalizing k with
  | nil =>
    have zeros : wordBytes 0 = [0, 0, 0, 0] := by decide
    simp only [flatMap_nil, getD_nil, zeros]
    match t, inside with
    | 0, _ | 1, _ | 2, _ | 3, _ => rfl
  | cons word rest ih =>
    have four : (wordBytes word).length = 4 := rfl
    cases k with
    | zero => simp [flatMap_cons, List.getElem?_append_left, four, inside]
    | succ k =>
      have later := ih k
      simp only [flatMap_cons, getD_eq_getElem?_getD] at later ⊢
      rw [List.getElem?_append_right (by omega), four, show 4 * (k + 1) + t - 4 = 4 * k + t by omega]
      exact later

theorem wordAt_of_bytes {byte vaddr value} (small : value < word)
    (bytes : ∀ t, t < 4 → byte (vaddr + t) = some ((wordBytes value).getD t 0)) : wordAt byte vaddr = some value := by
  have b0 := bytes 0 (by omega)
  have b1 := bytes 1 (by omega)
  have b2 := bytes 2 (by omega)
  have b3 := bytes 3 (by omega)
  rw [Nat.add_zero] at b0
  simp only [wordAt, b0, b1, b2, b3, wordBytes, word] at small ⊢
  simp
  omega

theorem bytes_of_wordAt {byte vaddr value} (found : wordAt byte vaddr = some value) :
    ∀ t, t < 4 → ∃ b, byte (vaddr + t) = some b := by
  simp only [wordAt, Option.bind_eq_bind, Option.bind_eq_some_iff] at found
  obtain ⟨b0, h0, b1, h1, b2, h2, b3, h3, _⟩ := found
  intro t inside
  match t, inside with
  | 0, _ => exact ⟨b0, h0⟩
  | 1, _ => exact ⟨b1, h1⟩
  | 2, _ => exact ⟨b2, h2⟩
  | 3, _ => exact ⟨b3, h3⟩

end Words

section Array

variable {m : Machine} {address : Nat} {pointers : List Nat}

def Machine.putArray (m : Machine) (address : Nat) (pointers : List Nat) : Machine :=
  copyUp (fun _ k => (pointerBytes pointers).getD k 0) address 0 (4 * (pointers.length + 1)) m

variable (program : Program m.as) (writable : m.as.Writable address (4 * (pointers.length + 1)))
include program writable

theorem copyout_array : copyout (fromBuffer (pointerBytes pointers)) address (4 * (pointers.length + 1)) m =
      some (.ok (), m.putArray address pointers) := by
  have user := writable.1
  simp only [userTop, mipsKseg0] at user
  exact copyout_done (by simp only [word]; omega) (by omega) (by simp only [word]; omega)
    (fromBuffer_loads _ m _) program.ready writable

theorem putArray_other {vaddr} (above : address + 4 * (pointers.length + 1) ≤ vaddr) :
    (m.putArray address pointers).userByte vaddr = m.userByte vaddr :=
  copyUp_other program.separate (fun j _ high => writable.2 j (by omega)) (by omega)

theorem putArray_word (small : ∀ pointer ∈ pointers, pointer < word) {k} (inside : k ≤ pointers.length) :
    wordAt (m.putArray address pointers).userByte (address + 4 * k) = some ((pointers ++ [0]).getD k 0) := by
  apply wordAt_of_bytes
  · by_cases last : k = pointers.length
    · rw [last]
      simp [word]
    · have bound : k < pointers.length := by omega
      rw [getD_eq_getElem?_getD, List.getElem?_append_left bound, List.getElem?_eq_getElem bound]
      exact small _ (getElem_mem bound)
  · intro t four
    rw [Nat.add_assoc, ← pointerBytes_getD _ _ _ four]
    exact copyUp_inside program.separate (fun j _ high => writable.2 j (by omega)) (by have := writable.1; omega)
      (Nat.zero_le _) (by omega)

end Array

theorem arrayAddress_fits {last space} (bound : last < word) (fits : space ≤ last) :
    arrayAddress last space = (last - space) / 4 * 4 := by
  rw [arrayAddress, below_le bound fits, below_le (by omega) (by omega)]
  omega

theorem fits_of_arrayAddress {last space} (user : arrayAddress last space + space ≤ userTop) : space ≤ last := by
  by_contra long
  have size : space ≤ word := Nat.le_trans (Nat.le_trans (Nat.le_add_left _ _) user) (by decide)
  simp only [arrayAddress, below_wraps size (by omega : last < space)] at user
  simp only [userTop, mipsKseg0, word] at user size
  rw [below_le (by simp only [word]; omega) (by omega)] at user
  omega

/-- The new program holds a vector of as many pointers at the caller's address, and the
strings arrive. -/
structure Handover (m : Machine) (args : Nat) (strings : List (List UInt8)) : Prop where
  count : Scan.Ends (fun i => m.kernelWord (args + 4 * i)) (· = 0) 0 strings.length
  survive : Survive args 0 userStack m strings

section Passing

variable {m : Machine} {args entry : Nat} {strings : List (List UInt8)}

theorem readable_of_word {vaddr value} (found : m.kernelWord vaddr = some value) : m.Readable vaddr := by
  rw [Machine.kernelWord] at found
  split at found
  · obtain ⟨byte, here⟩ := bytes_of_wordAt found 0 (by omega)
    exact readable_of_byte here
  · cases found

theorem argumentCount_eq_some {count} :
    argumentCount m args = some count ↔ Scan.Ends (fun i => m.kernelWord (args + 4 * i)) (· = 0) 0 count := by
  rw [argumentCount, Scan.scan_eq_some]
  refine ⟨fun ⟨ends, _⟩ => ends, fun ends => ⟨ends, ?_⟩⟩
  obtain ⟨value, here, _⟩ := ends.mark
  have bound := readable_lt (readable_of_word here)
  simp only [word] at bound ⊢
  omega

theorem passArguments_passes (program : Program m.as) (handover : Handover m args strings) :
    ∃ argv m', passArguments args userStack entry m = some (.ok ⟨strings.length, argv, entry⟩, m') ∧
      m'.ArgVector argv strings := by
  obtain ⟨pointers, last, middle, copied, laid, fit⟩ :=
    copyStrings_laidOut program (show userStack ≤ userTop from Nat.le_refl _) handover.survive
  have program' : Program middle.as := laid.same.as ▸ program
  rw [Nat.zero_add, ← laid.count] at fit
  have small (pointer : Nat) (member : pointer ∈ pointers) : pointer < word ∧ pointer ≠ 0 := by
    obtain ⟨k, inside, rfl⟩ := getElem_of_mem member
    have bound : k < strings.length := laid.count ▸ inside
    obtain ⟨pointer, there, string⟩ := laid.string k strings[k] (List.getElem?_eq_getElem bound)
    rw [List.getElem?_eq_getElem inside] at there
    cases there
    have mapped := string.mapped (Nat.zero_le _)
    refine ⟨translate_lt mapped, fun null => ?_⟩
    rw [null] at mapped
    exact program'.null_unmapped mapped
  have place : arrayAddress last (4 * (pointers.length + 1)) = (last - 4 * (pointers.length + 1)) / 4 * 4 :=
    arrayAddress_fits (Nat.lt_of_le_of_lt laid.lower (by decide)) fit.1
  have writable : middle.as.Writable (arrayAddress last (4 * (pointers.length + 1))) (4 * (pointers.length + 1)) := by
    rw [place, laid.same.as]
    exact fit.2
  have under : arrayAddress last (4 * (pointers.length + 1)) + 4 * (pointers.length + 1) ≤ last := by
    have := fit.1
    omega
  generalize defined : arrayAddress last (4 * (pointers.length + 1)) = address at writable under
  have small' (pointer : Nat) (member : pointer ∈ pointers) : pointer < word := (small pointer member).1
  refine ⟨address, middle.putArray address pointers, ?_, ?_, ?_⟩
  · have counted := argumentCount_eq_some.mpr handover.count
    rw [← laid.count] at counted copied ⊢
    rw [passArguments, bind_ok rfl, counted]
    simp only
    rw [bind_ok copied, defined, bind_ok (attempt_eq (copyout_array program' writable))]
    rfl
  · intro i text at_
    obtain ⟨pointer, there, string⟩ := laid.string i text at_
    obtain ⟨inside, rfl⟩ := List.getElem?_eq_some_iff.mp there
    have member := getElem_mem inside
    have word := putArray_word program' writable small' (Nat.le_of_lt inside)
    rw [getD_eq_getElem?_getD, List.getElem?_append_left inside, there] at word
    refine ⟨_, word, (small _ member).2, string.congr ?_⟩
    intro vaddr high
    have above := laid.above _ member
    exact putArray_other program' writable (by omega)
  · have word := putArray_word program' writable small' (Nat.le_refl _)
    rwa [getD_eq_getElem?_getD, List.getElem?_append_right (Nat.le_refl _), Nat.sub_self, laid.count] at word

theorem passArguments_begins {usermode final}
    (run : passArguments args userStack entry m = some (.ok usermode, final)) :
    ∃ pointers last middle result, argumentCount m args = some usermode.argc ∧
      copyStrings args 0 usermode.argc userStack m = some (.ok (pointers, last), middle) ∧
      usermode.argv = arrayAddress last (4 * (usermode.argc + 1)) ∧
      attempt (copyout (fromBuffer (pointerBytes pointers)) usermode.argv (4 * (usermode.argc + 1))) middle =
        some (.ok result, final) := by
  rw [passArguments, bind_ok rfl] at run
  cases counted : argumentCount m args with
  | none =>
    rw [counted] at run
    cases run
  | some argc =>
    rw [counted] at run
    simp only at run
    cases copied : copyStrings args 0 argc userStack m with
    | none =>
      rw [bind_halts copied] at run
      cases run
    | some pair =>
      obtain ⟨answer, middle⟩ := pair
      cases answer with
      | error code => exact absurd copied (copyStrings_neverFails _ _ _ _ m code middle)
      | ok value =>
        obtain ⟨pointers, last⟩ := value
        rw [bind_ok copied] at run
        cases stored : attempt (copyout (fromBuffer (pointerBytes pointers)) (arrayAddress last (4 * (argc + 1)))
            (4 * (argc + 1))) middle with
        | none =>
          rw [bind_halts stored] at run
          cases run
        | some pair =>
          obtain ⟨answer, after⟩ := pair
          cases answer with
          | error code => exact absurd stored (neverFails_attempt _ middle code after)
          | ok result =>
            rw [bind_ok stored] at run
            cases run
            exact ⟨pointers, last, middle, result, rfl, copied, rfl, stored⟩

theorem ready_of_count (user : args < userTop) {count} (counted : argumentCount m args = some count) : m.as.Ready := by
  have ends := argumentCount_eq_some.mp counted
  have first : m.Readable args := by
    by_cases none : count = 0
    · obtain ⟨value, here, _⟩ := ends.mark
      rw [none] at here
      exact readable_of_word here
    · obtain ⟨value, here, _⟩ := ends.body 0 (Nat.le_refl 0) (by omega)
      exact readable_of_word here
  rcases readable_cases first with ⟨direct, _⟩ | ⟨_, ready, _⟩
  · exact absurd user (Nat.not_lt.mpr direct.1)
  · exact ready

theorem Machine.ArgVector.writable {argv} (vector : m.ArgVector argv strings) :
    m.as.Writable argv (4 * (strings.length + 1)) := by
  have byte (j : Nat) (inside : j < 4 * (strings.length + 1)) : argv + j < userTop ∧ m.as.Mapped (argv + j) := by
    have word : ∃ value, wordAt m.userByte (argv + 4 * (j / 4)) = some value := by
      by_cases last : j / 4 = strings.length
      · exact ⟨0, last ▸ vector.mark⟩
      · obtain ⟨pointer, here, _⟩ := vector.string (j / 4) strings[j / 4] (List.getElem?_eq_getElem (by omega))
        exact ⟨pointer, here⟩
    obtain ⟨value, here⟩ := word
    obtain ⟨byte, found⟩ := bytes_of_wordAt here (j % 4) (by omega)
    rw [Nat.add_assoc, Nat.div_add_mod] at found
    exact mapped_of_userByte found
  refine ⟨?_, fun j inside => (byte j inside).2⟩
  have last := (byte (4 * (strings.length + 1) - 1) (by omega)).1
  omega

theorem handover_of_passes {cm table usermode final} (laid : cm.Laid)
    (frames : prepared cm table = some m.as) (user : args < userTop)
    (run : passArguments args userStack entry m = some (.ok usermode, final)) (argc : usermode.argc = strings.length)
    (vector : final.ArgVector usermode.argv strings) : Handover m args strings := by
  obtain ⟨pointers, last, middle, result, counted, copied, argv, stored⟩ := passArguments_begins run
  have program : Program m.as := program_of_prepared laid frames (ready_of_count user counted)
  rw [argc] at counted copied argv stored
  obtain ⟨same, count, small⟩ := copyStrings_any copied
  have kept := (copyout_keepsSpace (fun k => follows_pure _) _ _).attempt
    middle _ _ stored
  have program' : Program middle.as := same.as ▸ program
  have writable := vector.writable
  rw [kept.as, ← count] at writable
  rw [← count, attempt_eq (copyout_array program' writable)] at stored
  cases stored
  -- the array was written, so its words are the places of the strings
  have arrived (k : Nat) (text : List UInt8) (pointer : Nat) (at_ : strings[k]? = some text)
      (there : pointers[k]? = some pointer) :
      (middle.putArray usermode.argv pointers).UserString pointer text := by
    obtain ⟨found, here, _, string⟩ := vector.string k text at_
    obtain ⟨inside, _⟩ := List.getElem?_eq_some_iff.mp there
    have word := putArray_word program' writable small (Nat.le_of_lt inside)
    rw [getD_eq_getElem?_getD, List.getElem?_append_left inside, there, here] at word
    cases word
    exact string
  have low (pointer : Nat) (member : pointer ∈ pointers) : pointer < userTop := by
    obtain ⟨k, inside, rfl⟩ := getElem_of_mem member
    have bound : k < strings.length := count ▸ inside
    exact (arrived k _ _ (List.getElem?_eq_getElem bound) (List.getElem?_eq_getElem inside)).user
  obtain ⟨_, lower, _, above⟩ := copyStrings_frame program (Nat.le_refl _) copied low
  have fits : 4 * (strings.length + 1) ≤ last := by
    apply fits_of_arrayAddress
    rw [← argv, ← count]
    exact writable.1
  have place := arrayAddress_fits (Nat.lt_of_le_of_lt lower (by decide)) fits
  refine ⟨argumentCount_eq_some.mp counted, survive_of_copyStrings program (Nat.le_refl _) copied low ?_ ?_⟩
  · intro k text pointer at_ there
    apply (arrived k text pointer at_ there).congr
    intro vaddr high
    have under := above pointer (mem_of_getElem? there)
    exact (putArray_other program' writable (by rw [argv, place, count]; omega)).symm
  · rw [Nat.zero_add]
    refine ⟨fits, ?_⟩
    rw [← place, ← argv, ← same.as, ← count]
    exact writable

end Passing

/-- A call ends in an error or starts the new program with the caller's strings. -/
def PassesArguments (kernel : Kernel) (program args : Nat) (strings : List (List UInt8)) (m : Machine) : Prop :=
  match sysExecv kernel program args m with
  | none => False
  | some (.error _, _) => True
  | some (.ok usermode, m') => usermode.argc = strings.length ∧ m'.ArgVector usermode.argv strings

/-- The path can be read, and something fails or the program as loaded takes over the vector. -/
def HandsOver (kernel : Kernel) (program args : Nat) (strings : List (List UInt8)) (m : Machine) : Prop :=
  ∃ path, m.path program = some path ∧
    match kernel.vfsOpen path, kernel.heap with
    | .ok file, some cm => ¬ Loadable file cm ∨ ∃ entry loaded,
      loadElf file ((cutDevice program path m).switchAs cm) = some (.ok entry, loaded) ∧ Handover loaded args strings
    | _, _ => True

theorem asDefineStack_run {m cm table} (frames : prepared cm table = some m.as) :
    asDefineStack m = some (.ok userStack, m) := by
  have stack : m.as.stackpbase ≠ 0 := by
    simp only [prepared] at frames
    split at frames
    · cases frames
    next all =>
      simp only [not_or] at all
      simp only [Option.some.injEq] at frames
      rw [← frames]
      exact all.2.2
  rw [asDefineStack, bind_ok rfl, bind_ok (require_pos stack)]
  rfl

theorem passes_loaded_iff {m cm table args entry strings}
    (laid : cm.Laid) (frames : prepared cm table = some m.as) (user : args < userTop) :
    (∃ usermode m', passArguments args userStack entry m = some (.ok usermode, m') ∧
      usermode.argc = strings.length ∧ m'.ArgVector usermode.argv strings) ↔ Handover m args strings := by
  constructor
  · intro ⟨usermode, m', run, argc, vector⟩
    exact handover_of_passes laid frames user run argc vector
  · intro handover
    have program := program_of_prepared laid frames (ready_of_count user (argumentCount_eq_some.mpr handover.count))
    obtain ⟨argv, m', run, vector⟩ := @passArguments_passes m args entry strings program handover
    exact ⟨_, m', run, rfl, vector⟩

/-- A program of two segments of one byte each, which are filled with zeros. -/
def zeroProgram (call : ReadCall) : List UInt8 :=
  match call with
  | .ehdr => elfIdent ++ List.replicate 9 0 ++ [0, 2, 0, 8, 0, 0, 0, 1, 0, 0x40, 0, 0, 0, 0, 0, 52] ++
      List.replicate 8 0 ++ [0, 52, 0, 32, 0, 2] ++ List.replicate 6 0
  | .define i | .load i => [0, 0, 0, 1, 0, 0, 0, 0, 0, if i = 0 then 0x40 else 0x41, 0, 0] ++ List.replicate 8 0 ++
      [0, 0, 0, 1] ++ List.replicate 8 0
  | .segment _ => []

def zeroProgramFile : File where
  read := fun call _ resid => ([(zeroProgram call).take resid], none)
  bounded := by
    intro call _ resid
    simp

def startsZeroProgram : Kernel where
  vfsOpen := fun _ => .ok zeroProgramFile
  heap := some ⟨(List.range 26).map (freshEntry 0x20000), 0x20000⟩
  laid := by
    intro cm same
    cases same
    refine ⟨fun i entry found => ?_, by decide, by decide, by decide⟩
    rw [Frames.freshEntry_getElem? found]
    rfl

theorem caller_vector : caller.ArgVector 0x400010 [[0x61]] := by
  refine ⟨fun i text at_ => ?_, by decide +kernel⟩
  cases i with
  | zero =>
    cases at_
    refine ⟨0x400000, by decide +kernel, by decide, fun k inside => ?_, by decide, by decide +kernel⟩
    obtain rfl : k = 0 := by simpa using inside
    decide +kernel
  | succ i => cases at_

end Os161.Vm
