import Os161.LoadElf
import Os161.Proofs.UserMemory

/-! The second pass of the loader. A program header is loaded, or ends the pass with an error or at an assertion of
`vm_fault`, when a region has no address. -/

namespace Os161.Vm
open Routine List

def AddrSpace.Takes (as : AddrSpace) (vaddr len : Nat) : Prop := len = 0 ∨ as.Ready ∧ as.Writable vaddr len

/-- The first access fails an assertion of `vm_fault`. -/
def AddrSpace.Trips (as : AddrSpace) (vaddr : Nat) (pieces : List (List UInt8)) : Prop :=
  ¬ as.Ready ∧ ∃ bytes, pieces.find? (· ≠ []) = some bytes ∧ vaddr + bytes.length ≤ userTop

def FailsIn (routine : Routine Errno Machine Unit) (m : Machine) : Prop :=
  ∃ code m', SameSpace m m' ∧ routine m = some (.error code, m')

def DoneIn (routine : Routine Errno Machine Unit) (m : Machine) : Prop :=
  ∃ m', SameSpace m m' ∧ routine m = some (.ok (), m')

theorem FailsIn.bind {first next m}
    (fails : FailsIn first m) : FailsIn (first >>= next) m := by
  obtain ⟨code, m', same, run⟩ := fails
  exact ⟨code, m', same, bind_error run⟩

section Outcome

/-- How a routine ends, decided by two conditions on the state. -/
structure Outcome (routine : Routine Errno Machine Unit) (m : Machine) (done trips : Prop) : Prop where
  finishes : done → DoneIn routine m
  halts : trips → routine m = none
  fails : ¬ done → ¬ trips → FailsIn routine m

variable {first : Routine Errno Machine Unit} {next : Unit → Routine Errno Machine Unit} {m : Machine}
  {done trips laterDone laterTrips : Prop}

theorem Outcome.congr {otherDone otherTrips : Prop} (outcome : Outcome first m done trips)
    (same : otherDone ↔ done) (alike : otherTrips ↔ trips) : Outcome first m otherDone otherTrips := by
  rw [propext same, propext alike]
  exact outcome

theorem Outcome.of_eq {other} (outcome : Outcome other m done trips) (run : first m = other m) :
    Outcome first m done trips := by
  refine ⟨fun holds => ?_, fun trip => run.trans (outcome.halts trip), fun undone untripped => ?_⟩
  · obtain ⟨m', same, finished⟩ := outcome.finishes holds
    exact ⟨m', same, run.trans finished⟩
  · obtain ⟨code, m', same, failed⟩ := outcome.fails undone untripped
    exact ⟨code, m', same, run.trans failed⟩

theorem Outcome.bind (outcome : Outcome first m done trips)
    (later : ∀ m', SameSpace m m' → done → Outcome (next ()) m' laterDone laterTrips) :
    Outcome (first >>= next) m (done ∧ laterDone) (trips ∨ done ∧ laterTrips) := by
  refine ⟨fun ⟨holds, rest⟩ => ?_, fun stops => ?_, fun undone untripped => ?_⟩
  · obtain ⟨m', same, run⟩ := outcome.finishes holds
    obtain ⟨final, further, finished⟩ := (later m' same holds).finishes rest
    exact ⟨final, same.trans further, by rw [bind_ok run]; exact finished⟩
  · rcases stops with trip | ⟨holds, rest⟩
    · exact bind_halts (outcome.halts trip)
    · obtain ⟨m', same, run⟩ := outcome.finishes holds
      rw [bind_ok run]
      exact (later m' same holds).halts rest
  · by_cases holds : done
    · obtain ⟨m', same, run⟩ := outcome.finishes holds
      obtain ⟨code, final, further, failed⟩ := (later m' same holds).fails
        (fun rest => undone ⟨holds, rest⟩) (fun rest => untripped (.inr ⟨holds, rest⟩))
      exact ⟨code, final, same.trans further, by rw [bind_ok run]; exact failed⟩
    · exact (outcome.fails holds fun trip => untripped (.inl trip)).bind

theorem Outcome.skip (m : Machine) : Outcome (pure ()) m True False :=
  ⟨fun _ => ⟨m, .refl m, rfl⟩, False.elim, fun undone _ => absurd trivial undone⟩

theorem Outcome.error (code : Errno) (m : Machine) : Outcome (fail code) m False False :=
  ⟨False.elim, False.elim, fun _ _ => ⟨code, m, .refl m, rfl⟩⟩

end Outcome

theorem fromBuffer_loads (bytes : List UInt8) (m : Machine) (len : Nat) :
    Loads (fromBuffer bytes) (fun _ k => bytes.getD k 0) m len := fun _ _ _ _ => rfl

theorem moveOut_outcome {bytes vaddr m} (address : vaddr < word)
    (size : bytes.length ≤ word) :
    Outcome (moveOut bytes vaddr) m (m.as.Takes vaddr bytes.length) (m.as.Trips vaddr [bytes]) := by
  by_cases empty : bytes = []
  · subst empty
    refine (Outcome.skip m).congr (by simp [AddrSpace.Takes]) (by simp [AddrSpace.Trips])
  have nonempty : 0 < bytes.length := length_pos_iff.mpr empty
  have found : [bytes].find? (· ≠ []) = some bytes := by simp [empty]
  have loads := fromBuffer_loads bytes m bytes.length
  have run : moveOut bytes vaddr = copyout (fromBuffer bytes) vaddr bytes.length := by
    rw [moveOut, if_neg (by omega)]
  rw [run]
  refine ⟨fun takes => ?_, fun ⟨unready, other, same, user⟩ => ?_, fun refused untripped => ?_⟩
  · rcases takes with none | ⟨ready, writable⟩
    · omega
    · exact ⟨_, copyUp_same 0 _ m, copyout_done address nonempty size loads ready writable⟩
  · rw [found] at same
    cases same
    exact copyout_halts address nonempty size loads unready user
  · by_cases user : vaddr + bytes.length ≤ userTop
    · have ready : m.as.Ready := by
        by_contra unready
        exact untripped ⟨unready, bytes, found, user⟩
      obtain ⟨stop, _, _, _, stopped⟩ := copyout_stops address nonempty size loads ready user
        fun writable => refused (.inr ⟨ready, writable⟩)
      exact ⟨.efault, _, copyUp_same 0 stop m, stopped⟩
    · exact ⟨.efault, m, .refl m, copyout_rejected address nonempty size user⟩

theorem AddrSpace.Takes.append {as : AddrSpace} {vaddr first second} (address : vaddr < word) :
    as.Takes vaddr first ∧ as.Takes ((vaddr + first) % word) second ↔ as.Takes vaddr (first + second) := by
  by_cases none : first = 0
  · subst none
    simp [Takes, Nat.mod_eq_of_lt address]
  have inside (user : vaddr + first ≤ userTop) : (vaddr + first) % word = vaddr + first :=
    Nat.mod_eq_of_lt (Nat.lt_of_le_of_lt user (by decide))
  constructor
  · intro ⟨one, two⟩
    obtain ⟨ready, user, mapped⟩ := one.resolve_left none
    rw [inside user] at two
    rcases two with empty | ⟨_, bound, later⟩
    · subst empty
      exact .inr ⟨ready, user, mapped⟩
    · refine .inr ⟨ready, by omega, fun k less => ?_⟩
      by_cases early : k < first
      · exact mapped k early
      · have here := later (k - first) (by omega)
        rwa [show vaddr + first + (k - first) = vaddr + k by omega] at here
  · intro whole
    obtain ⟨ready, user, mapped⟩ := whole.resolve_left (by omega)
    refine ⟨.inr ⟨ready, by omega, fun k less => mapped k (by omega)⟩, ?_⟩
    rw [inside (by omega)]
    refine .inr ⟨ready, by omega, fun k less => ?_⟩
    have here := mapped (first + k) (by omega)
    rwa [← Nat.add_assoc] at here

theorem AddrSpace.trips_cons {as : AddrSpace} {vaddr bytes rest}
    (address : vaddr < word) :
    as.Trips vaddr (bytes :: rest) ↔
      as.Trips vaddr [bytes] ∨ as.Takes vaddr bytes.length ∧ as.Trips ((vaddr + bytes.length) % word) rest := by
  by_cases empty : bytes = []
  · subst empty
    simp [Trips, Takes, Nat.mod_eq_of_lt address]
  · have nonempty : bytes.length ≠ 0 := fun none => empty (length_eq_zero_iff.mp none)
    have distinct : ¬ (as.Takes vaddr bytes.length ∧ as.Trips ((vaddr + bytes.length) % word) rest) :=
      fun ⟨takes, trips⟩ => trips.1 (takes.resolve_left nonempty).1
    simp [Trips, empty, nonempty, Takes] at distinct ⊢
    tauto

theorem moveAll_outcome {pieces : List (List UInt8)} {vaddr m} (address : vaddr < word)
    (size : pieces.flatten.length ≤ word) :
    Outcome (moveAll pieces vaddr) m (m.as.Takes vaddr pieces.flatten.length) (m.as.Trips vaddr pieces) := by
  induction pieces generalizing vaddr m with
  | nil => exact (Outcome.skip m).congr (by simp [AddrSpace.Takes]) (by simp [AddrSpace.Trips])
  | cons bytes rest ih =>
    simp only [flatten_cons, length_append] at size ⊢
    apply ((moveOut_outcome address (by omega)).bind _).congr
    · rw [← AddrSpace.Takes.append address]
    · exact AddrSpace.trips_cons address
    · intro m' same _
      rw [← same.as]
      exact ih (Nat.mod_lt _ (by decide)) (by omega)

theorem zeroPieces_length (n : Nat) : (zeroPieces n).flatten.length = n := by
  simp only [zeroPieces, flatten_append, length_append, flatten_replicate_replicate, length_replicate,
    flatten_singleton]
  omega

/-- The file system fills the part of a segment that is in the file. -/
def File.Delivers (file : File) (i : Nat) (ph : ElfPhdr) : Prop :=
  (file.segment i ph).2 = none ∧
  (file.segment i ph).1.flatten.length = ph.filesize

def SegmentDone (as : AddrSpace) (file : File) (i : Nat) (ph : ElfPhdr) : Prop :=
  file.Delivers i ph ∧ as.Takes ph.vaddr ph.memsz

def SegmentTrips (as : AddrSpace) (file : File) (i : Nat) (ph : ElfPhdr) : Prop :=
  as.Trips ph.vaddr (file.segment i ph).1 ∨
  file.Delivers i ph ∧ ph.filesize = 0 ∧ as.Trips ph.vaddr (zeroPieces ph.memsz)

theorem loadSegment_outcome {file : File} {i ph m} (address : ph.vaddr < word)
    (size : ph.memsz < word) :
    Outcome (loadSegment file i ph) m (SegmentDone m.as file i ph) (SegmentTrips m.as file i ph) := by
  have bounded : (file.segment i ph).1.flatten.length ≤ ph.filesize := file.bounded _ _ _
  have cut : ph.filesize ≤ ph.memsz := Nat.min_le_right _ _
  rw [loadSegment]
  simp only [SegmentDone, SegmentTrips, File.Delivers]
  generalize file.segment i ph = answer at bounded ⊢
  obtain ⟨pieces, error⟩ := answer
  simp only at bounded ⊢
  have moved : Outcome (moveAll pieces ph.vaddr) m (m.as.Takes ph.vaddr pieces.flatten.length) (m.as.Trips ph.vaddr pieces) :=
    moveAll_outcome address (by omega)
  cases error with
  | some code =>
    apply (moved.bind fun m' _ _ => Outcome.error code m').congr
    · simp
    · simp
  | none =>
    by_cases short : pieces.flatten.length ≠ ph.filesize
    · simp only [if_pos short]
      apply (moved.bind fun m' _ _ => Outcome.error _ m').congr
      · simp only [eq_false short, and_false, false_and]
      · simp only [eq_false short, and_false, false_and]
    · simp only [if_neg short]
      have full := not_not.mp short
      have later (m' : Machine) (same : SameSpace m m') : Outcome
          (moveAll (zeroPieces (ph.memsz - ph.filesize)) ((ph.vaddr + ph.filesize) % word)) m'
          (m.as.Takes ((ph.vaddr + ph.filesize) % word) (ph.memsz - ph.filesize))
          (m.as.Trips ((ph.vaddr + ph.filesize) % word) (zeroPieces (ph.memsz - ph.filesize))) := by
        rw [← same.as]
        have filled := @moveAll_outcome (zeroPieces (ph.memsz - ph.filesize)) ((ph.vaddr + ph.filesize) % word) m'
          (Nat.mod_lt _ (by decide)) (by rw [zeroPieces_length]; omega)
        rwa [zeroPieces_length] at filled
      rw [full] at moved
      apply (moved.bind fun m' same _ => later m' same).congr
      · rw [AddrSpace.Takes.append address, Nat.add_sub_cancel' cut]
        simp [full]
      · simp only [full, true_and]
        apply or_congr_right
        constructor
        · intro ⟨empty, trips⟩
          rw [empty, Nat.add_zero, Nat.mod_eq_of_lt address, Nat.sub_zero]
          exact ⟨.inl rfl, trips⟩
        · intro ⟨takes, trips⟩
          have empty : ph.filesize = 0 := by
            rcases takes with none | ⟨ready, _⟩
            · exact none
            · exact absurd ready trips.1
          rw [empty, Nat.add_zero, Nat.mod_eq_of_lt address, Nat.sub_zero] at trips
          exact ⟨empty, trips⟩

theorem be32_lt (bytes : List UInt8) (start : Nat) : be32 bytes start < word := by
  have byte (value : UInt8) : value.toNat < 256 := value.toNat_lt
  have b0 := byte (bytes.getD start 0)
  have b1 := byte (bytes.getD (start + 1) 0)
  have b2 := byte (bytes.getD (start + 2) 0)
  have b3 := byte (bytes.getD (start + 2 + 1) 0)
  simp only [be32, be16, word]
  omega

theorem File.phdr_bounds {file : File} {call offset ph}
    (found : file.phdr call offset = .ok (some ph)) : ph.vaddr < word ∧ ph.memsz < word := by
  rw [phdr] at found
  cases read : file.readWhole call offset sizeofPhdr with
  | error code =>
    rw [read] at found
    cases found
  | ok bytes =>
    simp only [read, bind, Except.bind] at found
    split at found
    · cases found
    · cases found
    · cases found
      exact ⟨be32_lt bytes 8, be32_lt bytes 20⟩

def HeaderDone (as : AddrSpace) (file : File) (eh : ElfEhdr) (i : Nat) : Prop :=
  ∃ header, file.phdr (.load i) (eh.phdrOffset i) = .ok header ∧ ∀ ph, header = some ph → SegmentDone as file i ph

def HeaderTrips (as : AddrSpace) (file : File) (eh : ElfEhdr) (i : Nat) : Prop :=
  ∃ ph, file.phdr (.load i) (eh.phdrOffset i) = .ok (some ph) ∧ SegmentTrips as file i ph

def HeadersDone (as : AddrSpace) (file : File) (eh : ElfEhdr) (i last : Nat) : Prop :=
  ∀ j, i ≤ j → j < last → HeaderDone as file eh j

/-- The first header that is not loaded fails an assertion of `vm_fault`. -/
def HeadersTrip (as : AddrSpace) (file : File) (eh : ElfEhdr) (i last : Nat) : Prop :=
  ∃ j, i ≤ j ∧ j < last ∧ HeadersDone as file eh i j ∧ HeaderTrips as file eh j

section Headers

variable {as : AddrSpace} {file : File} {eh : ElfEhdr} {i last : Nat}

theorem headersDone_cons (order : i < last) :
    HeadersDone as file eh i last ↔ HeaderDone as file eh i ∧ HeadersDone as file eh (i + 1) last := by
  constructor
  · intro all
    exact ⟨all i (Nat.le_refl i) order, fun j low high => all j (by omega) high⟩
  · intro ⟨first, rest⟩ j low high
    by_cases same : j = i
    · exact same ▸ first
    · exact rest j (by omega) high

theorem headersTrip_cons (order : i < last) :
    HeadersTrip as file eh i last ↔
      HeaderTrips as file eh i ∨ HeaderDone as file eh i ∧ HeadersTrip as file eh (i + 1) last := by
  constructor
  · intro ⟨j, low, high, before, trips⟩
    by_cases same : j = i
    · exact .inl (same ▸ trips)
    · obtain ⟨first, rest⟩ := (headersDone_cons (by omega)).mp before
      exact .inr ⟨first, j, by omega, high, rest, trips⟩
  · intro cases
    rcases cases with trips | ⟨first, j, low, high, before, trips⟩
    · exact ⟨i, Nat.le_refl i, order, fun j low high => absurd high (by omega), trips⟩
    · exact ⟨j, by omega, high, (headersDone_cons (by omega)).mpr ⟨first, before⟩, trips⟩

end Headers

theorem loadSegments_outcome {file : File} {eh i left m} :
    Outcome (loadSegments file eh i left) m (HeadersDone m.as file eh i (i + left))
      (HeadersTrip m.as file eh i (i + left)) := by
  induction left generalizing i m with
  | zero =>
    refine (Outcome.skip m).congr ⟨fun _ => trivial, fun _ j low high => absurd high (by omega)⟩ ⟨?_, False.elim⟩
    intro ⟨j, low, high, _⟩
    omega
  | succ left ih =>
    have rest (m' : Machine) (same : SameSpace m m') : Outcome (loadSegments file eh (i + 1) left) m'
        (HeadersDone m.as file eh (i + 1) (i + (left + 1))) (HeadersTrip m.as file eh (i + 1) (i + (left + 1))) := by
      have continued := @ih (i + 1) m'
      rwa [same.as, Nat.add_assoc, Nat.add_comm 1 left] at continued
    have done : HeadersDone m.as file eh i (i + (left + 1)) ↔ _ := headersDone_cons (by omega)
    have trip : HeadersTrip m.as file eh i (i + (left + 1)) ↔ _ := headersTrip_cons (by omega)
    simp only [HeaderDone, HeaderTrips] at done trip
    cases found : file.phdr (.load i) (eh.phdrOffset i) with
    | error code =>
      have run : loadSegments file eh i (left + 1) m = fail code m := by
        rw [loadSegments, found]
        rfl
      rw [found] at done trip
      apply ((Outcome.error code m).of_eq run).congr
      · simpa using done
      · simpa using trip
    | ok header =>
      rw [found] at done trip
      cases header with
      | none =>
        have run : loadSegments file eh i (left + 1) m = loadSegments file eh (i + 1) left m := by
          rw [loadSegments, found]
          rfl
        apply ((rest m (.refl m)).of_eq run).congr
        · simpa using done
        · simpa using trip
      | some ph =>
        obtain ⟨address, size⟩ := File.phdr_bounds found
        have run : loadSegments file eh i (left + 1) m =
            (loadSegment file i ph >>= fun _ => loadSegments file eh (i + 1) left) m := by
          rw [loadSegments, found]
          rfl
        apply (((loadSegment_outcome address size).bind fun m' same _ => rest m' same).of_eq run).congr
        · simpa using done
        · simpa using trip

end Os161.Vm
