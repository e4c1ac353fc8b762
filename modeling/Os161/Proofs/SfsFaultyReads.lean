import Os161.Lib.Faults
import Os161.Proofs.DiskFaults
import Os161.Proofs.SfsTruncate

/-! Directory reads on a disk that may fail find what is there or return an error, and change nothing. -/

namespace Os161
open Routine

def Sfs.mended (s : Sfs) : Sfs := s.withOutcomes fun _ => true

/-- What the routine does on a volume that a caller only looks at. -/
def Looks (routine : Routine Errno Sfs α) : Prop :=
  routine.Weathers Sfs.mended Sfs.mended (fun _ => True) fun _ => True

section Looks

theorem looks_bind {first} {next : α → Routine Errno Sfs β} (front : Looks first)
    (rear : ∀ value, Looks (next value)) : Looks (first >>= next) := front.bind rear fun _ _ => trivial

theorem looks_get_bind {next : Sfs → Routine Errno Sfs α} (same : ∀ s, next s.mended = next s)
    (rear : ∀ s, Looks (next s)) : Looks (get >>= next) :=
  weathers_get_bind (fun s _ => same s) fun s _ => (rear s).strengthen fun _ _ => trivial

theorem theVnode_looks (sv : UInt32) : Looks (theVnode sv) := by
  refine looks_get_bind (fun _ => rfl) fun s => ?_
  cases s.vnode? sv with
  | none => exact weathers_halt
  | some vnode => exact weathers_pure vnode

theorem sfsBused_looks (block : UInt32) : Looks (sfsBused block) :=
  looks_get_bind (fun _ => rfl) fun _ => looks_bind (weathers_require _) fun _ => weathers_pure _

theorem rblock_looks (data : Block) (block : UInt32) : Looks (onDevice (sfsRblock data block)) := by
  intro s _
  unfold onDevice
  rw [allows_zoom]
  intro result after computed
  obtain ⟨passed, outcome⟩ := sfsRblock_allows result after computed
  have device : ({ after with outcomes := fun _ => true } : Lhd) = { s.device with outcomes := fun _ => true } := by
    rw [Lhd.mk.injEq]
    exact ⟨passed.dBlocks, passed.sectors, rfl⟩
  have same : Sfs.mended { s with device := after } = s.mended := congrArg (fun device => { s with device }) device
  refine ⟨same, trivial, fun value done => ?_⟩
  rcases outcome with ⟨failed, _⟩ | read
  · cases failed.symm.trans done
  · cases read.symm.trans done
    have inside : sfsSector block < s.mended.device.dBlocks := by
      by_contra outside
      have beyond : s.device.dBlocks ≤ sfsSector block := UInt32.not_lt.mp outside
      rw [sfsRblock_halts beyond] at computed
      cases computed
    rw [same, Routine.zoom, sfsRblock_first inside rfl]
    rfl

theorem bmapResult_looks (block : UInt32) : Looks (bmapResult block) := by
  unfold bmapResult
  split
  · exact looks_bind (sfsBused_looks block) fun _ => looks_bind (weathers_require _) fun _ => weathers_pure _
  · exact weathers_pure _

theorem sfsBmap_looks (sv fileblock : UInt32) : Looks (sfsBmap sv fileblock false) := by
  unfold sfsBmap
  split
  · refine looks_bind (theVnode_looks sv) fun vnode => ?_
    rw [if_neg (fun both => Bool.false_ne_true both.2)]
    exact bmapResult_looks _
  · dsimp only
    split
    · exact weathers_fail _
    · refine looks_bind (theVnode_looks sv) fun vnode => ?_
      dsimp only
      split
      · exact weathers_pure _
      next present =>
        have block : Looks (bmapIndirectBlock sv vnode.inode.indirect) := by
          unfold bmapIndirectBlock
          rw [if_neg (fun missing => present ⟨missing, rfl⟩)]
          exact looks_bind (rblock_looks _ _) fun _ => weathers_pure _
        refine looks_bind block fun listed => ?_
        rw [if_neg (fun both => Bool.false_ne_true both.2)]
        exact bmapResult_looks _

theorem partialBuffer_looks (block : UInt32) (rw : UioRw) : Looks (partialBuffer block rw) := by
  unfold partialBuffer
  split
  · exact looks_bind (weathers_require _) fun _ => weathers_pure _
  · exact rblock_looks _ _

end Looks

section Uio

variable {uio : Uio} {pre post : Uio → Prop}

theorem uioCopy_allows (direction : uio.rw = .read) (buffer : List UInt8) (size : Nat) :
    (uioCopy buffer size).Allows uio fun result after =>
      after.rw = .read ∧ after.resid = uio.resid ∧ ∀ filled, result = .ok filled → filled = buffer := by
  unfold uioCopy
  rw [allows_bind, allows_get, andThenAllows_ok, direction, allows_bind, allows_modify, andThenAllows_ok]
  have stays : ∀ next, next = (if uio.segflg = .sysspace then uio else { uio with faults := fun n => uio.faults (n + 1) }) →
      next.rw = .read ∧ next.resid = uio.resid := by
    rintro next rfl
    split
    · exact ⟨direction, rfl⟩
    · exact ⟨direction, rfl⟩
  generalize (if uio.segflg = .sysspace then uio else { uio with faults := fun n => uio.faults (n + 1) }) = next at stays ⊢
  obtain ⟨read, resid⟩ := stays next rfl
  cases (if uio.segflg = .sysspace then none else uio.faults 0) with
  | none =>
    simp only [allows_bind, allows_modify, andThenAllows_ok, allows_pure]
    refine ⟨read, resid, fun filled same => ?_⟩
    cases same
    rfl
  | some stored =>
    simp only [allows_bind, allows_modify, andThenAllows_ok, allows_fail]
    exact ⟨read, resid, by rintro _ ⟨⟩⟩

theorem uiomoveLoop_allows (fuel : Nat) (direction : uio.rw = .read) {buffer}
    (within : buffer.length ≤ uio.resid) (small : uio.resid < 2 ^ 32) :
    (uiomoveLoop fuel buffer).Allows uio fun _ after => after.rw = .read ∧ after.resid ≤ uio.resid := by
  induction fuel generalizing uio buffer with
  | zero =>
    rw [uiomoveLoop, allows_pure]
    exact ⟨direction, Nat.le_refl _⟩
  | succ fuel again =>
    rw [uiomoveLoop, allows_bind, allows_get, andThenAllows_ok]
    split
    · rw [allows_pure]
      exact ⟨direction, Nat.le_refl _⟩
    · rw [allows_bind, allows_require]
      intro _
      rw [andThenAllows_ok, allows_bind]
      refine (uioCopy_allows direction buffer _).mono ?_
      rintro result next ⟨read, resid, filled⟩
      cases result with
      | error code => exact ⟨read, Nat.le_of_eq resid⟩
      | ok bytes =>
        rw [filled bytes rfl, andThenAllows_ok, allows_bind, allows_modify, andThenAllows_ok, allows_bind]
        have left : (next.advance (min uio.iovLen buffer.length)).resid = uio.resid - min uio.iovLen buffer.length := by
          change sizeSub next.resid _ = _
          rw [resid, sizeSub]
          omega
        have rest : (buffer.drop (min uio.iovLen buffer.length)).length ≤
            (next.advance (min uio.iovLen buffer.length)).resid := by
          rw [left, List.length_drop]
          omega
        have reading : (next.advance (min uio.iovLen buffer.length)).rw = .read := read
        refine (again reading rest (by omega)).mono ?_
        rintro result after ⟨read', resid'⟩
        have final : after.rw = .read ∧ after.resid ≤ uio.resid := ⟨read', by omega⟩
        cases result with
        | error code => exact final
        | ok later => exact (allows_pure _ _ _).mpr final

def Uio.Short (uio : Uio) : Prop := uio.rw = .read ∧ uio.resid < 512

def Uio.Asks (len : Nat) (uio : Uio) : Prop := uio.Short ∧ len ≤ uio.resid

/-- The routine only looks at the volume, for a caller whose uio is as `pre` says. -/
def Peeks (routine : Routine Errno (Sfs × Uio) α) (pre post : Uio → Prop) : Prop :=
  routine.Weathers (Prod.map Sfs.mended id) (Sfs.mended ∘ Prod.fst) (fun both => pre both.2) fun both => post both.2

theorem Looks.peeks {routine : Routine Errno Sfs α} (looks : Looks routine) (pre : Uio → Prop) :
    Peeks (onSfs routine) pre pre :=
  Weathers.zoom looks (fun _ => rfl) (fun _ _ => rfl) (fun _ _ same => same) (fun _ _ => trivial) fun _ _ _ holds => holds

theorem peeks_get_bind {next : Sfs × Uio → Routine Errno (Sfs × Uio) α}
    (same : ∀ s uio, next (s.mended, uio) = next (s, uio))
    (rear : ∀ s uio, pre uio → Peeks (next (s, uio)) (· = uio) post) : Peeks (get >>= next) pre post := by
  refine weathers_get_bind (fun both _ => same both.1 both.2) fun both holds => ?_
  refine (rear both.1 both.2 holds).strengthen fun other equal => ?_
  rw [equal]

theorem uiomove_peeks (buffer : List UInt8) : Peeks (onUio (uiomove buffer)) (Uio.Asks buffer.length) Uio.Short := by
  have moves : (uiomove buffer).Weathers id (fun _ => ()) (Uio.Asks buffer.length) Uio.Short := by
    refine weathers_apart ?_
    rintro uio ⟨⟨direction, small⟩, within⟩
    refine (uiomoveLoop_allows _ direction within (by omega)).mono ?_
    rintro result after ⟨read, resid⟩
    exact ⟨read, by omega⟩
  exact Weathers.zoom moves (fun _ => rfl) (fun _ _ => rfl) (fun _ _ _ => rfl) (fun _ asks => asks) fun _ _ short _ => short

theorem sfsPartialio_peeks (sv skipstart len : UInt32) :
    Peeks (sfsPartialio sv skipstart len) (Uio.Asks len.toNat) Uio.Short := by
  refine peeks_get_bind (fun _ _ => rfl) fun s uio asks => ?_
  have allocates : decide (UioRw.read = UioRw.write) = false := by decide
  have weak : ∀ both : Sfs × Uio, both.2.Asks len.toNat → both.2.Short := fun _ asks => asks.1
  dsimp only
  rw [asks.1.1, allocates]
  refine Weathers.strengthen ?_ (fun both (same : both.2 = uio) => (same ▸ asks : both.2.Asks len.toNat))
  refine (weathers_require _).bind (fun _ => ?_) weak
  refine ((sfsBmap_looks sv _).peeks (Uio.Asks len.toNat)).bind (fun block => ?_) weak
  refine ((partialBuffer_looks block .read).peeks (Uio.Asks len.toNat)).bind (fun iobuf => ?_) weak
  refine Weathers.bind ((uiomove_peeks _).strengthen ?_) (fun _ => weathers_pure ()) fun _ short => short
  rintro both ⟨short, enough⟩
  refine ⟨short, ?_⟩
  rw [List.length_take]
  omega

theorem sfsLeading_peeks (sv : UInt32) : Peeks (sfsLeading sv) Uio.Short Uio.Short := by
  refine peeks_get_bind (fun _ _ => rfl) fun s uio short => ?_
  dsimp only
  split
  · refine (sfsPartialio_peeks sv _ _).strengthen ?_
    rintro both same
    rw [same]
    refine ⟨short, ?_⟩
    have small := short.2
    split
    · rw [UInt32.toNat_ofNat', Nat.mod_eq_of_lt (by omega)]
    · omega
  · exact (weathers_pure ()).strengthen fun both same => by rw [same]; exact short

theorem sfsAligned_peeks (sv : UInt32) : Peeks (sfsAligned sv) Uio.Short Uio.Short := by
  refine peeks_get_bind (fun _ _ => rfl) fun s uio short => ?_
  have start : ∀ both : Sfs × Uio, both.2 = uio → both.2.Short := fun both same => same ▸ short
  dsimp only
  split
  · exact (weathers_pure ()).strengthen start
  · have none : uio.resid / sfsBlocksize = 0 := Nat.div_eq_of_lt short.2
    rw [none, sfsBlocks]
    refine Weathers.strengthen ?_ start
    refine (weathers_require _).bind (fun _ => ?_) fun _ short => short
    refine (weathers_pure ()).bind (fun _ => ?_) fun _ short => short
    refine peeks_get_bind (fun _ _ => rfl) fun s uio short => ?_
    have start : ∀ both : Sfs × Uio, both.2 = uio → both.2.Short := fun both same => same ▸ short
    refine Weathers.bind ((weathers_require _).strengthen fun _ same => same) (fun _ => ?_) start
    dsimp only
    split
    · refine (sfsPartialio_peeks sv _ _).strengthen ?_
      intro both same
      have small := short.2
      rw [same]
      refine ⟨short, ?_⟩
      rw [UInt32.toNat_ofNat', Nat.mod_eq_of_lt (by omega)]
    · exact (weathers_pure ()).strengthen start

theorem sfsExtend_peeks (sv : UInt32) : Peeks (sfsExtend sv) Uio.Short Uio.Short := by
  refine peeks_get_bind (fun _ _ => rfl) fun s uio short => ?_
  refine Weathers.strengthen ?_ (fun both (same : both.2 = uio) => (same ▸ short : both.2.Short))
  refine ((theVnode_looks sv).peeks Uio.Short).bind (fun vnode => ?_) fun _ short => short
  rw [if_neg (fun both => absurd (short.1.symm.trans both.1) (by decide))]
  exact weathers_pure ()

theorem resid_peeks {f} (holds : ∀ uio, pre uio → post (f uio)) : Peeks (onUio (modify f)) pre post := by
  have counts : (modify f : Routine Errno Uio Unit).Weathers id (fun _ => ()) pre post :=
    weathers_modify (fun _ => rfl) (fun _ => rfl) holds
  exact Weathers.zoom counts (fun _ => rfl) (fun _ _ => rfl) (fun _ _ _ => rfl) (fun _ before => before) fun _ _ after _ => after

theorem sfsTransfer_peeks (sv extraresid : UInt32) : Peeks (sfsTransfer sv extraresid) Uio.Short fun _ => True := by
  refine Weathers.attempt_bind ((sfsLeading_peeks sv).bind (fun _ => sfsAligned_peeks sv) fun _ short => short) ?_ ?_
  · intro result
    refine (sfsExtend_peeks sv).bind (fun _ => ?_) fun _ _ => trivial
    exact (resid_peeks fun _ _ => trivial).bind (fun _ => weathers_finish result) fun _ _ => trivial
  · intro code
    exact Yields.after fun _ => Yields.after fun _ => nofun

theorem sfsIo_peeks (sv : UInt32) : Peeks (sfsIo sv) Uio.Short fun _ => True := by
  refine peeks_get_bind (fun _ _ => rfl) fun s uio short => ?_
  have start : ∀ both : Sfs × Uio, both.2 = uio → both.2.Short := fun both same => same ▸ short
  refine Weathers.strengthen ?_ start
  refine ((theVnode_looks sv).peeks Uio.Short).bind (fun vnode => ?_) fun _ _ => trivial
  rw [short.1]
  dsimp only
  split
  · exact (weathers_pure ()).weaken fun _ _ => trivial
  · split
    · refine (weathers_require _).bind (fun _ => ?_) fun _ _ => trivial
      refine Weathers.bind (resid_peeks ?_) (fun _ => sfsTransfer_peeks sv _) fun _ _ => trivial
      rintro uio ⟨direction, small⟩
      exact ⟨direction, Nat.lt_of_le_of_lt (Nat.sub_le _ _) small⟩
    · exact sfsTransfer_peeks sv 0

end Uio

section Directory

theorem sfsReaddir_looks (sv : UInt32) (slot : Nat) : Looks (sfsReaddir sv slot) := by
  refine Weathers.local_bind (sfsIo_peeks sv) (fun _ _ => ⟨rfl, ?_⟩) ?_ ?_
  · change (List.replicate 64 (0 : UInt8)).length < 512
    decide
  · intro result
    exact looks_bind (weathers_finish _) fun _ => looks_bind (weathers_require _) fun _ => weathers_pure _
  · exact fun code ku => nofun

theorem sfsDirNentries_looks (sv : UInt32) : Looks (sfsDirNentries sv) := by
  refine looks_bind (theVnode_looks sv) fun vnode => looks_bind (weathers_require _) fun _ => ?_
  exact looks_bind (weathers_require _) fun _ => weathers_pure _

theorem findnameLoop_looks (sv : UInt32) (name : CString) (left i : Nat) (found : FoundName) :
    Looks (findnameLoop sv name left i found) := by
  induction left generalizing i found with
  | zero => exact weathers_pure found
  | succ left again =>
    refine looks_bind (sfsReaddir_looks sv i) fun tsd => ?_
    split
    · exact again _ _
    · split
      · exact looks_bind (weathers_require _) fun _ => again _ _
      · exact again _ _

theorem sfsDirFindname_looks (sv : UInt32) (name : CString) : Looks (sfsDirFindname sv name) :=
  looks_bind (sfsDirNentries_looks sv) fun _ => findnameLoop_looks sv name _ 0 _

end Directory

end Os161
