import Os161.Proofs.SfsRuns

/-! The contents of a file refine an array of bytes. -/

namespace Os161
open Routine Runs Contents Option

/-- An array of bytes that is as long as its last write reached; what was never written is 0. -/
structure ByteFile where
  bytes : Nat → UInt8
  size : Nat

def ByteFile.empty : ByteFile := ⟨fun _ => 0, 0⟩

def ByteFile.write (file : ByteFile) (pos : Nat) (data : List UInt8) : ByteFile :=
  ⟨patch file.bytes pos data, max file.size (pos + data.length)⟩

/-- What a call does to the array for file `f`: a write puts there the bytes it has moved. -/
def ByteFile.after (f : UInt32) (file : ByteFile) (call : SfsCall) (result : Except Errno SfsReply) : ByteFile :=
  match call, result with
  | .write v request, .ok (.transfer _ uio) =>
    if v = f then file.write request.uio.position (request.uio.rest.take (request.uio.resid - uio.resid)) else file
  | _, _ => file

def fileStep (f : UInt32) (state : Sfs × ByteFile) (call : SfsCall) : Option (Sfs × ByteFile) :=
  (call.perform state.1).map fun (result, s) => (s, state.2.after f call result)

/-- The uio after a transfer that returned 0. -/
def transferred : Except Errno SfsReply → Option Uio
  | .ok (.transfer (.ok ()) uio) => some uio
  | _ => none

theorem transferred_some {result uio} (found : transferred result = some uio) :
    result = .ok (.transfer (.ok ()) uio) := by
  unfold transferred at found
  split at found
  · cases found
    rfl
  · cases found

def createdVnode : Except Errno SfsReply → Option UInt32
  | .ok (.vnode f) => some f
  | _ => none

/-- The file is kept and not truncated, and a write to it stays below 2^31 and moves at least one byte. -/
def Admitted (f : UInt32) (state : Sfs × ByteFile) (call : SfsCall) : Prop :=
  (∀ next, fileStep f state call = some next → next.1.Live f) ∧
    match call with
    | .truncate v _ => v ≠ f
    | .write v request => v = f → request.uio.offset + request.uio.resid < 2 ^ 31 ∧
      ∀ result uio s, call.perform state.1 = some (.ok (.transfer result uio), s) → uio.resid < request.uio.resid
    | _ => True

/-- The size is that of the array, and a read that returns 0 delivers its bytes up to the end. A write within the
143 blocks fails only at a hole, or for the caller's memory. -/
structure ReadsBack (f : UInt32) (state : Sfs × ByteFile) : Prop where
  size : (state.1.inodeOf f).size.toNat = state.2.size
  delivers : ∀ (request : IoRequest) uio s, request.uio.offset + request.uio.resid < 2 ^ 31 →
    (SfsCall.read f request).perform state.1 = some (.ok (.transfer (.ok ()) uio), s) →
    uio.moved = request.uio.moved ++ window state.2.bytes request.uio.position
        (min request.uio.resid (state.2.size - request.uio.position)) ∧
      uio.resid = request.uio.resid - min request.uio.resid (state.2.size - request.uio.position)
  reaches : ∀ (request : IoRequest) code uio s, request.uio.segflg = .sysspace → 0 < request.uio.resid →
    request.uio.position + request.uio.resid ≤ (15 + 128) * 512 →
    (SfsCall.write f request).perform state.1 = some (.ok (.transfer (.error code) uio), s) →
    ∃ p < 15 + 128, state.1.slot f p = 0

section Refinement

variable {f : UInt32} {s s' : Sfs} {file : ByteFile}

/-- The file is there, and its contents are those of the array. -/
structure Represents (f : UInt32) (state : Sfs × ByteFile) : Prop where
  sound : state.1.Sound
  other : f ≠ sfsRootLocation
  live : state.1.Live f
  bytes : state.1.byte f = state.2.bytes
  size : (state.1.inodeOf f).size.toNat = state.2.size
  small : state.2.size < 2 ^ 31

theorem readable_eq {size} {uio : Uio} (fits : uio.Fits) (small : size.toNat < 2 ^ 31)
    (room : uio.offset + uio.resid < 2 ^ 31) : readable size uio = min uio.resid (size.toNat - uio.position) := by
  have position := fits.position_eq
  have end_ : offT (uio.offset + uio.resid) = uio.offset + uio.resid := offT_small (by omega) (by omega)
  have limit : offT size.toNat = size.toNat := offT_small (by omega) (by omega)
  unfold readable
  split
  · omega
  · split <;> omega

theorem transfer_loaded {request outcome}
    (done : (SfsCall.read f request).perform s = some outcome ∨ (SfsCall.write f request).perform s = some outcome) :
    ∃ vnode, s.vnode? f = some vnode := by
  cases found : s.vnode? f with
  | some vnode => exact ⟨vnode, rfl⟩
  | none =>
    rcases done with done | done
    · rw [SfsCall.perform, replyTransfer, bind_halts (withLocal_halts (vopRead_halts found))] at done
      cases done
    · rw [SfsCall.perform, replyTransfer, bind_halts (withLocal_halts (vopWrite_halts found))] at done
      cases done

variable (represents : Represents f (s, file))
include represents

theorem Represents.readsBack : ReadsBack f (s, file) := by
  obtain ⟨held, healthy, _⟩ := represents.sound
  refine ⟨represents.size, fun request uio after room done => ?_, fun request code uio after kernel some within done => ?_⟩
  · obtain ⟨vnode, loaded⟩ := transfer_loaded (Or.inl done)
    obtain ⟨inner, final, computed, same⟩ := transfer_done done
    cases same
    by_cases direction : request.uio.rw = .read
    · obtain ⟨_, ⟨code, failed, _⟩ | ⟨_, carries, _⟩⟩ :=
        (vopRead_ensures healthy loaded represents.other request direction).elim computed
      · cases failed
      · have small : (s.inodeOf f).size.toNat < 2 ^ 31 := by
          rw [represents.size]
          exact represents.small
        have moved := carries.moved
        have resid := carries.resid
        rw [readable_eq request.fits small room, represents.size, represents.bytes] at moved resid
        rw [window_length] at resid
        refine ⟨moved, ?_⟩
        dsimp only at resid ⊢
        omega
    · rw [(vop_direction healthy loaded represents.other).1 direction] at computed
      cases computed
  · obtain ⟨vnode, loaded⟩ := transfer_loaded (Or.inr done)
    obtain ⟨inner, final, computed, same⟩ := transfer_done done
    cases same
    by_cases direction : request.uio.rw = .write
    · obtain ⟨data, _, _, _, _, _, reason⟩ :=
        (vopWrite_ensures healthy loaded represents.other request direction).elim computed
      rcases reason with (user | far | far) | ⟨p, hole, touched⟩
      · exact absurd kernel user
      · omega
      · omega
      · exact ⟨p, by omega, hole⟩
    · rw [(vop_direction healthy loaded represents.other).2 direction] at computed
      cases computed

theorem Represents.write {request : IoRequest} {result}
    (room : request.uio.offset + request.uio.resid < 2 ^ 31)
    (done : (SfsCall.write f request).perform s = some (result, s')) :
    (s'.byte f = (file.after f (.write f request) result).bytes) ∧
    (s'.inodeOf f).size.toNat = (file.after f (.write f request) result).size ∧
    (file.after f (.write f request) result).size < 2 ^ 31 := by
  obtain ⟨held, healthy, _⟩ := represents.sound
  obtain ⟨vnode, loaded⟩ := transfer_loaded (Or.inr done)
  obtain ⟨inner, uio, computed, rfl⟩ := transfer_done done
  have position := request.fits.position_eq
  by_cases direction : request.uio.rw = .write
  · obtain ⟨data, taken, carries, _, wrote, _⟩ :=
      (vopWrite_ensures healthy loaded represents.other request direction).elim computed
    have resid := carries.resid
    have count : request.uio.resid - uio.resid = data.length := by
      simp only at resid
      omega
    have same : file.after f (.write f request) (.ok (.transfer inner uio)) = file.write request.uio.position data := by
      rw [ByteFile.after, if_pos rfl, count, ← taken]
    have small := represents.small
    rw [same]
    refine ⟨?_, ?_, ?_⟩
    · rw [wrote.bytes, represents.bytes]
      rfl
    · rw [wrote.size, grown_small (by rw [represents.size]; exact small) (by omega), represents.size]
      rfl
    · change max file.size (request.uio.position + data.length) < 2 ^ 31
      simp only at small resid
      omega
  · rw [(vop_direction healthy loaded represents.other).2 direction] at computed
    cases computed

theorem Represents.step {call : SfsCall} {next}
    (taken : fileStep f (s, file) call = some next) (admitted : Admitted f (s, file) call) : Represents f next := by
  obtain ⟨keeps, admitted⟩ := admitted
  have live := keeps next taken
  obtain ⟨⟨result, after⟩, done, rfl⟩ := map_eq_some_iff.mp taken
  obtain ⟨sound, held, performed⟩ := represents.sound.performed done
  change Represents f (after, file.after f call result)
  by_cases touches : call.Touches f
  · cases call with
    | write v request =>
      cases touches
      obtain ⟨bytes, size, small⟩ := represents.write (admitted rfl).1 done
      exact ⟨sound, represents.other, live, bytes, size, small⟩
    | truncate v len => exact absurd touches admitted
    | _ => exact touches.elim
  · have untouched : file.after f call result = file := by
      cases call with
      | write v request =>
        rcases result with code | reply
        · rfl
        · cases reply with
          | transfer inner uio => exact if_neg touches
          | _ => rfl
      | _ => rfl
    obtain ⟨size, bytes⟩ := performed.contents f represents.other touches represents.live live
    have small : (file.after f call result).size < 2 ^ 31 := by
      rw [untouched]
      exact represents.small
    refine ⟨sound, represents.other, live, ?_, ?_, small⟩
    · rw [untouched, bytes]
      exact represents.bytes
    · rw [untouched, size]
      exact represents.size

end Refinement

section Created

variable {nblocks : UInt32} {nospace heap : Nat → Bool} {s s1 s2 : Sfs} {f : UInt32}

theorem created_represents (sound : s1.Sound) {name excl} (absent : s1.directory name = none)
    (created : (SfsCall.creat sfsRootLocation name excl).perform s1 = some (.ok (.vnode f), s2)) :
    Represents f (s2, ByteFile.empty) := by
  have after := (sound.performed created).1
  obtain ⟨held, healthy, _⟩ := sound
  rw [SfsCall.perform, replyVnode] at created
  rcases dirOnly_cases healthy sfsRootLocation (sfsCreat sfsRootLocation name excl) with
    ⟨halts, _⟩ | ⟨root, _, loaded, same⟩ | ⟨other, _⟩
  · rw [bind_halts halts] at created
    cases created
  · obtain ⟨inner, final, computed, held', _, changes, outcome⟩ := sfsCreat_ensures healthy loaded name excl
    rcases outcome with ⟨code, rfl, _⟩ | ⟨i, rfl, refs, ⟨_, found, _⟩ | ⟨_, _, fresh, blank⟩⟩
    · rw [bind_error (same.trans computed)] at created
      cases created
    · cases absent.symm.trans found
    · rw [bind_ok (same.trans computed)] at created
      cases created
      have referenced : 0 < s2.refs f := by
        rw [refs, Function.update_self]
        exact Nat.succ_pos _
      obtain ⟨vnode, present⟩ := loaded_of_refs referenced
      refine ⟨after, ?_, live_loaded present, funext blank.bytes, ?_, Nat.two_pow_pos 31⟩
      · rintro rfl
        exact fresh (live_root s1)
      · rw [blank.size]
        rfl
  · exact absurd rfl other

def threeBytes : IoRequest where
  uio := ⟨[], [1, 2, 3], 5, 3, .sysspace, .write, fun _ => none⟩
  seekable := by decide
  position := by decide
  buffer := by decide
  size := by decide

end Created

end Os161
