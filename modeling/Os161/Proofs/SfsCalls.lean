import Os161.Proofs.SfsVolume

/-! Every call at the vnode interface: what it keeps, how it changes names, and which files it leaves alone. -/

namespace Os161
open Routine

/-- What a call that returned `result` does to the map from names to inodes. -/
def SfsCall.Remaps (call : SfsCall) (result : Except Errno SfsReply) (map map' : CString → Option UInt32) : Prop :=
  match call, result with
  | .lookup _ name, .ok (.vnode i) => map name = some i ∧ map' = map
  | .lookup dir name, .error code => (dir = sfsRootLocation → code ≠ .enomem → map name = none) ∧ map' = map
  | .creat _ name excl, .ok (.vnode i) =>
    (excl = false ∧ map name = some i ∧ map' = map) ∨ (map name = none ∧ map' = Function.update map name (some i))
  | .link _ name file, .ok _ => map name = none ∧ map' = Function.update map name (some file)
  | .remove _ name, .ok _ => (∃ i, map name = some i) ∧ map' = Function.update map name none
  | .rename _ n1 _ n2, .ok _ =>
    ∃ i, map n1 = some i ∧ map n2 = none ∧ map' = Function.update (Function.update map n2 (some i)) n1 none
  | _, _ => map' = map

def SfsCall.Touches (call : SfsCall) (j : UInt32) : Prop :=
  match call with
  | .write v _ => v = j
  | .truncate v _ => v = j
  | _ => False

structure Performed (held : UInt32 → Prop) (call : SfsCall) (s : Sfs) (result : Except Errno SfsReply) (s' : Sfs) :
    Prop where
  healthy : s'.Healthy held
  evolves : s.Evolves s'
  opens : s'.opens = s.opens
  remaps : call.Remaps result s.directory s'.directory
  contents : ∀ j, j ≠ sfsRootLocation → ¬ call.Touches j → s.Live j → s'.Live j →
    (s'.inodeOf j).size = (s.inodeOf j).size ∧ s'.byte j = s.byte j

section Dispatch

variable {held : UInt32 → Prop} {s s' : Sfs} {α : Type}

theorem Changes.performed {call result} (changes : Changes held s s')
    (remaps : call.Remaps result s.directory s'.directory) : Performed held call s result s' :=
  ⟨changes.healthy, changes.evolves, changes.opens, remaps, fun j other _ => changes.contents j other⟩

theorem reply_done {operation : Routine Errno Sfs α} {f : α → SfsReply} {result}
    (done : (operation >>= fun value => pure (f value)) s = some (result, s')) :
    (∃ code, result = .error code ∧ operation s = some (.error code, s')) ∨
      ∃ value, result = .ok (f value) ∧ operation s = some (.ok value, s') := by
  cases computed : operation s with
  | none =>
    rw [bind_halts computed] at done
    cases done
  | some next =>
    obtain ⟨inner, after⟩ := next
    cases inner with
    | error code =>
      rw [bind_error computed] at done
      cases done
      exact Or.inl ⟨code, rfl, rfl⟩
    | ok value =>
      rw [bind_ok computed] at done
      cases done
      exact Or.inr ⟨value, rfl, rfl⟩

theorem Sfs.Healthy.type_iff (healthy : s.Healthy held) {i vnode}
    (loaded : s.vnode? i = some vnode) : vnode.inode.type = sfsTypeDir ↔ i = sfsRootLocation := by
  rw [← Sfs.inodeOf_loaded loaded]
  constructor
  · intro dir
    by_contra other
    rw [healthy.files i (live_loaded loaded) other] at dir
    revert dir
    decide
  · rintro rfl
    exact healthy.rooted.type

theorem dirOnly_cases (healthy : s.Healthy held) (dir : UInt32) (operation : Routine Errno Sfs α) :
    dirOnly dir operation s = none ∧ s.vnode? dir = none ∨
    (∃ root, dir = sfsRootLocation ∧ s.vnode? sfsRootLocation = some root ∧
      dirOnly dir operation s = operation s) ∨
    dir ≠ sfsRootLocation ∧ dirOnly dir operation s = some (.error .enotdir, s) := by
  unfold dirOnly
  cases found : s.vnode? dir with
  | none => exact Or.inl ⟨bind_halts (theVnode_halts found), rfl⟩
  | some vnode =>
    rw [bind_ok (theVnode_eq found)]
    by_cases root : dir = sfsRootLocation
    · rw [if_pos ((healthy.type_iff found).mpr root)]
      exact Or.inr (Or.inl ⟨vnode, root, root ▸ found, rfl⟩)
    · rw [if_neg (mt (healthy.type_iff found).mp root)]
      exact Or.inr (Or.inr ⟨root, rfl⟩)

theorem fileOnly_cases (healthy : s.Healthy held) (v : UInt32) (operation : Routine Errno Sfs α) :
    fileOnly v operation s = none ∧ s.vnode? v = none ∨
    (∃ vnode, v ≠ sfsRootLocation ∧ s.vnode? v = some vnode ∧ fileOnly v operation s = operation s) ∨
    v = sfsRootLocation ∧ fileOnly v operation s = some (.error .eisdir, s) := by
  unfold fileOnly
  cases found : s.vnode? v with
  | none => exact Or.inl ⟨bind_halts (theVnode_halts found), rfl⟩
  | some vnode =>
    rw [bind_ok (theVnode_eq found)]
    by_cases root : v = sfsRootLocation
    · rw [if_pos ((healthy.type_iff found).mpr root)]
      exact Or.inr (Or.inr ⟨root, rfl⟩)
    · rw [if_neg (mt (healthy.type_iff found).mp root)]
      exact Or.inr (Or.inl ⟨vnode, root, rfl, rfl⟩)

end Dispatch

section Transfers

variable {held : UInt32 → Prop} {s : Sfs} {v : UInt32} {vnode : SfsVnode}

theorem IoRequest.fits (request : IoRequest) : request.uio.Fits :=
  ⟨request.seekable, request.position, request.buffer, request.size⟩

section

variable (healthy : s.Healthy held) (loaded : s.vnode? v = some vnode) (other : v ≠ sfsRootLocation)
  (request : IoRequest)
include healthy loaded other request

theorem vopRead_ensures (direction : request.uio.rw = .read) :
    (vopRead v).Ensures (s, request.uio) fun result next => next.1 = s ∧
      ((∃ code, result = .error code ∧ request.uio.Beyond (readable (s.inodeOf v).size request.uio)) ∨
        result = .ok () ∧ request.uio.Carries next.2
          (Contents.window (s.byte v) request.uio.position (readable (s.inodeOf v).size request.uio)) ∧
          request.uio.Inside (readable (s.inodeOf v).size request.uio)) := by
  unfold vopRead
  simp only [ensures_bind, ensures_get, after_ok, ensures_onSfs]
  refine .of_eq (theVnode_eq loaded) ?_
  rw [after_ok, if_neg (mt (healthy.type_iff loaded).mp other), ensures_bind, ensures_require]
  exact ⟨direction, sfsIo_read healthy.consistent loaded request.fits direction⟩

theorem vopWrite_ensures (direction : request.uio.rw = .write) :
    (vopWrite v).Ensures (s, request.uio) fun result next => ∃ data,
      data = request.uio.rest.take data.length ∧ request.uio.Carries next.2 data ∧ request.uio.Inside data.length ∧
      Wrote s.Live held v request.uio.position data s next.1 ∧
      match result with
      | .ok () => data.length = request.uio.resid
      | .error _ => (data = [] ∨ data.length < request.uio.resid ∧ (request.uio.position + data.length) % 512 = 0) ∧
        (request.uio.Beyond request.uio.resid ∨ request.uio.Hits v s request.uio.resid) := by
  unfold vopWrite
  simp only [ensures_bind, ensures_get, after_ok, ensures_onSfs]
  refine .of_eq (theVnode_eq loaded) ?_
  rw [after_ok, if_neg (mt (healthy.type_iff loaded).mp other), ensures_bind, ensures_require]
  exact ⟨direction, sfsIo_write healthy.consistent loaded request.fits direction⟩

end

variable {uio : Uio} {request : IoRequest}

theorem vopRead_halts (absent : s.vnode? v = none) : vopRead v (s, uio) = none := by
  unfold vopRead
  rw [bind_ok rfl]
  apply bind_halts
  unfold onSfs zoom
  rw [theVnode_halts absent]
  rfl

theorem vopWrite_halts (absent : s.vnode? v = none) : vopWrite v (s, uio) = none := by
  unfold vopWrite
  rw [bind_ok rfl]
  apply bind_halts
  unfold onSfs zoom
  rw [theVnode_halts absent]
  rfl

theorem onVnode_eq (loaded : s.vnode? v = some vnode) : onSfs (theVnode v) (s, uio) = some (.ok vnode, (s, uio)) := by
  unfold onSfs zoom
  rw [theVnode_eq loaded]
  rfl

theorem vopRead_root (healthy : s.Healthy held) (loaded : s.vnode? v = some vnode) (root : v = sfsRootLocation) :
    vopRead v (s, uio) = some (.error .eisdir, (s, uio)) ∧ vopWrite v (s, uio) = some (.error .eisdir, (s, uio)) := by
  have dir := (healthy.type_iff loaded).mpr root
  unfold vopRead vopWrite
  rw [bind_ok rfl, bind_ok rfl]
  dsimp only
  rw [bind_ok (onVnode_eq loaded), bind_ok (onVnode_eq loaded), if_pos dir, if_pos dir]
  exact ⟨rfl, rfl⟩

theorem vop_direction (healthy : s.Healthy held) (loaded : s.vnode? v = some vnode) (other : v ≠ sfsRootLocation) :
    (uio.rw ≠ .read → vopRead v (s, uio) = none) ∧ (uio.rw ≠ .write → vopWrite v (s, uio) = none) := by
  have file := mt (healthy.type_iff loaded).mp other
  unfold vopRead vopWrite
  rw [bind_ok rfl, bind_ok rfl]
  dsimp only
  rw [bind_ok (onVnode_eq loaded), bind_ok (onVnode_eq loaded), if_neg file, if_neg file]
  exact ⟨fun wrong => bind_halts (require_neg wrong), fun wrong => bind_halts (require_neg wrong)⟩

theorem transfer_done {s' result operation}
    (done : replyTransfer uio operation s = some (result, s')) :
    ∃ inner after, operation (s, uio) = some (inner, (s', after)) ∧ result = .ok (.transfer inner after) := by
  unfold replyTransfer at done
  cases computed : operation (s, uio) with
  | none =>
    rw [bind_halts (withLocal_halts computed)] at done
    cases done
  | some next =>
    obtain ⟨inner, final, after⟩ := next
    rw [bind_ok (withLocal_eq computed)] at done
    cases done
    exact ⟨inner, after, rfl, rfl⟩

theorem vopRead_state {s' result} (healthy : s.Healthy held)
    (loaded : s.vnode? v = some vnode) (done : (SfsCall.read v request).perform s = some (result, s')) : s' = s := by
  obtain ⟨inner, after, computed, _⟩ := transfer_done done
  by_cases root : v = sfsRootLocation
  · rw [(vopRead_root healthy loaded root).1] at computed
    cases computed
    rfl
  · by_cases direction : request.uio.rw = .read
    · exact ((vopRead_ensures healthy loaded root request direction).elim computed).1
    · rw [(vop_direction healthy loaded root).1 direction] at computed
      cases computed

theorem vopWrite_state {s' result} (healthy : s.Healthy held)
    (loaded : s.vnode? v = some vnode) (done : (SfsCall.write v request).perform s = some (result, s')) :
    s' = s ∨ ∃ data, v ≠ sfsRootLocation ∧ Wrote s.Live held v request.uio.position data s s' := by
  obtain ⟨inner, after, computed, _⟩ := transfer_done done
  by_cases root : v = sfsRootLocation
  · rw [(vopRead_root healthy loaded root).2] at computed
    cases computed
    exact Or.inl rfl
  · by_cases direction : request.uio.rw = .write
    · obtain ⟨data, _, _, _, wrote, _⟩ := (vopWrite_ensures healthy loaded root request direction).elim computed
      exact Or.inr ⟨data, root, wrote⟩
    · rw [(vop_direction healthy loaded root).2 direction] at computed
      cases computed

/-- A change to one file keeps the volume healthy, the names and the other files. -/
theorem FileStep.performed {s' call result} (healthy : s.Healthy held)
    (step : FileStep s.Live v s s') (consistent : s'.Consistent s.Live held) (other : v ≠ sfsRootLocation)
    (type : (s'.inodeOf v).type = (s.inodeOf v).type) (linkcount : (s'.inodeOf v).linkcount = (s.inodeOf v).linkcount)
    (touches : call.Touches v) (remaps : call.Remaps result s.directory s.directory) :
    Performed held call s result s' := by
  obtain ⟨still, table, nentries⟩ := healthy.keep_file step consistent other type linkcount
  refine ⟨still, step.evolves, funext fun j => (step.counts j).2, ?_, fun j _ untouched isLive _ => ?_⟩
  · rw [directory_congr table nentries]
    exact remaps
  · have apart : j ≠ v := by
      rintro rfl
      exact untouched touches
    exact ⟨by rw [step.inodeOf isLive apart], funext (step.byte isLive apart)⟩

end Transfers

section Perform

variable {held : UInt32 → Prop} {s s' : Sfs} {result : Except Errno SfsReply} {call : SfsCall}

/-- An operation of the directory, whatever vnode it is called on. -/
theorem dir_performed {α : Type} {f : α → SfsReply} (healthy : s.Healthy held) {dir : UInt32}
    {operation} (performs : call.perform = dirOnly dir operation >>= fun value => pure (f value))
    (refused : dir ≠ sfsRootLocation → call.Remaps (.error .enotdir) s.directory s.directory)
    (ensures : ∀ root, dir = sfsRootLocation → s.vnode? sfsRootLocation = some root →
      operation s = none ∨ operation.Ensures s fun inner after => ∃ held', (s.heap = (fun _ => true) → held' = held) ∧
        Changes held' s after ∧ call.Remaps (inner.map f) s.directory after.directory)
    (done : call.perform s = some (result, s')) :
    ∃ held', (s.heap = (fun _ => true) → held' = held) ∧ Performed held' call s result s' := by
  rw [performs] at done
  rcases dirOnly_cases healthy dir operation with ⟨halts, _⟩ | ⟨root, own, loaded, same⟩ | ⟨other, failed⟩
  · rw [bind_halts halts] at done
    cases done
  · obtain halts | ⟨inner, after, computed, held', memory, changes, remaps⟩ := ensures root own loaded
    · rw [bind_halts (same.trans halts)] at done
      cases done
    rcases reply_done done with ⟨code, rfl, found⟩ | ⟨value, rfl, found⟩
    · cases (same.trans computed).symm.trans found
      exact ⟨held', memory, changes.performed remaps⟩
    · cases (same.trans computed).symm.trans found
      exact ⟨held', memory, changes.performed remaps⟩
  · rw [bind_error failed] at done
    cases done
    exact ⟨held, fun _ => rfl, (Grows.refl healthy).changes.performed (refused other)⟩

theorem plain_performed {operation : Routine Errno Sfs Unit} (healthy : s.Healthy held)
    (performs : call.perform = operation >>= fun _ => pure .nothing)
    (remaps : ∀ result, call.Remaps result s.directory s.directory)
    (ensures : operation.Ensures s fun _ after => Quiet held s after) (done : call.perform s = some (result, s')) :
    ∃ held', (s.heap = (fun _ => true) → held' = held) ∧ Performed held' call s result s' := by
  obtain ⟨inner, after, computed, quiet⟩ := ensures
  have changes := (Grows.refl healthy).quiet quiet
  have same : call.Remaps result s.directory after.directory := by
    rw [quiet.directory]
    exact remaps result
  rw [performs] at done
  rcases reply_done done with ⟨code, rfl, found⟩ | ⟨value, rfl, found⟩
  · cases computed.symm.trans found
    exact ⟨held, fun _ => rfl, changes.performed same⟩
  · cases computed.symm.trans found
    exact ⟨held, fun _ => rfl, changes.performed same⟩

/-- Any call that returns keeps the volume healthy and does to the names what it reports. -/
theorem SfsCall.performed (healthy : s.Healthy held) (closed : ∀ i, s.opens i = 0)
    (done : call.perform s = some (result, s')) :
    ∃ held', (s.heap = (fun _ => true) → held' = held) ∧ Performed held' call s result s' := by
  have loaded_or : ∀ v, s.vnode? v = none ∨ ∃ vnode, s.vnode? v = some vnode := by
    intro v
    cases s.vnode? v with
    | none => exact Or.inl rfl
    | some vnode => exact Or.inr ⟨vnode, rfl⟩
  cases call with
  | getroot =>
    rcases sfsGetroot_cases healthy with ⟨halts, _⟩ | ⟨inner, after, computed, rfl, quiet, _⟩
    · rw [SfsCall.perform, replyVnode, bind_halts halts] at done
      cases done
    · rw [SfsCall.perform, replyVnode, bind_ok computed] at done
      cases done
      exact ⟨held, fun _ => rfl, ((Grows.refl healthy).quiet quiet).performed quiet.directory⟩
  | lookup dir name =>
    refine dir_performed healthy rfl ?_ (fun root own loaded => Or.inr ?_) done
    · exact fun other => ⟨fun own => absurd own other, rfl⟩
    · subst own
      apply (sfsLookup_ensures healthy loaded name).mono
      intro inner after outcome
      refine ⟨held, fun _ => rfl, outcome.1.changes, ?_⟩
      obtain ⟨_, directory, ⟨rfl, missing, _⟩ | ⟨rfl, _, _⟩ | ⟨i, rfl, found, _⟩⟩ := outcome
      · exact ⟨fun _ _ => missing, directory⟩
      · exact ⟨fun _ memory => absurd rfl memory, directory⟩
      · exact ⟨found, directory⟩
  | creat dir name excl =>
    refine dir_performed healthy rfl (fun _ => rfl) (fun root own loaded => Or.inr ?_) done
    subst own
    apply (sfsCreat_ensures healthy loaded name excl).mono
    intro inner after outcome
    obtain ⟨held', memory, changes, ⟨code, rfl, _, directory⟩ | ⟨i, rfl, _, outcome⟩⟩ := outcome
    · exact ⟨held', memory, changes, directory⟩
    · refine ⟨held', memory, changes, ?_⟩
      rcases outcome with ⟨shared, found, directory⟩ | ⟨missing, directory, _⟩
      · exact Or.inl ⟨shared, found, directory⟩
      · exact Or.inr ⟨missing, directory⟩
  | link dir name file =>
    refine dir_performed healthy rfl (fun _ => rfl) (fun root own loaded => ?_) done
    subst own
    rcases loaded_or file with absent | ⟨target, present⟩
    · exact Or.inl (bind_halts (theVnode_halts absent))
    · refine Or.inr ((sfsLink_ensures healthy loaded present name).mono ?_)
      intro inner after outcome
      refine ⟨held, fun _ => rfl, outcome.1.changes, ?_⟩
      obtain ⟨_, _, ⟨code, rfl, directory⟩ | ⟨rfl, missing, directory⟩⟩ := outcome
      · exact directory
      · exact ⟨missing, directory⟩
  | remove dir name =>
    refine dir_performed healthy rfl (fun _ => rfl) (fun root own loaded => Or.inr ?_) done
    subst own
    apply (sfsRemove_ensures healthy loaded name).mono
    intro inner after outcome
    refine ⟨held, fun _ => rfl, outcome.1, ?_⟩
    obtain ⟨_, _, ⟨code, rfl, directory⟩ | ⟨i, rfl, found, directory⟩⟩ := outcome
    · exact directory
    · exact ⟨⟨i, found⟩, directory⟩
  | rename d1 n1 d2 n2 =>
    refine dir_performed healthy rfl (fun _ => rfl) (fun root own loaded => ?_) done
    by_cases same : d1 = d2
    · subst same own
      by_cases named : s.directory n1 = some sfsRootLocation
      · exact Or.inl (sfsRename_root healthy loaded n1 n2 named)
      · refine Or.inr ((sfsRename_ensures healthy loaded n1 n2 named).mono ?_)
        intro inner after outcome
        refine ⟨held, fun _ => rfl, outcome.1, ?_⟩
        obtain ⟨_, _, ⟨code, rfl, directory⟩ | ⟨i, rfl, found⟩⟩ := outcome
        · exact directory
        · exact ⟨i, found⟩
    · exact Or.inl (bind_halts (require_neg same))
  | read v request =>
    rcases loaded_or v with absent | ⟨vnode, loaded⟩
    · rw [SfsCall.perform, replyTransfer, bind_halts (withLocal_halts (vopRead_halts absent))] at done
      cases done
    · rw [vopRead_state healthy loaded done]
      exact ⟨held, fun _ => rfl, (Grows.refl healthy).changes.performed rfl⟩
  | write v request =>
    rcases loaded_or v with absent | ⟨vnode, loaded⟩
    · rw [SfsCall.perform, replyTransfer, bind_halts (withLocal_halts (vopWrite_halts absent))] at done
      cases done
    · rcases vopWrite_state healthy loaded done with same | ⟨data, other, wrote⟩
      · rw [same]
        exact ⟨held, fun _ => rfl, (Grows.refl healthy).changes.performed rfl⟩
      · exact ⟨held, fun _ => rfl, wrote.step.performed healthy wrote.consistent other wrote.type wrote.linkcount rfl rfl⟩
  | truncate v len =>
    rw [SfsCall.perform, replyNothing, vopTruncate] at done
    rcases fileOnly_cases healthy v (sfsTruncate v len) with ⟨halts, _⟩ | ⟨vnode, other, loaded, same⟩ | ⟨_, failed⟩
    · rw [bind_halts halts] at done
      cases done
    · obtain ⟨inner, after, computed, rfl, step, consistent, type, linkcount, _⟩ :=
        sfsTruncate_ensures len healthy.consistent loaded
      rw [bind_ok (same.trans computed)] at done
      cases done
      exact ⟨held, fun _ => rfl, step.performed healthy consistent other type linkcount rfl rfl⟩
    · rw [bind_error failed] at done
      cases done
      exact ⟨held, fun _ => rfl, (Grows.refl healthy).changes.performed rfl⟩
  | fsync v =>
    rcases loaded_or v with absent | ⟨vnode, loaded⟩
    · rw [SfsCall.perform, replyNothing, sfsSyncInode, bind_halts (bind_halts (theVnode_halts absent))] at done
      cases done
    · refine plain_performed healthy rfl (fun _ => rfl) ?_ done
      exact (sfsSyncInode_ensures healthy loaded).mono fun _ _ outcome => outcome.2.1
  | incref v =>
    rcases loaded_or v with absent | ⟨vnode, loaded⟩
    · rw [SfsCall.perform, replyNothing, vnodeIncref, bind_halts (bind_halts (theVnode_halts absent))] at done
      cases done
    · refine plain_performed healthy rfl (fun _ => rfl) ?_ done
      exact (vnodeIncref_ensures healthy loaded).mono fun _ _ outcome => outcome.2.1
  | decref v =>
    rcases loaded_or v with absent | ⟨vnode, loaded⟩
    · rw [SfsCall.perform, replyNothing, vnodeDecref, bind_halts (bind_halts (theVnode_halts absent))] at done
      cases done
    · refine plain_performed healthy rfl (fun _ => rfl) ?_ done
      have spare : s.opens v < s.refs v := by
        rw [closed]
        exact healthy.consistent.refs_pos loaded
      exact (vnodeDecref_drops healthy spare).mono fun _ _ outcome => outcome.2.1

end Perform

end Os161
