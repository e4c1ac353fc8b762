import Os161.Console
import Os161.Proofs.UserMemory

/-! Which memory `SYS_read` and `SYS_write` touch. Their uio is one for kernel memory, so that the caller's
addresses are never checked. -/

namespace Os161.Con
open Vm Routine

/-- A uio for kernel memory, as `mk_kuio` makes it. -/
structure Uio.Unchecked (uio : Uio) : Prop where
  segflg : uio.segflg = .sysspace
  space : uio.space = none

theorem access_sysspace (t : Terminal) (vaddr : Nat) :
    (access .sysspace vaddr).Allows t fun result after =>
      ∃ paddr, result = .ok paddr ∧ after = { t with touched := vaddr :: t.touched } := by
  simp only [access, allows_bind, allows_get, andThenAllows_ok, allows_require]
  intro _
  cases t.machine.kernelPaddr vaddr with
  | none => simp [fault]
  | some paddr => simp

theorem storeBytes_one (t : Terminal) (dest : Nat) (byte : UInt8) :
    (storeBytes .sysspace dest [byte]).Allows t fun result after =>
      result = .ok () ∧ after.touched = dest :: t.touched := by
  rw [storeBytes, allows_bind]
  refine (access_sysspace t dest).mono fun result after passed => ?_
  obtain ⟨paddr, rfl, rfl⟩ := passed
  simp [storeBytes]

theorem loadBytes_one (t : Terminal) (src : Nat) :
    (loadBytes .sysspace src 1).Allows t fun result after =>
      (∃ bytes, result = .ok bytes) ∧ after.touched = src :: t.touched := by
  rw [loadBytes, allows_bind]
  refine (access_sysspace t src).mono fun result after passed => ?_
  obtain ⟨paddr, rfl, rfl⟩ := passed
  simp [loadBytes]

variable {t : Terminal} {uio : Uio} {rw : UioRw} {tf : Trapframe}

theorem uioCopy_one (unchecked : uio.Unchecked) (ch : UInt8) : (uioCopy [ch] 1).Allows (t, uio) fun result after =>
      (∃ buffer, result = .ok buffer) ∧ after.1.touched = uio.base :: t.touched ∧ after.2 = uio := by
  simp only [uioCopy, allows_bind, allows_get, andThenAllows_ok, unchecked.segflg, true_or, if_true, onTerminal]
  cases uio.rw with
  | read =>
    simp only [allows_bind, allows_zoom, List.take_succ_cons, List.take_zero]
    refine (storeBytes_one t uio.base ch).mono fun result after stored => ?_
    obtain ⟨rfl, touched⟩ := stored
    simp [touched]
  | write =>
    simp only [allows_bind, allows_zoom]
    refine (loadBytes_one t uio.base).mono fun result after loaded => ?_
    obtain ⟨⟨bytes, rfl⟩, touched⟩ := loaded
    simp [touched]

theorem uiomove_one (unchecked : uio.Unchecked) (room : 0 < uio.iovLen) (left : 0 < uio.resid) (ch : UInt8) :
    (uiomove [ch]).Allows (t, uio) fun result after =>
      (∃ buffer, result = .ok buffer) ∧ after.1.touched = uio.base :: t.touched ∧ after.2 = uio.advance 1 := by
  have one : min uio.iovLen 1 = 1 := by omega
  have more : ¬ (1 = 0 ∨ uio.resid = 0) := by omega
  simp only [uiomove, List.length_singleton, uiomoveLoop, allows_bind, allows_get, andThenAllows_ok, allows_require, one]
  intro _
  rw [if_neg more]
  simp only [allows_bind, allows_require, andThenAllows_ok]
  intro _
  refine (uioCopy_one unchecked ch).mono fun result after copied => ?_
  obtain ⟨⟨buffer, rfl⟩, touched, same⟩ := copied
  simp [touched, same]

def Within (base len : Nat) (before after : List Nat) : Prop :=
  ∀ vaddr ∈ after, vaddr ∈ before ∨ ∃ k, k < len ∧ vaddr = (base + k) % word

theorem Within.cons {base len before after} (address : base < word)
    (rest : Within ((base + 1) % word) len (base :: before) after) : Within base (len + 1) before after := by
  intro vaddr member
  rcases rest vaddr member with first | ⟨k, small, same⟩
  · rcases List.mem_cons.mp first with rfl | old
    · exact .inr ⟨0, Nat.succ_pos _, by rw [Nat.add_zero, Nat.mod_eq_of_lt address]⟩
    · exact .inl old
  · refine .inr ⟨k + 1, Nat.succ_lt_succ small, ?_⟩
    rw [same, Nat.mod_add_mod]
    congr 1
    omega

/-- The transfer is never refused, and all it touches is the range of the request. -/
theorem conIoLoop_within {left} (unchecked : uio.Unchecked) (room : uio.iovLen = left)
    (resid : uio.resid = left) (size : left < 2 ^ 32) (address : uio.base < word) :
    (conIoLoop left).Allows (t, uio) fun result after =>
      result = .ok () ∧ Within uio.base left t.touched after.1.touched := by
  induction left generalizing t uio with
  | zero =>
    simp only [conIoLoop, allows_pure, true_and]
    exact fun vaddr member => .inl member
  | succ left ih =>
    have advanced : (uio.advance 1).iovLen = left ∧ (uio.advance 1).resid = left := by
      simp only [Uio.advance, sizeSub, room, resid]
      omega
    have further (t' : Terminal) (touched : t'.touched = uio.base :: t.touched) :
        (conIoLoop left).Allows (t', uio.advance 1) fun result after =>
          result = .ok () ∧ Within uio.base (left + 1) t.touched after.1.touched := by
      have rest := @ih t' (uio.advance 1) ⟨unchecked.segflg, unchecked.space⟩ advanced.1 advanced.2 (by omega)
      refine (rest ?_).mono ?_
      · exact Nat.mod_lt _ (Nat.two_pow_pos 32)
      · rintro result after ⟨done, within⟩
        rw [touched] at within
        exact ⟨done, within.cons address⟩
    have first (t' : Terminal) (touched : t'.touched = uio.base :: t.touched) :
        Within uio.base (left + 1) t.touched t'.touched := by
      rw [touched]
      exact Within.cons address fun vaddr member => .inl member
    rw [conIoLoop]
    simp only [allows_bind, allows_get, andThenAllows_ok]
    rw [if_neg (by omega)]
    cases uio.rw with
    | read =>
      simp only [onTerminal, getch, allows_bind, allows_zoom, allows_get, allows_modify, allows_pure, andThenAllows_ok]
      generalize (if t.typed 0 = 0x0d then (0x0a : UInt8) else t.typed 0) = ch
      refine (uiomove_one unchecked (by omega) (by omega) ch).mono fun result after moved => ?_
      obtain ⟨t', uio'⟩ := after
      obtain ⟨⟨buffer, rfl⟩, touched, rfl⟩ := moved
      simp only [andThenAllows_ok]
      split
      · simp only [allows_pure, true_and]
        exact first t' touched
      · exact further t' touched
    | write =>
      simp only [allows_bind]
      refine (uiomove_one unchecked (by omega) (by omega) _).mono fun result after moved => ?_
      obtain ⟨t', uio'⟩ := after
      obtain ⟨⟨buffer, rfl⟩, touched, rfl⟩ := moved
      simp only [andThenAllows_ok]
      split
      · exact further _ touched
      · exact further _ touched

theorem sysConsole_within (t : Terminal) (granted : Bool) (fileno buf size : UInt32) (rw : UioRw) :
    (sysConsole granted fileno fileno buf size rw).Allows t fun result after =>
      (∃ retval, result = .ok retval) ∧ Within buf.toNat size.toNat t.touched after.touched := by
  simp only [sysConsole, ne_eq, not_true_eq_false, if_false, allows_bind, allows_require, andThenAllows_ok,
    allows_withLocal, conIo, allows_get]
  intro _
  refine (@conIoLoop_within _ (mkKuio buf.toNat size.toNat 0 rw) _ ⟨rfl, rfl⟩ rfl rfl size.toNat_lt buf.toNat_lt).mono ?_
  rintro result after ⟨done, within⟩
  subst done
  simp only [returned, Nat.zero_ne_one, if_false, allows_pure, Except.ok.injEq, exists_eq', true_and]
  exact within

def UserMemory (m : Machine) (vaddr : Nat) : Prop := vaddr < userTop ∧ m.as.Ready ∧ m.as.Mapped vaddr

def OwnRange (m : Machine) (buf size : UInt32) : Prop := ∀ k, k < size.toNat → UserMemory m (buf.toNat + k)

def fileno : UioRw → UInt32
  | .read => stdinFileno
  | .write => stdoutFileno

/-- Only the caller's memory is touched, and a range not all in it is an error that leaves kernel memory alone:
`EFAULT`, but `EBADF` for another descriptor. -/
structure CallConfined (granted : Bool) (rw : UioRw) (tf : Trapframe) (t : Terminal) : Prop where
  touched : ∀ tf' t', mipsSyscall granted rw tf t = some (.ok tf', t') →
    ∀ vaddr ∈ t'.touched, vaddr ∈ t.touched ∨ UserMemory t.machine vaddr
  refused : ¬ OwnRange t.machine tf.a1 tf.a2 → ∃ tf' t', mipsSyscall granted rw tf t = some (.ok tf', t') ∧
    tf'.a3 = 1 ∧ tf'.v0 = (if tf.a0 = fileno rw then UInt32.ofNat Errno.efault.code else UInt32.ofNat Errno.ebadf.code) ∧
    ∀ paddr, (∀ vaddr, vaddr < userTop → t.machine.as.translate vaddr ≠ some paddr) →
      t'.machine.ram paddr = t.machine.ram paddr

theorem sysConsole_refuses {fileno fd} (wrong : fd ≠ fileno) (granted : Bool) (buf size : UInt32) (rw : UioRw)
    (t : Terminal) : sysConsole granted fileno fd buf size rw t = some (.error .ebadf, t) := by
  rw [sysConsole, if_pos wrong]
  rfl

theorem mipsSyscall_refuses (wrong : tf.a0 ≠ fileno rw) (granted : Bool) (t : Terminal) : mipsSyscall granted rw tf t =
      some (.ok { tf with v0 := UInt32.ofNat Errno.ebadf.code, a3 := 1, epc := tf.epc + 4 }, t) := by
  cases rw with
  | read =>
    have refused : sysRead granted tf.a0 tf.a1 tf.a2 t = some (.error .ebadf, t) := sysConsole_refuses wrong ..
    rw [mipsSyscall, bind_ok (attempt_eq refused)]
    rfl
  | write =>
    have refused : sysWrite granted tf.a0 tf.a1 tf.a2 t = some (.error .ebadf, t) := sysConsole_refuses wrong ..
    rw [mipsSyscall, bind_ok (attempt_eq refused)]
    rfl

theorem mipsSyscall_within (right : tf.a0 = fileno rw) (granted : Bool) (t : Terminal) :
    (mipsSyscall granted rw tf).Allows t fun result after =>
      (∃ tf', result = .ok tf' ∧ tf'.a3 = 0) ∧ Within tf.a1.toNat tf.a2.toNat t.touched after.touched := by
  simp only [mipsSyscall, allows_bind, allows_attempt]
  cases rw with
  | read =>
    simp only [sysRead, right]
    refine (sysConsole_within t granted stdinFileno tf.a1 tf.a2 .read).mono ?_
    rintro result after ⟨⟨retval, rfl⟩, within⟩
    simpa using within
  | write =>
    simp only [sysWrite, right]
    refine (sysConsole_within t granted stdoutFileno tf.a1 tf.a2 .write).mono ?_
    rintro result after ⟨⟨retval, rfl⟩, within⟩
    simpa using within

/-- A call is confined exactly when the caller asks for nothing else. -/
theorem user_memory_confined_iff (granted : Bool) (rw : UioRw) (tf : Trapframe) (t : Terminal) :
    CallConfined granted rw tf t ↔ tf.a0 ≠ fileno rw ∨ OwnRange t.machine tf.a1 tf.a2 := by
  constructor
  · intro confined
    by_contra! outside
    obtain ⟨right, foreign⟩ := outside
    obtain ⟨tf', t', computed, failed, _⟩ := confined.refused foreign
    obtain ⟨⟨other, same, succeeded⟩, _⟩ := mipsSyscall_within right granted t _ _ computed
    cases same
    rw [succeeded] at failed
    cases failed
  · rintro (wrong | own)
    · have computed := mipsSyscall_refuses wrong granted t
      refine ⟨fun tf' t' other vaddr member => ?_, fun _ => ⟨_, t, computed, rfl, (if_neg wrong).symm, fun _ _ => rfl⟩⟩
      rw [computed] at other
      cases other
      exact .inl member
    · refine ⟨fun tf' t' computed vaddr member => ?_, fun foreign => absurd own foreign⟩
      by_cases right : tf.a0 = fileno rw
      · rcases (mipsSyscall_within right granted t _ _ computed).2 vaddr member with before | ⟨k, small, rfl⟩
        · exact .inl before
        · have user := own k small
          have fits : tf.a1.toNat + k < word := Nat.lt_trans user.1 (by decide)
          rw [Nat.mod_eq_of_lt fits]
          exact .inr user
      · rw [mipsSyscall_refuses right granted t] at computed
        cases computed
        exact .inl member

def twoPages : Terminal where
  machine := ⟨fun _ => 0, 0x2000, by decide, ⟨[], 0x1000⟩, fun _ => asCreate, 1, 0, Nat.one_pos⟩
  typed := fun n => if n = 0 then 0x41 else 0x0a
  printed := []
  touched := []

def intoKernel : Trapframe := ⟨5, 0, 0x80001000, 4, 0, 0⟩

/-- The call stores what was typed into kernel memory and reports success. -/
theorem read_into_kernel :
    (∃ tf' t', mipsSyscall true .read intoKernel twoPages = some (.ok tf', t') ∧ tf'.a3 = 0 ∧ tf'.v0 = 2 ∧
      t'.touched = [0x80001001, 0x80001000] ∧ twoPages.machine.ram 0x1000 = 0 ∧ t'.machine.ram 0x1000 = 0x41) ∧
    ¬ CallConfined true .read intoKernel twoPages := by
  have computed : (mipsSyscall true .read intoKernel twoPages).map (fun outcome =>
      (outcome.1.toOption.map fun tf => (tf.a3, tf.v0), outcome.2.touched, outcome.2.machine.ram 0x1000)) =
        some (some (0, 2), [0x80001001, 0x80001000], 0x41) := by decide +kernel
  obtain ⟨⟨result, t'⟩, run, seen⟩ := Option.map_eq_some_iff.mp computed
  simp only [Prod.mk.injEq] at seen
  obtain ⟨registers, touched, stored⟩ := seen
  obtain ⟨tf', rfl, succeeded, retval⟩ : ∃ tf', result = .ok tf' ∧ tf'.a3 = 0 ∧ tf'.v0 = 2 := by
    cases result with
    | error code => cases registers
    | ok tf' => exact ⟨tf', rfl, Prod.mk.inj (Option.some.inj registers)⟩
  refine ⟨⟨tf', t', run, succeeded, retval, touched, rfl, stored⟩, fun confined => ?_⟩
  rcases confined.touched tf' t' run 0x80001000 (by rw [touched]; decide) with before | ⟨user, _⟩
  · cases before
  · exact absurd user (by decide)

end Os161.Con
