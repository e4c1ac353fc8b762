import Os161.Copyinout
import Os161.Proofs.UserMemory

/-! Which blocks and strings of user memory the kernel agrees to copy. -/

namespace Os161.Vm
open Routine

section Blocks

variable {userptr len : Nat} (address : userptr < word)
include address

theorem copycheck_empty : copycheck userptr 0 = if userptr = 0 then .ok userTop else .error .efault := by
  by_cases zero : userptr = 0
  · subst zero
    rfl
  · have wraps : (userptr + 0 + word - 1) % word < userptr := by
      simp only [word] at address ⊢
      omega
    simp only [copycheck]
    rw [if_pos wraps, if_neg zero]

theorem checkBlock_empty : checkBlock userptr 0 = .error .efault := by
  rw [checkBlock, copycheck_empty address]
  by_cases zero : userptr = 0
  · rw [if_pos zero]
    rfl
  · rw [if_neg zero]
    rfl

theorem copycheck_nonempty (size : len ≤ word) (nonempty : 0 < len) :
    copycheck userptr len =
      if word < userptr + len ∨ userTop ≤ userptr then .error .efault else .ok (min len (userTop - userptr)) := by
  by_cases wraps : word < userptr + len
  · have below : (userptr + len + word - 1) % word < userptr := by
      simp only [word] at address size wraps ⊢
      omega
    simp only [copycheck]
    rw [if_pos below, if_pos (Or.inl wraps)]
  · have top : (userptr + len + word - 1) % word = userptr + len - 1 := by
      simp only [word] at wraps ⊢
      omega
    simp only [copycheck, top]
    rw [if_neg (by omega)]
    by_cases kernel : userTop ≤ userptr
    · rw [if_pos kernel, if_pos (Or.inr kernel)]
    · rw [if_neg kernel, if_neg (not_or.mpr ⟨wraps, kernel⟩)]
      split
      · rw [min_eq_right (by omega)]
      · rw [min_eq_left (by omega)]

theorem checkBlock_ok (size : len < word) : checkBlock userptr len = .ok () ↔ Copycheck userptr len := by
  rcases Nat.eq_zero_or_pos len with rfl | nonempty
  · rw [checkBlock_empty address]
    refine iff_of_false (by rintro ⟨⟩) fun passed => ?_
    simp only [Copycheck, userTop, mipsKseg0, word] at address passed
    omega
  · rw [checkBlock, copycheck_nonempty address (Nat.le_of_lt size) nonempty,
      copycheck_iff address nonempty (Nat.le_of_lt size)]
    by_cases rejected : word < userptr + len ∨ userTop ≤ userptr
    · rw [if_pos rejected]
      simp only [userTop, mipsKseg0, word] at rejected ⊢
      exact iff_of_false (by rintro ⟨⟩) (by omega)
    · rw [if_neg rejected]
      by_cases whole : userptr + len ≤ userTop
      · exact iff_of_true (if_neg (by omega)) whole
      · refine iff_of_false (fun passed => ?_) whole
        cases (if_pos (by omega)).symm.trans passed

/-- The check is right about every block but the empty ones below `USERTOP`. -/
theorem user_range_check_iff (size : len < word) :
    ((checkBlock userptr len = .ok () ↔ userptr < userTop ∧ userptr + len ≤ userTop) ∧
      ∀ stoplen, copycheck userptr len = .ok stoplen → stoplen = min len (userTop - userptr)) ↔
    0 < len ∨ userTop ≤ userptr := by
  constructor
  · rintro ⟨accepts, -⟩
    by_contra empty
    obtain rfl : len = 0 := by omega
    have accepted := accepts.mpr (by omega)
    rw [checkBlock_empty address] at accepted
    cases accepted
  · intro proper
    by_cases nonempty : 0 < len
    · have atMost := Nat.le_of_lt size
      rw [checkBlock_ok address size, copycheck_iff address nonempty atMost, copycheck_nonempty address atMost nonempty]
      refine ⟨by omega, fun stoplen passed => ?_⟩
      split at passed
      · cases passed
      · exact (Except.ok.inj passed).symm
    · obtain rfl : len = 0 := by omega
      have above : userTop ≤ userptr := by omega
      rw [checkBlock_empty address]
      refine ⟨⟨nofun, by omega⟩, fun stoplen passed => ?_⟩
      rw [copycheck_empty address] at passed
      split at passed
      next zero => exact absurd above (zero ▸ by decide)
      next => cases passed

end Blocks

theorem user_range_check_page : 4096 < word ∧ 16 < word ∧
    ((checkBlock 4096 16 = .ok () ↔ 4096 < userTop ∧ 4096 + 16 ≤ userTop) ∧
      ∀ stoplen, copycheck 4096 16 = .ok stoplen → stoplen = min 16 (userTop - 4096)) :=
  ⟨by decide, by decide, (user_range_check_iff (by decide) (by decide)).mpr (Or.inl (by decide))⟩

/-- Nothing is to be fetched, but the caller is told of a fault; at address 0 all user memory can be fetched. -/
theorem empty_block_rejected : checkBlock 0x400000 0 = .error .efault ∧ copycheck 0 0 = .ok userTop := by
  decide

section Strings

variable {memory : Nat → Option UInt8} {bytes start : Nat → UInt8} {src i left : Nat} {c : Copying}

/-- The first `n` bytes were fetched, and nothing else was touched. -/
structure Fetched (bytes : Nat → UInt8) (src : Nat) (start : Nat → UInt8) (n : Nat) (c : Copying) : Prop where
  dest : ∀ j, c.dest j = if j < n then bytes (src + j) else start j
  reads : ∀ vaddr ∈ c.reads, vaddr < src + n
  writes : ∀ j ∈ c.writes, j < n

theorem fetch_readable {vaddr} (readable : memory vaddr = some (bytes vaddr)) (c : Copying) :
    fetch memory vaddr c = some (.ok (bytes vaddr), { c with reads := vaddr :: c.reads }) := by
  rw [fetch, bind_ok rfl, readable]
  rfl

theorem Fetched.next (fetched : Fetched bytes src start i c) :
    Fetched bytes src start (i + 1) { c with
      dest := Function.update c.dest i (bytes (src + i)), reads := (src + i) :: (src + i) :: c.reads
      writes := i :: c.writes } := by
  refine ⟨fun j => ?_, fun vaddr listed => ?_, fun j listed => ?_⟩
  · change Function.update c.dest i (bytes (src + i)) j = _
    by_cases this : j = i
    · rw [this, Function.update_self, if_pos (Nat.lt_succ_self i)]
    · rw [Function.update_of_ne this, fetched.dest]
      exact if_congr (by omega) rfl rfl
  · simp only [List.mem_cons] at listed
    rcases listed with rfl | rfl | listed
    · omega
    · omega
    · exact Nat.lt_succ_of_lt (fetched.reads vaddr listed)
  · rcases List.mem_cons.mp listed with rfl | listed
    · exact Nat.lt_succ_self j
    · exact Nat.lt_succ_of_lt (fetched.writes j listed)

def FirstNul (bytes : Nat → UInt8) (src k : Nat) : Prop := bytes (src + k) = 0 ∧ ∀ j, j < k → bytes (src + j) ≠ 0

theorem copystrLoop_copies (readable : ∀ j, j < i + left → memory (src + j) = some (bytes (src + j)))
    (fetched : Fetched bytes src start i c) (nonzero : ∀ j, j < i → bytes (src + j) ≠ 0) :
    (copystrLoop memory src i left).Ensures c fun result after =>
      (∃ k, k < i + left ∧ FirstNul bytes src k ∧ result = .ok true ∧ Fetched bytes src start (k + 1) after ∧
        after.gotlen = some (k + 1)) ∨
      ((∀ j, j < i + left → bytes (src + j) ≠ 0) ∧ result = .ok false ∧ Fetched bytes src start (i + left) after) := by
  induction left generalizing i c with
  | zero => exact .of_eq rfl (Or.inr ⟨nonzero, rfl, fetched⟩)
  | succ left ih =>
    have here := readable i (by omega)
    refine .step (fetch_readable here c) (.step rfl (.step (fetch_readable here _) ?_))
    split
    next zero =>
      obtain ⟨dest, reads, writes⟩ := fetched.next
      exact .of_eq rfl (Or.inl ⟨i, by omega, ⟨zero, nonzero⟩, rfl, ⟨dest, reads, writes⟩, rfl⟩)
    next more =>
      rw [Nat.add_comm left, ← Nat.add_assoc] at readable ⊢
      refine ih readable fetched.next fun j below => ?_
      by_cases this : j = i
      · exact this ▸ more
      · exact nonzero j (by omega)

theorem FirstNul.unique {first second} (one : FirstNul bytes src first) (other : FirstNul bytes src second) :
    first = second := by
  rcases Nat.lt_trichotomy first second with less | same | more
  · exact absurd one.1 (other.2 first less)
  · exact same
  · exact absurd other.1 (one.2 second more)

variable {len : Nat}

theorem Fetched.within {n} (fetched : Fetched bytes src start n c) (room : n ≤ min len (userTop - src))
    (user : src ≤ userTop) : (∀ vaddr ∈ c.reads, vaddr < userTop) ∧ ∀ j ∈ c.writes, j < len := by
  refine ⟨fun vaddr listed => ?_, fun j listed => ?_⟩
  · have := fetched.reads vaddr listed
    omega
  · have := fetched.writes j listed
    omega

theorem copyinstr_copies (user : src < userTop) (nonempty : 1 ≤ len) (unwrapped : src + len - 1 < word)
    (readable : ∀ vaddr, vaddr < userTop → memory vaddr = some (bytes vaddr)) (dest : Nat → UInt8) :
    (copyinstr memory src len).Ensures ⟨dest, none, [], []⟩ fun result after =>
      (result = .ok () ↔ ∃ k, k < min len (userTop - src) ∧ bytes (src + k) = 0) ∧
      (∀ k, result = .ok () → FirstNul bytes src k →
        (∀ j, after.dest j = if j < k + 1 then bytes (src + j) else dest j) ∧ after.gotlen = some (k + 1)) ∧
      (result ≠ .ok () → (result = .error .efault ↔ userTop - src < len) ∧
        (result = .error .enametoolong ↔ ¬ userTop - src < len)) ∧
      (∀ vaddr ∈ after.reads, vaddr < userTop) ∧ ∀ j ∈ after.writes, j < len := by
  have passed : copycheck src len = .ok (min len (userTop - src)) := by
    simp only [userTop, mipsKseg0, word] at user unwrapped
    rw [copycheck_nonempty (by simp only [word]; omega) (by simp only [word]; omega) nonempty, if_neg]
    simp only [userTop, mipsKseg0, word]
    omega
  have limit : min len (min len (userTop - src)) = min len (userTop - src) := by omega
  have begun : Fetched bytes src dest 0 ⟨dest, none, [], []⟩ := ⟨fun _ => rfl, by rintro _ ⟨⟩, by rintro _ ⟨⟩⟩
  rw [copyinstr, passed]
  refine .step rfl ?_
  simp only [copystr, limit]
  rw [ensures_bind]
  refine (copystrLoop_copies (fun j below => readable (src + j) (by omega)) begun (by rintro _ ⟨⟩)).mono fun result after outcome => ?_
  rw [Nat.zero_add] at outcome
  rcases outcome with ⟨k, below, found, rfl, fetched, gotlen⟩ | ⟨nowhere, rfl, fetched⟩
  · refine .of_eq rfl ⟨⟨fun _ => ⟨k, below, found.1⟩, fun _ => rfl⟩, ?_, absurd rfl, fetched.within below (by omega)⟩
    intro other _ also
    rw [also.unique found]
    exact ⟨fetched.dest, gotlen⟩
  · have clear : ¬ ∃ k, k < min len (userTop - src) ∧ bytes (src + k) = 0 := by
      rintro ⟨k, below, zero⟩
      exact nowhere k below zero
    have inside := fetched.within (Nat.le_refl _) (by omega)
    by_cases boundary : userTop - src < len
    · rw [if_pos (by omega)]
      exact .of_eq rfl ⟨⟨by rintro ⟨⟩, fun has => absurd has clear⟩, by rintro _ ⟨⟩,
        fun _ => ⟨iff_of_true rfl boundary, iff_of_false (by rintro ⟨⟩) (not_not_intro boundary)⟩, inside⟩
    · rw [if_neg (by omega)]
      exact .of_eq rfl ⟨⟨by rintro ⟨⟩, fun has => absurd has clear⟩, by rintro _ ⟨⟩,
        fun _ => ⟨iff_of_false (by rintro ⟨⟩) boundary, iff_of_true rfl boundary⟩, inside⟩

theorem copyinstr_copies_text : 8 < userTop ∧ 1 ≤ 4 ∧ 8 + 4 - 1 < word ∧
    (copyinstr (fun vaddr => if vaddr < userTop then some 0 else none) 8 4).Ensures ⟨fun _ => 1, none, [], []⟩
      fun result after => result = .ok () ∧ after.dest 0 = 0 ∧ after.dest 1 = 1 := by
  refine ⟨by decide, by decide, by decide, ?_⟩
  refine (@copyinstr_copies _ (fun _ => 0) 8 4 (by decide) (by decide) (by decide) (fun _ user => if_pos user)
    fun _ => 1).mono fun result after ⟨ok, fetched, _⟩ => ?_
  have passed := ok.mpr ⟨0, by decide, rfl⟩
  have dest := (fetched 0 passed ⟨rfl, nofun⟩).1
  exact ⟨passed, dest 0, dest 1⟩

end Strings

end Os161.Vm
