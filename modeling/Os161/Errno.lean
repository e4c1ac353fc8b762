import Mathlib.Algebra.Group.Int.Defs
import Mathlib.Algebra.GroupWithZero.Nat
import Mathlib.Tactic.Common

/-! Error codes and the 32-bit integer conversions of the C code. -/

namespace Os161

/-- The error codes of `kern/errno.h` that the modelled code returns. -/
inductive Errno where
  | einval | efault | enametoolong | enomem | eio | enoent | enotdir | eisdir | eexist | eagain
  | eunimp | enxio | ebusy | enospc | enoexec | ebadf | exdev | enodev
  deriving DecidableEq, Repr

def Errno.code : Errno → Nat
  | .einval => 1
  | .efault => 2
  | .enametoolong => 3
  | .enomem => 4
  | .eio => 5
  | .enoent => 6
  | .enotdir => 7
  | .eisdir => 8
  | .eexist => 9
  | .exdev => 10
  | .eagain => 11
  | .eunimp => 13
  | .enxio => 14
  | .enodev => 15
  | .ebusy => 16
  | .enospc => 20
  | .enoexec => 24
  | .ebadf => 26

/-- A value stored into an `off_t`, which is a signed 32-bit integer. -/
def offT (value : Int) : Int := value.bmod (2 ^ 32)

def u32 (value : Int) : UInt32 := UInt32.ofNat (value % 2 ^ 32).toNat

def sizeSub (a b : Nat) : Nat := (a + 2 ^ 32 - b) % 2 ^ 32

end Os161
