import Os161.AddrSpace

/-! The range check of `copyinout.c`, and strings copied from user memory. -/

namespace Os161.Vm
open Routine

/-- The result is `*stoplen`. -/
def copycheck (userptr len : Nat) : Except Errno Nat :=
  let bot := userptr
  let top := (bot + len + word - 1) % word
  if top < bot then .error .efault
  else if userTop ≤ bot then .error .efault
  else if userTop ≤ top then .ok (userTop - bot)
  else .ok len

/-- What `copyin` and `copyout` check before they copy: a block cannot be truncated. -/
def checkBlock (userptr len : Nat) : Except Errno Unit := do
  let stoplen ← copycheck userptr len
  if stoplen ≠ len then throw .efault

/-- The buffer at `dest` and `*gotlen`. The addresses read and the indices written are not in the source. -/
structure Copying where
  dest : Nat → UInt8
  gotlen : Option Nat
  reads : List Nat
  writes : List Nat

/-- A load from user memory; `copyfail` makes a fault an `EFAULT` of the caller. -/
def fetch (memory : Nat → Option UInt8) (vaddr : Nat) : Routine Errno Copying UInt8 := do
  modify fun c => { c with reads := vaddr :: c.reads }
  match memory vaddr with
  | some byte => return byte
  | none => fail .efault

/-- The loop of `copystr`, which has `left` rounds to go. It tells whether it found a NUL. -/
def copystrLoop (memory : Nat → Option UInt8) (src : Nat) : (i left : Nat) → Routine Errno Copying Bool
  | _, 0 => return false
  | i, left + 1 => do
    let byte ← fetch memory (src + i)
    modify fun c => { c with dest := Function.update c.dest i byte, writes := i :: c.writes }
    let last ← fetch memory (src + i)
    if last = 0 then
      modify fun c => { c with gotlen := some (i + 1) }
      return true
    else copystrLoop memory src (i + 1) left

def copystr (memory : Nat → Option UInt8) (src maxlen stoplen : Nat) : Routine Errno Copying Unit := do
  let found ← copystrLoop memory src 0 (min maxlen stoplen)
  if found then return ()
  else if stoplen < maxlen then fail .efault
  else fail .enametoolong

def copyinstr (memory : Nat → Option UInt8) (usersrc len : Nat) : Routine Errno Copying Unit := do
  let stoplen ← finish (copycheck usersrc len)
  copystr memory usersrc len stoplen

end Os161.Vm
