import Os161.Errno
import Os161.Lib.Routine
import Mathlib.Data.List.Basic

/-! Transfers between a kernel buffer and the data region of a `uio`. -/

namespace Os161
open Routine

inductive UioRw where
  | read
  | write
  deriving DecidableEq, Repr

inductive UioSeg where
  | userspace
  | sysspace
  | userispace
  deriving DecidableEq, Repr

/-- The region is split at the current base: `moved` below it, `rest` what `iov_len` still counts. `faults` tells
the coming copies to user segments which fault, and after how many bytes. -/
structure Uio where
  moved : List UInt8
  rest : List UInt8
  offset : Int
  resid : Nat
  segflg : UioSeg
  rw : UioRw
  faults : Nat → Option Nat

def Uio.iovLen (uio : Uio) : Nat := uio.rest.length

def overlay (bytes region : List UInt8) : List UInt8 := bytes ++ region.drop bytes.length

/-- One copy of `size` bytes, which gives the new contents of the buffer. A faulting copy has stored the bytes below
the fault. -/
def uioCopy (buffer : List UInt8) (size : Nat) : Routine Errno Uio (List UInt8) := do
  let uio ← get
  let fault := if uio.segflg = .sysspace then none else uio.faults 0
  modify fun uio => if uio.segflg = .sysspace then uio else { uio with faults := fun n => uio.faults (n + 1) }
  match uio.rw, fault with
  | .read, none =>
    modify fun uio => { uio with rest := overlay (buffer.take size) uio.rest }
    return buffer
  | .write, none => return overlay (uio.rest.take size) buffer
  | .read, some stored =>
    modify fun uio => { uio with rest := overlay (buffer.take (min stored size)) uio.rest }
    fail .efault
  | .write, some _ => fail .efault

def Uio.advance (uio : Uio) (size : Nat) : Uio :=
  { uio with
    moved := uio.moved ++ uio.rest.take size
    rest := uio.rest.drop size
    resid := sizeSub uio.resid size
    offset := offT (uio.offset + size) }

/-- The loop of `uiomove`. `n` bytes of the buffer are left, at most `fuel`. -/
def uiomoveLoop : (fuel : Nat) → (buffer : List UInt8) → Routine Errno Uio (List UInt8)
  | 0, buffer => return buffer
  | fuel + 1, buffer => do
    let uio ← get
    if buffer.length = 0 ∨ uio.resid = 0 then return buffer
    else
      let size := min uio.iovLen buffer.length
      require (size ≠ 0)
      let filled ← uioCopy buffer size
      modify fun uio => uio.advance size
      let later ← uiomoveLoop fuel (filled.drop size)
      return filled.take size ++ later

/-- Move the kernel buffer, or as much as the uio asks for, and return its new contents. -/
def uiomove (buffer : List UInt8) : Routine Errno Uio (List UInt8) := uiomoveLoop buffer.length buffer

/-- The loop of `uiomovezeros`, in pieces of 16 bytes. -/
def uiomovezerosLoop : (fuel n : Nat) → Routine Errno Uio Unit
  | 0, _ => return ()
  | fuel + 1, n => do
    if n = 0 then return ()
    else
      let amt := min 16 n
      let _ ← uiomove (List.replicate amt 0)
      uiomovezerosLoop fuel (n - amt)

def uiomovezeros (n : Nat) : Routine Errno Uio Unit := do
  let uio ← get
  require (uio.rw = .read)
  uiomovezerosLoop n n

def mkKuio (kbuf : List UInt8) (pos : Int) (rw : UioRw) : Uio where
  moved := []
  rest := kbuf
  offset := pos
  resid := kbuf.length
  segflg := .sysspace
  rw := rw
  faults := fun _ => none

end Os161
