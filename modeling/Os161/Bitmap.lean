import Os161.Errno
import Os161.Lib.Routine

/-! Arrays of bits, kept in words of one byte. -/

namespace Os161
open Routine

structure Bitmap where
  nbits : UInt32
  v : List UInt8

def wordAllbits : UInt8 := 0xff

def bitMask (offset : Nat) : UInt8 := 1 <<< UInt8.ofNat offset

def bitmapWords (nbits : UInt32) : UInt32 := (nbits + 8 - 1) / 8

/-- Set the bits of the last word from `offset` on, `left` of them. -/
def fillWord : (left offset : Nat) → UInt8 → UInt8
  | 0, _, word => word
  | left + 1, offset, word => fillWord left (offset + 1) (word ||| bitMask offset)

def bitmapCreate (nbits : UInt32) : Bitmap :=
  let words := bitmapWords nbits
  let v := List.replicate words.toNat 0
  if nbits / 8 < words then
    let ix := words - 1
    let overbits := nbits - ix * 8
    { nbits, v := v.modify ix.toNat (fillWord (8 - overbits.toNat) overbits.toNat) }
  else { nbits, v }

def Bitmap.word (b : Bitmap) (ix : Nat) : UInt8 := b.v.getD ix 0

def Bitmap.setWord (b : Bitmap) (ix : Nat) (word : UInt8) : Bitmap := { b with v := b.v.set ix word }

/-- The outer loop of `bitmap_alloc` from word `ix` on, `left` words. -/
def bitmapAllocLoop : (left ix : Nat) → Routine Errno Bitmap UInt32
  | 0, _ => fail .enospc
  | left + 1, ix => do
    let b ← get
    if b.word ix ≠ wordAllbits then
      match (List.range 8).find? fun offset => b.word ix &&& bitMask offset = 0 with
      | none => halt
      | some offset =>
        modify fun b => b.setWord ix (b.word ix ||| bitMask offset)
        let index := UInt32.ofNat (ix * 8 + offset)
        require (index < b.nbits)
        return index
    else bitmapAllocLoop left (ix + 1)

def bitmapAlloc : Routine Errno Bitmap UInt32 := do
  let b ← get
  bitmapAllocLoop (bitmapWords b.nbits).toNat 0

def Bitmap.isset (b : Bitmap) (index : UInt32) : Bool := b.word (index.toNat / 8) &&& bitMask (index.toNat % 8) ≠ 0

def bitmapMark (index : UInt32) : Routine Errno Bitmap Unit := do
  let b ← get
  require (index < b.nbits)
  require (b.isset index = false)
  modify fun b => b.setWord (index.toNat / 8) (b.word (index.toNat / 8) ||| bitMask (index.toNat % 8))

def bitmapUnmark (index : UInt32) : Routine Errno Bitmap Unit := do
  let b ← get
  require (index < b.nbits)
  require (b.isset index = true)
  modify fun b => b.setWord (index.toNat / 8) (b.word (index.toNat / 8) &&& ~~~bitMask (index.toNat % 8))

end Os161
