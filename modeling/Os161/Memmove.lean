/-! `memcpy` and `memmove` of the C library. Memory is a byte for each address, and the ranges do
not wrap around. -/

namespace Os161.Libc

abbrev Memory := Nat → UInt8

def sizeofLong : Nat := 4

/-- `d[i] = s[i]` for elements of `size` bytes. -/
def assign (size d s i : Nat) (memory : Memory) : Memory := fun address =>
  if d + size * i ≤ address ∧ address < d + size * i + size then memory (s + (address - d)) else memory address

/-- The loop of `memcpy`, with `i` from 0 up. -/
def copyUp (size d s : Nat) : Nat → Memory → Memory
  | 0, memory => memory
  | i + 1, memory => assign size d s i (copyUp size d s i memory)

/-- The loop of `memmove`, with `i` down to 1. -/
def copyDown (size d s : Nat) : Nat → Memory → Memory
  | 0, memory => memory
  | i + 1, memory => copyDown size d s i (assign size d s i memory)

def byWords (dst src len : Nat) : Prop := dst % sizeofLong = 0 ∧ src % sizeofLong = 0 ∧ len % sizeofLong = 0
  deriving Decidable

def memcpy (dst src len : Nat) (memory : Memory) : Nat × Memory :=
  if byWords dst src len then (dst, copyUp sizeofLong dst src (len / sizeofLong) memory)
  else (dst, copyUp 1 dst src len memory)

def memmove (dst src len : Nat) (memory : Memory) : Nat × Memory :=
  if dst < src then memcpy dst src len memory
  else if byWords dst src len then (dst, copyDown sizeofLong dst src (len / sizeofLong) memory)
  else (dst, copyDown 1 dst src len memory)

end Os161.Libc
