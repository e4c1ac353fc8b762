import Os161.AddrSpace

/-! The ELF loader. A read says which one it is, so that a file system may answer each differently. -/

namespace Os161.Vm
open Routine

/-- The reads of `load_elf`: the file header, program header `i` in either pass, and segment `i`. -/
inductive ReadCall where
  | ehdr
  | define (i : Nat)
  | load (i : Nat)
  | segment (i : Nat)
  deriving DecidableEq, Repr

/-- `VOP_READ`: the pieces it moves one after the other, and the error it returns
after that. -/
structure File where
  read : ReadCall → (offset : Int) → (resid : Nat) → List (List UInt8) × Option Errno
  bounded : ∀ call offset resid, (read call offset resid).1.flatten.length ≤ resid

def be16 (bytes : List UInt8) (at_ : Nat) : Nat := (bytes.getD at_ 0).toNat * 256 + (bytes.getD (at_ + 1) 0).toNat

def be32 (bytes : List UInt8) (at_ : Nat) : Nat := be16 bytes at_ * 65536 + be16 bytes (at_ + 2)

structure ElfEhdr where
  ident : List UInt8
  type : Nat
  machine : Nat
  version : Nat
  entry : Nat
  phoff : Nat
  phentsize : Nat
  phnum : Nat
  deriving DecidableEq, Repr

def sizeofEhdr : Nat := 52

def elfEhdr (bytes : List UInt8) : ElfEhdr where
  ident := bytes.take 16
  type := be16 bytes 16
  machine := be16 bytes 18
  version := be32 bytes 20
  entry := be32 bytes 24
  phoff := be32 bytes 28
  phentsize := be16 bytes 42
  phnum := be16 bytes 44

def elfIdent : List UInt8 := [0x7f, 0x45, 0x4c, 0x46, 1, 2, 1]

def ElfEhdr.Accepted (eh : ElfEhdr) : Prop :=
  eh.ident.take 7 = elfIdent ∧ eh.version = 1 ∧ eh.type = 2 ∧ eh.machine = 8

instance (eh : ElfEhdr) : Decidable eh.Accepted := inferInstanceAs (Decidable (_ ∧ _))

structure ElfPhdr where
  type : Nat
  offset : Nat
  vaddr : Nat
  filesz : Nat
  memsz : Nat
  deriving DecidableEq, Repr

def sizeofPhdr : Nat := 32

def elfPhdr (bytes : List UInt8) : ElfPhdr where
  type := be32 bytes 0
  offset := be32 bytes 4
  vaddr := be32 bytes 8
  filesz := be32 bytes 16
  memsz := be32 bytes 20

inductive PhdrKind where
  | skip
  | load
  | unknown
  deriving DecidableEq, Repr

def ElfPhdr.kind (ph : ElfPhdr) : PhdrKind :=
  if ph.type = 0 ∨ ph.type = 6 ∨ ph.type = 0x70000000 then .skip
  else if ph.type = 1 then .load
  else .unknown

/-- A read into a kernel buffer of the given size, which must be filled. -/
def File.readWhole (file : File) (call : ReadCall) (offset : Int) (size : Nat) : Except Errno (List UInt8) :=
  match (file.read call offset size).2 with
  | some code => .error code
  | none =>
    if (file.read call offset size).1.flatten.length ≠ size then .error .enoexec
    else .ok (file.read call offset size).1.flatten

/-- The file header, if it is that of an executable for this processor. -/
def File.ehdr (file : File) : Except Errno ElfEhdr := do
  let bytes ← file.readWhole .ehdr 0 sizeofEhdr
  if (elfEhdr bytes).Accepted then return elfEhdr bytes else .error .enoexec

def ElfEhdr.phdrOffset (eh : ElfEhdr) (i : Nat) : Int := offT (eh.phoff + i * eh.phentsize)

/-- A program header, `none` for one that is skipped. Both passes start like this. -/
def File.phdr (file : File) (call : ReadCall) (offset : Int) : Except Errno (Option ElfPhdr) := do
  let bytes ← file.readWhole call offset sizeofPhdr
  match (elfPhdr bytes).kind with
  | .skip => return none
  | .unknown => .error .enoexec
  | .load => return some (elfPhdr bytes)

/-- `uiomove` of one piece to a user address. -/
def moveOut (bytes : List UInt8) (vaddr : Nat) : Routine Errno Machine Unit :=
  if bytes.length = 0 then return () else copyout (fromBuffer bytes) vaddr bytes.length

/-- Piece after piece, the address moves along. -/
def moveAll : List (List UInt8) → (vaddr : Nat) → Routine Errno Machine Unit
  | [], _ => return ()
  | bytes :: rest, vaddr => do
    moveOut bytes vaddr
    moveAll rest ((vaddr + bytes.length) % word)

/-- The pieces of `uiomovezeros`. -/
def zeroPieces (n : Nat) : List (List UInt8) := List.replicate (n / 16) (List.replicate 16 0) ++ [List.replicate (n % 16) 0]

/-- `filesize`, after it was cut to `memsize`. -/
def ElfPhdr.filesize (ph : ElfPhdr) : Nat := min ph.filesz ph.memsz

/-- What the file system delivers of a segment. -/
def File.segment (file : File) (i : Nat) (ph : ElfPhdr) : List (List UInt8) × Option Errno :=
  file.read (.segment i) (offT ph.offset) ph.filesize

def loadSegment (file : File) (i : Nat) (ph : ElfPhdr) : Routine Errno Machine Unit := do
  moveAll (file.segment i ph).1 ph.vaddr
  match (file.segment i ph).2 with
  | some code => fail code
  | none =>
    if (file.segment i ph).1.flatten.length ≠ ph.filesize then fail .enoexec
    else moveAll (zeroPieces (ph.memsz - ph.filesize)) ((ph.vaddr + ph.filesize) % word)

def defineSegments (file : File) (eh : ElfEhdr) : (i left : Nat) → Routine Errno Machine Unit
  | _, 0 => return ()
  | i, left + 1 => do
    match ← finish (file.phdr (.define i) (eh.phdrOffset i)) with
    | none => defineSegments file eh (i + 1) left
    | some ph =>
      let m ← get
      let as ← finish (asDefineRegion m.as ph.vaddr ph.memsz)
      modify fun m => m.setAs as
      defineSegments file eh (i + 1) left

def loadSegments (file : File) (eh : ElfEhdr) : (i left : Nat) → Routine Errno Machine Unit
  | _, 0 => return ()
  | i, left + 1 => do
    match ← finish (file.phdr (.load i) (eh.phdrOffset i)) with
    | none => loadSegments file eh (i + 1) left
    | some ph =>
      loadSegment file i ph
      loadSegments file eh (i + 1) left

def loadElf (file : File) : Routine Errno Machine Nat := do
  let eh ← finish file.ehdr
  defineSegments file eh 0 eh.phnum
  asPrepareLoad
  loadSegments file eh 0 eh.phnum
  return eh.entry

end Os161.Vm
