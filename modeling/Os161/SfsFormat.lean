import Os161.SfsIo

/-! The on-disk format of SFS, as the big-endian kernel lays its structures out. -/

namespace Os161

def sfsMagic : UInt32 := 0xabadf001
def sfsNdirect : Nat := 15
def sfsDbperidb : Nat := 128
def sfsNamelen : Nat := 60
def sfsSbLocation : UInt32 := 0
def sfsRootLocation : UInt32 := 1
def sfsMapLocation : UInt32 := 2
def sfsNoino : UInt32 := 0

def sfsTypeInval : UInt16 := 0
def sfsTypeFile : UInt16 := 1
def sfsTypeDir : UInt16 := 2

/-- `SFS_BITMAPSIZE`: the number of blocks rounded up to whole bitmap blocks. -/
def sfsBitmapsize (nblocks : UInt32) : UInt32 := (nblocks + 4096 - 1) / 4096 * 4096

def sfsBitblocks (nblocks : UInt32) : UInt32 := sfsBitmapsize nblocks / 4096

/-- Byte `k` of a 32-bit word in memory. -/
def byteOf (word : UInt32) (k : Nat) : UInt8 := UInt8.ofNat (word.toNat / 256 ^ (3 - k))

def wordOf (a b c d : UInt8) : UInt32 :=
  UInt32.ofNat (((a.toNat * 256 + b.toNat) * 256 + c.toNat) * 256 + d.toNat)

theorem wordOf_byteOf (word : UInt32) :
    wordOf (byteOf word 0) (byteOf word 1) (byteOf word 2) (byteOf word 3) = word := by
  apply UInt32.toNat_inj.mp
  have bound := word.toNat_lt
  simp only [wordOf, byteOf, UInt32.toNat_ofNat', UInt8.toNat_ofNat']
  omega

/-- A block seen as an array of words, such as the buffer of an indirect block. -/
abbrev Words := Fin 128 → UInt32

instance words_positive : NeZero 128 := ⟨by decide⟩

def Words.zeros : Words := fun _ => 0

def Words.ofBlock (block : Block) : Words := fun k =>
  wordOf (block ⟨4 * k, by omega⟩) (block ⟨4 * k + 1, by omega⟩) (block ⟨4 * k + 2, by omega⟩) (block ⟨4 * k + 3, by omega⟩)

def Words.toBlock (words : Words) : Block := fun i => byteOf (words ⟨i / 4, by omega⟩) (i % 4)

theorem Words.ofBlock_toBlock (words : Words) : Words.ofBlock words.toBlock = words := by
  funext k
  have quotient (r : Nat) (small : r < 4) (inside : (4 * k + r) / 4 < 128) :
      (⟨(4 * k + r) / 4, inside⟩ : Fin 128) = k := by
    apply Fin.ext
    simp only
    omega
  have remainder (r : Nat) (small : r < 4) : (4 * k + r) % 4 = r := by omega
  have first := quotient 0 (by decide)
  have start := remainder 0 (by decide)
  rw [Nat.add_zero] at first start
  simp only [Words.ofBlock, Words.toBlock, first, start, quotient 1 (by decide), quotient 2 (by decide),
    quotient 3 (by decide), remainder 1 (by decide), remainder 2 (by decide), remainder 3 (by decide), wordOf_byteOf]

theorem Words.ofBlock_zeros : Words.ofBlock Block.zeros = Words.zeros := by
  have zero : wordOf 0 0 0 0 = 0 := by decide
  funext k
  exact zero

/-- Two 16-bit fields share a word, the first one in its upper half. -/
def halvesOf (upper lower : UInt16) : UInt32 := UInt32.ofNat (upper.toNat * 65536 + lower.toNat)

def upperOf (word : UInt32) : UInt16 := UInt16.ofNat (word.toNat / 65536)

def lowerOf (word : UInt32) : UInt16 := UInt16.ofNat word.toNat

theorem upperOf_halvesOf (upper lower : UInt16) : upperOf (halvesOf upper lower) = upper := by
  apply UInt16.toNat_inj.mp
  have first := upper.toNat_lt
  have second := lower.toNat_lt
  simp only [upperOf, halvesOf, UInt32.toNat_ofNat', UInt16.toNat_ofNat']
  omega

theorem lowerOf_halvesOf (upper lower : UInt16) : lowerOf (halvesOf upper lower) = lower := by
  apply UInt16.toNat_inj.mp
  have first := upper.toNat_lt
  have second := lower.toNat_lt
  simp only [lowerOf, halvesOf, UInt32.toNat_ofNat', UInt16.toNat_ofNat']
  omega

structure SfsInode where
  size : UInt32
  type : UInt16
  linkcount : UInt16
  direct : Fin 15 → UInt32
  indirect : UInt32
  waste : Fin 110 → UInt32

def SfsInode.ofBlock (block : Block) : SfsInode :=
  let words := Words.ofBlock block
  { size := words 0
    type := upperOf (words 1)
    linkcount := lowerOf (words 1)
    direct := fun i => words ⟨2 + i, by omega⟩
    indirect := words 17
    waste := fun i => words ⟨18 + i, by omega⟩ }

def SfsInode.toWords (inode : SfsInode) : Words := fun k =>
  if k = 0 then inode.size
  else if k = 1 then halvesOf inode.type inode.linkcount
  else if direct : k.val < 17 then inode.direct ⟨k.val - 2, by omega⟩
  else if k.val = 17 then inode.indirect
  else inode.waste ⟨k.val - 18, by omega⟩

def SfsInode.toBlock (inode : SfsInode) : Block := inode.toWords.toBlock

theorem SfsInode.ofBlock_toBlock (inode : SfsInode) : SfsInode.ofBlock inode.toBlock = inode := by
  obtain ⟨size, type, linkcount, direct, indirect, waste⟩ := inode
  simp only [SfsInode.ofBlock, SfsInode.toBlock, Words.ofBlock_toBlock, SfsInode.mk.injEq]
  refine ⟨rfl, upperOf_halvesOf _ _, lowerOf_halvesOf _ _, ?_, rfl, ?_⟩
  · funext i
    have later : ¬ (⟨2 + i, by omega⟩ : Fin 128) = 0 ∧ ¬ (⟨2 + i, by omega⟩ : Fin 128) = 1 := by
      constructor <;> (intro same; have := congrArg Fin.val same; simp at this; try omega)
    have inside : 2 + i.val < 17 := by omega
    have index : (⟨2 + i.val - 2, by omega⟩ : Fin 15) = i := Fin.ext (Nat.add_sub_cancel_left 2 i.val)
    simp only [SfsInode.toWords, if_neg later.1, if_neg later.2, dif_pos inside, index]
  · funext i
    have later : ¬ (⟨18 + i, by omega⟩ : Fin 128) = 0 ∧ ¬ (⟨18 + i, by omega⟩ : Fin 128) = 1 := by
      constructor <;> (intro same; have := congrArg Fin.val same; simp at this; try omega)
    have outside : ¬ 18 + i.val < 17 := by omega
    have behind : ¬ 18 + i.val = 17 := by omega
    have index : (⟨18 + i.val - 18, by omega⟩ : Fin 110) = i := Fin.ext (Nat.add_sub_cancel_left 18 i.val)
    simp only [SfsInode.toWords, if_neg later.1, if_neg later.2, dif_neg outside, if_neg behind, index]

/-- A C string without its terminator. -/
abbrev CString := { bytes : List UInt8 // 0 ∉ bytes }

theorem letter_ends : 0 ∉ [(118 : UInt8)] := by decide

/-- The on-disk directory entry; `name` is the array of 60 characters. -/
structure SfsDir where
  ino : UInt32
  name : List UInt8
  deriving DecidableEq

def SfsDir.ofBytes (bytes : List UInt8) : SfsDir where
  ino := wordOf (bytes.getD 0 0) (bytes.getD 1 0) (bytes.getD 2 0) (bytes.getD 3 0)
  name := bytes.drop 4

def SfsDir.toBytes (sd : SfsDir) : List UInt8 :=
  byteOf sd.ino 0 :: byteOf sd.ino 1 :: byteOf sd.ino 2 :: byteOf sd.ino 3 :: sd.name

theorem SfsDir.ofBytes_toBytes (sd : SfsDir) : SfsDir.ofBytes sd.toBytes = sd := by
  obtain ⟨ino, name⟩ := sd
  simp [SfsDir.ofBytes, SfsDir.toBytes, wordOf_byteOf]

/-- The string in the name array once its last character is set to 0. -/
def SfsDir.cname (sd : SfsDir) : List UInt8 := (sd.name.take 59).takeWhile (· ≠ 0)

/-- An entry that is zeroed, then given an inode number and a name by `strcpy`. -/
def SfsDir.link (ino : UInt32) (name : CString) : SfsDir where
  ino := ino
  name := name.val ++ List.replicate (60 - name.val.length) 0

end Os161
