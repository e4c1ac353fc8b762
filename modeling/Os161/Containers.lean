import Os161.Errno
import Os161.Lib.Ring

/-! The arrays of `array.c` and the queues of `queue.c`. `memory` says whether the `kmalloc` of a call succeeds;
when it does not, nothing changes. -/

namespace Os161.Containers

variable {α : Type}

/-- A `struct array`: `num` is the length of `guys`, `max` the number of pointers there is
space for. -/
structure Arr (α : Type) where
  guys : List α
  max : Nat
  fits : guys.length ≤ max
  deriving DecidableEq, Repr

namespace Arr

def create : Arr α := ⟨[], 0, Nat.le_refl 0⟩

/-- The loop of `array_preallocate`. Each round adds at least 1, so `nguys` rounds are enough. -/
def newmax (nguys : Nat) : (fuel max : Nat) → Nat
  | 0, max => max
  | fuel + 1, max => if max < nguys then newmax nguys fuel ((max + 1) * 2) else max

theorem newmax_bounds (nguys fuel max : Nat) :
    max ≤ newmax nguys fuel max ∧ (nguys ≤ max + fuel → nguys ≤ newmax nguys fuel max) := by
  induction fuel generalizing max with
  | zero => exact ⟨Nat.le_refl max, id⟩
  | succ fuel ih =>
    rw [newmax]
    split
    · have bounds := ih ((max + 1) * 2)
      omega
    · omega

/-- There is a `kmalloc` in every case, also when `max` stays what it is. -/
def preallocate (a : Arr α) (nguys : Nat) (memory : Bool) : Except Errno (Arr α) :=
  if memory then
    .ok ⟨a.guys, newmax nguys nguys a.max, Nat.le_trans a.fits (newmax_bounds nguys nguys a.max).1⟩
  else .error .enomem

/-- `array_setsize` with 0, which frees the space if it is large. -/
def clear (a : Arr α) : Arr α := ⟨[], if 16 < a.max then 0 else a.max, Nat.zero_le _⟩

def append (a : Arr α) (guy : α) (max : Nat) (room : a.guys.length + 1 ≤ max) : Arr α :=
  ⟨a.guys ++ [guy], max, by rw [List.length_append]; exact room⟩

/-- `array_add`, with the `array_setsize` that makes room. -/
def add (a : Arr α) (guy : α) (memory : Bool) : Except Errno (Arr α) :=
  let ix := a.guys.length
  if room : ix + 1 ≤ a.max then .ok (a.append guy a.max room)
  else if memory then
    .ok (a.append guy (newmax (ix + 1) (ix + 1) a.max) ((newmax_bounds _ _ a.max).2 (Nat.le_add_left _ _)))
  else .error .enomem

def remove (a : Arr α) (index : Nat) : Arr α :=
  ⟨a.guys.eraseIdx index, a.max, Nat.le_trans (List.length_eraseIdx_le _ _) a.fits⟩

end Arr

/-- A `struct queue`: a ring of `size` pointers. -/
structure Queue (α : Type) where
  size : Nat
  nextwrite : Nat
  nextread : Nat
  data : List α
  stored : data.length = size
  writes : nextwrite < size
  reads : nextread < size
  deriving DecidableEq, Repr

namespace Queue

theorem positive_32 : 0 < 32 := by decide

/-- `q_create`, once there is memory; the pointers are not initialised. -/
def create [Inhabited α] (size : Nat) (positive : 0 < size) : Queue α :=
  ⟨size, 0, 0, List.replicate size default, List.length_replicate, positive, positive⟩

/-- The pointers between the two indices, as the loop of `q_grow` visits them. -/
def entries (q : Queue α) : List α := Ring.contents q.data q.nextwrite q.size q.nextread

def Full (q : Queue α) : Prop := (q.nextwrite + 1) % q.size = q.nextread

instance (q : Queue α) : Decidable q.Full := inferInstanceAs (Decidable (_ = _))

def store (q : Queue α) (ptr : α) : Queue α :=
  { q with
    data := q.data.set q.nextwrite ptr
    nextwrite := (q.nextwrite + 1) % q.size
    stored := by rw [List.length_set, q.stored]
    writes := Nat.mod_lt _ (Nat.zero_lt_of_lt q.reads) }

/-- The loop of `q_grow` that looks for a size. -/
def nsize (targetsize : Nat) : (fuel size : Nat) → Nat
  | 0, size => size
  | fuel + 1, size => if size < targetsize then nsize targetsize fuel (size * 2) else size

theorem le_nsize (targetsize fuel size : Nat) : size ≤ nsize targetsize fuel size := by
  induction fuel generalizing size with
  | zero => exact Nat.le_refl size
  | succ fuel ih =>
    rw [nsize]
    split
    · have := ih (size * 2)
      omega
    · exact Nat.le_refl size

/-- `none` is an entry that does not fit into the new ring. -/
def grow [Inhabited α] (q : Queue α) (targetsize : Nat) (memory : Bool) : Option (Except Errno (Queue α)) :=
  if memory then
    let empty := create (nsize targetsize targetsize q.size)
      (Nat.lt_of_lt_of_le (Nat.zero_lt_of_lt q.reads) (le_nsize targetsize targetsize q.size))
    (q.entries.foldlM (fun (new : Queue α) ptr => if new.Full then none else some (new.store ptr)) empty).map .ok
  else some (.error .enomem)

def preallocate [Inhabited α] (q : Queue α) (size : Nat) (memory : Bool) : Option (Except Errno (Queue α)) :=
  if q.size < size then q.grow size memory else some (.ok q)

def addtail [Inhabited α] (q : Queue α) (ptr : α) (memory : Bool) : Option (Except Errno (Queue α)) :=
  if q.Full then (q.grow (q.size + 1) memory).map fun result => result.map fun grown => grown.store ptr
  else some (.ok (q.store ptr))

def advance (q : Queue α) : Queue α :=
  { q with nextread := (q.nextread + 1) % q.size, reads := Nat.mod_lt _ (Nat.zero_lt_of_lt q.reads) }

/-- `none` is the assertion that the queue is not empty. -/
def remhead (q : Queue α) : Option (α × Queue α) :=
  if q.nextwrite = q.nextread then none else q.data[q.nextread]?.map fun ret => (ret, q.advance)

end Queue

end Os161.Containers
