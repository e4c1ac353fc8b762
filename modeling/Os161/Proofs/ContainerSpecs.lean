import Os161.Containers

/-! What the arrays and queues hold, and when they need memory. -/

namespace Os161.Containers
open List

variable {α : Type}

namespace Arr

theorem add_ok {a next : Arr α} {guy memory} (added : a.add guy memory = .ok next) :
    next.guys = a.guys ++ [guy] ∧ a.max ≤ next.max := by
  simp only [add] at added
  split at added
  · cases added
    exact ⟨rfl, Nat.le_refl _⟩
  · split at added
    · cases added
      exact ⟨rfl, (newmax_bounds _ _ a.max).1⟩
    · cases added

theorem preallocate_ok {a next : Arr α} {nguys memory} (done : a.preallocate nguys memory = .ok next) :
    next.guys = a.guys ∧ a.max ≤ next.max ∧ nguys ≤ next.max := by
  simp only [preallocate] at done
  split at done
  · cases done
    obtain ⟨more, enough⟩ := newmax_bounds nguys nguys a.max
    exact ⟨rfl, more, enough (Nat.le_add_left _ _)⟩
  · cases done

end Arr

namespace Queue

theorem holds (q : Queue α) : Ring.Holds q.data q.nextread q.nextwrite q.entries := by
  have held := @Ring.holds_contents α q.data q.nextread q.nextwrite (by rw [q.stored]; exact q.reads)
    (by rw [q.stored]; exact q.writes)
  rw [q.stored] at held
  exact held

theorem length_entries (q : Queue α) : q.entries.length < q.size := by
  rw [← q.stored]
  exact q.holds.room

theorem full_iff (q : Queue α) : q.Full ↔ q.entries.length + 1 = q.size := by
  have full := q.holds.full_iff
  rw [q.stored] at full
  exact full

theorem entries_eq {q : Queue α} {items} (held : Ring.Holds q.data q.nextread q.nextwrite items) :
    q.entries = items := by
  have room := held.room
  rw [q.stored] at room
  exact held.contents_eq (Nat.le_of_lt room)

theorem entries_create [Inhabited α] (size : Nat) (positive : 0 < size) :
    (create size positive : Queue α).entries = [] :=
  entries_eq (Ring.Holds.nil (by rw [(create size positive).stored]; exact positive))

theorem entries_store {q : Queue α} (room : ¬ q.Full) (ptr : α) : (q.store ptr).entries = q.entries ++ [ptr] := by
  have short := q.length_entries
  rw [full_iff] at room
  have pushed := q.holds.push (by rw [q.stored]; omega) ptr
  rw [q.stored] at pushed
  exact entries_eq pushed

theorem nsize_bounds (targetsize : Nat) {fuel size} (positive : 0 < size) (enough : targetsize ≤ size + fuel) :
    targetsize ≤ nsize targetsize fuel size := by
  induction fuel generalizing size with
  | zero => exact enough
  | succ fuel ih =>
    rw [nsize]
    split
    · exact ih (by omega) (by omega)
    · omega

theorem nsize_double {targetsize fuel size} (more : size < targetsize) (rounds : 0 < fuel) :
    size * 2 ≤ nsize targetsize fuel size := by
  cases fuel with
  | zero => cases rounds
  | succ fuel =>
    rw [nsize, if_pos more]
    exact le_nsize targetsize fuel (size * 2)

theorem copied (items : List α) {q : Queue α} (room : q.entries.length + items.length < q.size) :
    ∃ new, items.foldlM (fun (new : Queue α) ptr => if new.Full then none else some (new.store ptr)) q = some new ∧
      new.entries = q.entries ++ items ∧ new.size = q.size := by
  induction items generalizing q with
  | nil => exact ⟨q, rfl, (append_nil _).symm, rfl⟩
  | cons item items ih =>
    have open_ : ¬ q.Full := by
      rw [full_iff]
      rw [length_cons] at room
      omega
    have stored := entries_store open_ item
    obtain ⟨new, copy, entries, size⟩ := @ih (q.store item) (by
      rw [stored, length_append, length_singleton]
      rw [length_cons] at room
      change _ < q.size
      omega)
    refine ⟨new, ?_, ?_, size⟩
    · rw [foldlM_cons, if_neg open_]
      exact copy
    · rw [entries, stored, append_assoc, singleton_append]

section Grow

variable [Inhabited α]

theorem grow_true (q : Queue α) {targetsize} (more : q.size < targetsize) :
    ∃ grown, q.grow targetsize true = some (.ok grown) ∧ grown.entries = q.entries ∧
      targetsize ≤ grown.size ∧ q.size * 2 ≤ grown.size := by
  have positive : 0 < q.size := Nat.zero_lt_of_lt q.reads
  have double := @nsize_double targetsize targetsize q.size more (Nat.zero_lt_of_lt more)
  have reached := @nsize_bounds targetsize targetsize q.size positive (Nat.le_add_left _ _)
  have short := q.length_entries
  have empty := @entries_create α _ (nsize targetsize targetsize q.size)
    (Nat.lt_of_lt_of_le positive (le_nsize targetsize targetsize q.size))
  obtain ⟨new, copy, entries, size⟩ := copied q.entries (q := create (nsize targetsize targetsize q.size)
    (Nat.lt_of_lt_of_le positive (le_nsize targetsize targetsize q.size))) (by
      rw [empty, length_nil]
      change _ < nsize targetsize targetsize q.size
      omega)
  refine ⟨new, ?_, ?_, ?_, ?_⟩
  · simp only [grow, if_true, copy, Option.map_some]
  · rw [entries, empty, nil_append]
  · rw [size]
    exact reached
  · rw [size]
    exact double

theorem addtail_room {q : Queue α} (room : ¬ q.Full) (ptr : α) (memory : Bool) :
    q.addtail ptr memory = some (.ok (q.store ptr)) := by
  rw [addtail, if_neg room]

theorem addtail_full {q : Queue α} (full : q.Full) (ptr : α) :
    q.addtail ptr false = some (.error .enomem) ∧
      ∃ next, q.addtail ptr true = some (.ok next) ∧ next.entries = q.entries ++ [ptr] ∧ q.size < next.size := by
  obtain ⟨grown, done, entries, target, -⟩ := q.grow_true (Nat.lt_succ_self q.size)
  have room : ¬ grown.Full := by
    have short := q.length_entries
    rw [full_iff, entries]
    omega
  refine ⟨?_, grown.store ptr, ?_, ?_, target⟩
  · rw [addtail, if_pos full]
    rfl
  · rw [addtail, if_pos full, done]
    rfl
  · rw [entries_store room, entries]

theorem addtail_granted (q : Queue α) (ptr : α) :
    ∃ next, q.addtail ptr true = some (.ok next) ∧ next.entries = q.entries ++ [ptr] := by
  by_cases full : q.Full
  · obtain ⟨-, next, added, entries, -⟩ := addtail_full full ptr
    exact ⟨next, added, entries⟩
  · exact ⟨_, addtail_room full ptr true, entries_store full ptr⟩

theorem addtail_ok {q next : Queue α} {ptr memory} (added : q.addtail ptr memory = some (.ok next)) :
    next.entries = q.entries ++ [ptr] ∧ q.size ≤ next.size := by
  by_cases full : q.Full
  · obtain ⟨refused, grown, done, entries, larger⟩ := addtail_full full ptr
    cases memory with
    | false =>
      rw [refused] at added
      cases added
    | true =>
      rw [done] at added
      cases added
      exact ⟨entries, Nat.le_of_lt larger⟩
  · rw [addtail_room full] at added
    cases added
    exact ⟨entries_store full ptr, Nat.le_refl _⟩

theorem preallocate_ok {q next : Queue α} {size memory}
    (done : q.preallocate size memory = some (.ok next)) :
    next.entries = q.entries ∧ q.size ≤ next.size ∧ size ≤ next.size ∧
      (next.size = q.size ∨ q.size < size ∧ q.size * 2 ≤ next.size) := by
  rw [preallocate] at done
  split at done
  next more =>
    cases memory with
    | false => cases done
    | true =>
      obtain ⟨grown, grew, entries, target, double⟩ := q.grow_true more
      rw [grew] at done
      cases done
      exact ⟨entries, by omega, target, .inr ⟨more, double⟩⟩
  next enough =>
    cases done
    exact ⟨rfl, Nat.le_refl _, Nat.not_lt.mp enough, .inl rfl⟩

end Grow

theorem remhead_cons {q : Queue α} {ptr rest} (entries : q.entries = ptr :: rest) :
    ∃ next, q.remhead = some (ptr, next) ∧ next.entries = rest ∧ next.size = q.size := by
  have held := q.holds
  rw [entries] at held
  obtain ⟨first, tail⟩ := held.tail
  have some_ : q.nextwrite ≠ q.nextread := fun same => nomatch held.empty_iff.mp same
  rw [q.stored] at tail
  refine ⟨q.advance, ?_, @entries_eq _ q.advance rest tail, rfl⟩
  rw [remhead, if_neg some_, first, Option.map_some]

theorem remhead_some {q next : Queue α} {ptr} (taken : q.remhead = some (ptr, next)) :
    q.entries = ptr :: next.entries ∧ next.size = q.size := by
  cases entries : q.entries with
  | nil =>
    rw [remhead, if_pos (q.holds.empty_iff.mpr entries)] at taken
    cases taken
  | cons first rest =>
    obtain ⟨other, removed, remaining, size⟩ := remhead_cons entries
    rw [removed] at taken
    cases taken
    exact ⟨by rw [remaining], size⟩

end Queue

end Os161.Containers
