import Mathlib.Data.List.Basic
import Mathlib.Logic.Function.Basic

/-!
# Ring buffers

A ring of `N` slots with a head (the next slot to fill) and a tail (the next slot to drain), both kept
below `N` by the structure itself. One slot always stays free, so the fill level `size` tells an empty
ring from a full one. The list `contents` is what the ring stores, oldest element first; `push` and
`pop` are a queue on it.
-/

namespace OldLinux.Lib

/-- A ring buffer; the offsets carry their bound. -/
@[ext] structure RingBuffer (α : Type*) (N : Nat) where
  slot : Nat → α
  head : Nat
  tail : Nat
  head_lt : head < N
  tail_lt : tail < N

namespace RingBuffer
variable {α : Type*} {N : Nat}

/-- The number of stored elements. -/
def size (r : RingBuffer α N) : Nat := (r.head + (N - r.tail)) % N

/-- The stored elements, oldest first. -/
def contents (r : RingBuffer α N) : List α :=
  (List.range r.size).map fun i => r.slot ((r.tail + i) % N)

/-- Store one element at the head. -/
def push (r : RingBuffer α N) (x : α) : RingBuffer α N where
  slot := Function.update r.slot r.head x
  head := (r.head + 1) % N
  tail := r.tail
  head_lt := Nat.mod_lt _ (Nat.zero_lt_of_lt r.head_lt)
  tail_lt := r.tail_lt

/-- Drop the element at the tail. -/
def pop (r : RingBuffer α N) : RingBuffer α N where
  slot := r.slot
  head := r.head
  tail := (r.tail + 1) % N
  head_lt := r.head_lt
  tail_lt := Nat.mod_lt _ (Nat.zero_lt_of_lt r.tail_lt)

/-- Write the slot at the head without storing it: the head stays. -/
def poke (r : RingBuffer α N) (x : α) : RingBuffer α N := { r with slot := Function.update r.slot r.head x }

/-- Drop the newest element: the head goes back. -/
def unpush (r : RingBuffer α N) : RingBuffer α N where
  slot := r.slot
  head := (r.head + (N - 1)) % N
  tail := r.tail
  head_lt := Nat.mod_lt _ (Nat.zero_lt_of_lt r.head_lt)
  tail_lt := r.tail_lt

/-- The newest element, if there is one. -/
def newest (r : RingBuffer α N) : α := r.slot ((r.head + (N - 1)) % N)

/-- The remainder below twice the size. -/
lemma mod_of_lt_two {a : Nat} (h : a < 2 * N) : a % N = if a < N then a else a - N := by
  split
  · exact Nat.mod_eq_of_lt ‹_›
  · rw [Nat.mod_eq_sub_mod (by omega), Nat.mod_eq_of_lt (by omega)]

/-- The number of elements. -/
lemma size_eq (r : RingBuffer α N) :
    r.size = if r.tail ≤ r.head then r.head - r.tail else r.head + N - r.tail := by
  have h1 := r.head_lt
  have h2 := r.tail_lt
  rw [size, mod_of_lt_two (by omega)]
  split <;> split <;> omega

/-- There is one place free. -/
lemma size_lt (r : RingBuffer α N) : r.size < N := Nat.mod_lt _ (Nat.zero_lt_of_lt r.head_lt)

/-- The contents have this number of elements. -/
@[simp] lemma length_contents (r : RingBuffer α N) : r.contents.length = r.size := by
  simp [contents]

/-- A ring is empty when its ends meet. -/
lemma size_eq_zero {r : RingBuffer α N} : r.size = 0 ↔ r.head = r.tail := by
  have h1 := r.head_lt
  have h2 := r.tail_lt
  rw [size_eq]
  split <;> omega

/-- One more element. -/
lemma size_push {r : RingBuffer α N} (x : α) (h : r.size + 1 < N) : (r.push x).size = r.size + 1 := by
  have h1 := r.head_lt
  have h2 := r.tail_lt
  have e : (r.push x).head = if r.head + 1 < N then r.head + 1 else r.head + 1 - N :=
    mod_of_lt_two (by omega)
  have e' : (r.push x).tail = r.tail := rfl
  rw [size_eq] at h ⊢
  rw [size_eq, e, e']
  split at h <;> split <;> split <;> omega

/-- One less at the tail. -/
lemma size_pop {r : RingBuffer α N} (h : r.size ≠ 0) : r.pop.size + 1 = r.size := by
  have h1 := r.head_lt
  have h2 := r.tail_lt
  have e : r.pop.tail = if r.tail + 1 < N then r.tail + 1 else r.tail + 1 - N :=
    mod_of_lt_two (by omega)
  have e' : r.pop.head = r.head := rfl
  rw [size_eq] at h
  rw [size_eq, size_eq, e, e']
  split at h <;> split <;> split <;> omega

/-- One less at the head. -/
lemma size_unpush {r : RingBuffer α N} (h : r.size ≠ 0) : r.unpush.size + 1 = r.size := by
  have h1 := r.head_lt
  have h2 := r.tail_lt
  have e : r.unpush.head = if r.head + (N - 1) < N then r.head + (N - 1) else r.head + (N - 1) - N :=
    mod_of_lt_two (by omega)
  have e' : r.unpush.tail = r.tail := rfl
  rw [size_eq] at h
  rw [size_eq, size_eq, e, e']
  split at h <;> split <;> split <;> omega

/-- A slot that stores an element is not the one `push` fills. -/
lemma slot_ne_head {r : RingBuffer α N} {i : Nat} (hi : i < r.size) : (r.tail + i) % N ≠ r.head := by
  have h1 := r.head_lt
  have h2 := r.tail_lt
  have hs := r.size_lt
  rw [size_eq] at hi hs
  rw [mod_of_lt_two (by split at hi <;> omega)]
  split at hi <;> split <;> omega

/-- The slot `push` fills comes right after the stored elements. -/
lemma slot_size (r : RingBuffer α N) : (r.tail + r.size) % N = r.head := by
  have h1 := r.head_lt
  have h2 := r.tail_lt
  have hs := r.size_lt
  rw [mod_of_lt_two (by omega), size_eq]
  split <;> split <;> omega

/-- Writing the slot at the head leaves the contents. -/
theorem contents_poke (r : RingBuffer α N) (x : α) : (r.poke x).contents = r.contents := by
  apply List.map_congr_left
  intro i hi
  exact Function.update_of_ne (slot_ne_head (List.mem_range.1 hi)) _ _

/-- Storing appends to the contents. -/
theorem contents_push {r : RingBuffer α N} (x : α) (h : r.size + 1 < N) :
    (r.push x).contents = r.contents ++ [x] := by
  rw [contents, size_push x h, List.range_succ, List.map_append, List.map_singleton]
  congr 1
  · exact contents_poke r x
  · have e : ((r.push x).tail + r.size) % N = r.head := slot_size r
    rw [e]
    simp [push]

/-- Draining removes the first element of the contents. -/
theorem contents_pop {r : RingBuffer α N} (h : r.size ≠ 0) :
    r.contents = r.slot r.tail :: r.pop.contents := by
  rw [contents, ← size_pop h, List.range_succ_eq_map, List.map_cons, List.map_map]
  congr 1
  · rw [Nat.add_zero, Nat.mod_eq_of_lt r.tail_lt]
  · apply List.map_congr_left
    intro i _
    show r.slot ((r.tail + (i + 1)) % N) = r.slot (((r.tail + 1) % N + i) % N)
    rw [Nat.mod_add_mod]
    congr 2
    omega

/-- The newest element is the last one of the contents, and `unpush` removes it. -/
theorem contents_unpush {r : RingBuffer α N} (h : r.size ≠ 0) :
    r.contents = r.unpush.contents ++ [r.newest] := by
  have hsize := size_unpush h
  have hnewest : (r.tail + r.unpush.size) % N = (r.head + (N - 1)) % N := by
    rw [← slot_size r, ← hsize, Nat.mod_add_mod]
    have hN := r.size_lt
    rw [show r.tail + (r.unpush.size + 1) + (N - 1) = r.tail + r.unpush.size + N by omega,
      Nat.add_mod_right]
  rw [contents, ← hsize, List.range_succ, List.map_append, List.map_singleton, hnewest]
  rfl

end RingBuffer

end OldLinux.Lib
