import Mathlib.Data.BitVec
import Mathlib.Logic.Function.Basic

/-!
# Bytes and little-endian words

A stretch of memory is a function from offsets to bytes. `Bytes.bit` numbers its bits, `load` and
`store` move words of `n` bytes, least significant byte first.
-/

namespace OldLinux.Lib

/-- Memory by byte offset. -/
abbrev Bytes := Nat → BitVec 8

namespace Bytes
variable {n : Nat} {m m' : Bytes} {a b k : Nat}

/-- Bit `k` of the memory: bit `k % 8` of byte `k / 8`. -/
def bit (m : Bytes) (k : Nat) : Bool := (m (k / 8)).getLsbD (k % 8)

/-- The word of `n` bytes at offset `a`. -/
def load : (n : Nat) → Bytes → Nat → BitVec (8 * n)
  | 0, _, _ => 0#0
  | n + 1, m, a => (m (a + n) ++ load n m a).cast (by omega)

/-- Stores a word of `n` bytes at offset `a`. -/
def store (m : Bytes) (a : Nat) (w : BitVec (8 * n)) : Bytes :=
  fun i => if a ≤ i ∧ i < a + n then w.extractLsb' (8 * (i - a)) 8 else m i

/-- The bits of what is loaded. -/
lemma getLsbD_load : (load n m a).getLsbD k = (decide (k < 8 * n) && m.bit (8 * a + k)) := by
  induction n with
  | zero => simp [load]
  | succ n ih =>
    rw [load, BitVec.getLsbD_cast, BitVec.getLsbD_append, ih]
    by_cases h : k < 8 * n
    · have h' : k < 8 * (n + 1) := by omega
      simp [h, h']
    · have hk : (k < 8 * (n + 1)) ↔ k - 8 * n < 8 := by omega
      by_cases hlt : k - 8 * n < 8
      · have e : (8 * a + k) / 8 = a + n := by omega
        have e' : (8 * a + k) % 8 = k - 8 * n := by omega
        simp [h, hk, hlt, bit, e, e']
      · simp [h, hk, hlt, BitVec.getLsbD_of_ge _ _ (Nat.le_of_not_lt hlt)]

/-- A byte that was stored. -/
lemma store_of_mem {w : BitVec (8 * n)} (h : b < n) :
    store m a w (a + b) = w.extractLsb' (8 * b) 8 := by
  rw [store, if_pos ⟨Nat.le_add_right a b, Nat.add_lt_add_left h a⟩, Nat.add_sub_cancel_left]

/-- The bytes beside it. -/
lemma store_of_not_mem {w : BitVec (8 * n)} (h : b < a ∨ a + n ≤ b) : store m a w b = m b := by
  rw [store, if_neg]
  omega

/-- The bits of the memory after a store. -/
lemma bit_store {w : BitVec (8 * n)} :
    (store m a w).bit k =
      if 8 * a ≤ k ∧ k < 8 * a + 8 * n then w.getLsbD (k - 8 * a) else m.bit k := by
  by_cases h : 8 * a ≤ k ∧ k < 8 * a + 8 * n
  · have e : k / 8 = a + (k / 8 - a) := by omega
    rw [if_pos h, bit, e, store_of_mem (by omega), BitVec.getLsbD_extractLsb']
    have hk : 8 * (k / 8 - a) + k % 8 = k - 8 * a := by omega
    simp [hk, Nat.mod_lt]
  · rw [if_neg h, bit, store_of_not_mem (by omega), bit]

/-- What was stored is loaded. -/
@[simp] lemma load_store_self {w : BitVec (8 * n)} : load n (store m a w) a = w := by
  apply BitVec.eq_of_getLsbD_eq
  intro k hk
  rw [getLsbD_load, bit_store, if_pos (by omega), Nat.add_sub_cancel_left]
  simp [hk]

/-- A store apart from it leaves what is loaded. -/
lemma load_store_of_disjoint {l : Nat} {w : BitVec (8 * n)} (h : b + l ≤ a ∨ a + n ≤ b) :
    load l (store m a w) b = load l m b := by
  apply BitVec.eq_of_getLsbD_eq
  intro k hk
  rw [getLsbD_load, getLsbD_load, bit_store, if_neg (by omega)]

/-- Memory `m` after `k` bytes from offset `a` of `src` have been copied to offset `b`. -/
def copy (k : Nat) (src : Bytes) (a : Nat) (m : Bytes) (b : Nat) : Bytes :=
  fun i => if b ≤ i ∧ i < b + k then src (a + (i - b)) else m i

/-- A load depends on its bytes only. -/
lemma load_congr (h : ∀ i < n, m (a + i) = m' (b + i)) : load n m a = load n m' b := by
  induction n with
  | zero => rfl
  | succ n ih => rw [load, load, h n (Nat.lt_succ_self n), ih fun i hi => h i (Nat.lt_succ_of_lt hi)]

/-- What was copied is loaded from the copy. -/
lemma load_copy {src : Bytes} {c : Nat} (h : c + n ≤ k) :
    load n (copy k src a m b) (b + c) = load n src (a + c) := by
  apply load_congr
  intro i hi
  rw [copy, if_pos (by omega), Nat.add_assoc b, Nat.add_sub_cancel_left, Nat.add_assoc]

end Bytes

end OldLinux.Lib
