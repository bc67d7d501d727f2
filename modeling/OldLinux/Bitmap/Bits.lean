import OldLinux.Lib.Bytes

/-!
# Bits of a bitmap block

Model of `set_bit`, `clear_bit`, `find_first_zero_in_byte` and `find_first_zero` (`fs/bitmap.c`) on the
1024 bytes `b_data` of a bitmap buffer. The search goes through the block byte by byte; `set_bit` and
`clear_bit` read and write the 64-bit word at `*addr`, whatever the bit number, so they act on bit
`nr % 64` of the block. Each function has one lemma that says what it does to the numbered bits.
-/

namespace OldLinux.Bitmap
open Lib

/-- `1UL << (nr % (sizeof(unsigned long) * 8))`. -/
def bitMask (nr : Nat) : BitVec 64 := 1#64 <<< (nr % 64)

/-- `*addr` as an `unsigned long`. -/
def loadWord (addr : Bytes) : BitVec 64 := addr.load 8 0

/-- `*addr = w`. -/
def storeWord (addr : Bytes) (w : BitVec 64) : Bytes := addr.store (n := 8) 0 w

/-- `set_bit(nr, addr)`: the old bit and the block afterwards. -/
def setBit (nr : Nat) (addr : Bytes) : Bool × Bytes :=
  let mask := bitMask nr
  let res := loadWord addr &&& mask != 0
  (res, storeWord addr (loadWord addr ||| mask))

/-- `clear_bit(nr, addr)`: the old bit and the block afterwards. -/
def clearBit (nr : Nat) (addr : Bytes) : Bool × Bytes :=
  let mask := bitMask nr
  let res := loadWord addr &&& mask != 0
  (res, storeWord addr (loadWord addr &&& ~~~mask))

/-- The loop of `find_first_zero_in_byte` from bit `i` on, with `n` turns to go. -/
def findFirstZeroInByteLoop (byte : BitVec 8) (i : Nat) : Nat → Nat
  | 0 => 8
  | n + 1 => if byte &&& (1#8 <<< i) = 0 then i else findFirstZeroInByteLoop byte (i + 1) n

/-- `find_first_zero_in_byte(byte)`. -/
def findFirstZeroInByte (byte : BitVec 8) : Nat := findFirstZeroInByteLoop byte 0 8

/-- The loop of `find_first_zero` from byte `i` on, with `n` turns to go. -/
def findFirstZeroLoop (addr : Bytes) (i bitPosition : Nat) : Nat → Nat
  | 0 => bitPosition
  | n + 1 =>
    if addr i ≠ 0xFF then bitPosition + findFirstZeroInByte (addr i)
    else findFirstZeroLoop addr (i + 1) (bitPosition + 8) n

/-- `find_first_zero(addr)`. -/
def findFirstZero (addr : Bytes) : Nat := findFirstZeroLoop addr 0 0 1024

/-! ## Setting and clearing -/

variable {addr : Bytes} {nr k : Nat}

/-- The mask has one bit, `nr % 64`. -/
lemma getLsbD_bitMask : (bitMask nr).getLsbD k = decide (k = nr % 64) := by
  have h : nr % 64 < 64 := Nat.mod_lt _ (by omega)
  rw [bitMask, BitVec.getLsbD_shiftLeft, BitVec.getLsbD_one]
  by_cases e : k = nr % 64
  · simp [e, h]
  · by_cases hlt : k < nr % 64
    · simp [e, hlt]
    · have hne : k - nr % 64 ≠ 0 := by omega
      simp [e, hne]

/-- The word has the first 64 bits of the map. -/
lemma getLsbD_loadWord : (loadWord addr).getLsbD k = (decide (k < 64) && addr.bit k) := by
  have h := Bytes.getLsbD_load (n := 8) (m := addr) (a := 0) (k := k)
  rwa [Nat.mul_zero, Nat.zero_add] at h

/-- Storing the word changes the first 64 bits and no others. -/
lemma bit_storeWord {w : BitVec 64} :
    (storeWord addr w).bit k = if k < 64 then w.getLsbD k else addr.bit k := by
  have h := Bytes.bit_store (n := 8) (m := addr) (a := 0) (k := k) (w := w)
  simpa [storeWord] using h

/-- A word meets the mask exactly when its bit `nr % 64` is set. -/
lemma and_bitMask_ne_zero : (loadWord addr &&& bitMask nr != 0) = addr.bit (nr % 64) := by
  have hlt : nr % 64 < 64 := Nat.mod_lt _ (by omega)
  have hbit : ∀ k, (loadWord addr &&& bitMask nr).getLsbD k =
      (decide (k = nr % 64) && addr.bit (nr % 64)) := by
    intro k
    rw [BitVec.getLsbD_and, getLsbD_loadWord, getLsbD_bitMask]
    by_cases e : k = nr % 64
    · simp [e, hlt]
    · simp [e]
  cases hb : addr.bit (nr % 64) with
  | false =>
    have h0 : loadWord addr &&& bitMask nr = 0 := by
      apply BitVec.eq_of_getLsbD_eq
      intro k _
      rw [hbit, hb]
      simp
    simp [h0]
  | true =>
    have h1 : loadWord addr &&& bitMask nr ≠ 0 := by
      intro h0
      have h := hbit (nr % 64)
      rw [h0, hb] at h
      simp at h
    simpa using h1

/-- `set_bit` returns bit `nr % 64`. -/
@[simp] lemma setBit_fst : (setBit nr addr).1 = addr.bit (nr % 64) := and_bitMask_ne_zero

/-- `set_bit` sets bit `nr % 64`. -/
lemma bit_setBit : (setBit nr addr).2.bit k = (addr.bit k || decide (k = nr % 64)) := by
  have hlt : nr % 64 < 64 := Nat.mod_lt _ (by omega)
  show (storeWord addr (loadWord addr ||| bitMask nr)).bit k = _
  rw [bit_storeWord, BitVec.getLsbD_or, getLsbD_loadWord, getLsbD_bitMask]
  by_cases h : k < 64
  · simp [h]
  · have hne : k ≠ nr % 64 := by omega
    simp [h, hne]

/-- `clear_bit` returns bit `nr % 64`. -/
@[simp] lemma clearBit_fst : (clearBit nr addr).1 = addr.bit (nr % 64) := and_bitMask_ne_zero

/-- `clear_bit` clears bit `nr % 64`. -/
lemma bit_clearBit : (clearBit nr addr).2.bit k = (addr.bit k && decide (k ≠ nr % 64)) := by
  have hlt : nr % 64 < 64 := Nat.mod_lt _ (by omega)
  show (storeWord addr (loadWord addr &&& ~~~bitMask nr)).bit k = _
  rw [bit_storeWord, BitVec.getLsbD_and, BitVec.getLsbD_not, getLsbD_loadWord, getLsbD_bitMask]
  by_cases h : k < 64
  · simp [h]
  · have hne : k ≠ nr % 64 := by omega
    simp [h, hne]

/-! ## Searching -/

/-- The test of a bit of a byte. -/
lemma and_one_shiftLeft_eq_zero {byte : BitVec 8} {i : Nat} (hi : i < 8) :
    byte &&& (1#8 <<< i) = 0 ↔ byte.getLsbD i = false := by
  have hbit : ∀ k, (byte &&& (1#8 <<< i)).getLsbD k = (decide (k = i) && byte.getLsbD i) := by
    intro k
    rw [BitVec.getLsbD_and, BitVec.getLsbD_shiftLeft, BitVec.getLsbD_one]
    by_cases e : k = i
    · simp [e, hi]
    · by_cases hlt : k < i
      · simp [e, hlt]
      · have hne : k - i ≠ 0 := by omega
        simp [e, hne]
  constructor
  · intro h0
    have h := hbit i
    rw [h0] at h
    simpa using h.symm
  · intro hf
    apply BitVec.eq_of_getLsbD_eq
    intro k _
    rw [hbit, hf]
    simp

/-- What the search in a byte finds from bit `i` on. -/
lemma findFirstZeroInByteLoop_spec {byte : BitVec 8} : ∀ (n i : Nat), i + n = 8 →
    let r := findFirstZeroInByteLoop byte i n
    i ≤ r ∧ r ≤ 8 ∧ (r < 8 → byte.getLsbD r = false) ∧ ∀ k, i ≤ k → k < r → byte.getLsbD k = true
  | 0, i, hi => by
    refine ⟨by rw [findFirstZeroInByteLoop]; omega, le_refl 8, fun h => (lt_irrefl 8 h).elim, ?_⟩
    intro k h1 h2
    rw [findFirstZeroInByteLoop] at h2
    omega
  | n + 1, i, hi => by
    rw [findFirstZeroInByteLoop]
    split
    · refine ⟨le_refl i, by omega, fun _ => ?_, fun k h1 h2 => by omega⟩
      exact (and_one_shiftLeft_eq_zero (by omega)).1 ‹_›
    · obtain ⟨hle, h8, hz, hall⟩ := findFirstZeroInByteLoop_spec n (i + 1) (by omega)
      refine ⟨by omega, h8, hz, fun k h1 h2 => ?_⟩
      by_cases e : k = i
      · subst e
        have hb : ¬ byte &&& (1#8 <<< k) = 0 := ‹_›
        rw [and_one_shiftLeft_eq_zero (by omega)] at hb
        simpa using hb
      · exact hall k (by omega) h2

/-- All bits of `0xFF` are set. -/
lemma getLsbD_ff {k : Nat} : (0xFF : BitVec 8).getLsbD k = decide (k < 8) :=
  BitVec.getLsbD_allOnes

/-- A byte other than `0xFF` has a zero bit. -/
lemma findFirstZeroInByte_lt {byte : BitVec 8} (h : byte ≠ 0xFF) : findFirstZeroInByte byte < 8 := by
  obtain ⟨_, h8, _, hall⟩ := @findFirstZeroInByteLoop_spec byte 8 0 rfl
  apply lt_of_le_of_ne h8
  intro e
  apply h
  apply BitVec.eq_of_getLsbD_eq
  intro k hk
  rw [hall k (Nat.zero_le k) (e.symm ▸ hk), getLsbD_ff, decide_eq_true hk]

/-- What the search in a block finds from byte `i` on. -/
lemma findFirstZeroLoop_spec : ∀ (n i : Nat), i + n = 1024 →
    let r := findFirstZeroLoop addr i (8 * i) n
    8 * i ≤ r ∧ r ≤ 8192 ∧ (r < 8192 → addr.bit r = false) ∧
      ∀ k, 8 * i ≤ k → k < r → addr.bit k = true
  | 0, i, hi => by
    rw [findFirstZeroLoop]
    exact ⟨le_refl _, by omega, fun h => by omega, fun k h1 h2 => by omega⟩
  | n + 1, i, hi => by
    rw [findFirstZeroLoop]
    split
    · have hb : addr i ≠ 0xFF := ‹_›
      have hlt := findFirstZeroInByte_lt hb
      obtain ⟨_, _, hz, hall⟩ := @findFirstZeroInByteLoop_spec (addr i) 8 0 rfl
      have bit : ∀ k, k < 8 → addr.bit (8 * i + k) = (addr i).getLsbD k := by
        intro k hk
        have e : (8 * i + k) / 8 = i := by omega
        have e' : (8 * i + k) % 8 = k := by omega
        rw [Bytes.bit, e, e']
      refine ⟨by omega, by omega, fun _ => ?_, fun k h1 h2 => ?_⟩
      · rw [bit _ hlt]
        exact hz hlt
      · have e : k = 8 * i + (k - 8 * i) := by omega
        rw [e, bit _ (by omega)]
        exact hall _ (Nat.zero_le _) (by rw [findFirstZeroInByte] at h2; omega)
    · have hb : addr i = 0xFF := not_not.1 ‹_›
      obtain ⟨hle, h8, hz, hall⟩ := findFirstZeroLoop_spec n (i + 1) (by omega)
      refine ⟨?_, h8, hz, fun k h1 h2 => ?_⟩
      · exact le_trans (by omega) hle
      · by_cases hk : 8 * (i + 1) ≤ k
        · exact hall k hk h2
        · have e : k / 8 = i := by omega
          have hlt : k % 8 < 8 := Nat.mod_lt _ (by omega)
          rw [Bytes.bit, e, hb, getLsbD_ff, decide_eq_true hlt]

/-- `find_first_zero` returns the first position whose bit is clear, 8192 if there is none. -/
lemma findFirstZero_spec : findFirstZero addr ≤ 8192 ∧
    (findFirstZero addr < 8192 → addr.bit (findFirstZero addr) = false) ∧
    ∀ k < findFirstZero addr, addr.bit k = true := by
  obtain ⟨_, h8, hz, hall⟩ := @findFirstZeroLoop_spec addr 1024 0 rfl
  exact ⟨h8, hz, fun k => hall k (Nat.zero_le k)⟩

/-- `find_first_zero` returns the least of the 8192 positions whose bit is clear, and 8192 exactly when all bits are
    set. -/
theorem findFirstZero_least (addr : Bytes) :
    (findFirstZero addr < 8192 → IsLeast {n | n < 8192 ∧ (addr (n / 8)).getLsbD (n % 8) = false} (findFirstZero addr)) ∧
    (findFirstZero addr = 8192 ↔ ∀ n < 8192, (addr (n / 8)).getLsbD (n % 8) = true) ∧
    findFirstZero addr ≤ 8192 := by
  obtain ⟨hle, hclear, hset⟩ := @findFirstZero_spec addr
  refine ⟨fun h => ⟨⟨h, hclear h⟩, fun n hn => ?_⟩, ⟨fun h n hn => ?_, fun hall => ?_⟩, hle⟩
  · -- the bits before are set
    by_contra hlt
    have hbit : (addr (n / 8)).getLsbD (n % 8) = true := hset n (Nat.lt_of_not_le hlt)
    rw [hn.2] at hbit
    cases hbit
  · exact hset n (h ▸ hn)
  · by_contra hne
    have hlt : findFirstZero addr < 8192 := lt_of_le_of_ne hle hne
    have hbit := hclear hlt
    rw [Bytes.bit, hall _ hlt] at hbit
    cases hbit

end OldLinux.Bitmap
