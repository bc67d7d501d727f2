import OldLinux.Strings.Code

/-!
# Copies of memory that overlap

`memcpy` and the first loop of `memmove` copy upwards, the second loop downwards. Either way no byte may be
overwritten that is still to be copied: upwards that is so when no byte of the destination is a later one of
the source, downwards when none is an earlier one.
-/

namespace OldLinux.Strings
open Lib Function

variable {s : State} {dest src dp sp n : BitVec 64} {k t : Nat}

/-! ## The loops -/

/-- Upwards. -/
lemma up_returns (hk : k < 2 ^ 64) (ht : k < t)
    (h : ∀ i < k, ∀ j < i, dp + BitVec.ofNat 64 j ≠ sp + BitVec.ofNat 64 i) :
    Turns.returns (Turns.loop upTurn t (dp, sp, BitVec.ofNat 64 k))
      (fun _ s' => s'.byte = patch s.byte dp (bytes s.byte sp k)) s := by
  induction k generalizing t dp sp s with
  | zero =>
    exact Turns.returns_loop ht (Turns.returns_pure rfl)
  | succ k ih =>
    have hne : BitVec.ofNat 64 (k + 1) ≠ 0 := ofNat_succ_ne_zero hk
    refine Turns.returns_loop ht ?_
    rw [upTurn, if_neg hne]
    refine returns_load (returns_store (Turns.returns_pure ?_))
    rw [Sum.elim_inr, ofNat_succ_sub_one]
    have hlater : ∀ i < k, ∀ j < i, dp + 1 + BitVec.ofNat 64 j ≠ sp + 1 + BitVec.ofNat 64 i := fun i hi j hj => by
      rw [← add_ofNat_succ_left, ← add_ofNat_succ_left]
      exact h (i + 1) (Nat.succ_lt_succ hi) (j + 1) (Nat.succ_lt_succ hj)
    -- the byte just stored is none of those to come
    have hrest : bytes (s.store dp (s.byte sp)).byte (sp + 1) k = bytes s.byte (sp + 1) k :=
      bytes_congr fun i hi => by
        have hi' := h (i + 1) (Nat.succ_lt_succ hi) 0 (Nat.succ_pos i)
        rw [add_ofNat_zero, add_ofNat_succ_left] at hi'
        exact update_of_ne hi'.symm ..
    refine (ih (Nat.lt_of_succ_lt hk) (Nat.lt_sub_of_add_lt ht) hlater).mono fun _ s' hs' => ?_
    rw [hs', hrest]
    exact patch_cons (by rw [length_bytes]; exact Nat.lt_of_succ_lt hk)

/-- Downwards. -/
lemma down_returns (hk : k < 2 ^ 64) (ht : k < t)
    (h : ∀ i < k, ∀ j, i < j → j < k → dest + BitVec.ofNat 64 j ≠ src + BitVec.ofNat 64 i) :
    Turns.returns
      (Turns.loop downTurn t (dest + BitVec.ofNat 64 k, src + BitVec.ofNat 64 k, BitVec.ofNat 64 k))
      (fun _ s' => s'.byte = patch s.byte dest (bytes s.byte src k)) s := by
  induction k generalizing t s with
  | zero =>
    exact Turns.returns_loop ht (Turns.returns_pure rfl)
  | succ k ih =>
    have hne : BitVec.ofNat 64 (k + 1) ≠ 0 := ofNat_succ_ne_zero hk
    have hpred : ∀ p : BitVec 64, p + BitVec.ofNat 64 (k + 1) - 1 = p + BitVec.ofNat 64 k := fun p => by
      rw [BitVec.sub_eq_add_neg, BitVec.add_assoc, ← BitVec.sub_eq_add_neg, ofNat_succ_sub_one]
    refine Turns.returns_loop ht ?_
    rw [downTurn, if_neg hne]
    refine returns_load (returns_store (Turns.returns_pure ?_))
    rw [Sum.elim_inr, ofNat_succ_sub_one, hpred, hpred]
    refine (ih (Nat.lt_of_succ_lt hk) (Nat.lt_sub_of_add_lt ht) fun i hi j hij hj =>
      h i (Nat.lt_succ_of_lt hi) j hij (Nat.lt_succ_of_lt hj)).mono fun _ s' hs' => ?_
    -- the byte just stored is none of those to come
    have hrest : bytes (s.store (dest + BitVec.ofNat 64 k) (s.byte (src + BitVec.ofNat 64 k))).byte src k =
        bytes s.byte src k := bytes_congr fun i hi =>
      update_of_ne (h i (Nat.lt_succ_of_lt hi) k hi (Nat.lt_succ_self k)).symm ..
    have hlen : (bytes s.byte src k).length = k := length_bytes
    have hsnoc := @patch_snoc s.byte dest (bytes s.byte src k) (s.byte (src + BitVec.ofNat 64 k))
      (by rw [hlen]; exact Nat.lt_of_succ_lt hk)
    rw [hlen] at hsnoc
    rw [hs', hrest, bytes_snoc]
    exact hsnoc

/-! ## The copies -/

/-- The bytes from `dest` on are those that were from `src` on, and the other bytes are as before. -/
structure Moved (s s' : State) (dest src n : BitVec 64) : Prop where
  inside : ∀ i < n.toNat, s'.byte (dest + BitVec.ofNat 64 i) = s.byte (src + BitVec.ofNat 64 i)
  outside : ∀ a : BitVec 64, a.toNat < dest.toNat ∨ dest.toNat + n.toNat ≤ a.toNat → s'.byte a = s.byte a

/-- Bytes that are patched in are moved. -/
lemma Moved.of_patch {s' : State} (hd : dest.toNat + n.toNat ≤ 2 ^ 64)
    (h : s'.byte = patch s.byte dest (bytes s.byte src n.toNat)) : Moved s s' dest src n := by
  have hlen : (bytes s.byte src n.toNat).length = n.toNat := length_bytes
  have hn := n.isLt
  constructor
  · intro i hi
    rw [h, @patch_inside _ _ _ 0 i (by omega) (by omega), bytes_getD hi]
  · intro a ha
    rw [h, patch_outside fun i hi => ?_]
    rintro rfl
    rw [hlen] at hi
    rw [toNat_add_ofNat (by omega)] at ha
    omega

/-- Upwards all bytes are moved if none is written before it is read. -/
lemma loop_up (hd : dest.toNat + n.toNat ≤ 2 ^ 64)
    (h : ∀ i < n.toNat, ∀ j < i, dest + BitVec.ofNat 64 j ≠ src + BitVec.ofNat 64 i) :
    Turns.returns (Turns.loop upTurn space (dest, src, n)) (fun _ s' => Moved s s' dest src n) s := by
  have hup := @up_returns s dest src n.toNat space n.isLt n.isLt h
  rw [BitVec.ofNat_toNat, BitVec.setWidth_eq] at hup
  exact hup.mono fun _ _ hs' => .of_patch hd hs'

/-- Downwards all bytes are moved if none is written before it is read. -/
lemma loop_down (hd : dest.toNat + n.toNat ≤ 2 ^ 64)
    (h : ∀ i < n.toNat, ∀ j, i < j → j < n.toNat → dest + BitVec.ofNat 64 j ≠ src + BitVec.ofNat 64 i) :
    Turns.returns (Turns.loop downTurn space (dest + n, src + n, n))
      (fun _ s' => Moved s s' dest src n) s := by
  have hdown := @down_returns s dest src n.toNat space n.isLt n.isLt h
  rw [BitVec.ofNat_toNat, BitVec.setWidth_eq] at hdown
  exact hdown.mono fun _ _ hs' => .of_patch hd hs'

/-- `memmove` is right for all ranges that do not go around, and `memcpy` when it need not go downwards. -/
theorem memmove_moves (s : State) (dest src n : BitVec 64) (hd : dest.toNat + n.toNat ≤ 2 ^ 64)
    (hs : src.toNat + n.toNat ≤ 2 ^ 64) :
    Turns.returns (memmove dest src n) (fun r s' => r = dest ∧ Moved s s' dest src n) s ∧
    (dest ≤ src ∨ dest.toNat + n.toNat ≤ src.toNat ∨ src.toNat + n.toNat ≤ dest.toNat →
      Turns.returns (memcpy dest src n) (fun r s' => r = dest ∧ Moved s s' dest src n) s) := by
  constructor
  · rw [memmove]
    split
    · next hlt =>
      have hlt : dest.toNat < src.toNat := hlt
      refine Turns.returns_bind (Turns.returns.mono (loop_up hd fun i hi j hj => ?_) fun _ _ h =>
        Turns.returns_pure ⟨rfl, h⟩)
      exact ne_of_toNat (by omega) (by omega) (by omega)
    · next hge =>
      have hge : src.toNat ≤ dest.toNat := Nat.le_of_not_lt hge
      refine Turns.returns_bind (Turns.returns.mono (loop_down hd fun i hi j hij hj => ?_) fun _ _ h =>
        Turns.returns_pure ⟨rfl, h⟩)
      exact ne_of_toNat (by omega) (by omega) (by omega)
  · intro h
    have hup : dest.toNat ≤ src.toNat ∨ dest.toNat + n.toNat ≤ src.toNat ∨
      src.toNat + n.toNat ≤ dest.toNat := h
    refine Turns.returns_bind (Turns.returns.mono (loop_up hd fun i hi j hj => ?_) fun _ _ h =>
      Turns.returns_pure ⟨rfl, h⟩)
    exact ne_of_toNat (by omega) (by omega) (by omega)

/-- Four bytes, two of them shared by the ranges. -/
theorem memmove_moves_overlap :
    let s : State := ⟨fun a => a.setWidth 8, [], 0⟩
    Turns.returns (memmove 2 0 4) (fun r s' => r = 2 ∧ Moved s s' 2 0 4) s ∧
      Turns.returns (memcpy 0 2 4) (fun r s' => r = 0 ∧ Moved s s' 0 2 4) s :=
  ⟨(memmove_moves _ 2 0 4 (by decide) (by decide)).1,
    (memmove_moves _ 0 2 4 (by decide) (by decide)).2 (.inl (by decide))⟩

end OldLinux.Strings
