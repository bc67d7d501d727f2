import OldLinux.Strings.Code

/-!
# Bounded copies of strings

The loop that `strncpy` and `strncat` share copies the string with its terminator as far as the count goes.
For `strncpy` the second loop goes on with what is left of the count. `strncat` stores a terminator wherever
`dest` stands, which is behind the one that has been copied when the string is shorter than the count: then it
writes one byte more than it should (`bounded_copy_iff`).
-/

namespace OldLinux.Strings
open Lib Function

variable {s : State} {dest src : BitVec 64} {count : BitVec 32} {l d : List (BitVec 8)} {c k t : Nat}

/-! ## The loops -/

/-- The count behind the first loop, of which the last step was to 0, or which has not come there. -/
def countLeft (c len : Nat) : BitVec 32 :=
  if c ≤ len then BitVec.ofNat 32 0 - 1 else BitVec.ofNat 32 (c - (len + 1))

/-- A character less is left. -/
lemma countLeft_succ : countLeft (c + 1) (k + 1) = countLeft c k := by
  rw [countLeft, countLeft, Nat.add_sub_add_right]
  simp only [Nat.add_le_add_iff_right]

/-- The string with its terminator is copied as far as the count goes. -/
lemma copy_returns (hc : c < 2 ^ 31) (ht : l.length < t) (h : CStr s.byte src l)
    (ha : Apart src (l.length + 1) dest (min c (l.length + 1))) :
    Turns.returns (Turns.loop copyTurn t (dest, src, BitVec.ofNat 32 c)) (fun r s' =>
      r = (dest + BitVec.ofNat 64 (min c (l.length + 1)), countLeft c l.length) ∧
        s' = s.write dest ((l ++ [0]).take c)) s := by
  induction l generalizing s src dest c t with
  | nil =>
    refine Turns.returns_loop ht ?_
    cases c with
    | zero =>
      refine Turns.returns_pure ⟨?_, rfl⟩
      rw [Nat.zero_min, add_ofNat_zero]
      rfl
    | succ c =>
      have hne : BitVec.ofNat 32 (c + 1) ≠ 0 := ofNat_succ_ne_zero (by omega)
      rw [copyTurn, if_neg hne]
      have h : s.byte src = 0 := h
      refine returns_load (returns_store ?_)
      rw [h, if_neg (not_not.2 rfl)]
      refine Turns.returns_pure ⟨?_, ?_⟩
      · rw [ofNat_succ_sub_one, List.length_nil, Nat.min_eq_right (Nat.succ_le_succ (Nat.zero_le c)),
          countLeft, if_neg (Nat.not_succ_le_zero c)]
        rfl
      · rw [List.nil_append, List.take_of_length_le (Nat.succ_le_succ (Nat.zero_le c))]
        rfl
  | cons x l ih =>
    refine Turns.returns_loop ht ?_
    cases c with
    | zero =>
      refine Turns.returns_pure ⟨?_, rfl⟩
      rw [Nat.zero_min, add_ofNat_zero]
      rfl
    | succ c =>
      have hne : BitVec.ofNat 32 (c + 1) ≠ 0 := ofNat_succ_ne_zero (by omega)
      obtain ⟨hx, hx0, hl⟩ := h
      rw [List.length_cons, Nat.succ_min_succ] at ha
      -- the byte just stored is none of the string
      have hl' : CStr (s.store dest x).byte (src + 1) l := hl.congr fun i hi => by
        have hi' := ha (i + 1) (by omega) 0 (Nat.succ_pos _)
        rw [add_ofNat_zero, add_ofNat_succ_left] at hi'
        exact update_of_ne hi' ..
      have hrest := ih (Nat.lt_of_succ_lt hc) (Nat.lt_sub_of_add_lt ht) hl' ha.tail
      rw [copyTurn, if_neg hne]
      refine returns_load (returns_store ?_)
      rw [hx, if_pos hx0, ofNat_succ_sub_one]
      refine Turns.returns_pure (hrest.mono fun r s' hr => ⟨?_, hr.2⟩)
      rw [hr.1, List.length_cons, Nat.succ_min_succ, add_ofNat_succ_left, countLeft_succ]

/-- What is left of the count. -/
lemma fill_returns (hc : c < 2 ^ 31) (ht : c < t) :
    Turns.returns (Turns.loop fillTurn t (dest, BitVec.ofNat 32 c))
      (fun _ s' => s' = s.write dest (List.replicate c 0)) s := by
  induction c generalizing s dest t with
  | zero =>
    exact Turns.returns_loop ht (Turns.returns_pure rfl)
  | succ c ih =>
    have hpos : 0 < (BitVec.ofNat 32 (c + 1)).toInt := by
      rw [BitVec.toInt_eq_toNat_of_lt, BitVec.toNat_ofNat, Nat.mod_eq_of_lt (by omega)]
      · omega
      · rw [BitVec.toNat_ofNat, Nat.mod_eq_of_lt (by omega)]
        omega
    refine Turns.returns_loop ht ?_
    rw [fillTurn, if_pos hpos]
    refine returns_store (Turns.returns_pure ?_)
    rw [Sum.elim_inr, ofNat_succ_sub_one]
    exact ih (Nat.lt_of_succ_lt hc) (Nat.lt_sub_of_add_lt ht)

/-- There is nothing left. -/
lemma fill_nothing (ht : 0 < t) : Turns.returns (Turns.loop fillTurn t (dest, BitVec.ofNat 32 0 - 1))
    (fun _ s' => s' = s) s := by
  exact Turns.returns_loop ht (Turns.returns_pure rfl)

/-- To the terminator. -/
lemma end_returns (ht : l.length < t) (h : CStr s.byte dest l) : Turns.returns (Turns.loop endTurn t dest)
    (fun r s' => r = dest + BitVec.ofNat 64 l.length ∧ s' = s) s := by
  induction l generalizing dest t with
  | nil =>
    have h : s.byte dest = 0 := h
    refine Turns.returns_loop ht (returns_load ?_)
    rw [h, if_neg (not_not.2 rfl)]
    exact Turns.returns_pure ⟨add_ofNat_zero.symm, rfl⟩
  | cons x l ih =>
    obtain ⟨hx, hx0, hl⟩ := h
    refine Turns.returns_loop ht (returns_load ?_)
    rw [hx, if_pos hx0]
    refine Turns.returns_pure ((ih (Nat.lt_sub_of_add_lt ht) hl).mono fun r s' hr => ⟨?_, hr.2⟩)
    rw [hr.1, List.length_cons, add_ofNat_succ_left]

/-! ## The copies -/

/-- A count that is not negative. -/
lemma toNat_lt_of_toInt (h : 0 ≤ count.toInt) : count.toNat < 2 ^ 31 := by
  rw [BitVec.toInt_eq_toNat_cond] at h
  split at h
  · omega
  · omega

/-- The loops of `strncpy` write the string as far as the count goes, and then zeros. -/
lemma strncpy_returns (hc : 0 ≤ count.toInt) (h : CStr s.byte src l)
    (ha : Apart src (l.length + 1) dest count.toNat) :
    Turns.returns (strncpy dest src count) (fun r s' => r = dest ∧
      s' = s.write dest (l.take count.toNat ++ List.replicate (count.toNat - l.length) 0)) s := by
  have hlt := toNat_lt_of_toInt hc
  have hcopy := @copy_returns s dest src l count.toNat space hlt h.length_lt h
    (ha.mono le_rfl (Nat.min_le_left _ _))
  rw [BitVec.ofNat_toNat, BitVec.setWidth_eq] at hcopy
  refine Turns.returns_bind (hcopy.mono ?_)
  rintro _ s₁ ⟨rfl, rfl⟩
  refine Turns.returns_bind ?_
  rw [countLeft]
  by_cases hle : count.toNat ≤ l.length
  · rw [if_pos hle]
    refine (fill_nothing (by decide)).mono fun _ s₂ hs₂ => Turns.returns_pure ⟨rfl, ?_⟩
    rw [hs₂, List.take_append_of_le_length hle, Nat.sub_eq_zero_of_le hle, List.replicate_zero,
      List.append_nil]
  · have hgt := Nat.lt_of_not_le hle
    rw [if_neg hle]
    have hfill := @fill_returns (s.write dest ((l ++ [0]).take count.toNat))
      (dest + BitVec.ofNat 64 (min count.toNat (l.length + 1))) (count.toNat - (l.length + 1)) space
      (by omega) (by rw [space]; omega)
    refine hfill.mono fun _ s₂ hs₂ => Turns.returns_pure ⟨rfl, ?_⟩
    have hlen : (l ++ [0]).length = l.length + 1 := List.length_append
    have hsub : count.toNat - l.length = count.toNat - (l.length + 1) + 1 := by omega
    have happ := @write_append s dest (l ++ [0]) (List.replicate (count.toNat - (l.length + 1)) 0)
    rw [hlen, List.append_assoc] at happ
    rw [hs₂, List.take_of_length_le (hlen.trans_le hgt), Nat.min_eq_right hgt, List.take_of_length_le hgt.le,
      hsub, List.replicate_succ]
    exact happ.symm

/-- The loop of `strncat` writes the string as far as the count goes, with its terminator if that is as far,
    and then another one is stored. -/
lemma strncat_returns (hc : 0 ≤ count.toInt) (h : CStr s.byte src l) (hd : CStr s.byte dest d)
    (ha : Apart src (l.length + 1) (dest + BitVec.ofNat 64 d.length) (min count.toNat (l.length + 1))) :
    Turns.returns (strncat dest src count) (fun r s' => r = dest ∧
      s' = s.write (dest + BitVec.ofNat 64 d.length) ((l ++ [0]).take count.toNat ++ [0])) s := by
  have hcopy := @copy_returns s (dest + BitVec.ofNat 64 d.length) src l count.toNat space
    (toNat_lt_of_toInt hc) h.length_lt h ha
  rw [BitVec.ofNat_toNat, BitVec.setWidth_eq] at hcopy
  refine Turns.returns_bind ((end_returns hd.length_lt hd).mono ?_)
  rintro _ s₁ ⟨rfl, rfl⟩
  refine Turns.returns_bind (hcopy.mono ?_)
  rintro _ s₂ ⟨rfl, rfl⟩
  refine returns_store (Turns.returns_pure ⟨rfl, ?_⟩)
  have hlen : ((l ++ [0]).take count.toNat).length = min count.toNat (l.length + 1) := by
    rw [List.length_take, List.length_append]
    rfl
  rw [write_append, hlen]
  rfl

/-- `strncpy` writes exactly `count` bytes, the string as far as it goes and zeros. `strncat` writes exactly
    the string as far as the count goes, and one zero, if and only if the string is not shorter than the
    count. -/
theorem bounded_copy_iff (s : State) (dest src : BitVec 64) (count : BitVec 32) (l : List (BitVec 8))
    (hc : 0 ≤ count.toInt) (h : CStr s.byte src l) :
    (Apart src (l.length + 1) dest count.toNat → Turns.returns (strncpy dest src count) (fun r s' =>
      r = dest ∧ s' = s.write dest (l.take count.toNat ++ List.replicate (count.toNat - l.length) 0)) s) ∧
    ∀ d, CStr s.byte dest d →
      Apart src (l.length + 1) (dest + BitVec.ofNat 64 d.length) (min count.toNat l.length + 1) →
      (Turns.returns (strncat dest src count) (fun r s' => r = dest ∧
        s' = s.write (dest + BitVec.ofNat 64 d.length) (l.take count.toNat ++ [0])) s ↔
          count.toNat ≤ l.length) := by
  refine ⟨strncpy_returns hc h, fun d hd ha => ?_⟩
  have hret := @strncat_returns s dest src count l d hc h hd (ha.mono le_rfl (by omega))
  constructor
  · intro hexact
    obtain ⟨-, s', -, ⟨-, hs'⟩, -, hs''⟩ := hexact.unique hret
    -- the numbers of bytes
    have hlen := congrArg (fun s : State => s.stored.length) (hs'.symm.trans hs'')
    simp only [length_stored, List.length_append, List.length_take, List.length_singleton] at hlen
    omega
  · intro hle
    rw [List.take_append_of_le_length hle] at hret
    exact hret

/-- The string `ab` at 0, the string `c` at 16, and no more zeros. -/
def twoStrings : State where
  byte a :=
    if a = 0 then 97 else if a = 1 then 98 else if a = 16 then 99 else if a = 2 ∨ a = 17 then 0 else 7
  stored := []
  olds := 0

/-- The first string of the sample. -/
lemma twoStrings_src : CStr twoStrings.byte 0 [97, 98] := by decide

/-- The second string of the sample. -/
lemma twoStrings_dest : CStr twoStrings.byte 16 [99] := by decide

/-- The room behind the first string. -/
lemma twoStrings_apart : Apart 0 3 17 3 := by
  rw [Apart]
  decide

/-- One character is copied, and two when there are two. -/
theorem bounded_copy_two :
    Turns.returns (strncpy 17 0 3)
        (fun r s' => r = 17 ∧ s' = twoStrings.write 17 [97, 98, 0]) twoStrings ∧
      Turns.returns (strncat 16 0 2)
        (fun r s' => r = 16 ∧ s' = twoStrings.write 17 [97, 98, 0]) twoStrings :=
  ⟨(bounded_copy_iff twoStrings 17 0 3 [97, 98] (by decide) twoStrings_src).1 twoStrings_apart,
    ((bounded_copy_iff twoStrings 16 0 2 [97, 98] (by decide) twoStrings_src).2 [99] twoStrings_dest
      twoStrings_apart).2 (by decide)⟩

/-- With a count of 5, `strncat` writes four bytes, the last one behind the terminator. -/
theorem strncat_writes_behind :
    CStr twoStrings.byte 0 [97, 98] ∧ CStr twoStrings.byte 16 [99] ∧ Apart 0 3 17 3 ∧
    (∃ s', (strncat 16 0 5).run twoStrings = .ret (some 16, s') ∧ s'.stored = [20, 19, 18, 17] ∧
      twoStrings.byte 20 = 7 ∧ s'.byte 20 = 0) ∧
    ¬ Turns.returns (strncat 16 0 5)
        (fun r s' => r = 16 ∧ s' = twoStrings.write 17 [97, 98, 0]) twoStrings := by
  refine ⟨twoStrings_src, twoStrings_dest, twoStrings_apart, ⟨_, rfl, rfl, rfl, rfl⟩, ?_⟩
  rintro ⟨r, s', hrun, -, rfl⟩
  have hrun' : (strncat 16 0 5).run twoStrings = .ret (some 16, twoStrings.write 17 [97, 98, 0, 0]) := rfl
  rw [hrun'] at hrun
  have hstored := congrArg State.stored (Prod.mk.inj (Result.ret.inj hrun)).2
  cases hstored

end OldLinux.Strings
