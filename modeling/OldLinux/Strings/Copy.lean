import OldLinux.Strings.Compare
import OldLinux.Strings.Search

/-!
# Unbounded copies

`strcpy` and `strcat` write the string with its terminator, and `memset` writes as many bytes as it is told. Where the
strings and the room for them do not overlap, `strcat` behind `strcpy` leaves the one string behind the other, with
nothing else changed (`copies_build`).
-/

namespace OldLinux.Strings
open Lib Function

variable {s : State} {p dest src : BitVec 64} {l t : List (BitVec 8)} {c : BitVec 32} {k n : Nat}

/-! ## The loops -/

/-- The loop of `strcpy` copies the string. -/
lemma cpy_returns (hn : l.length < n) (h : CStr s.byte src l) (ha : Apart src (l.length + 1) dest (l.length + 1)) :
    Turns.returns (Turns.loop cpyTurn n (dest, src)) (fun _ s' => s' = s.write dest (l ++ [0])) s := by
  induction l generalizing s src dest n with
  | nil =>
    have h : s.byte src = 0 := h
    refine Turns.returns_loop hn (returns_load (returns_store ?_))
    rw [h, if_neg (not_not.2 rfl)]
    exact Turns.returns_pure rfl
  | cons x l ih =>
    obtain ⟨hx, hx0, hl⟩ := h
    -- the byte just stored is none of the string
    have hl' : CStr (s.store dest x).byte (src + 1) l := hl.congr fun i hi => by
      have hi' := ha (i + 1) (Nat.succ_lt_succ (Nat.lt_succ_of_le hi)) 0 (Nat.succ_pos _)
      rw [add_ofNat_zero, add_ofNat_succ_left] at hi'
      exact update_of_ne hi' ..
    refine Turns.returns_loop hn (returns_load (returns_store ?_))
    rw [hx, if_pos hx0]
    exact Turns.returns_pure (ih (Nat.lt_sub_of_add_lt hn) hl' ha.tail)

/-- The loop of `memset` fills the memory. -/
lemma set_returns (hk : k < 2 ^ 64) (hn : k < n) :
    Turns.returns (Turns.loop (setTurn c) n (p, BitVec.ofNat 64 k))
      (fun _ s' => s' = s.write p (List.replicate k (charOf c))) s := by
  induction k generalizing s p n with
  | zero => exact Turns.returns_loop hn (Turns.returns_pure rfl)
  | succ k ih =>
    have hpos : 0 < BitVec.ofNat 64 (k + 1) := by
      rw [BitVec.lt_def, BitVec.toNat_ofNat, Nat.mod_eq_of_lt hk]
      exact Nat.succ_pos k
    refine Turns.returns_loop hn ?_
    rw [setTurn, if_pos hpos]
    refine returns_store (Turns.returns_pure ?_)
    rw [Sum.elim_inr, ofNat_succ_sub_one]
    exact ih (Nat.lt_of_succ_lt hk) (Nat.lt_sub_of_add_lt hn)

/-! ## The functions -/

/-- `strcpy` copies the string and its NUL. -/
lemma strcpy_returns (h : CStr s.byte src l) (ha : Apart src (l.length + 1) dest (l.length + 1)) :
    Turns.returns (strcpy dest src) (fun r s' => r = dest ∧ s' = s.write dest (l ++ [0])) s := by
  refine Turns.returns_bind ((cpy_returns h.length_lt h ha).mono ?_)
  exact fun _ s' hs => Turns.returns_pure ⟨rfl, hs⟩

/-- `strcat` copies it behind another one. -/
lemma strcat_returns (hd : CStr s.byte dest l) (h : CStr s.byte src t)
    (ha : Apart src (t.length + 1) (dest + BitVec.ofNat 64 l.length) (t.length + 1)) :
    Turns.returns (strcat dest src)
      (fun r s' => r = dest ∧ s' = s.write (dest + BitVec.ofNat 64 l.length) (t ++ [0])) s := by
  refine Turns.returns_bind ((end_returns hd.length_lt hd).mono ?_)
  rintro _ s₁ ⟨rfl, rfl⟩
  refine Turns.returns_bind ((cpy_returns h.length_lt h ha).mono ?_)
  exact fun _ s' hs => Turns.returns_pure ⟨rfl, hs⟩

/-- `strcat(strcpy(dest, a), b)`. -/
def build (dest a b : BitVec 64) : Turns State (BitVec 64) := do
  let d ← strcpy dest a
  strcat d b

/-- What `build` leaves behind. -/
structure Built (dest a b : BitVec 64) (l t : List (BitVec 8)) (s s' : State) : Prop where
  joined : CStr s'.byte dest (l ++ t)
  first : CStr s'.byte a l
  second : CStr s'.byte b t
  outside : ∀ x, (∀ i < l.length + t.length + 1, x ≠ dest + BitVec.ofNat 64 i) → s'.byte x = s.byte x
  stores : s'.stored.length = s.stored.length + (l.length + 1) + (t.length + 1)

/-- Behind `strcpy` there is the first string, and behind `strcat` the second one behind it. -/
lemma build_returns {a b : BitVec 64} (ha : CStr s.byte a l) (hb : CStr s.byte b t)
    (hda : Apart a (l.length + 1) dest (l.length + t.length + 1))
    (hdb : Apart b (t.length + 1) dest (l.length + t.length + 1)) :
    Turns.returns (build dest a b) (fun r s' => r = dest ∧ Built dest a b l t s s') s := by
  have hroom := hda.lt
  have hlen : (l ++ [0]).length = l.length + 1 := List.length_append
  have hlen' : (t ++ [0]).length = t.length + 1 := List.length_append
  -- the places written to are places of the room
  have hplace : ∀ i, dest + BitVec.ofNat 64 l.length + BitVec.ofNat 64 i = dest + BitVec.ofNat 64 (l.length + i) :=
    fun i => add_ofNat_add.symm
  have hbytes : (s.write dest (l ++ [0])).byte = patch s.byte dest (l ++ [0]) := write_byte (by omega)
  have hbytes' : ((s.write dest (l ++ [0])).write (dest + BitVec.ofNat 64 l.length) (t ++ [0])).byte =
      patch (patch s.byte dest (l ++ [0])) (dest + BitVec.ofNat 64 l.length) (t ++ [0]) := by
    rw [write_byte (by omega), hbytes]
  have hfirst : ∀ x, (∀ i < l.length + t.length + 1, x ≠ dest + BitVec.ofNat 64 i) →
      patch s.byte dest (l ++ [0]) x = s.byte x :=
    fun x hx => patch_outside fun i hi => hx i (by omega)
  have hboth : ∀ x, (∀ i < l.length + t.length + 1, x ≠ dest + BitVec.ofNat 64 i) →
      patch (patch s.byte dest (l ++ [0])) (dest + BitVec.ofNat 64 l.length) (t ++ [0]) x = s.byte x := by
    intro x hx
    rw [patch_outside, hfirst x hx]
    intro i hi
    rw [hplace]
    exact hx _ (by omega)
  have hcopy : CStr (patch s.byte dest (l ++ [0])) dest l := ha.patch
  have hd : CStr (s.write dest (l ++ [0])).byte dest l := by rwa [hbytes]
  have hb₁ : CStr (s.write dest (l ++ [0])).byte b t := by
    rw [hbytes]
    exact hb.congr fun i hi => hfirst _ fun j hj => hdb i (Nat.lt_succ_of_le hi) j hj
  refine Turns.returns_bind ((strcpy_returns ha (hda.mono le_rfl (by omega))).mono ?_)
  rintro _ s₁ ⟨hr, rfl⟩
  rw [hr]
  have hapart : Apart b (t.length + 1) (dest + BitVec.ofNat 64 l.length) (t.length + 1) := fun i hi j hj => by
    rw [hplace]
    exact hdb i hi _ (by omega)
  refine (strcat_returns hd hb₁ hapart).mono ?_
  rintro _ s₂ ⟨hr, rfl⟩
  refine ⟨hr, ?_, ?_, ?_, ?_, ?_⟩
  · rw [hbytes']
    refine hcopy.append (fun i hi => ?_) hb.patch
    refine patch_outside fun j hj => ?_
    rw [hplace]
    exact add_ofNat_ne (by omega) (by omega)
  · rw [hbytes']
    exact ha.congr fun i hi => hboth _ fun j hj => hda i (Nat.lt_succ_of_le hi) j hj
  · rw [hbytes']
    exact hb.congr fun i hi => hboth _ fun j hj => hdb i (Nat.lt_succ_of_le hi) j hj
  · rw [hbytes']
    exact hboth
  · rw [length_stored, length_stored, hlen, hlen']
    omega

/-- **Copies build strings**: `strcat(strcpy(dest, a), b)` leaves the one string behind the other and changes nothing
    else, so that `strlen` finds the sum of the lengths and `strncmp` the first one at the beginning; `memset` writes
    exactly `count` times the character. -/
theorem copies_build (s : State) (dest : BitVec 64) :
    (∀ a b l t, CStr s.byte a l → CStr s.byte b t → Apart a (l.length + 1) dest (l.length + t.length + 1) →
      Apart b (t.length + 1) dest (l.length + t.length + 1) →
      Turns.returns (build dest a b) (fun r s' => r = dest ∧ Built dest a b l t s s' ∧
        Turns.returns (strlen dest) (fun r s'' => r = BitVec.ofNat 64 (l.length + t.length) ∧ s'' = s') s' ∧
        (l.length < 2 ^ 31 → Turns.returns (strncmp dest a (BitVec.ofNat 32 l.length))
          (fun r s'' => r = 0 ∧ s'' = s') s')) s) ∧
    ∀ (c : BitVec 32) (count : BitVec 64), Turns.returns (memset dest c count)
      (fun r s' => r = dest ∧ s' = s.write dest (List.replicate count.toNat (charOf c))) s := by
  refine ⟨fun a b l t ha hb hda hdb => ?_, fun c count => ?_⟩
  · refine (build_returns ha hb hda hdb).mono ?_
    rintro r s' ⟨rfl, h⟩
    refine ⟨rfl, h, ?_, fun hlt => ?_⟩
    · have hlen := ((searches_find s' r).1 _ h.joined).strlen
      rwa [List.length_append] at hlen
    · have hnat : (BitVec.ofNat 32 l.length).toNat = l.length := by
        rw [BitVec.toNat_ofNat, Nat.mod_eq_of_lt (by omega)]
      have hint : 0 ≤ (BitVec.ofNat 32 l.length).toInt := by
        rw [BitVec.toInt_eq_toNat_of_lt (by omega)]
        exact Int.natCast_nonneg _
      refine (((comparisons_order s' r a).1 _ _ h.joined h.first).2 _ hint).mono ?_
      rintro r s'' ⟨hr, hs⟩
      rw [hnat, List.take_left, List.take_length] at hr
      exact ⟨hr.1.2 rfl, hs⟩
  · have hret := set_returns (s := s) (p := dest) (c := c) (n := space) count.isLt count.isLt
    rw [BitVec.ofNat_toNat, BitVec.setWidth_eq] at hret
    exact Turns.returns_bind (hret.mono fun _ s' hs => Turns.returns_pure ⟨rfl, hs⟩)

/-- There is room behind the strings of the sample. -/
lemma twoStrings_room : Apart 0 3 32 4 ∧ Apart 16 2 32 4 := by
  rw [Apart, Apart]
  decide

/-- `abc` at 32. -/
theorem copies_build_abc :
    Turns.returns (build 32 0 16) (fun r s' => r = 32 ∧ Built 32 0 16 [97, 98] [99] twoStrings s' ∧
      Turns.returns (strlen 32) (fun r s'' => r = BitVec.ofNat 64 3 ∧ s'' = s') s' ∧
      (2 < 2 ^ 31 → Turns.returns (strncmp 32 0 (BitVec.ofNat 32 2)) (fun r s'' => r = 0 ∧ s'' = s') s'))
        twoStrings :=
  (copies_build twoStrings 32).1 0 16 [97, 98] [99] twoStrings_src twoStrings_dest twoStrings_room.1 twoStrings_room.2

end OldLinux.Strings
