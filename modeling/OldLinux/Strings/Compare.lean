import OldLinux.Strings.Bounded

/-!
# Comparisons

`strcmp`, `strncmp` and `memcmp` return the difference of the first two characters that differ, as a `size_t`. Read as
a signed number it tells which of the two strings comes first in the lexicographic order of the unsigned characters,
where a string comes before those that go on (`comparisons_order`).
-/

namespace OldLinux.Strings
open Lib Function

variable {s : State} {p q r : BitVec 64} {l l' : List (BitVec 8)} {x y : BitVec 8} {c k n : Nat}

/-! ## The order -/

/-- `r` says how `l` compares with `l'`. -/
def Compares (r : BitVec 64) (l l' : List (BitVec 8)) : Prop := (r = 0 ↔ l = l') ∧ (r.toInt < 0 ↔ l < l')

/-- The difference of two bytes. -/
lemma minus_toInt : (minus x y).toInt = x.toNat - y.toNat := by
  have hx := x.isLt
  have hy := y.isLt
  have hint : (x.setWidth 32 - y.setWidth 32).toInt = x.toNat - y.toNat := by
    rw [BitVec.toInt_eq_toNat_cond, BitVec.toNat_sub, BitVec.toNat_setWidth, BitVec.toNat_setWidth]
    split
    all_goals omega
  rw [minus, BitVec.toInt_signExtend_of_le (by decide), hint]

/-- It is 0 if they are equal. -/
lemma minus_eq_zero : minus x y = 0 ↔ x = y := by
  have hzero : (0 : BitVec 64).toInt = 0 := rfl
  rw [← BitVec.toInt_inj, minus_toInt, hzero, BitVec.toNat_eq]
  omega

/-- The difference is negative if the first is less. -/
lemma minus_neg : (minus x y).toInt < 0 ↔ x < y := by
  rw [minus_toInt, BitVec.lt_def]
  omega

/-- Two empty strings. -/
lemma compares_nil : Compares 0 [] [] := ⟨iff_of_true rfl rfl, by decide⟩

/-- Strings that differ at once. -/
lemma compares_minus (h : x ≠ y) : Compares (minus x y) (x :: l) (y :: l') := by
  constructor
  · rw [minus_eq_zero]
    exact iff_of_false h fun e => h (List.cons.inj e).1
  · rw [minus_neg, List.cons_lt_cons_iff]
    exact ⟨.inl, fun hlt => hlt.elim id fun e => absurd e.1 h⟩

/-- The first one ends. -/
lemma compares_left (h : y ≠ 0) : Compares (minus 0 y) [] (y :: l') := by
  have hpos : (0 : BitVec 8) < y := by
    rw [BitVec.lt_def]
    exact Nat.pos_of_ne_zero fun e => h (BitVec.eq_of_toNat_eq e)
  constructor
  · rw [minus_eq_zero]
    exact iff_of_false h.symm (List.cons_ne_nil y l').symm
  · rw [minus_neg]
    exact iff_of_true hpos (List.nil_lt_cons y l')

/-- The second one ends. -/
lemma compares_right (h : x ≠ 0) : Compares (minus x 0) (x :: l) [] := by
  constructor
  · rw [minus_eq_zero]
    exact iff_of_false h (List.cons_ne_nil x l)
  · rw [minus_neg]
    exact iff_of_false (BitVec.not_lt_zero) (List.not_lt_nil _)

/-- Strings that begin alike. -/
lemma Compares.cons (h : Compares r l l') : Compares r (x :: l) (x :: l') := by
  constructor
  · rw [h.1, List.cons_inj_right]
  · rw [h.2, List.cons_lt_cons_iff]
    refine ⟨fun hlt => .inr ⟨rfl, hlt⟩, ?_⟩
    rintro (hlt | ⟨-, hlt⟩)
    · exact absurd hlt (BitVec.lt_irrefl x)
    · exact hlt

/-! ## Where the loops stop -/

/-- The character at the beginning of a string, 0 if there is none. -/
def Heads (x : BitVec 8) : List (BitVec 8) → Prop
  | [] => x = 0
  | y :: _ => x = y ∧ y ≠ 0

/-- The first byte of a string. -/
lemma heads_of_cstr {m : Mem} (h : CStr m p l) : Heads (m p) l := by
  cases l with
  | nil => exact h
  | cons x l => exact ⟨h.1, h.2.1⟩

/-- The first byte of the beginning of a string. -/
lemma Heads.take (h : Heads x l) : Heads x (l.take (c + 1)) := by
  cases l with
  | nil => exact h
  | cons y l => exact h

/-- The characters differ, or the first string is over. -/
lemma compares_stop (h : Heads x l) (h' : Heads y l') (hd : x = 0 ∨ x ≠ y) : Compares (minus x y) l l' := by
  cases l with
  | nil =>
    obtain rfl : x = 0 := h
    cases l' with
    | nil =>
      obtain rfl : y = 0 := h'
      exact compares_nil
    | cons b l' =>
      obtain ⟨rfl, hb⟩ := h'
      exact compares_left hb
  | cons a l =>
    obtain ⟨rfl, ha⟩ := h
    cases l' with
    | nil =>
      obtain rfl : y = 0 := h'
      exact compares_right ha
    | cons b l' =>
      obtain ⟨rfl, -⟩ := h'
      exact compares_minus (hd.resolve_left ha)

/-- The count is over. -/
lemma compares_last (h : Heads x l) (h' : Heads y l') : Compares (minus x y) (l.take 1) (l'.take 1) := by
  by_cases hd : x = 0 ∨ x ≠ y
  · exact compares_stop h.take h'.take hd
  · obtain ⟨h0, he⟩ := not_or.1 hd
    obtain rfl := not_not.1 he
    cases l with
    | nil => exact absurd h h0
    | cons a l =>
      cases l' with
      | nil => exact absurd h' h0
      | cons b l' =>
        obtain ⟨rfl, -⟩ := h
        obtain ⟨rfl, -⟩ := h'
        rw [minus_eq_zero.2 rfl]
        exact compares_nil.cons

/-! ## The loops -/

/-- The loop of `strcmp` ends at the first difference. -/
lemma cmp_returns (hn : l.length < n) (h : CStr s.byte p l) (h' : CStr s.byte q l') :
    Turns.returns (Turns.loop cmpTurn n (p, q))
      (fun r s' => Compares (minus (s.byte r.1) (s.byte r.2)) l l' ∧ s' = s) s := by
  have hh' := heads_of_cstr h'
  induction l generalizing p q l' n with
  | nil =>
    have hp : s.byte p = 0 := h
    refine Turns.returns_loop hn (returns_load ?_)
    rw [if_neg (not_not.2 hp)]
    exact Turns.returns_pure ⟨compares_stop (heads_of_cstr h) hh' (.inl hp), rfl⟩
  | cons x l ih =>
    have hh := heads_of_cstr h
    obtain ⟨hx, hx0, hl⟩ := h
    refine Turns.returns_loop hn (returns_load ?_)
    rw [if_pos (by rwa [hx])]
    refine returns_load ?_
    by_cases hxy : s.byte p = s.byte q
    · rw [if_pos hxy]
      cases l' with
      | nil => exact absurd (hx.symm.trans (hxy.trans h')) hx0
      | cons y l' =>
        obtain ⟨hy, -, hl'⟩ := h'
        obtain rfl : x = y := hx.symm.trans (hxy.trans hy)
        exact Turns.returns_pure ((ih (Nat.lt_sub_of_add_lt hn) hl hl' (heads_of_cstr hl')).mono
          fun r s' hr => ⟨hr.1.cons, hr.2⟩)
    · rw [if_neg hxy]
      exact Turns.returns_pure ⟨compares_stop hh hh' (.inr hxy), rfl⟩

/-- The loop of `strncmp` ends there, too, or where the count ends. -/
lemma ncmp_returns (hc : c + 1 < 2 ^ 32) (hn : c < n) (h : CStr s.byte p l) (h' : CStr s.byte q l') :
    Turns.returns (Turns.loop ncmpTurn n (p, q, BitVec.ofNat 32 (c + 1)))
      (fun r s' => Compares (minus (s.byte r.1) (s.byte r.2)) (l.take (c + 1)) (l'.take (c + 1)) ∧ s' = s) s := by
  have hh := heads_of_cstr h
  have hh' := heads_of_cstr h'
  induction c generalizing p q l l' n with
  | zero =>
    refine Turns.returns_loop hn ?_
    exact Turns.returns_pure ⟨compares_last hh hh', rfl⟩
  | succ c ih =>
    refine Turns.returns_loop hn ?_
    rw [ncmpTurn, ofNat_succ_sub_one, if_pos (ofNat_succ_ne_zero (by omega))]
    refine returns_load ?_
    cases l with
    | nil =>
      have hp : s.byte p = 0 := h
      rw [if_neg (not_not.2 hp)]
      exact Turns.returns_pure ⟨compares_stop hh.take hh'.take (.inl hp), rfl⟩
    | cons x l =>
      obtain ⟨hx, hx0, hl⟩ := h
      rw [if_pos (by rwa [hx])]
      refine returns_load ?_
      by_cases hxy : s.byte p = s.byte q
      · rw [if_pos hxy]
        cases l' with
        | nil => exact absurd (hx.symm.trans (hxy.trans h')) hx0
        | cons y l' =>
          obtain ⟨hy, -, hl'⟩ := h'
          obtain rfl : x = y := hx.symm.trans (hxy.trans hy)
          exact Turns.returns_pure ((ih (by omega) (Nat.lt_sub_of_add_lt hn) hl hl' (heads_of_cstr hl)
            (heads_of_cstr hl')).mono fun r s' hr => ⟨hr.1.cons, hr.2⟩)
      · rw [if_neg hxy]
        exact Turns.returns_pure ⟨compares_stop hh.take hh'.take (.inr hxy), rfl⟩

/-- The loop of `memcmp` compares all bytes. -/
lemma memcmp_returns (hk : k < 2 ^ 64) (hn : k < n) :
    Turns.returns (Turns.loop memcmpTurn n (p, q, BitVec.ofNat 64 k))
      (fun r s' => Compares r (bytes s.byte p k) (bytes s.byte q k) ∧ s' = s) s := by
  induction k generalizing p q n with
  | zero =>
    refine Turns.returns_loop hn ?_
    exact Turns.returns_pure ⟨compares_nil, rfl⟩
  | succ k ih =>
    have hpos : 0 < BitVec.ofNat 64 (k + 1) := by
      rw [BitVec.lt_def, BitVec.toNat_ofNat, Nat.mod_eq_of_lt hk]
      exact Nat.succ_pos k
    refine Turns.returns_loop hn ?_
    rw [memcmpTurn, if_pos hpos]
    refine returns_load (returns_load ?_)
    rw [bytes, bytes]
    by_cases hxy : s.byte p = s.byte q
    · rw [if_neg (not_not.2 hxy), ofNat_succ_sub_one, hxy]
      exact Turns.returns_pure ((ih (Nat.lt_of_succ_lt hk) (Nat.lt_sub_of_add_lt hn)).mono
        fun r s' hr => ⟨hr.1.cons, hr.2⟩)
    · rw [if_pos hxy]
      exact Turns.returns_pure ⟨compares_minus hxy, rfl⟩

/-! ## The functions -/

/-- **The comparisons of `string.c` are the lexicographic order**: of two strings, of their first `count` characters,
    and of two areas of memory of the same size. -/
theorem comparisons_order (s : State) (p q : BitVec 64) :
    (∀ l l', CStr s.byte p l → CStr s.byte q l' →
      Turns.returns (strcmp p q) (fun r s' => Compares r l l' ∧ s' = s) s ∧
      ∀ count : BitVec 32, 0 ≤ count.toInt → Turns.returns (strncmp p q count)
        (fun r s' => Compares r (l.take count.toNat) (l'.take count.toNat) ∧ s' = s) s) ∧
    ∀ count : BitVec 64, Turns.returns (memcmp p q count)
      (fun r s' => Compares r (bytes s.byte p count.toNat) (bytes s.byte q count.toNat) ∧ s' = s) s := by
  refine ⟨fun l l' h h' => ⟨?_, fun count hc => ?_⟩, fun count => ?_⟩
  · refine Turns.returns_bind ((cmp_returns h.length_lt h h').mono ?_)
    rintro ⟨p', q'⟩ _ ⟨hr, rfl⟩
    exact returns_load (returns_load (Turns.returns_pure ⟨hr, rfl⟩))
  · have hlt := toNat_lt_of_toInt hc
    rw [strncmp]
    by_cases h0 : count = 0
    · rw [if_pos h0, h0]
      exact Turns.returns_pure ⟨compares_nil, rfl⟩
    · have hpos : 0 < count.toNat := Nat.pos_of_ne_zero fun e => h0 (BitVec.eq_of_toNat_eq e)
      obtain ⟨c, hcount⟩ : ∃ c, count.toNat = c + 1 := ⟨count.toNat - 1, by omega⟩
      have hret := ncmp_returns (s := s) (c := c) (n := space) (by omega) (by rw [space]; omega) h h'
      rw [← hcount, BitVec.ofNat_toNat, BitVec.setWidth_eq] at hret
      rw [if_neg h0]
      refine Turns.returns_bind (hret.mono ?_)
      rintro ⟨p', q'⟩ _ ⟨hr, rfl⟩
      exact returns_load (returns_load (Turns.returns_pure ⟨hr, rfl⟩))
  · have hret := memcmp_returns (s := s) (p := p) (q := q) (n := space) count.isLt count.isLt
    rwa [BitVec.ofNat_toNat, BitVec.setWidth_eq] at hret

/-- `ab` and `c`. -/
theorem comparisons_order_ab :
    (Turns.returns (strcmp 0 16) (fun r s' => Compares r [97, 98] [99] ∧ s' = twoStrings) twoStrings ∧
      Turns.returns (strncmp 0 16 1) (fun r s' => Compares r [97] [99] ∧ s' = twoStrings) twoStrings) ∧
    Turns.returns (memcmp 0 16 2)
      (fun r s' => Compares r (bytes twoStrings.byte 0 2) (bytes twoStrings.byte 16 2) ∧ s' = twoStrings) twoStrings :=
  ⟨⟨((comparisons_order twoStrings 0 16).1 [97, 98] [99] twoStrings_src twoStrings_dest).1,
    ((comparisons_order twoStrings 0 16).1 [97, 98] [99] twoStrings_src twoStrings_dest).2 1 (by decide)⟩,
    (comparisons_order twoStrings 0 16).2 2⟩

end OldLinux.Strings
