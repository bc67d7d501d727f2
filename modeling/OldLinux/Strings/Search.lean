import OldLinux.Strings.Bounded
import OldLinux.Strings.Tokens

/-!
# Searches

`strchr`, `strstr` and `memchr` return the first place where something is the case (`First`), `strrchr` the last one,
or `NULL` when there is none. `strcspn` and `strlen` count the characters in front of such a place, which is the
terminator if there is no other.
-/

namespace OldLinux.Strings
open Lib Function

variable {s : State} {p q r last cs ct : BitVec 64} {l d t : List (BitVec 8)} {x : BitVec 8}
  {c : BitVec 32} {i k n : Nat}

/-! ## Places -/

/-- `r` is the first place from `p` on where `P` holds, or `NULL`. -/
def First (P : Nat → Prop) (p r : BitVec 64) : Prop :=
  (r = 0 ∧ ∀ i, ¬ P i) ∨ ∃ i, r = p + BitVec.ofNat 64 i ∧ P i ∧ ∀ j < i, ¬ P j

/-- `r` is the last place from `p` on where `P` holds, or `last`. -/
def Final (P : Nat → Prop) (p last r : BitVec 64) : Prop :=
  (r = last ∧ ∀ i, ¬ P i) ∨ ∃ i, r = p + BitVec.ofNat 64 i ∧ P i ∧ ∀ j, i < j → ¬ P j

variable {P : Nat → Prop}

/-- The first one is here. -/
lemma First.here (h : P 0) : First P p p := .inr ⟨0, add_ofNat_zero.symm, h, nofun⟩

/-- The first one is behind. -/
lemma First.next (h : ¬ P 0) (hr : First (fun i => P (i + 1)) (p + 1) r) : First P p r := by
  rcases hr with ⟨rfl, hno⟩ | ⟨i, rfl, hi, hlt⟩
  · refine .inl ⟨rfl, fun i => ?_⟩
    cases i with
    | zero => exact h
    | succ i => exact hno i
  · refine .inr ⟨i + 1, add_ofNat_succ_left.symm, hi, fun j hj => ?_⟩
    cases j with
    | zero => exact h
    | succ j => exact hlt j (Nat.lt_of_succ_lt_succ hj)

/-- `new` is the last place so far: `p`, or the one before. -/
lemma Final.next {new : BitVec 64} (h0 : P 0 → new = p) (h1 : ¬ P 0 → new = last)
    (hr : Final (fun i => P (i + 1)) (p + 1) new r) : Final P p last r := by
  rcases hr with ⟨rfl, hno⟩ | ⟨i, rfl, hi, hgt⟩
  · by_cases h : P 0
    · refine .inr ⟨0, (h0 h).trans add_ofNat_zero.symm, h, fun j hj => ?_⟩
      cases j with
      | zero => exact absurd hj (Nat.lt_irrefl 0)
      | succ j => exact hno j
    · refine .inl ⟨h1 h, fun i => ?_⟩
      cases i with
      | zero => exact h
      | succ i => exact hno i
  · refine .inr ⟨i + 1, add_ofNat_succ_left.symm, hi, fun j hj => ?_⟩
    cases j with
    | zero => exact absurd hj (Nat.not_lt_zero _)
    | succ j => exact hgt j (Nat.lt_of_succ_lt_succ hj)

/-! ## One character -/

/-- The characters with the terminator. -/
def withNul (l : List (BitVec 8)) : List (BitVec 8) := l ++ [0]

/-- `strchr` stops at the first character that is `c`, or behind the terminator. -/
lemma chr_returns (hn : l.length < n) (h : CStr s.byte p l) : Turns.returns (Turns.loop (chrTurn c) n p)
    (fun r s' => First (fun i => (withNul l)[i]? = some (charOf c)) p r ∧ s' = s) s := by
  induction l generalizing p n with
  | nil =>
    have h : s.byte p = 0 := h
    refine Turns.returns_loop hn (returns_load ?_)
    rw [h]
    by_cases hc : 0 = charOf c
    · rw [if_neg (not_not.2 hc)]
      exact Turns.returns_pure ⟨.here (congrArg some hc), rfl⟩
    · rw [if_pos hc]
      refine returns_load ?_
      rw [h, if_pos rfl]
      refine Turns.returns_pure ⟨.inl ⟨rfl, fun i hi => ?_⟩, rfl⟩
      cases i with
      | zero => exact hc (Option.some.inj hi)
      | succ i => cases hi
  | cons x l ih =>
    obtain ⟨hx, hx0, hl⟩ := h
    refine Turns.returns_loop hn (returns_load ?_)
    rw [hx]
    by_cases hc : x = charOf c
    · rw [if_neg (not_not.2 hc)]
      exact Turns.returns_pure ⟨.here (congrArg some hc), rfl⟩
    · rw [if_pos hc]
      refine returns_load ?_
      rw [hx, if_neg hx0]
      refine Turns.returns_pure ((ih (Nat.lt_sub_of_add_lt hn) hl).mono fun r s' hr => ⟨.next ?_ hr.1, hr.2⟩)
      exact fun h => hc (Option.some.inj h)

/-- `strrchr` goes through the whole string and keeps the last place. -/
lemma rchr_returns (hn : l.length < n) (h : CStr s.byte p l) : Turns.returns (Turns.loop (rchrTurn c) n (p, last))
    (fun r s' => Final (fun i => (withNul l)[i]? = some (charOf c)) p last r ∧ s' = s) s := by
  induction l generalizing p n last with
  | nil =>
    have h : s.byte p = 0 := h
    refine Turns.returns_loop hn (returns_load (returns_load ?_))
    rw [h, if_neg (not_not.2 rfl)]
    refine Turns.returns_pure ⟨.next (fun h0 => if_pos (Option.some.inj h0))
      (fun h0 => if_neg fun hc => h0 (congrArg some hc)) (.inl ⟨rfl, fun i hi => ?_⟩), rfl⟩
    cases hi
  | cons x l ih =>
    obtain ⟨hx, hx0, hl⟩ := h
    refine Turns.returns_loop hn (returns_load (returns_load ?_))
    rw [hx, if_pos hx0]
    refine Turns.returns_pure ((ih (Nat.lt_sub_of_add_lt hn) hl).mono fun r s' hr => ⟨?_, hr.2⟩)
    exact .next (fun h0 => if_pos (Option.some.inj h0)) (fun h0 => if_neg fun hc => h0 (congrArg some hc)) hr.1

/-- `memchr` looks at `k` bytes. -/
lemma memchr_returns (hk : k < 2 ^ 64) (hn : k < n) :
    Turns.returns (Turns.loop (memchrTurn c) n (p, BitVec.ofNat 64 k))
      (fun r s' => First (fun i => (bytes s.byte p k)[i]? = some (charOf c)) p r ∧ s' = s) s := by
  induction k generalizing p n with
  | zero =>
    refine Turns.returns_loop hn ?_
    exact Turns.returns_pure ⟨.inl ⟨rfl, nofun⟩, rfl⟩
  | succ k ih =>
    have hpos : 0 < BitVec.ofNat 64 (k + 1) := by
      rw [BitVec.lt_def, BitVec.toNat_ofNat, Nat.mod_eq_of_lt hk]
      exact Nat.succ_pos k
    refine Turns.returns_loop hn ?_
    rw [memchrTurn, if_pos hpos]
    refine returns_load ?_
    by_cases hc : s.byte p = charOf c
    · rw [if_pos hc]
      exact Turns.returns_pure ⟨.here (congrArg some hc), rfl⟩
    · rw [if_neg hc, ofNat_succ_sub_one]
      refine Turns.returns_pure ((ih (Nat.lt_of_succ_lt hk) (Nat.lt_sub_of_add_lt hn)).mono
        fun r s' hr => ⟨.next ?_ hr.1, hr.2⟩)
      exact fun h => hc (Option.some.inj h)

/-! ## Sets and strings -/

/-- `strcspn` stops at the first character of the set, or at the terminator. -/
lemma cspn_returns (hn : l.length < n) (h : CStr s.byte cs l) (hct : CStr s.byte ct d) :
    Turns.returns (Turns.loop (cspnTurn ct) n cs)
      (fun r s' => First (fun i => ∃ x ∈ (withNul l)[i]?, x = 0 ∨ x ∈ d) cs r ∧ s' = s) s := by
  induction l generalizing cs n with
  | nil =>
    have h : s.byte cs = 0 := h
    refine Turns.returns_loop hn (returns_load ?_)
    rw [h, if_neg (not_not.2 rfl)]
    exact Turns.returns_pure ⟨.here ⟨0, rfl, .inl rfl⟩, rfl⟩
  | cons x l ih =>
    obtain ⟨hx, hx0, hl⟩ := h
    refine Turns.returns_loop hn (returns_load ?_)
    rw [hx, if_pos hx0]
    refine Turns.returns_bind ((find_returns hct.length_lt hct).mono ?_)
    rintro found _ ⟨hf, rfl⟩
    rw [hx] at hf
    by_cases hd : x ∈ d
    · rw [if_pos (hf.2 hd)]
      exact Turns.returns_pure ⟨.here ⟨x, rfl, .inr hd⟩, rfl⟩
    · rw [if_neg fun h => hd (hf.1 h)]
      refine Turns.returns_pure ((ih (Nat.lt_sub_of_add_lt hn) hl).mono fun r s' hr => ⟨.next ?_ hr.1, hr.2⟩)
      rintro ⟨y, hy, h⟩
      obtain rfl := Option.some.inj hy
      exact h.elim hx0 hd

/-- The inner loop of `strstr` comes to the end of `ct` if the string begins with it. -/
lemma same_returns (hn : t.length < n) (hl : CStr s.byte p l) (ht : CStr s.byte q t) :
    Turns.returns (Turns.loop sameTurn n (p, q)) (fun r s' => (s.byte r = 0 ↔ t <+: l) ∧ s' = s) s := by
  induction t generalizing p q l n with
  | nil =>
    have ht : s.byte q = 0 := ht
    refine Turns.returns_loop hn (returns_load ?_)
    rw [ht, if_neg (not_not.2 rfl)]
    exact Turns.returns_pure ⟨iff_of_true ht (List.nil_prefix), rfl⟩
  | cons y t ih =>
    obtain ⟨hy, hy0, ht⟩ := ht
    refine Turns.returns_loop hn (returns_load ?_)
    rw [hy, if_pos hy0]
    refine returns_load ?_
    cases l with
    | nil =>
      have hl : s.byte p = 0 := hl
      rw [hl, if_neg (Ne.symm hy0)]
      refine Turns.returns_pure ⟨iff_of_false (by rwa [hy]) fun hpre => ?_, rfl⟩
      exact List.cons_ne_nil y t (List.prefix_nil.1 hpre)
    | cons x l =>
      obtain ⟨hx, -, hl⟩ := hl
      rw [hx]
      by_cases hxy : x = y
      · subst hxy
        rw [if_pos rfl]
        refine Turns.returns_pure ((ih (Nat.lt_sub_of_add_lt hn) hl ht).mono fun r s' hr => ⟨?_, hr.2⟩)
        rw [hr.1, List.cons_prefix_cons]
        exact (and_iff_right rfl).symm
      · rw [if_neg hxy]
        refine Turns.returns_pure ⟨iff_of_false (by rwa [hy]) fun hpre => ?_, rfl⟩
        exact hxy (List.cons_prefix_cons.1 hpre).1.symm

/-- `strstr` goes on until the string begins with `ct`. -/
lemma str_returns (hn : l.length < n) (h : CStr s.byte cs l) (hct : CStr s.byte ct t) (ht : t ≠ []) :
    Turns.returns (Turns.loop (strTurn ct) n cs) (fun r s' => First (fun i => t <+: l.drop i) cs r ∧ s' = s) s := by
  induction l generalizing cs n with
  | nil =>
    have h : s.byte cs = 0 := h
    refine Turns.returns_loop hn (returns_load ?_)
    rw [h, if_neg (not_not.2 rfl)]
    refine Turns.returns_pure ⟨.inl ⟨rfl, fun i hi => ht ?_⟩, rfl⟩
    have hi : t <+: List.drop i [] := hi
    rw [List.drop_nil] at hi
    exact List.prefix_nil.1 hi
  | cons x l ih =>
    have hstr := h
    obtain ⟨hx, hx0, hl⟩ := h
    refine Turns.returns_loop hn (returns_load ?_)
    rw [hx, if_pos hx0]
    refine Turns.returns_bind ((same_returns hct.length_lt hstr hct).mono ?_)
    rintro r _ ⟨hr, rfl⟩
    refine returns_load ?_
    by_cases hpre : t <+: x :: l
    · rw [if_pos (hr.2 hpre)]
      exact Turns.returns_pure ⟨.here hpre, rfl⟩
    · rw [if_neg fun h0 => hpre (hr.1 h0)]
      exact Turns.returns_pure ((ih (Nat.lt_sub_of_add_lt hn) hl).mono fun r s' hr => ⟨.next hpre hr.1, hr.2⟩)

/-! ## The functions -/

/-- What the searching functions return for the string `l` at `p`; none of them changes anything. -/
structure Searches (s : State) (p : BitVec 64) (l : List (BitVec 8)) : Prop where
  strlen : Turns.returns (strlen p) (fun r s' => r = BitVec.ofNat 64 l.length ∧ s' = s) s
  strchr : ∀ c, Turns.returns (strchr p c)
    (fun r s' => First (fun i => (withNul l)[i]? = some (charOf c)) p r ∧ s' = s) s
  strrchr : ∀ c, Turns.returns (strrchr p c)
    (fun r s' => Final (fun i => (withNul l)[i]? = some (charOf c)) p 0 r ∧ s' = s) s
  strcspn : ∀ ct d, CStr s.byte ct d → Turns.returns (strcspn p ct)
    (fun r s' => (∃ i ≤ l.length, r = BitVec.ofNat 64 i ∧ (∀ x ∈ l[i]?, x ∈ d) ∧ ∀ j < i, ∀ x ∈ l[j]?, x ∉ d) ∧
      s' = s) s
  strstr : ∀ ct t, CStr s.byte ct t → Turns.returns (strstr p ct)
    (fun r s' => First (fun i => t <+: l.drop i) p r ∧ s' = s) s

/-- The offset from the start. -/
lemma sub_start : p + BitVec.ofNat 64 i - p = BitVec.ofNat 64 i := by
  rw [BitVec.add_comm, BitVec.add_sub_cancel]

/-- A character of the string. -/
lemma withNul_of_mem (h : x ∈ l[i]?) : (withNul l)[i]? = some x := by
  obtain ⟨hi, -⟩ := List.getElem?_eq_some_iff.1 h
  rw [withNul, List.getElem?_append_left hi]
  exact h

/-- The NUL of the string. -/
lemma withNul_end : (withNul l)[l.length]? = some 0 := by
  rw [withNul, List.getElem?_append_right le_rfl, Nat.sub_self]
  rfl

/-- A character of the set, or else the terminator. -/
lemma First.count (h : CStr s.byte p l) (hr : First (fun i => ∃ x ∈ (withNul l)[i]?, x = 0 ∨ x ∈ d) p r) :
    ∃ i ≤ l.length, r = p + BitVec.ofNat 64 i ∧ (∀ x ∈ l[i]?, x ∈ d) ∧ ∀ j < i, ∀ x ∈ l[j]?, x ∉ d := by
  rcases hr with ⟨-, hno⟩ | ⟨i, rfl, ⟨x, hx, hxd⟩, hlt⟩
  · exact absurd ⟨0, withNul_end, .inl rfl⟩ (hno l.length)
  · obtain ⟨hi, -⟩ := List.getElem?_eq_some_iff.1 hx
    rw [withNul, List.length_append] at hi
    refine ⟨i, Nat.le_of_lt_succ hi, rfl, fun y hy => ?_, fun j hj y hy hyd => ?_⟩
    · obtain ⟨hil, hget⟩ := List.getElem?_eq_some_iff.1 hy
      have hne := h.ne_zero hil
      rw [h.get hil, hget] at hne
      obtain rfl : y = x := Option.some.inj ((withNul_of_mem hy).symm.trans hx)
      exact hxd.resolve_left hne
    · exact hlt j hj ⟨y, withNul_of_mem hy, .inr hyd⟩

/-- **The searching functions of `string.c` find what they look for**, for every string, character, set and
    pattern; `memchr` looks at exactly `n` bytes, whatever they are. -/
theorem searches_find (s : State) (p : BitVec 64) :
    (∀ l, CStr s.byte p l → Searches s p l) ∧
    ∀ (c : BitVec 32) (n : BitVec 64), Turns.returns (memchr p c n)
      (fun r s' => First (fun i => (bytes s.byte p n.toNat)[i]? = some (charOf c)) p r ∧ s' = s) s := by
  refine ⟨fun l h => ⟨?_, fun c => chr_returns h.length_lt h, fun c => rchr_returns h.length_lt h,
    fun ct d hct => ?_, fun ct t hct => ?_⟩, fun c n => ?_⟩
  · refine Turns.returns_bind ((end_returns h.length_lt h).mono ?_)
    rintro r _ ⟨rfl, rfl⟩
    exact Turns.returns_pure ⟨sub_start, rfl⟩
  · refine Turns.returns_bind ((cspn_returns h.length_lt h hct).mono ?_)
    rintro r s' ⟨hr, rfl⟩
    obtain ⟨i, hi, rfl, hmem, hnot⟩ := hr.count h
    exact Turns.returns_pure ⟨⟨i, hi, sub_start, hmem, hnot⟩, rfl⟩
  · refine returns_load ?_
    cases t with
    | nil =>
      have hct : s.byte ct = 0 := hct
      rw [if_pos hct]
      exact Turns.returns_pure ⟨.here List.nil_prefix, rfl⟩
    | cons y t =>
      have hne : s.byte ct ≠ 0 := by
        rw [hct.1]
        exact hct.2.1
      rw [if_neg hne]
      exact str_returns h.length_lt h hct (List.cons_ne_nil y t)
  · have hret := memchr_returns (s := s) (p := p) (c := c) (n := space) n.isLt n.isLt
    rwa [BitVec.ofNat_toNat, BitVec.setWidth_eq] at hret

/-- A string of two characters. -/
theorem searches_find_ab : Searches twoStrings 0 [97, 98] ∧ Turns.returns (memchr 0 97 16)
    (fun r s' => First (fun i => (bytes twoStrings.byte 0 16)[i]? = some (charOf 97)) 0 r ∧ s' = twoStrings)
      twoStrings :=
  ⟨(searches_find twoStrings 0).1 [97, 98] twoStrings_src, (searches_find twoStrings 0).2 97 16⟩

end OldLinux.Strings
