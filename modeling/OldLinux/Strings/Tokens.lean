import OldLinux.Lib.Runs
import OldLinux.Strings.Code

/-!
# Tokens

A call of `strtok` passes over the delimiters in front (`strspn`), and looks for the next one behind the token
(`strpbrk`), which it overwrites. It keeps where to go on in `olds`, or `NULL` when the string is over. So the
calls return the maximal runs of other characters one after the other (`strtok_tokenises`).
-/

namespace OldLinux.Strings
open Lib Function

variable {s : State} {p q cs ct : BitVec 64} {l d a t r : List (BitVec 8)} {x : BitVec 8} {n k : Nat}

/-! ## Scans -/

/-- The inner loop of `strspn`: it stops before the end of the set if the character is in it. -/
lemma match_returns (hn : d.length < n) (h : CStr s.byte ct d) :
    Turns.returns (Turns.loop (matchTurn cs) n ct)
      (fun p s' => (s.byte p = 0 ↔ s.byte cs ∉ d) ∧ s' = s) s := by
  induction d generalizing ct n with
  | nil =>
    have h : s.byte ct = 0 := h
    refine Turns.returns_loop hn (returns_load (returns_load ?_))
    rw [if_neg fun hx => hx.1 h]
    exact Turns.returns_pure ⟨iff_of_true h List.not_mem_nil, rfl⟩
  | cons x d ih =>
    obtain ⟨hx, hx0, hd⟩ := h
    refine Turns.returns_loop hn (returns_load (returns_load ?_))
    rw [hx]
    by_cases hc : x = s.byte cs
    · rw [if_neg fun h => h.2 hc]
      refine Turns.returns_pure ⟨?_, rfl⟩
      rw [hx, ← hc]
      exact iff_of_false hx0 (not_not.2 List.mem_cons_self)
    · rw [if_pos ⟨hx0, hc⟩]
      refine Turns.returns_pure ((ih (Nat.lt_sub_of_add_lt hn) hd).mono fun p s' hp => ⟨?_, hp.2⟩)
      rw [hp.1, List.mem_cons, or_iff_right (Ne.symm hc)]

/-- The inner loop of `strpbrk`. -/
lemma find_returns (hn : d.length < n) (h : CStr s.byte ct d) :
    Turns.returns (Turns.loop (findTurn cs) n ct)
      (fun found s' => (found = true ↔ s.byte cs ∈ d) ∧ s' = s) s := by
  induction d generalizing ct n with
  | nil =>
    have h : s.byte ct = 0 := h
    refine Turns.returns_loop hn (returns_load ?_)
    rw [h, if_neg (not_not.2 rfl)]
    exact Turns.returns_pure ⟨iff_of_false Bool.false_ne_true List.not_mem_nil, rfl⟩
  | cons x d ih =>
    obtain ⟨hx, hx0, hd⟩ := h
    refine Turns.returns_loop hn (returns_load ?_)
    rw [hx, if_pos hx0]
    refine returns_load ?_
    by_cases hc : x = s.byte cs
    · rw [if_pos hc]
      refine Turns.returns_pure ⟨iff_of_true rfl ?_, rfl⟩
      rw [← hc]
      exact List.mem_cons_self
    · rw [if_neg hc]
      refine Turns.returns_pure ((ih (Nat.lt_sub_of_add_lt hn) hd).mono fun p s' hp => ⟨?_, hp.2⟩)
      rw [hp.1, List.mem_cons, or_iff_right (Ne.symm hc)]

/-- `strspn` counts the characters in the set. -/
lemma spn_returns (hn : a.length < n) (h : CStr s.byte cs (a ++ r)) (hct : CStr s.byte ct d)
    (ha : ∀ x ∈ a, x ∈ d) (hr : ∀ x ∈ r.head?, x ∉ d) :
    Turns.returns (Turns.loop (spnTurn ct) n cs)
      (fun p s' => p = cs + BitVec.ofNat 64 a.length ∧ s' = s) s := by
  induction a generalizing cs n with
  | nil =>
    refine Turns.returns_loop hn (returns_load ?_)
    cases r with
    | nil =>
      have h : s.byte cs = 0 := h
      rw [h, if_neg (not_not.2 rfl)]
      exact Turns.returns_pure ⟨add_ofNat_zero.symm, rfl⟩
    | cons x r =>
      have hx : s.byte cs = x := h.1
      rw [hx, if_pos h.2.1]
      refine Turns.returns_bind ((match_returns hct.length_lt hct).mono ?_)
      rintro p _ ⟨hp, rfl⟩
      refine returns_load ?_
      rw [if_pos (hp.2 (by rw [hx]; exact hr x rfl))]
      exact Turns.returns_pure ⟨add_ofNat_zero.symm, rfl⟩
  | cons x a ih =>
    obtain ⟨hx, hx0, hl⟩ := h
    refine Turns.returns_loop hn (returns_load ?_)
    rw [hx, if_pos hx0]
    refine Turns.returns_bind ((match_returns hct.length_lt hct).mono ?_)
    rintro p _ ⟨hp, rfl⟩
    refine returns_load ?_
    rw [hx] at hp
    rw [if_neg fun h0 => hp.1 h0 (ha x List.mem_cons_self)]
    have hrest := ih (Nat.lt_sub_of_add_lt hn) hl fun y hy => ha y (List.mem_cons_of_mem x hy)
    refine Turns.returns_pure (hrest.mono fun p s' hp => ⟨?_, hp.2⟩)
    rw [hp.1, List.length_cons, add_ofNat_succ_left]

/-- `strpbrk` returns the first character in the set. -/
lemma brk_returns (hn : t.length < n) (h : CStr s.byte cs (t ++ r)) (hct : CStr s.byte ct d)
    (ht : ∀ x ∈ t, x ∉ d) (hr : ∀ x ∈ r.head?, x ∈ d) :
    Turns.returns (Turns.loop (brkTurn ct) n cs)
      (fun p s' => p = (if r = [] then 0 else cs + BitVec.ofNat 64 t.length) ∧ s' = s) s := by
  induction t generalizing cs n with
  | nil =>
    refine Turns.returns_loop hn (returns_load ?_)
    cases r with
    | nil =>
      have h : s.byte cs = 0 := h
      rw [h, if_neg (not_not.2 rfl), if_pos rfl]
      exact Turns.returns_pure ⟨rfl, rfl⟩
    | cons x r =>
      have hx : s.byte cs = x := h.1
      rw [hx, if_pos h.2.1]
      refine Turns.returns_bind ((find_returns hct.length_lt hct).mono ?_)
      rintro found _ ⟨hf, rfl⟩
      rw [if_pos (hf.2 (by rw [hx]; exact hr x rfl)), if_neg (List.cons_ne_nil x r)]
      exact Turns.returns_pure ⟨add_ofNat_zero.symm, rfl⟩
  | cons x t ih =>
    obtain ⟨hx, hx0, hl⟩ := h
    refine Turns.returns_loop hn (returns_load ?_)
    rw [hx, if_pos hx0]
    refine Turns.returns_bind ((find_returns hct.length_lt hct).mono ?_)
    rintro found _ ⟨hf, rfl⟩
    rw [hx] at hf
    rw [if_neg fun h => ht x List.mem_cons_self (hf.1 h)]
    have hrest := ih (Nat.lt_sub_of_add_lt hn) hl fun y hy => ht y (List.mem_cons_of_mem x hy)
    refine Turns.returns_pure (hrest.mono fun p s' hp => ⟨?_, hp.2⟩)
    rw [hp.1, List.length_cons, add_ofNat_succ_left]

/-! ## One call -/

/-- What `strtok` returns, and leaves, when it goes on at the string `l` at `q`. -/
inductive Next (d : List (BitVec 8)) (s : State) (q : BitVec 64) :
    List (BitVec 8) → BitVec 64 → State → Prop where
  | none {a : List (BitVec 8)} : (∀ x ∈ a, x ∈ d) → Next d s q a 0 { s with olds := 0 }
  | last {a t : List (BitVec 8)} : (∀ x ∈ a, x ∈ d) → (∀ x ∈ t, x ∉ d) → t ≠ [] →
    Next d s q (a ++ t) (q + BitVec.ofNat 64 a.length) { s with olds := 0 }
  | token {a t r : List (BitVec 8)} {x : BitVec 8} : (∀ x ∈ a, x ∈ d) → (∀ x ∈ t, x ∉ d) → t ≠ [] → x ∈ d →
    Next d s q (a ++ (t ++ x :: r)) (q + BitVec.ofNat 64 a.length)
      { s.store (q + BitVec.ofNat 64 (a.length + t.length)) 0 with
        olds := q + BitVec.ofNat 64 (a.length + t.length + 1) }

/-- Delimiters, a token, and what is behind it. -/
lemma exists_parts (d l : List (BitVec 8)) : ∃ a t r, l = a ++ (t ++ r) ∧ (∀ x ∈ a, x ∈ d) ∧
    (∀ x ∈ t, x ∉ d) ∧ (∀ x ∈ r.head?, x ∈ d) ∧ (t = [] → r = []) := by
  induction l with
  | nil => exact ⟨[], [], [], rfl, nofun, nofun, nofun, fun _ => rfl⟩
  | cons x l ih =>
    obtain ⟨a, t, r, rfl, ha, ht, hr, htr⟩ := ih
    by_cases hx : x ∈ d
    · refine ⟨x :: a, t, r, rfl, fun y hy => ?_, ht, hr, htr⟩
      obtain rfl | hy := List.mem_cons.1 hy
      · exact hx
      · exact ha y hy
    -- the character belongs to the token behind it, if there is no delimiter between them
    cases a with
    | nil =>
      refine ⟨[], x :: t, r, rfl, nofun, fun y hy => ?_, hr, nofun⟩
      obtain rfl | hy := List.mem_cons.1 hy
      · exact hx
      · exact ht y hy
    | cons y a =>
      refine ⟨[], [x], y :: (a ++ (t ++ r)), rfl, nofun, fun z hz => ?_, ?_, nofun⟩
      · rw [List.mem_singleton.1 hz]
        exact hx
      · rintro _ ⟨⟩
        exact ha y List.mem_cons_self

/-- A call of `strtok` gives the next token. -/
lemma strtok_returns (hq : (if p = 0 then s.olds else p) = q) (hq0 : q ≠ 0) (hl : CStr s.byte q l)
    (hct : CStr s.byte ct d) (hw : q.toNat + l.length < 2 ^ 64) :
    Turns.returns (strtok p ct) (Next d s q l) s := by
  obtain ⟨a, t, r, rfl, ha, ht, hr, htr⟩ := exists_parts d l
  have htail := hl.drop
  have hhead : ∀ x ∈ (t ++ r).head?, x ∉ d := fun x hx => by
    cases t with
    | nil =>
      rw [htr rfl] at hx
      cases hx
    | cons y t =>
      cases hx
      exact ht x List.mem_cons_self
  have hsub : q + BitVec.ofNat 64 a.length - q = BitVec.ofNat 64 a.length := by
    rw [BitVec.add_comm, BitVec.add_sub_cancel]
  have hlen : (a ++ (t ++ r)).length = a.length + (t.length + r.length) := by
    rw [List.length_append, List.length_append]
  have hlt := hlen ▸ hl.length_lt
  have hspn := spn_returns (n := space) (by rw [space]; omega) hl hct ha hhead
  refine Turns.returns_bind (Turns.returns_get ?_)
  dsimp only
  rw [hq, if_neg hq0]
  refine Turns.returns_bind (Turns.returns_bind (hspn.mono ?_))
  rintro _ s₁ ⟨rfl, rfl⟩
  rw [hsub]
  refine Turns.returns_pure (returns_load ?_)
  cases t with
  | nil =>
    obtain rfl := htr rfl
    have hnul : s₁.byte (q + BitVec.ofNat 64 a.length) = 0 := htail
    rw [hnul, if_pos rfl, List.append_nil, List.append_nil]
    exact returns_setOlds (Turns.returns_pure (.none ha))
  | cons y t =>
    have hy : s₁.byte (q + BitVec.ofNat 64 a.length) = y := htail.1
    have hbrk := brk_returns (n := space) (by rw [space]; omega) htail hct ht hr
    rw [hy, if_neg htail.2.1]
    refine Turns.returns_bind (hbrk.mono ?_)
    rintro _ s₂ ⟨rfl, rfl⟩
    cases r with
    | nil =>
      rw [if_pos rfl, if_neg (not_not.2 rfl), List.append_nil]
      exact returns_setOlds (Turns.returns_pure (.last ha ht (List.cons_ne_nil y t)))
    | cons x r =>
      rw [← add_ofNat_add]
      -- the delimiter is not at address 0
      have hne : q + BitVec.ofNat 64 (a.length + (y :: t).length) ≠ 0 := fun h0 => by
        have hnat := congrArg BitVec.toNat h0
        simp only [List.length_append] at hw
        rw [toNat_add_ofNat (by omega)] at hnat
        exact hq0 (BitVec.eq_of_toNat_eq (Nat.eq_zero_of_add_eq_zero hnat).1)
      rw [if_neg (List.cons_ne_nil x r), if_pos hne]
      have htoken := @Next.token d s₂ q a (y :: t) r x ha ht (List.cons_ne_nil y t) (hr x rfl)
      rw [add_ofNat_add (j := 1)] at htoken
      exact returns_store (returns_setOlds (Turns.returns_pure htoken))

/-! ## One call after the other -/

/-- The state with a 0 behind each of these runs of a string of length `n` at `b`; behind the string there is
    one. -/
def cut (b : BitVec 64) (n : Nat) : List (Nat × Nat) → State → State
  | [], s => s
  | r :: rs, s => cut b n rs (if r.2 < n then s.store (b + BitVec.ofNat 64 r.2) 0 else s)

/-- What the first `k` calls return when there are these tokens: `NULL` behind the last one. -/
def padded (k : Nat) (ts : List (BitVec 64)) : List (BitVec 64) :=
  ts.take k ++ List.replicate (k - ts.length) 0

variable {b : BitVec 64} {o : Nat} {ts : List (BitVec 64)} {tok : BitVec 64}

/-- No call. -/
lemma padded_zero : padded 0 ts = [] := by
  rw [padded, Nat.zero_sub]
  rfl

/-- No token is left. -/
lemma padded_nil : padded k [] = List.replicate k 0 := by rw [padded, List.take_nil]; rfl

/-- A token and the others. -/
lemma padded_cons : padded (k + 1) (tok :: ts) = tok :: padded k ts := by
  rw [padded, List.length_cons, Nat.add_sub_add_right, padded]
  rfl

/-- Cutting tokens out leaves `olds`. -/
lemma cut_olds {rs : List (Nat × Nat)} :
    cut b n rs { s with olds := q } = { cut b n rs s with olds := q } := by
  induction rs generalizing s with
  | nil => rfl
  | cons r rs ih =>
    rw [cut, cut]
    split
    · exact ih (s := s.store (b + BitVec.ofNat 64 r.2) 0)
    · exact ih

/-- When the string is over, all calls return `NULL`. -/
lemma strtokCalls_over (h : s.olds = 0) :
    Turns.returns (strtokCalls ct 0 k) (fun ts s' => ts = List.replicate k 0 ∧ s' = s) s := by
  induction k with
  | zero => exact Turns.returns_pure ⟨rfl, rfl⟩
  | succ k ih =>
    refine Turns.returns_bind (Turns.returns_bind (Turns.returns_get ?_))
    dsimp only
    rw [if_pos rfl, if_pos h]
    refine Turns.returns_pure (Turns.returns_bind (ih.mono ?_))
    rintro _ _ ⟨rfl, rfl⟩
    exact Turns.returns_pure ⟨rfl, rfl⟩

/-- The memory after the first `k` calls, and what they return, when there are the runs `rs`. -/
structure After (b : BitVec 64) (n : Nat) (rs : List (Nat × Nat)) (s : State) (k : Nat) (ts : List (BitVec 64))
    (s' : State) : Prop where
  tokens : ts = padded k (rs.map fun r => b + BitVec.ofNat 64 r.1)
  byte : s'.byte = (cut b n (rs.take k) s).byte
  stored : s'.stored = (cut b n (rs.take k) s).stored

/-- The 0 behind a token is neither in what is left of the string, nor in the set. -/
lemma store_token {u : List (BitVec 8)} (hl : CStr s.byte q (u ++ x :: r)) (hct : CStr s.byte ct d)
    (hapart : Apart q (u.length + 1 + (r.length + 1)) ct (d.length + 1))
    (hw : q.toNat + (u.length + 1 + r.length) < 2 ^ 64) :
    CStr (s.store (q + BitVec.ofNat 64 u.length) 0).byte (q + BitVec.ofNat 64 (u.length + 1)) r ∧
      CStr (s.store (q + BitVec.ofNat 64 u.length) 0).byte ct d ∧
      Apart (q + BitVec.ofNat 64 (u.length + 1)) (r.length + 1) ct (d.length + 1) := by
  rw [← List.singleton_append, ← List.append_assoc] at hl
  have hrest := hl.drop
  rw [List.length_append, List.length_singleton] at hrest
  refine ⟨hrest.congr fun i hi => ?_, hct.congr fun i hi => ?_, fun i hi j hj => ?_⟩
  · refine update_of_ne ?_ ..
    rw [← add_ofNat_add]
    exact ne_of_toNat (by omega) (by omega) (by omega)
  · exact update_of_ne (hapart _ (by omega) i (by omega)).symm ..
  · rw [← add_ofNat_add]
    exact hapart _ (by omega) j hj

/-- The calls that go on at position `o` of the string at `b`. -/
lemma strtokCalls_returns (hb : b ≠ 0) (hq : (if p = 0 then s.olds else p) = b + BitVec.ofNat 64 o)
    (hl : CStr s.byte (b + BitVec.ofNat 64 o) l) (hct : CStr s.byte ct d)
    (hapart : Apart (b + BitVec.ofNat 64 o) (l.length + 1) ct (d.length + 1))
    (hw : b.toNat + (o + l.length) < 2 ^ 64) :
    Turns.returns (strtokCalls ct p k) (After b (o + l.length) (runsFrom (· ∈ d) o o l) s k) s := by
  induction k generalizing s p o l with
  | zero => exact Turns.returns_pure ⟨padded_zero.symm, rfl, rfl⟩
  | succ k ih =>
    have hnat : (b + BitVec.ofNat 64 o).toNat = b.toNat + o := toNat_add_ofNat (by omega)
    have hq0 : b + BitVec.ofNat 64 o ≠ 0 := fun h0 => by
      rw [h0] at hnat
      exact hb (BitVec.eq_of_toNat_eq (Nat.eq_zero_of_add_eq_zero hnat.symm).1)
    refine Turns.returns_bind ((strtok_returns hq hq0 hl hct (by omega)).mono ?_)
    rintro tok s₁ hnext
    cases hnext with
    | none ha =>
      refine Turns.returns_bind ((strtokCalls_over rfl).mono ?_)
      rintro _ _ ⟨rfl, rfl⟩
      rw [runsFrom_none ha]
      refine Turns.returns_pure ⟨?_, rfl, rfl⟩
      rw [List.map_nil, padded_nil]
      rfl
    | @last a t ha ht h0 =>
      refine Turns.returns_bind ((strtokCalls_over rfl).mono ?_)
      rintro _ _ ⟨rfl, rfl⟩
      have hend : ¬ o + a.length + t.length < o + (a ++ t).length := by
        rw [List.length_append]
        omega
      have hcut : cut b (o + (a ++ t).length) [(o + a.length, o + a.length + t.length)] s = s := by
        rw [cut, if_neg hend, cut]
      rw [runsFrom_last ha ht h0]
      refine Turns.returns_pure ⟨?_, ?_, ?_⟩
      · rw [List.map_singleton, padded_cons, padded_nil, ← add_ofNat_add]
      · rw [List.take_succ_cons, List.take_nil, hcut]
      · rw [List.take_succ_cons, List.take_nil, hcut]
    | @token a t r x ha ht h0 hx =>
      have hlen : o + (a ++ (t ++ x :: r)).length = o + a.length + t.length + 1 + r.length := by
        simp only [List.length_append, List.length_cons]
        omega
      have hparts : (a ++ (t ++ x :: r)).length + 1 = (a ++ t).length + 1 + (r.length + 1) := by
        simp only [List.length_append, List.length_cons]
        omega
      have hgo : b + BitVec.ofNat 64 o + BitVec.ofNat 64 (a.length + t.length + 1) =
          b + BitVec.ofNat 64 (o + a.length + t.length + 1) := by
        rw [← add_ofNat_add, Nat.add_assoc, Nat.add_assoc, Nat.add_assoc]
      have hend : b + BitVec.ofNat 64 o + BitVec.ofNat 64 (a.length + t.length) =
          b + BitVec.ofNat 64 (o + a.length + t.length) := by
        rw [← add_ofNat_add, Nat.add_assoc]
      rw [hparts] at hapart
      rw [← List.append_assoc] at hl
      obtain ⟨hrest, hset, hapart'⟩ := store_token hl hct hapart (by rw [List.length_append]; omega)
      rw [List.length_append, hend, hgo] at hrest
      rw [List.length_append, hend] at hset
      rw [List.length_append, hgo] at hapart'
      rw [hlen] at hw ⊢
      rw [hend, hgo]
      let s₁ : State := { s.store (b + BitVec.ofNat 64 (o + a.length + t.length)) 0 with
        olds := b + BitVec.ofNat 64 (o + a.length + t.length + 1) }
      have hcalls := ih (s := s₁) (p := 0) (o := o + a.length + t.length + 1) (if_pos rfl) hrest hset hapart' hw
      refine Turns.returns_bind (hcalls.mono ?_)
      intro ts s₂ hafter
      have hlt : o + a.length + t.length < o + a.length + t.length + 1 + r.length := by omega
      rw [runsFrom_next ha ht h0 hx]
      refine Turns.returns_pure ⟨?_, ?_, ?_⟩
      · rw [hafter.tokens, List.map_cons, padded_cons, ← add_ofNat_add]
      · rw [hafter.byte, List.take_succ_cons, cut, if_pos hlt, cut_olds]
      · rw [hafter.stored, List.take_succ_cons, cut, if_pos hlt, cut_olds]

/-! ## All calls -/

section
variable {rs : List (Nat × Nat)} {addr : BitVec 64}

/-- The addresses of the cuts. -/
lemma cut_stored : (cut b n rs s).stored =
    ((rs.filter fun r => r.2 < n).map fun r => b + BitVec.ofNat 64 r.2).reverse ++ s.stored := by
  induction rs generalizing s with
  | nil => rfl
  | cons r rs ih =>
    rw [cut, ih, List.filter_cons]
    by_cases h : r.2 < n
    · rw [if_pos h, if_pos (decide_eq_true h), List.map_cons, List.reverse_cons, List.append_assoc]
      rfl
    · rw [if_neg h, if_neg (by rw [decide_eq_false h]; exact Bool.false_ne_true)]

/-- Only the places behind runs are overwritten. -/
lemma cut_kept (h : ∀ r ∈ rs, r.2 < n → addr ≠ b + BitVec.ofNat 64 r.2) :
    (cut b n rs s).byte addr = s.byte addr := by
  induction rs generalizing s with
  | nil => rfl
  | cons r rs ih =>
    rw [cut, ih fun r' hr' => h r' (List.mem_cons_of_mem r hr')]
    split
    · next hlt => exact update_of_ne (h r List.mem_cons_self hlt) ..
    · rfl

/-- The places behind runs are overwritten with a 0. -/
lemma cut_zero (h : s.byte addr = 0 ∨ ∃ r ∈ rs, r.2 < n ∧ addr = b + BitVec.ofNat 64 r.2) :
    (cut b n rs s).byte addr = 0 := by
  induction rs generalizing s with
  | nil => exact h.resolve_right fun ⟨r, hr, _⟩ => List.not_mem_nil hr
  | cons r rs ih =>
    rw [cut]
    refine ih ?_
    obtain h0 | ⟨r', hr', hlt, rfl⟩ := h
    · left
      split
      · by_cases ha : addr = b + BitVec.ofNat 64 r.2
        · rw [ha]
          exact update_self ..
        · exact (update_of_ne ha ..).trans h0
      · exact h0
    · obtain rfl | hr' := List.mem_cons.1 hr'
      · rw [if_pos hlt]
        exact .inl (update_self ..)
      · exact .inr ⟨r', hr', hlt, rfl⟩

end

/-- What the first `k` calls return, and have done: they return the tokens, and `NULL` for the others; each token
    is a string; and what has been stored to are the delimiters behind the tokens. -/
structure Tokenised (d l : List (BitVec 8)) (b : BitVec 64) (s : State) (k : Nat) (ts : List (BitVec 64))
    (s' : State) : Prop where
  tokens : ts = padded k ((runs (· ∈ d) l).map fun r => b + BitVec.ofNat 64 r.1)
  strings : ∀ r ∈ (runs (· ∈ d) l).take k,
    CStr s'.byte (b + BitVec.ofNat 64 r.1) ((l.drop r.1).take (r.2 - r.1))
  stored : s'.stored = ((((runs (· ∈ d) l).take k).filter fun r => r.2 < l.length).map fun r =>
    b + BitVec.ofNat 64 r.2).reverse ++ s.stored
  delims : ∀ r ∈ runs (· ∈ d) l, r.2 < l.length → s.byte (b + BitVec.ofNat 64 r.2) ∈ d
  kept : ∀ addr, (∀ r ∈ (runs (· ∈ d) l).take k, r.2 < l.length → addr ≠ b + BitVec.ofNat 64 r.2) →
    s'.byte addr = s.byte addr

/-- What the calls have given are the tokens. -/
lemma After.tokenised {s' : State} (h : After b l.length (runs (· ∈ d) l) s k ts s') (hl : CStr s.byte b l)
    (hw : b.toNat + l.length < 2 ^ 64) : Tokenised d l b s k ts s' := by
  have hkept : ∀ addr, (∀ r ∈ (runs (· ∈ d) l).take k, r.2 < l.length → addr ≠ b + BitVec.ofNat 64 r.2) →
      s'.byte addr = s.byte addr := fun addr ha => by
    rw [h.byte]
    exact cut_kept ha
  refine ⟨h.tokens, fun r hr => ?_, h.stored.trans cut_stored, fun r hr hlt => ?_, hkept⟩
  · have hmax : MaxRun (· ∈ d) l r.1 r.2 := mem_runs.1 (List.mem_of_mem_take hr)
    have hlt := hmax.lt
    have hle := hmax.le
    have hdrop := hl
    rw [← List.take_append_drop r.1 l] at hdrop
    have htail := hdrop.drop
    rw [List.length_take, Nat.min_eq_left (by omega)] at htail
    refine htail.cut (by rw [List.length_drop]; omega) (fun i hi => hkept _ fun r' hr' hlt' => ?_) ?_
    · -- there is no delimiter in a run
      have hmax' : MaxRun (· ∈ d) l r'.1 r'.2 := mem_runs.1 (List.mem_of_mem_take hr')
      have hne : r.1 + i ≠ r'.2 := fun e => hmax.inside (r.1 + i) (by omega) (by omega) (e ▸ hmax'.right)
      rw [← add_ofNat_add]
      exact ne_of_toNat (by omega) (by omega) (by omega)
    · rw [← add_ofNat_add, Nat.add_sub_cancel' hlt.le, h.byte]
      by_cases hend : r.2 < l.length
      · exact cut_zero (.inr ⟨r, hr, hend, rfl⟩)
      · have hnul := hl.nul
        rw [← Nat.le_antisymm hle (Nat.le_of_not_lt hend)] at hnul
        exact cut_zero (.inl hnul)
  · have hmax : MaxRun (· ∈ d) l r.1 r.2 := mem_runs.1 hr
    rw [hl.get hlt]
    exact hmax.right _ (List.getElem?_eq_getElem hlt)

/-- The calls of `strtok` on a string return its maximal runs of characters that are not in the set, in order,
    and then `NULL`. -/
theorem strtok_tokenises (s : State) {b ct : BitVec 64} {l d : List (BitVec 8)} (hb : b ≠ 0)
    (hl : CStr s.byte b l) (hct : CStr s.byte ct d) (hapart : Apart b (l.length + 1) ct (d.length + 1))
    (hw : b.toNat + l.length < 2 ^ 64) (k : Nat) :
    (∀ i j, (i, j) ∈ runs (· ∈ d) l ↔ MaxRun (· ∈ d) l i j) ∧
      (runs (· ∈ d) l).Pairwise (fun r r' => r.2 < r'.1) ∧
      Turns.returns (strtokCalls ct b k) (Tokenised d l b s k) s := by
  refine ⟨fun i j => mem_runs, runs_sorted, ?_⟩
  have hcalls := @strtokCalls_returns s b ct l d k b 0 hb (by rw [if_neg hb, add_ofNat_zero])
    (by rw [add_ofNat_zero]; exact hl) hct (by rw [add_ofNat_zero]; exact hapart)
    (by rw [Nat.zero_add]; exact hw)
  rw [Nat.zero_add] at hcalls
  exact hcalls.mono fun ts s' h => After.tokenised h hl hw

/-- The string `,ab,,c` at 16, and the set `,` at 1. -/
def commas : State where
  byte a :=
    if a = 1 ∨ a = 16 ∨ a = 19 ∨ a = 20 then 44
    else if a = 17 then 97 else if a = 18 then 98 else if a = 21 then 99 else 0
  stored := []
  olds := 0

/-- Words between commas. -/
theorem strtok_tokenises_commas :
    Turns.returns (strtokCalls 1 16 4) (Tokenised [44] [44, 97, 98, 44, 44, 99] 16 commas 4) commas :=
  (strtok_tokenises commas (by decide) (by decide) (by decide) (by rw [Apart]; decide) (by decide) 4).2.2

/-- There are two tokens. -/
example : runs (· ∈ [44#8]) [44, 97, 98, 44, 44, 99] = [(1, 3), (5, 6)] := by decide

end OldLinux.Strings
