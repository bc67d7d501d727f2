import Mathlib.Data.BitVec
import Mathlib.Data.List.GetD
import Mathlib.Logic.Function.Basic

/-!
# Bytes behind a pointer

A memory is a function from 64-bit addresses to bytes. `patch m p data` is `m` with the bytes `data` from address
`p` on, `bytes m p n` are the `n` bytes of `m` from `p` on, and `CStr m p l` says that a string of C begins there,
with the characters `l`. Addresses go around at the end of the memory.
-/

namespace OldLinux.Lib
open Function

/-- A memory, by address. -/
abbrev Mem := BitVec 64 → BitVec 8

/-- The memory with these bytes from `p` on. -/
def patch (m : Mem) (p : BitVec 64) (data : List (BitVec 8)) : Mem := fun a => data.getD (a - p).toNat (m a)

/-- The `n` bytes from `p` on. -/
def bytes (m : Mem) (p : BitVec 64) : Nat → List (BitVec 8)
  | 0 => []
  | n + 1 => m p :: bytes m (p + 1) n

/-- The characters `l` from `p` on, none of which is 0, and a 0 behind them. -/
def CStr (m : Mem) : BitVec 64 → List (BitVec 8) → Prop
  | p, [] => m p = 0
  | p, x :: l => m p = x ∧ x ≠ 0 ∧ CStr m (p + 1) l

instance decidableCStr (m : Mem) : ∀ p l, Decidable (CStr m p l)
  | p, [] => inferInstanceAs (Decidable (m p = 0))
  | p, x :: l =>
    have := decidableCStr m (p + 1) l
    inferInstanceAs (Decidable (m p = x ∧ x ≠ 0 ∧ CStr m (p + 1) l))

/-- The `n` addresses from `p` on are none of the `k` from `q` on. -/
def Apart (p : BitVec 64) (n : Nat) (q : BitVec 64) (k : Nat) : Prop :=
  ∀ i < n, ∀ j < k, p + BitVec.ofNat 64 i ≠ q + BitVec.ofNat 64 j

variable {m m' : Mem} {p q a : BitVec 64} {data l l' : List (BitVec 8)} {x b : BitVec 8} {i j n k : Nat}

/-! ## Addresses -/

/-- The address behind, counted from the next one. -/
lemma add_ofNat_succ_left : p + BitVec.ofNat 64 (n + 1) = p + 1 + BitVec.ofNat 64 n := by
  rw [BitVec.add_assoc, Nat.add_comm, BitVec.ofNat_add]
  rfl

/-- Two steps are one. -/
lemma add_ofNat_add : p + BitVec.ofNat 64 (i + j) = p + BitVec.ofNat 64 i + BitVec.ofNat 64 j := by
  rw [BitVec.ofNat_add, BitVec.add_assoc]

/-- No step. -/
lemma add_ofNat_zero : p + BitVec.ofNat 64 0 = p := BitVec.add_zero p

/-- An address that does not wrap around. -/
lemma toNat_add_ofNat (h : p.toNat + i < 2 ^ 64) : (p + BitVec.ofNat 64 i).toNat = p.toNat + i := by
  rw [BitVec.toNat_add, BitVec.toNat_ofNat, Nat.mod_eq_of_lt (by omega : i < 2 ^ 64), Nat.mod_eq_of_lt h]

/-- Different places of ranges that do not go around. -/
lemma ne_of_toNat (hp : p.toNat + i < 2 ^ 64) (hq : q.toNat + j < 2 ^ 64) (h : p.toNat + i ≠ q.toNat + j) :
    p + BitVec.ofNat 64 i ≠ q + BitVec.ofNat 64 j := fun e => by
  have he := congrArg BitVec.toNat e
  rw [toNat_add_ofNat hp, toNat_add_ofNat hq] at he
  exact h he

/-- A successor that does not wrap around is not 0. -/
lemma ofNat_succ_ne_zero {w : Nat} (h : k + 1 < 2 ^ w) : BitVec.ofNat w (k + 1) ≠ 0 := by
  intro h0
  have hnat := congrArg BitVec.toNat h0
  rw [BitVec.toNat_ofNat, Nat.mod_eq_of_lt h, BitVec.ofNat_eq_ofNat, BitVec.toNat_ofNat, Nat.zero_mod] at hnat
  cases hnat

/-- A successor has its predecessor before it. -/
lemma ofNat_succ_sub_one {w : Nat} : BitVec.ofNat w (k + 1) - 1 = BitVec.ofNat w k := by
  rw [BitVec.ofNat_add]
  exact BitVec.add_sub_cancel _ _

/-- What is apart is apart from its second byte on. -/
lemma Apart.tail (h : Apart p (n + 1) q (k + 1)) : Apart (p + 1) n (q + 1) k := fun i hi j hj => by
  rw [← add_ofNat_succ_left, ← add_ofNat_succ_left]
  exact h (i + 1) (Nat.succ_lt_succ hi) (j + 1) (Nat.succ_lt_succ hj)

/-- Shorter stretches of what is apart are apart. -/
lemma Apart.mono (h : Apart p n q k) (hi : i ≤ n) (hj : j ≤ k) : Apart p i q j :=
  fun i' hi' j' hj' => h i' (hi'.trans_le hi) j' (hj'.trans_le hj)

/-- A range that leaves an address out is not the whole memory. -/
lemma Apart.lt (h : Apart p (n + 1) q k) : k < 2 ^ 64 := by
  by_contra hk
  have hi : (p - q).toNat < k := (p - q).isLt.trans_le (Nat.le_of_not_lt hk)
  refine h 0 (Nat.succ_pos n) _ hi ?_
  rw [add_ofNat_zero, BitVec.ofNat_toNat, BitVec.setWidth_eq, BitVec.add_comm, BitVec.sub_add_cancel]

/-- Places of one range. -/
lemma add_ofNat_ne (h : i < j) (hj : j < 2 ^ 64) : p + BitVec.ofNat 64 i ≠ p + BitVec.ofNat 64 j := by
  intro e
  have hij : BitVec.ofNat 64 i = BitVec.ofNat 64 j := (BitVec.add_right_inj p).1 e
  have hnat := congrArg BitVec.toNat hij
  rw [BitVec.toNat_ofNat, BitVec.toNat_ofNat, Nat.mod_eq_of_lt (h.trans hj), Nat.mod_eq_of_lt hj] at hnat
  exact h.ne hnat

/-! ## Patches -/

/-- Byte by byte. -/
lemma patch_cons (h : data.length < 2 ^ 64) : patch (update m p b) (p + 1) data = patch m p (b :: data) := by
  funext a
  rw [patch, patch]
  by_cases ha : a = p
  · subst ha
    have hlast : (a - (a + 1)).toNat = 2 ^ 64 - 1 := by bv_omega
    rw [hlast, BitVec.sub_self, update_self, List.getD_eq_default _ _ (by omega)]
    rfl
  · have hsucc : (a - p).toNat = (a - (p + 1)).toNat + 1 := by
      have hne : a - p ≠ 0 := fun e => ha (by bv_omega)
      bv_omega
    rw [hsucc, List.getD_cons_succ, update_of_ne ha]

/-- From the end. -/
lemma patch_snoc (h : data.length < 2 ^ 64) :
    patch (update m (p + BitVec.ofNat 64 data.length) b) p data = patch m p (data ++ [b]) := by
  funext a
  rw [patch, patch]
  have hlen : (BitVec.ofNat 64 data.length).toNat = data.length := by
    rw [BitVec.toNat_ofNat, Nat.mod_eq_of_lt h]
  obtain hlt | heq | hgt := lt_trichotomy (a - p).toNat data.length
  · have hne : a ≠ p + BitVec.ofNat 64 data.length := by
      rintro rfl
      rw [BitVec.add_comm, BitVec.add_sub_cancel, hlen] at hlt
      exact lt_irrefl _ hlt
    rw [update_of_ne hne, List.getD_append _ _ _ _ hlt]
  · have ha : a = p + BitVec.ofNat 64 data.length := by
      rw [← heq, BitVec.ofNat_toNat, BitVec.setWidth_eq, BitVec.add_comm, BitVec.sub_add_cancel]
    rw [List.getD_append_right _ _ _ _ heq.ge, List.getD_eq_default _ _ heq.ge, heq, Nat.sub_self, ← ha,
      update_self]
    rfl
  · have hne : a ≠ p + BitVec.ofNat 64 data.length := by
      rintro rfl
      rw [BitVec.add_comm, BitVec.add_sub_cancel, hlen] at hgt
      exact lt_irrefl _ hgt
    have hge : (data ++ [b]).length ≤ (a - p).toNat := by
      rw [List.length_append]
      exact hgt
    rw [update_of_ne hne, List.getD_eq_default _ _ hgt.le, List.getD_eq_default _ _ hge]

/-- A byte of the patch. -/
lemma patch_inside (h : data.length ≤ 2 ^ 64) (hi : i < data.length) :
    patch m p data (p + BitVec.ofNat 64 i) = data.getD i b := by
  have hsub : (p + BitVec.ofNat 64 i - p).toNat = i := by
    rw [BitVec.add_comm, BitVec.add_sub_cancel, BitVec.toNat_ofNat]
    exact Nat.mod_eq_of_lt (hi.trans_le h)
  rw [patch, hsub, List.getD_eq_getElem _ _ hi, List.getD_eq_getElem _ _ hi]

/-- A byte beside it. -/
lemma patch_outside (h : ∀ i < data.length, a ≠ p + BitVec.ofNat 64 i) : patch m p data a = m a := by
  rw [patch]
  refine List.getD_eq_default _ _ (Nat.le_of_not_lt fun hlt => h _ hlt ?_)
  rw [BitVec.ofNat_toNat, BitVec.setWidth_eq, BitVec.add_comm, BitVec.sub_add_cancel]

/-! ## Bytes -/

/-- The number of bytes. -/
@[simp] lemma length_bytes : (bytes m p n).length = n := by
  induction n generalizing p with
  | zero => rfl
  | succ n ih => rw [bytes, List.length_cons, ih]

/-- The bytes depend on their addresses only. -/
lemma bytes_congr (h : ∀ i < n, m (p + BitVec.ofNat 64 i) = m' (p + BitVec.ofNat 64 i)) :
    bytes m p n = bytes m' p n := by
  induction n generalizing p with
  | zero => rfl
  | succ n ih =>
    have h0 := h 0 (Nat.succ_pos n)
    rw [add_ofNat_zero] at h0
    rw [bytes, bytes, h0, ih fun i hi => ?_]
    rw [← add_ofNat_succ_left]
    exact h (i + 1) (Nat.succ_lt_succ hi)

/-- One more byte. -/
lemma bytes_snoc : bytes m p (n + 1) = bytes m p n ++ [m (p + BitVec.ofNat 64 n)] := by
  induction n generalizing p with
  | zero =>
    rw [add_ofNat_zero]
    rfl
  | succ n ih => rw [bytes, ih, bytes, List.cons_append, add_ofNat_succ_left]

/-- A single byte. -/
lemma bytes_getD (h : i < n) : (bytes m p n).getD i b = m (p + BitVec.ofNat 64 i) := by
  induction n generalizing p i with
  | zero => exact absurd h (Nat.not_lt_zero i)
  | succ n ih =>
    cases i with
    | zero => rw [bytes, List.getD_cons_zero, add_ofNat_zero]
    | succ i => rw [bytes, List.getD_cons_succ, ih (Nat.lt_of_succ_lt_succ h), add_ofNat_succ_left]

/-! ## Strings -/

/-- A string is its bytes and the NUL behind them. -/
lemma CStr.congr (h : CStr m p l)
    (he : ∀ i ≤ l.length, m' (p + BitVec.ofNat 64 i) = m (p + BitVec.ofNat 64 i)) : CStr m' p l := by
  induction l generalizing p with
  | nil =>
    have h0 := he 0 le_rfl
    rw [add_ofNat_zero] at h0
    exact h0.trans h
  | cons x l ih =>
    have h0 := he 0 (Nat.zero_le _)
    rw [add_ofNat_zero] at h0
    refine ⟨h0.trans h.1, h.2.1, ih h.2.2 fun i hi => ?_⟩
    rw [← add_ofNat_succ_left]
    exact he (i + 1) (Nat.succ_le_succ hi)

/-- The rest of a string. -/
lemma CStr.drop (h : CStr m p (l ++ l')) : CStr m (p + BitVec.ofNat 64 l.length) l' := by
  induction l generalizing p with
  | nil =>
    rw [List.length_nil, add_ofNat_zero]
    exact h
  | cons x l ih =>
    rw [List.length_cons, add_ofNat_succ_left]
    exact ih h.2.2

/-- Behind its bytes there is a NUL. -/
lemma CStr.nul (h : CStr m p l) : m (p + BitVec.ofNat 64 l.length) = 0 := by
  rw [← List.append_nil l] at h
  exact h.drop

/-- Before the end of a string there is no NUL. -/
lemma CStr.ne_zero (h : CStr m p l) (hi : i < l.length) : m (p + BitVec.ofNat 64 i) ≠ 0 := by
  induction l generalizing p i with
  | nil => exact absurd hi (Nat.not_lt_zero i)
  | cons x l ih =>
    cases i with
    | zero =>
      rw [add_ofNat_zero, h.1]
      exact h.2.1
    | succ i =>
      rw [add_ofNat_succ_left]
      exact ih h.2.2 (Nat.lt_of_succ_lt_succ hi)

/-- The bytes of the string. -/
lemma CStr.get (h : CStr m p l) (hi : i < l.length) : m (p + BitVec.ofNat 64 i) = l[i] := by
  induction l generalizing p i with
  | nil => exact absurd hi (Nat.not_lt_zero i)
  | cons x l ih =>
    cases i with
    | zero =>
      rw [add_ofNat_zero]
      exact h.1
    | succ i =>
      rw [add_ofNat_succ_left]
      exact ih h.2.2 (Nat.lt_of_succ_lt_succ hi)

/-- A string does not go around. -/
lemma CStr.length_lt (h : CStr m p l) : l.length < 2 ^ 64 := by
  by_contra hge
  have hround : BitVec.ofNat 64 l.length = BitVec.ofNat 64 (l.length - 2 ^ 64) := by
    apply BitVec.eq_of_toNat_eq
    rw [BitVec.toNat_ofNat, BitVec.toNat_ofNat]
    omega
  have hnul := h.nul
  rw [hround] at hnul
  exact h.ne_zero (by omega) hnul

/-- A string that ends earlier, at a new 0. -/
lemma CStr.cut (h : CStr m p l) (hk : k ≤ l.length)
    (he : ∀ i < k, m' (p + BitVec.ofNat 64 i) = m (p + BitVec.ofNat 64 i)) (h0 : m' (p + BitVec.ofNat 64 k) = 0) :
    CStr m' p (l.take k) := by
  induction l generalizing p k with
  | nil =>
    obtain rfl := Nat.le_zero.1 hk
    rw [add_ofNat_zero] at h0
    exact h0
  | cons x l ih =>
    cases k with
    | zero =>
      rw [add_ofNat_zero] at h0
      exact h0
    | succ k =>
      have hx := he 0 (Nat.succ_pos k)
      rw [add_ofNat_zero] at hx
      rw [add_ofNat_succ_left] at h0
      refine ⟨hx.trans h.1, h.2.1, ih h.2.2 (Nat.le_of_succ_le_succ hk) (fun i hi => ?_) h0⟩
      rw [← add_ofNat_succ_left]
      exact he (i + 1) (Nat.succ_lt_succ hi)

/-- The beginning of a string, with another one behind it. -/
lemma CStr.append (h : CStr m p l) (he : ∀ i < l.length, m' (p + BitVec.ofNat 64 i) = m (p + BitVec.ofNat 64 i))
    (hl' : CStr m' (p + BitVec.ofNat 64 l.length) l') : CStr m' p (l ++ l') := by
  induction l generalizing p with
  | nil =>
    rw [List.length_nil, add_ofNat_zero] at hl'
    exact hl'
  | cons x l ih =>
    have h0 := he 0 (Nat.succ_pos _)
    rw [add_ofNat_zero] at h0
    rw [List.length_cons, add_ofNat_succ_left] at hl'
    refine ⟨h0.trans h.1, h.2.1, ih h.2.2 (fun i hi => ?_) hl'⟩
    rw [← add_ofNat_succ_left]
    exact he (i + 1) (Nat.succ_lt_succ hi)

/-- None of them is NUL. -/
lemma CStr.mem_ne_zero (h : CStr m p l) (hx : x ∈ l) : x ≠ 0 := by
  obtain ⟨i, hi, rfl⟩ := List.getElem_of_mem hx
  rw [← h.get hi]
  exact h.ne_zero hi

/-- A string written elsewhere. -/
lemma CStr.patch (h : CStr m p l) : CStr (patch m' q (l ++ [0])) q l := by
  have hlt : (l ++ [0]).length ≤ 2 ^ 64 := by
    rw [List.length_append]
    exact h.length_lt
  have hrest : ∀ b a, l = a ++ b → CStr (Lib.patch m' q (l ++ [0])) (q + BitVec.ofNat 64 a.length) b := by
    intro b
    induction b with
    | nil =>
      intro a ha
      rw [List.append_nil] at ha
      subst ha
      show Lib.patch m' q (l ++ [0]) _ = 0
      rw [patch_inside (b := 0) hlt (by rw [List.length_append]; exact Nat.lt_succ_self _),
        List.getD_append_right _ _ _ _ le_rfl, Nat.sub_self]
      rfl
    | cons x b ih =>
      intro a ha
      have hla : a.length < l.length := by
        rw [ha, List.length_append, List.length_cons]
        omega
      have hx : Lib.patch m' q (l ++ [0]) (q + BitVec.ofNat 64 a.length) = x := by
        rw [patch_inside (b := 0) hlt (by rw [List.length_append]; exact Nat.lt_succ_of_lt hla),
          List.getD_append _ _ _ _ hla, ha, List.getD_append_right _ _ _ _ le_rfl, Nat.sub_self]
        rfl
      refine ⟨hx, h.mem_ne_zero (ha ▸ List.mem_append_right a List.mem_cons_self), ?_⟩
      have htail := ih (a ++ [x]) (by rw [ha, List.append_assoc]; rfl)
      rw [List.length_append, List.length_singleton, add_ofNat_add] at htail
      exact htail
  have hall := hrest l [] rfl
  rwa [List.length_nil, add_ofNat_zero] at hall

end OldLinux.Lib
