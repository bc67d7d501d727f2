import Mathlib.Data.List.Pairwise
import Mathlib.Order.Lattice
import Mathlib.Tactic.Common

/-!
# Lists of few ascending runs

A list of elements with keys in a linear order splits into ascending runs at its descents, the adjacent
pairs whose keys do not increase. `elevate` is the insertion of the elevator algorithm: it puts an element
between two that it fits between, before the start of a new run if it is below it, and else at the end.

`descents_elevate` is the point: if there is at most one descent and the key is new, there still is. What
has at most one descent is two ascending runs, one after the other (`exists_runs`).
-/

namespace OldLinux.Lib

variable {α κ : Type*} [LinearOrder κ] (key : α → κ)

/-- The number of adjacent pairs that are not in order. -/
def descents : List α → Nat
  | a :: b :: l => (if key a < key b then 0 else 1) + descents (b :: l)
  | _ => 0

/-- Puts `r` into the list of `a` and `l`, behind `a`. -/
def elevate (r : α) : α → List α → List α
  | a, [] => [a, r]
  | a, b :: l =>
    if (key a < key r ∨ ¬ key a < key b) ∧ key r < key b then a :: r :: b :: l
    else a :: elevate r b l

variable {key} {key' : α → κ} {a b r : α} {l : List α}

/-- An empty queue does not descend. -/
@[simp] lemma descents_nil : descents key [] = 0 := rfl

/-- One request does not descend. -/
@[simp] lemma descents_singleton : descents key [a] = 0 := rfl

/-- The descents from the second request on. -/
lemma descents_cons_cons :
    descents key (a :: b :: l) = (if key a < key b then 0 else 1) + descents key (b :: l) := rfl

/-- A request above the last one is no descent. -/
lemma descents_of_lt (h : key a < key b) : descents key (a :: b :: l) = descents key (b :: l) := by
  rw [descents_cons_cons, if_pos h, Nat.zero_add]

/-- A request below the last one is a descent. -/
lemma descents_of_not_lt (h : ¬ key a < key b) : descents key (a :: b :: l) = descents key (b :: l) + 1 := by
  rw [descents_cons_cons, if_neg h, Nat.add_comm]

/-- The rest of a list has no more descents. -/
lemma descents_tail_le : descents key l.tail ≤ descents key l := by
  cases l with
  | nil => exact Nat.le_refl _
  | cons a l =>
    cases l with
    | nil => exact Nat.le_refl _
    | cons b l => exact Nat.le_add_left _ _

/-- The descents depend on the keys in the list only. -/
lemma descents_congr (h : ∀ a ∈ l, key' a = key a) : descents key' l = descents key l := by
  induction l with
  | nil => rfl
  | cons a l ih =>
    cases l with
    | nil => rfl
    | cons b l =>
      have ha := h a List.mem_cons_self
      have hb := h b (List.mem_cons_of_mem _ List.mem_cons_self)
      rw [descents_cons_cons, descents_cons_cons, ha, hb, ih fun c hc => h c (List.mem_cons_of_mem _ hc)]

/-- A list without a descent is ascending. -/
lemma descents_eq_zero : descents key l = 0 ↔ l.Pairwise fun a b => key a < key b := by
  induction l with
  | nil => exact ⟨fun _ => .nil, fun _ => rfl⟩
  | cons a l ih =>
    cases l with
    | nil => exact ⟨fun _ => List.pairwise_singleton _ a, fun _ => rfl⟩
    | cons b l =>
      constructor
      · intro h
        have hab : key a < key b := by
          by_contra hn
          rw [descents_of_not_lt hn] at h
          cases h
        rw [descents_of_lt hab] at h
        have hl := ih.1 h
        refine List.pairwise_cons.2 ⟨?_, hl⟩
        intro c hc
        cases List.mem_cons.1 hc with
        | inl e => exact e ▸ hab
        | inr hc => exact lt_trans hab (List.rel_of_pairwise_cons hl hc)
      · intro h
        rw [descents_of_lt (List.rel_of_pairwise_cons h List.mem_cons_self)]
        exact ih.2 h.of_cons

/-- A list with at most one descent is served in two ascending runs. -/
lemma exists_runs (h : descents key l ≤ 1) : ∃ u v, l = u ++ v ∧
    (u.Pairwise fun a b => key a < key b) ∧ v.Pairwise fun a b => key a < key b := by
  induction l with
  | nil => exact ⟨[], [], rfl, .nil, .nil⟩
  | cons a l ih =>
    cases l with
    | nil => exact ⟨[a], [], rfl, List.pairwise_singleton _ a, .nil⟩
    | cons b l =>
      by_cases hab : key a < key b
      · -- the first run goes on
        rw [descents_of_lt hab] at h
        obtain ⟨u, v, he, hu, hv⟩ := ih h
        cases u with
        | nil => exact ⟨[a], v, by rw [he]; rfl, List.pairwise_singleton _ a, hv⟩
        | cons c u =>
          have hbc : b = c := (List.cons.inj he).1
          subst hbc
          refine ⟨a :: b :: u, v, by rw [he]; rfl, List.pairwise_cons.2 ⟨?_, hu⟩, hv⟩
          intro d hd
          cases List.mem_cons.1 hd with
          | inl e => exact e ▸ hab
          | inr hd => exact lt_trans hab (List.rel_of_pairwise_cons hu hd)
      · -- the second run begins
        rw [descents_of_not_lt hab] at h
        exact ⟨[a], b :: l, rfl, List.pairwise_singleton _ a, descents_eq_zero.1 (by omega)⟩

/-! ### The insertion -/

variable (key a r l) in
/-- The place that is found: behind some element, and nothing else moves. -/
lemma elevate_split : ∃ u c v, a :: l = u ++ c :: v ∧ elevate key r a l = u ++ c :: r :: v := by
  induction l generalizing a with
  | nil => exact ⟨[], a, [], rfl, rfl⟩
  | cons b l ih =>
    rw [elevate]
    split
    · exact ⟨[], a, b :: l, rfl, rfl⟩
    · obtain ⟨u, c, v, he, hi⟩ := ih b
      exact ⟨a :: u, c, v, by rw [he]; rfl, by rw [hi]; rfl⟩

variable (key a r l) in
/-- The first element stays. -/
lemma elevate_head : ∃ m, elevate key r a l = a :: m := by
  cases l with
  | nil => exact ⟨[r], rfl⟩
  | cons b l =>
    rw [elevate]
    split
    · exact ⟨_, rfl⟩
    · exact ⟨_, rfl⟩

/-- The descents before the inserted element. -/
lemma descents_cons_elevate : descents key (a :: elevate key r b l) =
    (if key a < key b then 0 else 1) + descents key (elevate key r b l) := by
  obtain ⟨m, hm⟩ := elevate_head key b r l
  rw [hm, descents_cons_cons]

/-- In an ascending list, an element above the first is put where the list stays ascending; one below it
    goes to the end. -/
lemma descents_elevate_sorted (h : descents key (a :: l) = 0) (hr : ∀ b ∈ a :: l, key b ≠ key r) :
    descents key (elevate key r a l) ≤ 1 ∧ (key a < key r → descents key (elevate key r a l) = 0) := by
  induction l generalizing a with
  | nil =>
    rw [elevate, descents_cons_cons, descents_singleton, Nat.add_zero]
    constructor
    · split
      · exact Nat.zero_le _
      · exact Nat.le_refl _
    · exact fun har => if_pos har
  | cons b l ih =>
    have hab : key a < key b := by
      by_contra hn
      rw [descents_of_not_lt hn] at h
      cases h
    rw [descents_of_lt hab] at h
    obtain ⟨hle, hzero⟩ := ih h fun c hc => hr c (List.mem_cons_of_mem _ hc)
    rw [elevate]
    split
    · next hplace =>
      have har : key a < key r := hplace.1.resolve_right (not_not.2 hab)
      rw [descents_of_lt har, descents_of_lt hplace.2, h]
      exact ⟨Nat.zero_le _, fun _ => rfl⟩
    · next hplace =>
      rw [descents_cons_elevate, if_pos hab, Nat.zero_add]
      refine ⟨hle, fun har => hzero ?_⟩
      have hbr : ¬ key r < key b := fun hrb => hplace ⟨.inl har, hrb⟩
      exact lt_of_le_of_ne (not_lt.1 hbr) (hr b (List.mem_cons_of_mem _ List.mem_cons_self))

/-- The insertion adds no second descent. -/
theorem descents_elevate (h : descents key (a :: l) ≤ 1) (hr : ∀ b ∈ a :: l, key b ≠ key r) :
    descents key (elevate key r a l) ≤ 1 := by
  induction l generalizing a with
  | nil => exact (descents_elevate_sorted rfl hr).1
  | cons b l ih =>
    have hr' : ∀ c ∈ b :: l, key c ≠ key r := fun c hc => hr c (List.mem_cons_of_mem _ hc)
    rw [elevate]
    by_cases hab : key a < key b
    · rw [descents_of_lt hab] at h
      split
      · next hplace =>
        have har : key a < key r := hplace.1.resolve_right (not_not.2 hab)
        rw [descents_of_lt har, descents_of_lt hplace.2]
        exact h
      · rw [descents_cons_elevate, if_pos hab, Nat.zero_add]
        exact ih h hr'
    · -- the only descent is here, and what follows is ascending
      rw [descents_of_not_lt hab] at h
      have h0 : descents key (b :: l) = 0 := by omega
      split
      · next hplace =>
        rw [descents_cons_cons, descents_of_lt hplace.2, h0]
        split
        · exact Nat.zero_le _
        · exact Nat.le_refl _
      · next hplace =>
        have hbr : ¬ key r < key b := fun hrb => hplace ⟨.inr hab, hrb⟩
        have hlt : key b < key r := lt_of_le_of_ne (not_lt.1 hbr) (hr' b List.mem_cons_self)
        have hd := (descents_elevate_sorted h0 hr').2 hlt
        rw [descents_cons_elevate, if_neg hab]
        omega

end OldLinux.Lib
