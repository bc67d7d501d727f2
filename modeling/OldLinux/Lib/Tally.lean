import Mathlib.Algebra.Group.Pi.Basic
import Mathlib.Algebra.GroupWithZero.Nat
import Mathlib.Data.Fintype.Card
import Mathlib.Algebra.BigOperators.Group.Finset.Piecewise

/-!
# Counting references

A table of pointers is a function `g : α → Option β` on a finite type of places. `tally g b` is the
number of places that point to `b`, and `ref r` is what a single pointer `r` adds to it. `tally_update`
says how the tallies change when one pointer does, and `tally_extends_iff` that new pointers always show
in some tally. `total_update` is the same for any number that the places contribute.
-/

namespace OldLinux.Lib
open Finset Function

variable {α β : Type*} [Fintype α] [DecidableEq β]

/-- The number of places that point to `b`. -/
def tally (g : α → Option β) (b : β) : Nat := #{a | g a = some b}

/-- What is pointed to is counted. -/
lemma tally_pos {g : α → Option β} {a : α} {b : β} (h : g a = some b) : 0 < tally g b :=
  card_pos.2 ⟨a, mem_filter.2 ⟨mem_univ a, h⟩⟩

/-- There are no more pointers than places. -/
lemma tally_le {g : α → Option β} {b : β} : tally g b ≤ Fintype.card α := card_le_univ _

/-- Without pointers nothing is. -/
lemma tally_none : tally (fun _ : α => (none : Option β)) = 0 := by
  funext b
  rw [tally, filter_false_of_mem (by simp)]
  rfl

/-- What a pointer adds to the tallies. -/
def ref (r : Option β) : β → Nat := fun b => if r = some b then 1 else 0

/-- No reference. -/
@[simp] lemma ref_none : ref (none : Option β) = 0 := rfl

/-- One reference to itself. -/
@[simp] lemma ref_self (b : β) : ref (some b) b = 1 := if_pos rfl

/-- A pointer points to one thing. -/
lemma ref_le_one {r : Option β} {b : β} : ref r b ≤ 1 := by
  rw [ref]
  split
  · exact le_rfl
  · exact Nat.zero_le 1

/-- A pointer counts nothing for anything else. -/
lemma ref_of_ne {b b' : β} (h : b' ≠ b) : ref (some b) b' = 0 :=
  if_neg fun e => h (Option.some.inj e).symm

/-- One place changes what it contributes to a sum. -/
lemma total_update {γ : Type*} [DecidableEq α] (g : α → γ) (f : γ → Nat) (a : α) (x : γ) :
    ∑ a', f (update g a x a') + f (g a) = ∑ a', f (g a') + f x := by
  have hrest : ∑ a' ∈ univ.erase a, f (update g a x a') = ∑ a' ∈ univ.erase a, f (g a') := by
    apply sum_congr rfl
    intro a' ha'
    rw [update_of_ne (ne_of_mem_erase ha')]
  have hnew := add_sum_erase univ (fun a' => f (update g a x a')) (mem_univ a)
  have hold := add_sum_erase univ (fun a' => f (g a')) (mem_univ a)
  simp only [update_self] at hnew
  omega

/-- One pointer is changed: it no longer counts for what it pointed to, and counts for what it points
    to now. -/
lemma tally_update [DecidableEq α] (g : α → Option β) (a : α) (x : Option β) :
    tally (update g a x) + ref (g a) = tally g + ref x := by
  funext b
  have hsum : ∀ g' : α → Option β, tally g' b = ∑ a', ref (g' a') b := by
    intro g'
    rw [tally, card_filter]
    rfl
  rw [Pi.add_apply, Pi.add_apply, hsum, hsum, total_update g (fun r => ref r b)]

/-- A pointer is set. -/
lemma tally_set [DecidableEq α] {g : α → Option β} {a : α} (h : g a = none) (x : Option β) :
    tally (update g a x) = tally g + ref x := by
  rw [← tally_update g a x, h, ref_none, add_zero]

/-- A pointer is cleared. -/
lemma tally_clear [DecidableEq α] (g : α → Option β) (a : α) :
    tally (update g a none) + ref (g a) = tally g := by
  rw [tally_update, ref_none, add_zero]

/-- The tallies after a pointer to `b` has been set. -/
lemma tally_set_some [DecidableEq α] {g : α → Option β} {a : α} (h : g a = none) (b : β) :
    tally (update g a (some b)) = update (tally g) b (tally g b + 1) := by
  rw [tally_set h]
  funext b'
  by_cases hb : b' = b
  · subst hb
    rw [update_self, Pi.add_apply, ref_self]
  · rw [update_of_ne hb, Pi.add_apply, ref_of_ne hb, add_zero]

/-- The tallies after a pointer to `b` has been cleared. -/
lemma tally_clear_some [DecidableEq α] {g : α → Option β} {a : α} {b : β} (h : g a = some b) :
    tally (update g a none) = update (tally g) b (tally g b - 1) := by
  have hc := tally_clear g a
  rw [h] at hc
  funext b'
  have hb' := congrFun hc b'
  rw [Pi.add_apply] at hb'
  by_cases hb : b' = b
  · subst hb
    rw [ref_self] at hb'
    rw [update_self]
    omega
  · rw [ref_of_ne hb, add_zero] at hb'
    rw [update_of_ne hb, hb']

/-- More pointers make every tally grow, and one of them strictly. -/
lemma tally_extends_iff {g g' : α → Option β} (h : ∀ a b, g a = some b → g' a = some b) :
    (∀ b, tally g' b = tally g b) ↔ g' = g := by
  constructor
  · intro ht
    funext a
    cases hg : g' a with
    | none =>
      cases hga : g a with
      | none => rfl
      | some b => rw [h a b hga] at hg; cases hg
    | some b =>
      have hsub : ({a | g a = some b} : Finset α) ⊆ ({a | g' a = some b} : Finset α) := by
        intro a' ha'
        rw [mem_filter] at ha' ⊢
        exact ⟨ha'.1, h a' b ha'.2⟩
      have heq := eq_of_subset_of_card_le hsub (ht b).le
      have hmem : a ∈ ({a | g' a = some b} : Finset α) := mem_filter.2 ⟨mem_univ a, hg⟩
      rw [← heq, mem_filter] at hmem
      exact hmem.2.symm
  · rintro rfl b
    rfl

end OldLinux.Lib
