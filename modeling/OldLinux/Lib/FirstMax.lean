import Mathlib.Order.Lattice
import Mathlib.Data.List.Induction

/-!
# The first maximum of a list

A loop that goes through a list and keeps the best element so far, which another one replaces only when
its score is larger. It ends with the first of the elements with the largest score (`firstMax_spec`), and
so, in a list that descends, with the greatest of them (`IsFirstMax.greatest`).
-/

namespace OldLinux.Lib

variable {ι κ : Type*} [LinearOrder κ] {score : ι → κ} {l : List ι} {a b : ι}

/-- A turn of the loop. -/
def keepBest (score : ι → κ) : Option ι → ι → Option ι
  | none, a => some a
  | some b, a => if score b < score a then some a else some b

/-- The element that the loop ends with. -/
def firstMax (score : ι → κ) (l : List ι) : Option ι := l.foldl (keepBest score) none

/-- `b` is the first of the elements with the largest score. -/
def IsFirstMax (score : ι → κ) (l : List ι) (b : ι) : Prop :=
  ∃ before after, l = before ++ b :: after ∧ (∀ a ∈ before, score a < score b) ∧
    ∀ a ∈ after, score a ≤ score b

/-- The first maximum is in the list. -/
lemma IsFirstMax.mem (h : IsFirstMax score l b) : b ∈ l := by
  obtain ⟨before, after, rfl, _, _⟩ := h
  exact List.mem_append_right _ List.mem_cons_self

/-- No score is above the first maximum. -/
lemma IsFirstMax.le (h : IsFirstMax score l b) (ha : a ∈ l) : score a ≤ score b := by
  obtain ⟨before, after, rfl, hb, hs⟩ := h
  cases List.mem_append.1 ha with
  | inl ha => exact le_of_lt (hb a ha)
  | inr ha =>
    cases List.mem_cons.1 ha with
    | inl e => exact e ▸ le_rfl
    | inr ha => exact hs a ha

/-- An element that comes later with a larger score is the new one. -/
lemma IsFirstMax.replace (h : IsFirstMax score l b) (ha : score b < score a) :
    IsFirstMax score (l ++ [a]) a :=
  ⟨l, [], rfl, fun _ hx => lt_of_le_of_lt (h.le hx) ha, nofun⟩

/-- An element that comes later with no larger score changes nothing. -/
lemma IsFirstMax.keep (h : IsFirstMax score l b) (ha : score a ≤ score b) :
    IsFirstMax score (l ++ [a]) b := by
  obtain ⟨before, after, rfl, hb, hs⟩ := h
  refine ⟨before, after ++ [a], by rw [List.append_assoc, List.cons_append], hb, fun x hx => ?_⟩
  cases List.mem_append.1 hx with
  | inl hx => exact hs x hx
  | inr hx => exact List.mem_singleton.1 hx ▸ ha

/-- What the loop ends with. -/
lemma firstMax_spec (score : ι → κ) (l : List ι) :
    (firstMax score l = none ∧ l = []) ∨ ∃ b, firstMax score l = some b ∧ IsFirstMax score l b := by
  induction l using List.reverseRecOn with
  | nil => exact .inl ⟨rfl, rfl⟩
  | append_singleton l a ih =>
    have hstep : firstMax score (l ++ [a]) = keepBest score (firstMax score l) a := by
      rw [firstMax, List.foldl_append]
      rfl
    rw [hstep]
    rcases ih with ⟨hnone, rfl⟩ | ⟨b, hb, h⟩
    · refine .inr ⟨a, by rw [hnone]; rfl, [], [], rfl, nofun, nofun⟩
    · rw [hb, keepBest]
      split
      · next hlt => exact .inr ⟨a, rfl, h.replace hlt⟩
      · next hle => exact .inr ⟨b, rfl, h.keep (not_lt.1 hle)⟩

/-- In a list that descends, the first maximum is the greatest. -/
lemma IsFirstMax.greatest [LinearOrder ι] (h : IsFirstMax score l b) (hl : l.Pairwise (· > ·))
    (ha : a ∈ l) : score a < score b ∨ score a = score b ∧ a ≤ b := by
  obtain ⟨before, after, rfl, hb, hs⟩ := h
  cases List.mem_append.1 ha with
  | inl ha => exact .inl (hb a ha)
  | inr ha =>
    cases List.mem_cons.1 ha with
    | inl e => exact .inr ⟨e ▸ rfl, le_of_eq e⟩
    | inr ha =>
      have hlt : b > a := (List.pairwise_cons.1 (List.pairwise_append.1 hl).2.1).1 a ha
      cases lt_or_eq_of_le (hs a ha) with
      | inl h => exact .inl h
      | inr h => exact .inr ⟨h, le_of_lt hlt⟩

end OldLinux.Lib
