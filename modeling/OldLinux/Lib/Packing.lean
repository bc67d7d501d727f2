import Mathlib.Algebra.BigOperators.Fin
import Mathlib.Order.Interval.Finset.Nat

/-!
# Packings

Extents of given sizes, placed in a range of addresses so that no two of them share an address. They take
no more room than there is (`Packing.sum_le`). `Packing.twoSided` is the placement of two kinds of extents
in equal numbers, one kind from the lower end of the range upwards and the other from the upper end
downwards; no placement has more of them than fit by size (`Packing.count_le`).
-/

namespace OldLinux.Lib

/-- The addresses from `start` on that an extent of size `size` takes. -/
def extent (start size : Nat) : Finset Nat := Finset.Ico start (start + size)

/-- One extent behind the other. -/
lemma extent_disjoint {a b m n : Nat} (h : a + m ≤ b ∨ b + n ≤ a) : Disjoint (extent a m) (extent b n) := by
  rw [Finset.disjoint_left]
  intro x hx hx'
  rw [extent, Finset.mem_Ico] at hx hx'
  omega

/-- Disjoint extents of sizes `size` between `lo` and `hi`. -/
structure Packing {ι : Type*} (size : ι → Nat) (lo hi : Nat) where
  start : ι → Nat
  inside : ∀ i, lo ≤ start i ∧ start i + size i ≤ hi
  disjoint : Pairwise fun i j => Disjoint (extent (start i) (size i)) (extent (start j) (size j))

namespace Packing
variable {ι : Type*} {size : ι → Nat} {lo hi a b n : Nat}

/-- Together the extents are no larger than the range. -/
lemma sum_le [Fintype ι] (p : Packing size lo hi) : ∑ i, size i ≤ hi - lo := by
  have hsub : Finset.univ.biUnion (fun i => extent (p.start i) (size i)) ⊆ Finset.Ico lo hi := by
    intro x hx
    obtain ⟨i, -, hx⟩ := Finset.mem_biUnion.1 hx
    have hx := Finset.mem_Ico.1 hx
    have hi := p.inside i
    exact Finset.mem_Ico.2 ⟨hi.1.trans hx.1, hx.2.trans_le hi.2⟩
  have hcard := Finset.card_le_card hsub
  rw [Finset.card_biUnion fun i _ j _ hij => p.disjoint hij, Nat.card_Ico] at hcard
  calc ∑ i, size i = ∑ i, (extent (p.start i) (size i)).card :=
        Finset.sum_congr rfl fun i _ => by rw [extent, Nat.card_Ico, Nat.add_sub_cancel_left]
    _ ≤ hi - lo := hcard

/-- The sizes of `n` extents of size `a` and `n` of size `b`. -/
def sizes (a b n : Nat) : Fin n ⊕ Fin n → Nat := Sum.elim (fun _ => a) (fun _ => b)

/-- However the extents are placed, there are only as many as fit by size. -/
lemma count_le (p : Packing (sizes a b n) lo hi) : n * (a + b) ≤ hi - lo := by
  have h := p.sum_le
  rw [Fintype.sum_sum_type] at h
  rw [Nat.mul_add]
  calc n * a + n * b = ∑ _ : Fin n, a + ∑ _ : Fin n, b := by
        rw [Fin.sum_const, Fin.sum_const, smul_eq_mul, smul_eq_mul]
    _ ≤ hi - lo := h

/-- The extents of size `a` stand side by side from `lo` upwards, those of size `b` from `hi` downwards. -/
def twoSided (h : lo + n * (a + b) ≤ hi) : Packing (sizes a b n) lo hi where
  start := Sum.elim (fun i => lo + a * i) (fun i => hi - b * (i + 1))
  inside := by
    rw [Nat.mul_add, Nat.mul_comm n a, Nat.mul_comm n b] at h
    rintro (i | i)
    · have hi : a * (i + 1) ≤ a * n := Nat.mul_le_mul_left a i.isLt
      rw [Nat.mul_succ] at hi
      exact ⟨Nat.le_add_right _ _, show lo + a * i + a ≤ _ by omega⟩
    · have hi : b * (i + 1) ≤ b * n := Nat.mul_le_mul_left b i.isLt
      have hb : b ≤ b * (i + 1) := Nat.le_mul_of_pos_right b (Nat.succ_pos _)
      exact ⟨show lo ≤ _ - b * (i + 1) by omega, show _ - b * (i + 1) + b ≤ _ by omega⟩
  disjoint := by
    rw [Nat.mul_add, Nat.mul_comm n a, Nat.mul_comm n b] at h
    -- of two extents of one kind, the one that comes later begins where the other one is over
    have hstep : ∀ (c : Nat) {i j : Fin n}, i ≠ j → c * (i.val + 1) ≤ c * j.val ∨ c * (j.val + 1) ≤ c * i.val := by
      intro c i j hij
      obtain hlt | hlt := lt_or_gt_of_ne hij
      · exact .inl (Nat.mul_le_mul_left c hlt)
      · exact .inr (Nat.mul_le_mul_left c hlt)
    have hapart : ∀ i j : Fin n, lo + a * i + a ≤ hi - b * (j + 1) := by
      intro i j
      have hi : a * (i + 1) ≤ a * n := Nat.mul_le_mul_left a i.isLt
      have hj : b * (j + 1) ≤ b * n := Nat.mul_le_mul_left b j.isLt
      rw [Nat.mul_succ] at hi
      omega
    rintro (i | i) (j | j) hij
    · have hs := hstep a fun e : i = j => hij (congrArg Sum.inl e)
      refine extent_disjoint ?_
      simp only [Nat.mul_succ] at hs
      show lo + a * i + a ≤ lo + a * j ∨ lo + a * j + a ≤ lo + a * i
      omega
    · exact extent_disjoint (.inl (hapart i j))
    · exact extent_disjoint (.inr (hapart j i))
    · have hs := hstep b fun e : i = j => hij (congrArg Sum.inr e)
      have hli : b * (i + 1) ≤ b * n := Nat.mul_le_mul_left b i.isLt
      have hlj : b * (j + 1) ≤ b * n := Nat.mul_le_mul_left b j.isLt
      refine extent_disjoint ?_
      show hi - b * (i.val + 1) + b ≤ hi - b * (j.val + 1) ∨ hi - b * (j.val + 1) + b ≤ hi - b * (i.val + 1)
      simp only [Nat.mul_succ] at hs hli hlj ⊢
      omega

end Packing

end OldLinux.Lib
