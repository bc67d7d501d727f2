import OldLinux.Lib.System

/-!
# The cost of a run

Every step of a run costs a number. Where a step takes no more from a value than it costs, a run takes no more from
it than its steps cost together (`System.Exec.le_cost`).
-/

namespace OldLinux.Lib

variable {σ ℓ : Type*} {S : System σ ℓ} {c : σ → ℓ → σ → Nat} {s s' : σ} {l : ℓ} {tr tr' : List (ℓ × σ)}

/-- What holds of every state holds of the state before each step. -/
lemma Always.along {P : σ → Prop} (h : Always P s tr) : Along (fun s _ _ => P s) s tr := by
  induction tr generalizing s with
  | nil => trivial
  | cons x tr ih => exact ⟨h.1, ih (always_cons.1 h).2⟩

/-- Two conditions on the steps of a run. -/
lemma Along.and {R R' : σ → ℓ → σ → Prop} (h : Along R s tr) (h' : Along R' s tr) :
    Along (fun s l s' => R s l s' ∧ R' s l s') s tr := by
  induction tr generalizing s with
  | nil => trivial
  | cons x tr ih => exact ⟨⟨h.1, h'.1⟩, ih h.2 h'.2⟩

/-- What the steps of a run cost. -/
def cost (c : σ → ℓ → σ → Nat) : σ → List (ℓ × σ) → Nat
  | _, [] => 0
  | s, (l, s') :: tr => c s l s' + cost c s' tr

/-- The cost of two runs in a row. -/
lemma cost_append : cost c s (tr ++ tr') = cost c s tr + cost c (last s tr) tr' := by
  induction tr generalizing s with
  | nil => exact (Nat.zero_add _).symm
  | cons x tr ih =>
    rw [List.cons_append, cost, cost, ih, Nat.add_assoc]
    rfl

/-- The cost of a step. -/
lemma cost_singleton : cost c s [(l, s')] = c s l s' := rfl

/-- The value at the end is at least that at the start less the cost. -/
lemma System.Exec.le_cost {I : σ → Prop} {C : σ → ℓ → σ → Prop} {v : σ → Nat}
    (hstep : ∀ s l s', I s → S.step s l s' → C s l s' → I s' ∧ v s ≤ v s' + c s l s') (hi : I s)
    (ex : S.Exec s tr) (hc : Along C s tr) : v s ≤ v (last s tr) + cost c s tr := by
  induction ex with
  | nil => exact Nat.le_add_right _ _
  | @cons s l s' tr st _ ih =>
    obtain ⟨hi', hle⟩ := hstep s l s' hi st hc.1
    have hrest := ih hi' hc.2
    rw [cost]
    show v s ≤ v (last s' tr) + (c s l s' + cost c s' tr)
    omega

end OldLinux.Lib
