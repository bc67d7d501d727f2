import OldLinux.Lib.System

/-!
# Refinement

A system refines another when a map takes its states to states of the other and, under an invariant, each of its
steps to a step of the other with the same label. Then it takes its runs to runs.
-/

namespace OldLinux.Lib

variable {σ τ ℓ : Type*} {S : System σ ℓ} {T : System τ ℓ} {f : σ → τ} {I : σ → Prop} {s : σ} {tr : List (ℓ × σ)}

/-- Under the invariant `I`, the map `f` takes steps to steps. -/
structure Refines (S : System σ ℓ) (T : System τ ℓ) (f : σ → τ) (I : σ → Prop) : Prop where
  init : ∀ s, S.init s → T.init (f s) ∧ I s
  step : ∀ s l s', I s → S.step s l s' → T.step (f s) l (f s') ∧ I s'

/-- A run with its states mapped. -/
def image (f : σ → τ) (tr : List (ℓ × σ)) : List (ℓ × τ) := tr.map fun x => (x.1, f x.2)

/-- Runs are mapped to runs. -/
lemma Refines.exec (h : Refines S T f I) (hi : I s) (ex : S.Exec s tr) :
    T.Exec (f s) (image f tr) ∧ Always I s tr := by
  induction ex with
  | nil => exact ⟨.nil, always_nil.2 hi⟩
  | cons st _ ih =>
    obtain ⟨ht, hi'⟩ := h.step _ _ _ hi st
    obtain ⟨ex', ha⟩ := ih hi'
    exact ⟨.cons ht ex', always_cons.2 ⟨hi, ha⟩⟩

end OldLinux.Lib
