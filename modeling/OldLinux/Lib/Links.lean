import Mathlib.Data.List.Chain
import Mathlib.Logic.Relation

/-!
# Link relations

A structure of objects that name each other (a list threaded through records, saved pointers on
several stacks) is a relation `r a b`, "`a` names `b`". The facts kept here are those of a relation
that only grows at fresh sources: it stays acyclic, and then no chain of links visits an object twice.
-/

namespace OldLinux.Lib

variable {α : Type*} {r r' : α → α → Prop}

/-- No object reaches itself along the links. -/
def Acyclic (r : α → α → Prop) : Prop := ∀ a, ¬ Relation.TransGen r a a

/-- Fewer links make no cycle. -/
lemma Acyclic.mono (h : Acyclic r) (le : ∀ a b, r' a b → r a b) : Acyclic r' :=
  fun a ha => h a (Relation.TransGen.mono le _ _ ha)

/-- Links added only at a source that nobody names close no cycle. -/
lemma Acyclic.of_fresh {t : α} (h : Acyclic r) (fresh : ∀ a, ¬ r' a t)
    (old : ∀ a b, a ≠ t → r' a b → r a b) : Acyclic r' := by
  have notTo : ∀ {x y}, Relation.TransGen r' x y → y ≠ t := by
    intro x y hxy e
    subst e
    cases hxy with
    | single hr => exact fresh _ hr
    | tail _ hr => exact fresh _ hr
  have lift : ∀ {x y}, Relation.TransGen r' x y → x ≠ t → Relation.TransGen r x y := by
    intro x y hxy hx
    induction hxy with
    | single hr => exact .single (old _ _ hx hr)
    | tail hxy hr ih => exact ih.tail (old _ _ (notTo hxy) hr)
  intro a ha
  exact h a (lift ha (notTo ha))

/-- A chain of links of an acyclic relation has no repetition. -/
lemma Acyclic.nodup_of_isChain (h : Acyclic r) {l : List α} (hl : l.IsChain r) : l.Nodup := by
  have hl' : l.IsChain (Relation.TransGen r) := hl.imp fun _ _ => .single
  have hp : l.Pairwise (Relation.TransGen r) := List.isChain_iff_pairwise.1 hl'
  refine hp.imp ?_
  rintro a _ hab rfl
  exact h a hab

end OldLinux.Lib
