import Mathlib.Logic.Relation

/-!
# Transition systems

Labelled transition systems over an arbitrary state and label type. A run is recorded as the list of
its labels with the state each one leads to (`Exec`), so that a property of the states (`Always`) and
a property of the single steps (`Along`) can both be read off it. `Reach` forgets the run.

The two rules that the rest of the development uses are `Reach.inv` (what holds initially and is
preserved by every step holds in every reachable state) and `Exec.along_of_inv` (the same for the runs
whose steps all meet a side condition, together with what each step guarantees).
`Exec.along_iff` turns an exact one-step characterisation into one of whole runs.
-/

namespace OldLinux.Lib

/-- A labelled transition system. -/
structure System (σ ℓ : Type*) where
  init : σ → Prop
  step : σ → ℓ → σ → Prop

variable {σ ℓ : Type*} {S : System σ ℓ}

/-- The states reached from an initial state. -/
inductive System.Reach (S : System σ ℓ) : σ → Prop where
  | init {s} : S.init s → Reach S s
  | step {s l s'} : Reach S s → S.step s l s' → Reach S s'

/-- The runs from a state, as the list of labels with the states they lead to. -/
inductive System.Exec (S : System σ ℓ) : σ → List (ℓ × σ) → Prop where
  | nil {s} : Exec S s []
  | cons {s l s' tr} : S.step s l s' → Exec S s' tr → Exec S s ((l, s') :: tr)

/-- Every step of a run satisfies `R`. -/
def Along (R : σ → ℓ → σ → Prop) : σ → List (ℓ × σ) → Prop
  | _, [] => True
  | s, (l, s') :: tr => R s l s' ∧ Along R s' tr

/-- Every state of a run, the first one included, satisfies `P`. -/
def Always (P : σ → Prop) (s : σ) (tr : List (ℓ × σ)) : Prop :=
  P s ∧ Along (fun _ _ s' => P s') s tr

/-- The last state of a run. -/
def last (s : σ) : List (ℓ × σ) → σ
  | [] => s
  | (_, s') :: tr => last s' tr

/-- No step. -/
@[simp] lemma along_nil {R : σ → ℓ → σ → Prop} {s} : Along R s [] := trivial

/-- A step and the rest. -/
@[simp] lemma along_cons {R : σ → ℓ → σ → Prop} {s l s' tr} :
    Along R s ((l, s') :: tr) ↔ R s l s' ∧ Along R s' tr := Iff.rfl

/-- The first state. -/
@[simp] lemma always_nil {P : σ → Prop} {s} : Always P s ([] : List (ℓ × σ)) ↔ P s := by
  simp [Always]

/-- The first state and the rest. -/
@[simp] lemma always_cons {P : σ → Prop} {s l s'} {tr : List (ℓ × σ)} :
    Always P s ((l, s') :: tr) ↔ P s ∧ Always P s' tr := by
  simp [Always]

/-- A weaker condition on the steps. -/
lemma Along.mono {R R' : σ → ℓ → σ → Prop} (h : ∀ s l s', R s l s' → R' s l s') :
    ∀ {s tr}, Along R s tr → Along R' s tr
  | _, [], _ => trivial
  | _, (_, _) :: _, ⟨hr, ht⟩ => ⟨h _ _ _ hr, Along.mono h ht⟩

/-- A condition that all steps meet. -/
lemma Along.of_forall {R : σ → ℓ → σ → Prop} (h : ∀ s l s', R s l s') : ∀ {s tr}, Along R s tr
  | _, [] => trivial
  | _, (_, _) :: _ => ⟨h _ _ _, Along.of_forall h⟩

/-- A weaker condition on the states. -/
lemma Always.mono {P P' : σ → Prop} (h : ∀ s, P s → P' s) {s} {tr : List (ℓ × σ)}
    (ha : Always P s tr) : Always P' s tr :=
  ⟨h _ ha.1, ha.2.mono fun _ _ s' => h s'⟩

/-- It holds of the last state. -/
lemma Always.at_last {P : σ → Prop} {s} {tr : List (ℓ × σ)} (h : Always P s tr) : P (last s tr) := by
  induction tr generalizing s with
  | nil => exact h.1
  | cons x tr ih => exact ih (always_cons.1 h).2

/-- A run and one more step. -/
lemma System.Exec.snoc {s l s'} {tr : List (ℓ × σ)} (ex : S.Exec s tr) (st : S.step (last s tr) l s') :
    S.Exec s (tr ++ [(l, s')]) := by
  induction ex with
  | nil => exact .cons st .nil
  | cons st' _ ih => exact .cons st' (ih st)

/-- One run after the other. -/
lemma System.Exec.append {s} {tr tr' : List (ℓ × σ)} (ex : S.Exec s tr)
    (ex' : S.Exec (last s tr) tr') : S.Exec s (tr ++ tr') := by
  induction ex with
  | nil => exact ex'
  | cons st _ ih => exact .cons st (ih ex')

/-- A run is a run to the end of its beginning, and one from there. -/
lemma System.Exec.split {s} {tr tr' : List (ℓ × σ)} (ex : S.Exec s (tr ++ tr')) :
    S.Exec s tr ∧ S.Exec (last s tr) tr' := by
  induction tr generalizing s with
  | nil => exact ⟨.nil, ex⟩
  | cons x tr ih =>
    cases ex with
    | cons st ex' =>
      obtain ⟨h, h'⟩ := ih ex'
      exact ⟨.cons st h, h'⟩

/-- The last state of two runs. -/
lemma last_append {s} {tr tr' : List (ℓ × σ)} : last s (tr ++ tr') = last (last s tr) tr' := by
  induction tr generalizing s with
  | nil => rfl
  | cons x tr ih => exact ih

/-- The steps of two runs. -/
lemma Along.append {R : σ → ℓ → σ → Prop} {s} {tr tr' : List (ℓ × σ)} (h : Along R s tr)
    (h' : Along R (last s tr) tr') : Along R s (tr ++ tr') := by
  induction tr generalizing s with
  | nil => exact h'
  | cons x tr ih => exact ⟨h.1, ih h.2 h'⟩

/-- What holds along a run holds along its end. -/
lemma Along.drop {R : σ → ℓ → σ → Prop} {s} {tr tr' : List (ℓ × σ)} (h : Along R s (tr ++ tr')) :
    Along R (last s tr) tr' := by
  induction tr generalizing s with
  | nil => exact h
  | cons x tr ih => exact ih h.2

/-- It holds of the rest of the run. -/
lemma Always.drop {P : σ → Prop} {s} {tr tr' : List (ℓ × σ)} (h : Always P s (tr ++ tr')) :
    Always P (last s tr) tr' := by
  induction tr generalizing s with
  | nil => exact h
  | cons x tr ih => exact ih (always_cons.1 h).2

/-- Two conditions on the states. -/
lemma Always.and {P P' : σ → Prop} {s} {tr : List (ℓ × σ)} (h : Always P s tr) (h' : Always P' s tr) :
    Always (fun s => P s ∧ P' s) s tr := by
  induction tr generalizing s with
  | nil => exact always_nil.2 ⟨h.1, h'.1⟩
  | cons x tr ih =>
    exact always_cons.2 ⟨⟨h.1, h'.1⟩, ih (always_cons.1 h).2 (always_cons.1 h').2⟩

/-- The last step. -/
lemma Along.at_last {R : σ → ℓ → σ → Prop} {s l s'} {tr : List (ℓ × σ)}
    (h : Along R s (tr ++ [(l, s')])) : R (last s tr) l s' := by
  induction tr generalizing s with
  | nil => exact h.1
  | cons x tr ih => exact ih h.2

instance Along.decidable {R : σ → ℓ → σ → Prop} [∀ s l s', Decidable (R s l s')] :
    ∀ s tr, Decidable (Along R s tr)
  | _, [] => .isTrue trivial
  | s, (l, s') :: tr =>
    have := Along.decidable (R := R) s' tr
    inferInstanceAs (Decidable (R s l s' ∧ Along R s' tr))

/-- The run with the given labels, where the step is a function. -/
def trace (f : σ → ℓ → Option σ) : σ → List ℓ → Option (List (ℓ × σ))
  | _, [] => some []
  | s, l :: ls => (f s l).bind fun s' => (trace f s' ls).map fun tr => (l, s') :: tr

/-- What a step function traces is a run. -/
lemma System.exec_of_trace {f : σ → ℓ → Option σ} (hf : ∀ s l s', f s l = some s' → S.step s l s') :
    ∀ {ls s tr}, trace f s ls = some tr → S.Exec s tr
  | [], _, _, h => Option.some.inj h ▸ .nil
  | l :: ls, s, tr, h => by
    obtain ⟨s', hs, ht⟩ := Option.bind_eq_some_iff.1 h
    obtain ⟨tr', htr, rfl⟩ := Option.map_eq_some_iff.1 ht
    exact .cons (hf s l s' hs) (exec_of_trace hf htr)

/-- The invariant rule for reachable states. -/
theorem System.Reach.inv {I : σ → Prop} (hi : ∀ s, S.init s → I s)
    (hs : ∀ s l s', I s → S.step s l s' → I s') {s} (h : S.Reach s) : I s := by
  induction h with
  | init h0 => exact hi _ h0
  | step _ st ih => exact hs _ _ _ ih st

/-- The invariant rule for the runs whose steps all meet `C`: every state satisfies the invariant
    and every step its guarantee `Q`. -/
theorem System.Exec.along_of_inv {I : σ → Prop} {C Q : σ → ℓ → σ → Prop}
    (hs : ∀ s l s', I s → S.step s l s' → C s l s' → I s' ∧ Q s l s')
    {s tr} (ex : S.Exec s tr) (h0 : I s) (hc : Along C s tr) :
    Always I s tr ∧ Along Q s tr := by
  induction ex with
  | nil => exact ⟨always_nil.2 h0, trivial⟩
  | cons st _ ih =>
    obtain ⟨hI, hQ⟩ := hs _ _ _ h0 st hc.1
    obtain ⟨ha, hq⟩ := ih hI hc.2
    exact ⟨always_cons.2 ⟨h0, ha⟩, hQ, hq⟩

/-- If, under the invariant, the steps that meet `C` keep it and give the guarantee `Q`, and no other
    step gives `Q`, then a run gives `Q` throughout exactly when all its steps meet `C`. -/
theorem System.Exec.along_iff {I : σ → Prop} {C Q : σ → ℓ → σ → Prop}
    (hs : ∀ s l s', I s → S.step s l s' → C s l s' → I s' ∧ Q s l s')
    (hq : ∀ s l s', I s → S.step s l s' → Q s l s' → C s l s')
    {s tr} (ex : S.Exec s tr) (h0 : I s) : Along Q s tr ↔ Along C s tr := by
  induction ex with
  | nil => exact Iff.rfl
  | @cons s l s' tr st _ ih =>
    constructor
    · rintro ⟨hQ, hQs⟩
      have hC := hq _ _ _ h0 st hQ
      exact ⟨hC, (ih (hs _ _ _ h0 st hC).1).1 hQs⟩
    · rintro ⟨hC, hCs⟩
      obtain ⟨hI, hQ⟩ := hs _ _ _ h0 st hC
      exact ⟨hQ, (ih hI).2 hCs⟩

/-- A state property and a step property of a run, as one step property. -/
lemma always_and_along_iff {P : σ → Prop} {Q : σ → ℓ → σ → Prop} {s tr} (h0 : P s) :
    Always P s tr ∧ Along Q s tr ↔ Along (fun s l s' => P s' ∧ Q s l s') s tr := by
  induction tr generalizing s with
  | nil => simpa using h0
  | cons x tr ih =>
    obtain ⟨l, s'⟩ := x
    rw [always_cons, along_cons, along_cons]
    constructor
    · rintro ⟨⟨_, ha⟩, hq, hqs⟩
      exact ⟨⟨ha.1, hq⟩, (ih ha.1).1 ⟨ha, hqs⟩⟩
    · rintro ⟨⟨hp, hq⟩, hs⟩
      obtain ⟨ha, hqs⟩ := (ih hp).2 hs
      exact ⟨⟨h0, ha⟩, hq, hqs⟩

end OldLinux.Lib
