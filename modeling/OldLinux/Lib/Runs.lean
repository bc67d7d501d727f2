import Mathlib.Data.List.Basic

/-!
# Maximal runs

The runs of a list between separators, as pairs of positions: where a run begins, and where it is over. `MaxRun`
says what a maximal run is, and `runs` goes through the list once. It finds them all, in order (`mem_runs`,
`runs_sorted`).
-/

namespace OldLinux.Lib

variable {α : Type} {sep : α → Prop} {l t r : List α} {x : α} {i j k o p : Nat}

/-! ## Runs -/

/-- Position `k` is a separator, or behind the list. -/
def SepAt (sep : α → Prop) (l : List α) (k : Nat) : Prop := ∀ x ∈ l[k]?, sep x

/-- From `i` up to `j` there is no separator, and there is one on either side, or the list is over. -/
structure MaxRun (sep : α → Prop) (l : List α) (i j : Nat) : Prop where
  lt : i < j
  inside : ∀ k, i ≤ k → k < j → ¬ SepAt sep l k
  left : i = 0 ∨ SepAt sep l (i - 1)
  right : SepAt sep l j

/-- At the end of the text a run ends. -/
lemma sepAt_length : SepAt sep l l.length := by
  rw [SepAt, List.getElem?_eq_none (Nat.le_refl _)]
  nofun

/-- Within a run there is no separator. -/
lemma sepAt_append_left (ht : ∀ x ∈ t, ¬ sep x) (hk : k < t.length) : ¬ SepAt sep (t ++ l) k := by
  intro h
  refine ht t[k] (List.getElem_mem hk) (h _ ?_)
  rw [List.getElem?_append_left hk, List.getElem?_eq_getElem hk]
  rfl

/-- Behind it the separators are those of the rest. -/
lemma sepAt_append_right : SepAt sep (t ++ l) (t.length + k) ↔ SepAt sep l k := by
  rw [SepAt, List.getElem?_append_right (Nat.le_add_right _ _), Nat.add_sub_cancel_left]
  rfl

/-- A run is within the text. -/
lemma MaxRun.le (h : MaxRun sep l i j) : j ≤ l.length := by
  by_contra hlt
  have hpos := h.lt
  refine h.inside (j - 1) (by omega) (by omega) ?_
  rw [SepAt, List.getElem?_eq_none (by omega)]
  nofun

/-- A list without separators. -/
lemma maxRun_token (ht : ∀ x ∈ t, ¬ sep x) : MaxRun sep t i j ↔ i = 0 ∧ j = t.length ∧ 0 < t.length := by
  have hin : ∀ k < t.length, ¬ SepAt sep t k := fun k hk => by
    have h := sepAt_append_left (l := []) ht hk
    rwa [List.append_nil] at h
  constructor
  · intro h
    have hlt := h.lt
    have hle := h.le
    have hj : j = t.length := by
      by_contra hne
      exact hin j (by omega) h.right
    refine ⟨?_, hj, by omega⟩
    cases h.left with
    | inl h0 => exact h0
    | inr hs => exact absurd hs (hin (i - 1) (by omega))
  · rintro ⟨rfl, rfl, hpos⟩
    exact ⟨hpos, fun k _ hk => hin k hk, .inl rfl, sepAt_length⟩

/-- The run before a separator, and those behind it. -/
lemma maxRun_append (ht : ∀ x ∈ t, ¬ sep x) (hx : sep x) : MaxRun sep (t ++ x :: l) i j ↔
    (i = 0 ∧ j = t.length ∧ 0 < t.length) ∨
      ∃ i' j', i = t.length + 1 + i' ∧ j = t.length + 1 + j' ∧ MaxRun sep l i' j' := by
  have hin : ∀ k < t.length, ¬ SepAt sep (t ++ x :: l) k := fun k hk => sepAt_append_left ht hk
  have hat : SepAt sep (t ++ x :: l) t.length := by
    refine (sepAt_append_right (k := 0)).2 ?_
    rintro _ ⟨⟩
    exact hx
  have hout : ∀ k, SepAt sep (t ++ x :: l) (t.length + 1 + k) ↔ SepAt sep l k := fun k => by
    rw [Nat.add_assoc, sepAt_append_right, Nat.add_comm]
    rfl
  constructor
  · intro h
    have hlt := h.lt
    by_cases hi : i ≤ t.length
    · left
      have hj : j = t.length := by
        by_contra hne
        by_cases hj : j < t.length
        · exact hin j hj h.right
        · exact h.inside t.length hi (by omega) hat
      refine ⟨?_, hj, by omega⟩
      cases h.left with
      | inl h0 => exact h0
      | inr hs => exact absurd hs (hin (i - 1) (by omega))
    · right
      obtain ⟨i', rfl⟩ := Nat.exists_eq_add_of_le (Nat.lt_of_not_le hi)
      obtain ⟨j', rfl⟩ := Nat.exists_eq_add_of_le (show t.length + 1 ≤ j by omega)
      refine ⟨i', j', rfl, rfl, by omega, fun k hk hk' => ?_, ?_, (hout j').1 h.right⟩
      · rw [← hout]
        exact h.inside _ (by omega) (by omega)
      · cases i' with
        | zero => exact .inl rfl
        | succ i' => exact .inr ((hout i').1 (h.left.resolve_left (by omega)))
  · rintro (⟨rfl, rfl, hpos⟩ | ⟨i', j', rfl, rfl, h⟩)
    · exact ⟨hpos, fun k _ hk => hin k hk, .inl rfl, hat⟩
    · refine ⟨Nat.add_lt_add_left h.lt _, fun k hk hk' => ?_, .inr ?_, (hout j').2 h.right⟩
      · obtain ⟨k', rfl⟩ := Nat.exists_eq_add_of_le (show t.length + 1 ≤ k by omega)
        rw [hout]
        exact h.inside k' (by omega) (by omega)
      · cases i' with
        | zero => exact hat
        | succ i' => exact (hout i').2 (h.left.resolve_left (Nat.succ_ne_zero i'))

/-! ## Going through the list -/

/-- A run that is over, unless it is empty. -/
def emit (o p : Nat) (rs : List (Nat × Nat)) : List (Nat × Nat) := if o < p then (o, p) :: rs else rs

section
variable (sep) [DecidablePred sep]

/-- The runs from position `p` on, where one is that began at `o`. -/
def runsFrom : Nat → Nat → List α → List (Nat × Nat)
  | o, p, [] => emit o p []
  | o, p, x :: l => if sep x then emit o p (runsFrom (p + 1) (p + 1) l) else runsFrom o (p + 1) l

/-- The maximal runs of a list. -/
def runs (l : List α) : List (Nat × Nat) := runsFrom sep 0 0 l

end

variable [DecidablePred sep] {rs : List (Nat × Nat)} {run : Nat × Nat}

/-- A run is emitted if it is not empty. -/
lemma mem_emit : run ∈ emit o p rs ↔ (run = (o, p) ∧ o < p) ∨ run ∈ rs := by
  rw [emit]
  split
  · next h => rw [List.mem_cons, and_iff_left h]
  · next h => rw [or_iff_right fun h' => h h'.2]

/-- Separators are passed over. -/
lemma runsFrom_seps (h : ∀ x ∈ t, sep x) :
    runsFrom sep p p (t ++ l) = runsFrom sep (p + t.length) (p + t.length) l := by
  induction t generalizing p with
  | nil => rfl
  | cons x t ih =>
    rw [List.cons_append, runsFrom, if_pos (h x List.mem_cons_self), emit, if_neg (Nat.lt_irrefl p),
      ih fun y hy => h y (List.mem_cons_of_mem x hy), List.length_cons, Nat.add_assoc, Nat.add_comm 1]

/-- What belongs to the run is passed over. -/
lemma runsFrom_token (h : ∀ x ∈ t, ¬ sep x) : runsFrom sep o p (t ++ l) = runsFrom sep o (p + t.length) l := by
  induction t generalizing p with
  | nil => rfl
  | cons x t ih =>
    rw [List.cons_append, runsFrom, if_neg (h x List.mem_cons_self), ih fun y hy => h y (List.mem_cons_of_mem x hy),
      List.length_cons, Nat.add_assoc, Nat.add_comm 1]

/-- No run. -/
lemma runsFrom_none (ht : ∀ x ∈ t, sep x) : runsFrom sep p p t = [] := by
  have h := @runsFrom_seps _ sep [] t p _ ht
  rw [List.append_nil, runsFrom, emit, if_neg (Nat.lt_irrefl _)] at h
  exact h

variable {a : List α}

/-- The last run. -/
lemma runsFrom_last (ha : ∀ x ∈ a, sep x) (ht : ∀ x ∈ t, ¬ sep x) (h0 : t ≠ []) :
    runsFrom sep p p (a ++ t) = [(p + a.length, p + a.length + t.length)] := by
  have h := @runsFrom_token _ sep [] t (p + a.length) (p + a.length) _ ht
  rw [List.append_nil] at h
  have hpos := List.length_pos_iff.2 h0
  rw [runsFrom_seps ha, h, runsFrom, emit, if_pos (by omega)]

/-- A run, and those behind the next separator. -/
lemma runsFrom_next (ha : ∀ x ∈ a, sep x) (ht : ∀ x ∈ t, ¬ sep x) (h0 : t ≠ []) (hx : sep x) :
    runsFrom sep p p (a ++ (t ++ x :: r)) = (p + a.length, p + a.length + t.length) ::
      runsFrom sep (p + a.length + t.length + 1) (p + a.length + t.length + 1) r := by
  have hpos := List.length_pos_iff.2 h0
  rw [runsFrom_seps ha, runsFrom_token ht, runsFrom, if_pos hx, emit, if_pos (by omega)]

/-- The runs from `p` on, when those between `o` and `p` are the characters `t` of a run. -/
lemma mem_runsFrom (ht : ∀ x ∈ t, ¬ sep x) : (i, j) ∈ runsFrom sep o (o + t.length) l ↔
    ∃ i' j', i = o + i' ∧ j = o + j' ∧ MaxRun sep (t ++ l) i' j' := by
  induction l generalizing t o with
  | nil =>
    rw [runsFrom, mem_emit, List.append_nil]
    constructor
    · rintro (⟨e, hlt⟩ | h)
      · obtain ⟨rfl, rfl⟩ := Prod.mk.inj e
        exact ⟨0, t.length, rfl, rfl, (maxRun_token ht).2 ⟨rfl, rfl, by omega⟩⟩
      · cases h
    · rintro ⟨i', j', rfl, rfl, h⟩
      obtain ⟨rfl, rfl, hpos⟩ := (maxRun_token ht).1 h
      exact .inl ⟨rfl, by omega⟩
  | cons x l ih =>
    rw [runsFrom]
    by_cases hx : sep x
    · have hrest := ih (t := []) (o := o + t.length + 1) nofun
      rw [List.nil_append, List.length_nil, Nat.add_zero] at hrest
      rw [if_pos hx, mem_emit, hrest]
      constructor
      · rintro (⟨e, hlt⟩ | ⟨i', j', rfl, rfl, h⟩)
        · obtain ⟨rfl, rfl⟩ := Prod.mk.inj e
          exact ⟨0, t.length, rfl, rfl, (maxRun_append ht hx).2 (.inl ⟨rfl, rfl, by omega⟩)⟩
        · exact ⟨t.length + 1 + i', t.length + 1 + j', by omega, by omega,
            (maxRun_append ht hx).2 (.inr ⟨i', j', rfl, rfl, h⟩)⟩
      · rintro ⟨i', j', rfl, rfl, h⟩
        obtain ⟨rfl, rfl, hpos⟩ | ⟨i'', j'', rfl, rfl, hl⟩ := (maxRun_append ht hx).1 h
        · exact .inl ⟨rfl, by omega⟩
        · exact .inr ⟨i'', j'', by omega, by omega, hl⟩
    · have ht' : ∀ y ∈ t ++ [x], ¬ sep y := fun y hy => by
        obtain hy | hy := List.mem_append.1 hy
        · exact ht y hy
        · rw [List.mem_singleton.1 hy]
          exact hx
      have hrest := ih ht' (o := o)
      rw [List.append_assoc, List.length_append, List.length_singleton, ← Nat.add_assoc] at hrest
      rw [if_neg hx]
      exact hrest

/-- They are the maximal runs. -/
lemma mem_runs : (i, j) ∈ runs sep l ↔ MaxRun sep l i j := by
  have h := @mem_runsFrom _ sep l [] i j 0 _ nofun
  rw [List.nil_append, List.length_nil, Nat.add_zero] at h
  rw [runs, h]
  constructor
  · rintro ⟨i', j', rfl, rfl, hmax⟩
    rw [Nat.zero_add, Nat.zero_add]
    exact hmax
  · exact fun h => ⟨i, j, (Nat.zero_add i).symm, (Nat.zero_add j).symm, h⟩

/-- The runs of the rest begin behind. -/
lemma le_of_mem_runsFrom (hop : o ≤ p) (h : run ∈ runsFrom sep o p l) : o ≤ run.1 := by
  induction l generalizing o p with
  | nil =>
    obtain ⟨rfl, -⟩ | h := mem_emit.1 h
    · exact Nat.le_refl o
    · cases h
  | cons x l ih =>
    rw [runsFrom] at h
    split at h
    · obtain ⟨rfl, -⟩ | h := mem_emit.1 h
      · exact Nat.le_refl o
      · exact Nat.le_trans (Nat.le_succ_of_le hop) (ih (Nat.le_refl _) h)
    · exact ih (Nat.le_succ_of_le hop) h

/-- One run is over before the next begins. -/
lemma runsFrom_sorted (hop : o ≤ p) : (runsFrom sep o p l).Pairwise fun r r' => r.2 < r'.1 := by
  induction l generalizing o p with
  | nil =>
    rw [runsFrom, emit]
    split
    · exact List.pairwise_singleton _ _
    · exact .nil
  | cons x l ih =>
    rw [runsFrom]
    split
    · rw [emit]
      split
      · exact .cons (fun r hr => le_of_mem_runsFrom (Nat.le_refl _) hr) (ih (Nat.le_refl _))
      · exact ih (Nat.le_refl _)
    · exact ih (Nat.le_succ_of_le hop)

/-- The runs come in their order, apart from one another. -/
lemma runs_sorted : (runs sep l).Pairwise fun r r' => r.2 < r'.1 := runsFrom_sorted (Nat.le_refl 0)

end OldLinux.Lib
