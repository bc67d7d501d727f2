import OldLinux.Lib.Program

/-!
# Programs with loops

A loop of a kernel function need not end. `Turns σ α` are the programs whose loops are run for a given
number of turns at most: they end with a value or, when a loop is not over by then, with none. A
function that never returns ends with none for every number of turns.

`Turns.wp` says what is the case when a program ends with a value, `Turns.ends` that it does, and
`Turns.returns` both. `loop` runs the turns of a loop on a variable; its rules take an invariant and, for `ends`,
a bound for the turns still to come, and that for `returns` takes one turn. `Turns.agree` compares two programs
from one state.
-/

namespace OldLinux.Lib

/-- Programs on the state `σ` that may run out of turns. -/
abbrev Turns (σ α : Type) : Type := OptionT (Prog σ) α

namespace Turns
variable {σ κ α β : Type}

/-- A program without loops. -/
def lift (m : Prog σ α) : Turns σ α := OptionT.lift m

/-- The current state. -/
def get : Turns σ σ := lift Prog.get

/-- Changes the state. -/
def modify (f : σ → σ) : Turns σ Unit := lift (Prog.modify f)

/-- `panic(msg)`. -/
def panic (msg : String) : Turns σ α := lift (Prog.panic msg)

/-- A bad pointer is followed. -/
def fault : Turns σ α := lift Prog.fault

/-- Runs `m` if `p` holds. -/
def when (p : Prop) [Decidable p] (m : Turns σ Unit) : Turns σ Unit := if p then m else pure ()

/-- Runs the turns of a loop on a variable, `n` at most. A turn ends the loop with a value or gives the
variable for the next turn. -/
def loop (body : β → Turns σ (α ⊕ β)) : Nat → β → Turns σ α
  | 0, _ => failure
  | n + 1, b => do
    match ← body b with
    | .inl a => pure a
    | .inr b => loop body n b

/-- Whenever `m` ends from `s` with a value, the value and the state afterwards satisfy `Q`. -/
def wp (m : Turns σ α) (Q : α → σ → Prop) (s : σ) : Prop :=
  Prog.wp m.run (fun r s' => ∀ a, r = some a → Q a s') s

variable {m : Turns σ α} {f : α → Turns σ β} {s : σ}

/-- A weaker postcondition. -/
lemma wp.mono {Q Q' : α → σ → Prop} (h : wp m Q s) (hQ : ∀ a s', Q a s' → Q' a s') : wp m Q' s :=
  Prog.wp.mono h fun _ s' h a e => hQ a s' (h a e)

/-- A value. -/
lemma wp_pure {Q : α → σ → Prop} {a : α} (h : Q a s) : wp (pure a : Turns σ α) Q s := by
  refine Prog.wp_pure.2 fun b e => ?_
  cases e
  exact h

/-- One program after the other. -/
lemma wp_bind {Q : β → σ → Prop} (h : wp m (fun a s' => wp (f a) Q s') s) : wp (m >>= f) Q s := by
  refine Prog.wp_bind.2 (Prog.wp.mono h fun r s' h => ?_)
  cases r with
  | none => exact Prog.wp_pure.2 nofun
  | some a => exact h a rfl

/-- A program without loops. -/
lemma wp_lift {m : Prog σ α} {Q : α → σ → Prop} (h : Prog.wp m Q s) : wp (lift m) Q s := by
  refine Prog.wp_bind.2 (h.mono fun a s' h => Prog.wp_pure.2 fun b e => ?_)
  cases e
  exact h

/-- The state is read. -/
lemma wp_get {Q : σ → σ → Prop} (h : Q s s) : wp get Q s := wp_lift (Prog.wp_get.2 h)

/-- The state is changed. -/
lemma wp_modify {g : σ → σ} {Q : Unit → σ → Prop} (h : Q () (g s)) : wp (modify g) Q s :=
  wp_lift (Prog.wp_modify.2 h)

/-- Nothing comes behind a panic. -/
lemma wp_panic {msg : String} {Q : α → σ → Prop} : wp (panic msg) Q s := wp_lift Prog.wp_panic

/-- Nothing comes behind a fault. -/
lemma wp_fault {Q : α → σ → Prop} : wp fault Q s := wp_lift Prog.wp_fault

/-- Nothing comes behind a loop that is not over. -/
lemma wp_failure {Q : α → σ → Prop} : wp (failure : Turns σ α) Q s :=
  Prog.wp_pure.2 nofun

/-- A program under a condition. -/
lemma wp_when {p : Prop} [Decidable p] {m : Turns σ Unit} {Q : Unit → σ → Prop}
    (h : p → wp m Q s) (h' : ¬ p → Q () s) : wp (when p m) Q s := by
  rw [when]
  split
  · exact h ‹p›
  · exact wp_pure (h' ‹¬ p›)

/-- The rule for loops: a turn ends the loop with `Q` or keeps the invariant. -/
lemma wp_loop {body : β → Turns σ (α ⊕ β)} {I : β → σ → Prop} {Q : α → σ → Prop}
    (hb : ∀ b s, I b s → wp (body b) (fun r s' => Sum.elim (Q · s') (I · s') r) s) :
    ∀ {n b s}, I b s → wp (loop body n b) Q s
  | 0, _, _, _ => wp_failure
  | _ + 1, b, s, h => by
    refine wp_bind ((hb b s h).mono fun r s' hr => ?_)
    cases r with
    | inl a => exact wp_pure hr
    | inr b' => exact wp_loop hb hr

/-- A loop over a list whose turns keep an invariant. -/
lemma wp_forM {l : List β} {body : β → Turns σ PUnit} {I : σ → Prop}
    (hb : ∀ b s, I s → wp (body b) (fun _ => I) s) (h0 : I s) : wp (forM l body) (fun _ => I) s := by
  induction l generalizing s with
  | nil => exact wp_pure h0
  | cons b l ih =>
    rw [List.forM_cons]
    exact wp_bind ((hb b s h0).mono fun _ s' h => ih h)

/-! ## Two programs that do the same -/

/-- From `s`, `m'` does what `m` does. -/
def agree (m m' : Turns σ α) (s : σ) : Prop := m'.run s = m.run s

/-- A program agrees with itself. -/
lemma agree_refl : agree m m s := rfl

/-- Programs that agree have the same postconditions. -/
lemma agree.wp {m' : Turns σ α} {Q : α → σ → Prop} (h : agree m m' s) (hw : wp m Q s) : Turns.wp m' Q s :=
  fun r s' e => hw r s' (h.symm.trans e)

/-- Programs without loops agree where they do the same. -/
lemma agree_lift {p p' : Prog σ α} (h : p' s = p s) : agree (lift p) (lift p') s := by
  show (p' >>= fun a => pure (some a)) s = (p >>= fun a => pure (some a)) s
  show Prog.andThen p' _ s = Prog.andThen p _ s
  rw [Prog.andThen, Prog.andThen, h]

/-- Programs in sequence do the same if the second ones do from wherever the first ones may lead. -/
lemma agree_bind {m' : Turns σ α} {f' : α → Turns σ β} {P : α → σ → Prop} (h : agree m m' s) (hw : wp m P s)
    (hf : ∀ a s', P a s' → agree (f a) (f' a) s') : agree (m >>= f) (m' >>= f') s := by
  show Prog.andThen m'.run _ s = Prog.andThen m.run _ s
  rw [Prog.andThen, Prog.andThen, h]
  cases hm : m.run s with
  | ret r =>
    obtain ⟨o, s'⟩ := r
    cases o with
    | none => rfl
    | some a => exact hf a s' (hw (some a) s' hm a rfl)
  | panic msg => rfl
  | fault => rfl

/-- Loops whose turns do the same as long as an invariant holds. -/
lemma agree_loop {body body' : β → Turns σ (α ⊕ β)} {I : β → σ → Prop}
    (hb : ∀ b s, I b s → agree (body b) (body' b) s)
    (hw : ∀ b s, I b s → wp (body b) (fun r s' => Sum.elim (fun _ => True) (I · s') r) s) :
    ∀ {n b s}, I b s → agree (loop body n b) (loop body' n b) s
  | 0, _, _, _ => agree_refl
  | n + 1, b, s, h => agree_bind (hb b s h) (hw b s h) fun r s' hr => by
    cases r with
    | inl a => exact agree_refl
    | inr b' => exact agree_loop hb hw hr

/-! ## Programs that end -/

/-- From `s`, `m` ends with a value. -/
def ends (m : Turns σ α) (s : σ) : Prop := ∃ a s', m.run s = .ret (some a, s')

/-- A value is the end. -/
lemma ends_pure {a : α} : ends (pure a : Turns σ α) s := ⟨a, s, rfl⟩

/-- A program that returns ends. -/
lemma ends_lift {m : Prog σ α} {Q : α → σ → Prop} (h : Prog.returns m Q s) : ends (lift m) s := by
  obtain ⟨a, s', e, -⟩ := h
  exact ⟨a, s', Prog.bind_of_ret e⟩

/-- A program that ends, followed by one that ends from wherever the first may lead. -/
lemma ends_bind {P : α → σ → Prop} (hm : ends m s) (hw : wp m P s)
    (hf : ∀ a s', P a s' → ends (f a) s') : ends (m >>= f) s := by
  obtain ⟨a, s', e⟩ := hm
  obtain ⟨b, s'', e'⟩ := hf a s' (hw (some a) s' e a rfl)
  exact ⟨b, s'', (Prog.bind_of_ret e).trans e'⟩

/-- One program after the other, whatever comes of the first. -/
lemma ends_then (hm : ends m s) (hf : ∀ a s', ends (f a) s') : ends (m >>= f) s :=
  ends_bind (P := fun _ _ => True) hm (fun _ _ _ _ _ => trivial) fun a s' _ => hf a s'

/-- The state is read first. -/
lemma ends_get {f : σ → Turns σ β} (h : ends (f s) s) : ends (get >>= f) s :=
  ends_bind (P := fun a s' => a = s ∧ s' = s) ⟨s, s, rfl⟩ (wp_get ⟨rfl, rfl⟩) fun a s' e => by
    rw [e.1, e.2]
    exact h

/-- The state is changed first. -/
lemma ends_modify {g : σ → σ} {f : Unit → Turns σ β} (h : ends (f ()) (g s)) :
    ends (modify g >>= f) s :=
  ends_bind (P := fun _ s' => s' = g s) ⟨(), g s, rfl⟩ (wp_modify rfl) fun _ s' e => by
    rw [e]
    exact h

/-- A program under a condition. -/
lemma ends_when {p : Prop} [Decidable p] {m : Turns σ Unit} (h : p → ends m s) : ends (when p m) s := by
  rw [when]
  split
  · exact h ‹p›
  · exact ends_pure

/-- The rule for loops: a turn ends, and it ends the loop or leaves fewer turns to come. -/
lemma ends_loop {body : β → Turns σ (α ⊕ β)} {I : Nat → β → σ → Prop}
    (he : ∀ k b s, I k b s → ends (body b) s)
    (hw : ∀ k b s, I k b s →
      wp (body b) (fun r s' => Sum.elim (fun _ => True) (fun b' => ∃ k' < k, I k' b' s') r) s) :
    ∀ {n k b s}, I k b s → k < n → ends (loop body n b) s
  | 0, _, _, _, _, h => absurd h (Nat.not_lt_zero _)
  | n + 1, k, b, s, hI, hk => by
    refine ends_bind (he k b s hI) (hw k b s hI) fun r s' hr => ?_
    cases r with
    | inl a => exact ends_pure
    | inr b' =>
      obtain ⟨k', hlt, hI'⟩ := hr
      exact ends_loop he hw hI' (by omega)

/-- A program for each element. -/
lemma ends_forM {l : List β} {body : β → Turns σ PUnit} (hb : ∀ b s, ends (body b) s) :
    ends (forM l body) s := by
  induction l generalizing s with
  | nil => exact ends_pure
  | cons b l ih =>
    rw [List.forM_cons]
    exact ends_then (hb b s) fun _ _ => ih

/-! ## Programs that end with what they should -/

/-- From `s`, `m` ends with a value, and the value and the state afterwards satisfy `Q`. -/
def returns (m : Turns σ α) (Q : α → σ → Prop) (s : σ) : Prop :=
  ∃ a s', m.run s = .ret (some a, s') ∧ Q a s'

/-- A weaker postcondition. -/
lemma returns.mono {Q Q' : α → σ → Prop} (h : returns m Q s) (hQ : ∀ a s', Q a s' → Q' a s') :
    returns m Q' s := by
  obtain ⟨a, s', e, hq⟩ := h
  exact ⟨a, s', e, hQ a s' hq⟩

/-- A program comes to one end only. -/
lemma returns.unique {Q Q' : α → σ → Prop} (h : returns m Q s) (h' : returns m Q' s) :
    returns m (fun a s' => Q a s' ∧ Q' a s') s := by
  obtain ⟨a, s₁, e, hq⟩ := h
  obtain ⟨a', s₂, e', hq'⟩ := h'
  rw [e] at e'
  cases e'
  exact ⟨a, s₁, e, hq, hq'⟩

/-- A value is returned. -/
lemma returns_pure {Q : α → σ → Prop} {a : α} (h : Q a s) : returns (pure a : Turns σ α) Q s :=
  ⟨a, s, rfl, h⟩

/-- One program after the other. -/
lemma returns_bind {Q : β → σ → Prop} (h : returns m (fun a s' => returns (f a) Q s') s) :
    returns (m >>= f) Q s := by
  obtain ⟨a, s', e, b, s'', e', hq⟩ := h
  exact ⟨b, s'', (Prog.bind_of_ret e).trans e', hq⟩

/-- The state is returned. -/
lemma returns_get {Q : σ → σ → Prop} (h : Q s s) : returns get Q s := ⟨s, s, rfl, h⟩

/-- A change returns. -/
lemma returns_modify {g : σ → σ} {Q : Unit → σ → Prop} (h : Q () (g s)) : returns (modify g) Q s :=
  ⟨(), g s, rfl, h⟩

/-- The first turn of a loop, and the loop from there on. -/
lemma returns_loop {body : β → Turns σ (α ⊕ β)} {Q : α → σ → Prop} {k n : Nat} {b : β} (hk : k < n)
    (h : returns (body b) (fun r s' =>
      Sum.elim (Q · s') (fun b' => returns (loop body (n - 1) b') Q s') r) s) :
    returns (loop body n b) Q s := by
  obtain ⟨n, rfl⟩ := Nat.exists_eq_succ_of_ne_zero (Nat.ne_zero_of_lt hk)
  refine returns_bind (h.mono fun r s' hr => ?_)
  cases r with
  | inl a => exact returns_pure hr
  | inr b' => exact hr

end Turns

end OldLinux.Lib
