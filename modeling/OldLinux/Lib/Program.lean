import Mathlib.Logic.Function.Basic
import Mathlib.Tactic.Common

/-!
# Programs that can fail

A kernel function on a state `σ` returns a value with the state afterwards, or it does not return: it
calls `panic` or follows a bad pointer. `Prog σ` is the monad of such functions.

`wp m Q s` says that `m`, started in `s`, returns only with a value and a state that satisfy `Q`. The
rules below compute it for each way of building a program, so that a function is verified by walking
along its body and using `wp.mono` with the specification of each function it calls. `returns m Q s`
says besides that `m` does return; its rules have the same form.
-/

namespace OldLinux.Lib

/-- How a kernel function ends: it returns, it calls `panic`, or it follows a bad pointer. -/
inductive Result (α : Type*) where
  | ret (a : α)
  | panic (msg : String)
  | fault

/-- What a function returns, if it does. -/
def Result.toOption {α : Type*} : Result α → Option α
  | .ret a => some a
  | _ => none

/-- A result that is there was returned. -/
lemma Result.toOption_eq_some {α : Type*} {r : Result α} {a : α} :
    r.toOption = some a ↔ r = .ret a := by
  cases r with
  | ret b => exact ⟨fun h => by cases h; rfl, fun h => by cases h; rfl⟩
  | panic msg => exact ⟨nofun, nofun⟩
  | fault => exact ⟨nofun, nofun⟩

/-- A function of what is returned. -/
def Result.map {α β : Type*} (f : α → β) : Result α → Result β
  | .ret a => .ret (f a)
  | .panic msg => .panic msg
  | .fault => .fault

/-- A mapped result that was returned. -/
lemma Result.map_eq_ret {α β : Type*} {f : α → β} {r : Result α} {b : β} :
    r.map f = .ret b ↔ ∃ a, r = .ret a ∧ f a = b := by
  cases r with
  | ret a => exact ⟨fun h => ⟨a, rfl, by cases h; rfl⟩, fun ⟨_, h, e⟩ => by cases h; rw [map, e]⟩
  | panic msg => exact ⟨nofun, nofun⟩
  | fault => exact ⟨nofun, nofun⟩

/-- A function on the state `σ` that may fail to return. -/
def Prog (σ α : Type) : Type := σ → Result (α × σ)

namespace Prog
variable {σ κ α β : Type}

/-- The program `m` followed by `f` on its value. -/
def andThen (m : Prog σ α) (f : α → Prog σ β) : Prog σ β := fun s =>
  match m s with
  | .ret (a, s') => f a s'
  | .panic msg => .panic msg
  | .fault => .fault

instance : Monad (Prog σ) where
  pure a := fun s => .ret (a, s)
  bind := andThen

/-- The current state. -/
def get : Prog σ σ := fun s => .ret (s, s)

/-- Changes the state. -/
def modify (f : σ → σ) : Prog σ Unit := fun s => .ret ((), f s)

/-- `panic(msg)`. -/
def panic (msg : String) : Prog σ α := fun _ => .panic msg

/-- A bad pointer is followed. -/
def fault : Prog σ α := fun _ => .fault

/-- A program on a part `κ` of the state. -/
def zoom (part : σ → κ) (put : σ → κ → σ) (m : Prog κ α) : Prog σ α := fun s =>
  match m (part s) with
  | .ret (a, k) => .ret (a, put s k)
  | .panic msg => .panic msg
  | .fault => .fault

/-- Whenever `m` returns from `s`, its value and the state afterwards satisfy `Q`. -/
def wp (m : Prog σ α) (Q : α → σ → Prop) (s : σ) : Prop :=
  ∀ a s', m s = .ret (a, s') → Q a s'

variable {m : Prog σ α} {f : α → Prog σ β} {s s' : σ}

/-- A weaker postcondition. -/
lemma wp.mono {Q Q' : α → σ → Prop} (h : wp m Q s) (hQ : ∀ a s', Q a s' → Q' a s') : wp m Q' s :=
  fun a s' e => hQ a s' (h a s' e)

/-- A value. -/
@[simp] lemma wp_pure {Q : α → σ → Prop} {a : α} : wp (pure a) Q s ↔ Q a s := by
  constructor
  · intro h
    exact h a s rfl
  · intro h a' s' e
    cases e
    exact h

/-- One program after the other. -/
@[simp] lemma wp_bind {Q : β → σ → Prop} :
    wp (m >>= f) Q s ↔ wp m (fun a s' => wp (f a) Q s') s := by
  have e : (m >>= f) s = andThen m f s := rfl
  constructor
  · intro h a s' hm b s'' hf
    apply h b s''
    rw [e, andThen, hm]
    exact hf
  · intro h b s'' hb
    rw [e, andThen] at hb
    cases hm : m s with
    | ret r =>
      rw [hm] at hb
      exact h r.1 r.2 hm b s'' hb
    | panic msg =>
      rw [hm] at hb
      cases hb
    | fault =>
      rw [hm] at hb
      cases hb

/-- A mapped value. -/
@[simp] lemma wp_map {g : α → β} {Q : β → σ → Prop} :
    wp (g <$> m) Q s ↔ wp m (fun a s' => Q (g a) s') s := by
  show wp (m >>= fun a => pure (g a)) Q s ↔ _
  rw [wp_bind]
  simp only [wp_pure]

/-- The state is read. -/
@[simp] lemma wp_get {Q : σ → σ → Prop} : wp get Q s ↔ Q s s := by
  constructor
  · intro h
    exact h s s rfl
  · intro h a s' e
    cases e
    exact h

/-- The state is changed. -/
@[simp] lemma wp_modify {g : σ → σ} {Q : Unit → σ → Prop} : wp (modify g) Q s ↔ Q () (g s) := by
  constructor
  · intro h
    exact h () (g s) rfl
  · intro h a s' e
    cases e
    exact h

/-- Nothing comes behind a panic. -/
@[simp] lemma wp_panic {msg : String} {Q : α → σ → Prop} : wp (panic msg) Q s :=
  fun _ _ e => nomatch e

/-- Nothing comes behind a fault. -/
@[simp] lemma wp_fault {Q : α → σ → Prop} : wp fault Q s :=
  fun _ _ e => nomatch e

/-- A program on a part of the state changes that part only. -/
lemma wp_zoom {part : σ → κ} {put : σ → κ → σ} {m : Prog κ α} {Q : α → σ → Prop} :
    wp (zoom part put m) Q s ↔ wp m (fun a k => Q a (put s k)) (part s) := by
  constructor
  · intro h a k hm
    apply h
    rw [zoom, hm]
  · intro h a s' e
    rw [zoom] at e
    cases hm : m (part s) with
    | ret r =>
      rw [hm] at e
      cases e
      exact h r.1 r.2 hm
    | panic msg =>
      rw [hm] at e
      cases e
    | fault =>
      rw [hm] at e
      cases e

/-- A loop over a list: the invariant, indexed by the elements still to come, holds at its end. -/
lemma wp_forM {l : List α} {body : α → Prog σ PUnit} {I : List α → σ → Prop}
    (hb : ∀ a l s, I (a :: l) s → wp (body a) (fun _ => I l) s) (h0 : I l s) :
    wp (forM l body) (fun _ => I []) s := by
  induction l generalizing s with
  | nil =>
    rw [List.forM_nil, wp_pure]
    exact h0
  | cons a l ih =>
    rw [List.forM_cons, wp_bind]
    refine (hb a l s h0).mono ?_
    intro _ s' h
    exact ih h

/-- A loop whose turns respect a preorder `R`, each of which brings about something that `R` keeps. -/
lemma wp_forM_all {l : List α} {body : α → Prog σ PUnit} {R : σ → σ → Prop} {G : α → σ → Prop}
    (hrefl : ∀ s, R s s) (htrans : ∀ s₁ s₂ s₃, R s₁ s₂ → R s₂ s₃ → R s₁ s₃)
    (hG : ∀ a s s', R s s' → G a s → G a s')
    (hb : ∀ a s, wp (body a) (fun _ s' => R s s' ∧ G a s') s) :
    wp (forM l body) (fun _ s' => R s s' ∧ ∀ a ∈ l, G a s') s := by
  induction l generalizing s with
  | nil =>
    rw [List.forM_nil, wp_pure]
    exact ⟨hrefl s, nofun⟩
  | cons a l ih =>
    rw [List.forM_cons, wp_bind]
    refine (hb a s).mono ?_
    intro _ s₁ h₁
    refine ih.mono ?_
    intro _ s₂ h₂
    refine ⟨htrans _ _ _ h₁.1 h₂.1, ?_⟩
    intro b hbl
    cases List.mem_cons.1 hbl with
    | inl e =>
      subst e
      exact hG b _ _ h₂.1 h₁.2
    | inr hbl => exact h₂.2 b hbl

/-! ## Programs that return -/

/-- From `s`, `m` returns with a value and a state that satisfy `Q`. -/
def returns (m : Prog σ α) (Q : α → σ → Prop) (s : σ) : Prop :=
  ∃ a s', m s = .ret (a, s') ∧ Q a s'

/-- A weaker postcondition. -/
lemma returns.mono {Q Q' : α → σ → Prop} (h : returns m Q s) (hQ : ∀ a s', Q a s' → Q' a s') :
    returns m Q' s := by
  obtain ⟨a, s', e, hq⟩ := h
  exact ⟨a, s', e, hQ a s' hq⟩

/-- What a program that returns comes to. -/
lemma returns.elim {Q : α → σ → Prop} {a : α} (h : returns m Q s) (e : m s = .ret (a, s')) : Q a s' := by
  obtain ⟨a', s'', e', hq⟩ := h
  rw [e] at e'
  cases e'
  exact hq

/-- What returns, returns with its postcondition. -/
lemma returns.wp {Q : α → σ → Prop} (h : returns m Q s) : wp m Q s :=
  fun _ _ e => h.elim e

/-- A program that comes to nothing does not return. -/
lemma wp.not_returns {Q : α → σ → Prop} (h : wp m (fun _ _ => False) s) : ¬ returns m Q s := by
  rintro ⟨a, s', e, -⟩
  exact h a s' e

/-- A value is returned. -/
lemma returns_pure {Q : α → σ → Prop} {a : α} (h : Q a s) : returns (pure a) Q s :=
  ⟨a, s, rfl, h⟩

/-- So is the state. -/
lemma returns_get {Q : σ → σ → Prop} (h : Q s s) : returns get Q s :=
  ⟨s, s, rfl, h⟩

/-- A change returns. -/
lemma returns_modify {g : σ → σ} {Q : Unit → σ → Prop} (h : Q () (g s)) : returns (modify g) Q s :=
  ⟨(), g s, rfl, h⟩

/-- One program after the other. -/
lemma returns_bind {Q : β → σ → Prop} (h : returns m (fun a s' => returns (f a) Q s') s) :
    returns (m >>= f) Q s := by
  obtain ⟨a, s', hm, b, s'', hf, hq⟩ := h
  refine ⟨b, s'', ?_, hq⟩
  show andThen m f s = _
  rw [andThen, hm]
  exact hf

/-- A program on a part of the state. -/
lemma returns_zoom {part : σ → κ} {put : σ → κ → σ} {m : Prog κ α} {Q : α → σ → Prop}
    (h : returns m (fun a k => Q a (put s k)) (part s)) : returns (zoom part put m) Q s := by
  obtain ⟨a, k, e, hq⟩ := h
  refine ⟨a, put s k, ?_, hq⟩
  rw [zoom, e]

/-- A loop whose turns return and keep an invariant. -/
lemma returns_forM {l : List α} {body : α → Prog σ PUnit} {I : σ → Prop}
    (hb : ∀ a s, I s → returns (body a) (fun _ => I) s) (h0 : I s) :
    returns (forM l body) (fun _ => I) s := by
  induction l generalizing s with
  | nil => exact returns_pure h0
  | cons a l ih =>
    rw [List.forM_cons]
    apply returns_bind
    refine (hb a s h0).mono ?_
    intro _ s' h
    exact ih h

/-! ## Programs that do not panic -/

/-- `m` never calls `panic`. -/
def quiet (m : Prog σ α) : Prop := ∀ s msg, m s ≠ .panic msg

/-- A value does not panic. -/
lemma quiet_pure {a : α} : quiet (pure a : Prog σ α) := nofun

/-- Reading the state does not panic. -/
lemma quiet_get : quiet (get : Prog σ σ) := nofun

/-- Changing the state does not panic. -/
lemma quiet_modify {g : σ → σ} : quiet (modify g) := nofun

/-- A fault is no panic. -/
lemma quiet_fault : quiet (fault : Prog σ α) := nofun

/-- One program after the other. -/
lemma quiet_bind (hm : quiet m) (hf : ∀ a, quiet (f a)) : quiet (m >>= f) := by
  intro s msg
  show andThen m f s ≠ _
  rw [andThen]
  cases e : m s with
  | ret r => exact hf r.1 r.2 msg
  | panic msg' => exact absurd e (hm s msg')
  | fault => nofun

/-- A program for each element. -/
lemma quiet_forM {l : List α} {body : α → Prog σ PUnit} (h : ∀ a, quiet (body a)) :
    quiet (forM l body) := by
  induction l with
  | nil => exact quiet_pure
  | cons a l ih =>
    rw [List.forM_cons]
    exact quiet_bind (h a) fun _ => ih

/-- A program that does not panic returns, unless it follows a bad pointer. -/
lemma quiet.returns (h : quiet m) (hs : m s ≠ .fault) : ∃ a s', m s = .ret (a, s') := by
  cases e : m s with
  | ret r => exact ⟨r.1, r.2, rfl⟩
  | panic msg => exact absurd e (h s msg)
  | fault => exact absurd e hs

/-! ## Running a program -/

instance : LawfulMonad (Prog σ) := by
  refine .mk' _ (fun m => ?_) (fun _ _ => rfl) (fun m f g => ?_)
  · funext s
    show andThen m (fun a => pure a) s = m s
    rw [andThen]
    cases m s with
    | ret r => rfl
    | panic msg => rfl
    | fault => rfl
  · funext s
    show andThen (andThen m f) g s = andThen m (fun a => andThen (f a) g) s
    rw [andThen, andThen, andThen]
    cases m s with
    | ret r => rfl
    | panic msg => rfl
    | fault => rfl

/-- A sequence of programs returns if each of them does. -/
lemma bind_ret_iff {b : β} {t : σ} :
    (m >>= f) s = .ret (b, t) ↔ ∃ a s', m s = .ret (a, s') ∧ f a s' = .ret (b, t) := by
  show andThen m f s = _ ↔ _
  rw [andThen]
  cases hm : m s with
  | ret r =>
    constructor
    · intro h
      exact ⟨r.1, r.2, rfl, h⟩
    · rintro ⟨a, s', e, h⟩
      cases e
      exact h
  | panic msg => exact ⟨nofun, nofun⟩
  | fault => exact ⟨nofun, nofun⟩

/-- The loop over the parts of each element of a list. -/
lemma forM_flatMap {l : List α} {parts : α → List β} {body : β → Prog σ PUnit} :
    forM (l.flatMap parts) body = forM l fun a => forM (parts a) body := by
  induction l with
  | nil => rfl
  | cons a l ih => rw [List.flatMap_cons, List.forM_append, List.forM_cons, ih]

/-- A program that returns, followed by another. -/
lemma bind_of_ret {a : α} {t : σ} (h : m s = .ret (a, t)) : (m >>= f) s = f a t := by
  show andThen m f s = _
  rw [andThen, h]

/-- A panic is the end. -/
lemma bind_of_panic {msg : String} (h : m s = .panic msg) : (m >>= f) s = .panic msg := by
  show andThen m f s = _
  rw [andThen, h]

/-- A fault is the end. -/
lemma bind_of_fault (h : m s = .fault) : (m >>= f) s = .fault := by
  show andThen m f s = _
  rw [andThen, h]

/-- A loop whose turns do nothing. -/
lemma forM_skip {l : List α} {body : α → Prog σ PUnit} (hs : ∀ b ∈ l, body b s = .ret ((), s)) :
    forM l body s = .ret ((), s) := by
  induction l with
  | nil => rfl
  | cons b l ih =>
    rw [List.forM_cons, bind_of_ret (hs b List.mem_cons_self)]
    exact ih fun c hc => hs c (List.mem_cons_of_mem _ hc)

/-- A loop of which one turn changes the state. -/
lemma forM_one {l : List α} {body : α → Prog σ PUnit} {a : α} (hn : l.Nodup) (ha : a ∈ l)
    (hs : ∀ b ∈ l, b ≠ a → body b s = .ret ((), s)) (hb : body a s = .ret ((), s'))
    (hs' : ∀ b ∈ l, b ≠ a → body b s' = .ret ((), s')) : forM l body s = .ret ((), s') := by
  induction l with
  | nil => cases ha
  | cons b l ih =>
    obtain ⟨hbl, hn⟩ := List.nodup_cons.1 hn
    rw [List.forM_cons]
    by_cases h : b = a
    · subst h
      rw [bind_of_ret hb]
      apply forM_skip
      intro c hc
      refine hs' c (List.mem_cons_of_mem _ hc) ?_
      rintro rfl
      exact hbl hc
    · rw [bind_of_ret (hs b List.mem_cons_self h)]
      apply ih hn (List.mem_of_ne_of_mem (Ne.symm h) ha)
      · exact fun c hc => hs c (List.mem_cons_of_mem _ hc)
      · exact fun c hc => hs' c (List.mem_cons_of_mem _ hc)

/-! ## Two programs -/

/-- If `m` returns from `s`, then `m'` returns from `s'`, with values in `R` and states in `L`. -/
def sim {β : Type} (R : α → β → Prop) (L : σ → σ → Prop) (m : Prog σ α) (m' : Prog σ β) (s s' : σ) : Prop :=
  wp m (fun a t => returns m' (fun b t' => R a b ∧ L t t') s') s

section
variable {α' β' : Type} {R : α → α' → Prop} {S : β → β' → Prop} {L : σ → σ → Prop} {m' : Prog σ α'}
  {f' : α' → Prog σ β'}

/-- Two related values. -/
lemma sim_pure {a : α} {a' : α'} (hr : R a a') (hl : L s s') : sim R L (pure a) (pure a') s s' :=
  wp_pure.2 (returns_pure ⟨hr, hl⟩)

/-- Two changes that keep the relation. -/
lemma sim_modify {g g' : σ → σ} {T : Unit → Unit → Prop} (ht : T () ()) (hl : L (g s) (g' s')) :
    sim T L (modify g) (modify g') s s' :=
  wp_modify.2 (returns_modify ⟨ht, hl⟩)

/-- Sequences whose halves correspond. -/
lemma sim_bind (hm : sim R L m m' s s') (hf : ∀ a a' t t', R a a' → L t t' → sim S L (f a) (f' a') t t') :
    sim S L (m >>= f) (m' >>= f') s s' := by
  rw [sim, wp_bind]
  intro a t e b u e'
  obtain ⟨a', t', hm', hr, hl⟩ := hm a t e
  exact returns_bind ⟨a', t', hm', hf a a' t t' hr hl b u e'⟩

/-- Both look at their states first. -/
lemma sim_get {g : σ → Prog σ β} {g' : σ → Prog σ β'} (h : sim S L (g s) (g' s') s s') :
    sim S L (get >>= g) (get >>= g') s s' := by
  rw [sim, wp_bind, wp_get]
  exact h.mono fun _ _ hr => returns_bind (returns_get hr)

end

/-- The state after `m`, or the one before if `m` does not return. -/
def after (m : Prog σ α) (s : σ) : σ :=
  match m s with
  | .ret (_, s') => s'
  | _ => s

/-- From `s`, `m` returns. -/
def halts (m : Prog σ α) (s : σ) : Bool :=
  match m s with
  | .ret _ => true
  | _ => false

/-- What halts returns. -/
lemma ret_after (h : halts m s = true) : ∃ a, m s = .ret (a, after m s) := by
  rw [halts] at h
  cases hm : m s with
  | ret r =>
    refine ⟨r.1, ?_⟩
    rw [after, hm]
  | panic msg =>
    rw [hm] at h
    cases h
  | fault =>
    rw [hm] at h
    cases h

end Prog

end OldLinux.Lib
