import OldLinux.Lib.Links
import OldLinux.Lib.Numerals
import OldLinux.Lib.System
import Mathlib.Logic.Function.Basic

/-!
# Wait queues

Model of `sleep_on` and `wake_up` (`kernel/sched.c`). A wait queue is one pointer `*p`; the rest of it
lives in the `tmp` variables on the stacks of the tasks that are inside `sleep_on(p)`. `sleep_on` is
split at its call of `schedule()`: `sleepOn` runs up to the call, `resume` is what is left when the
task is switched back in. The null test of `p` is dropped (every caller passes the address of a
field), and a call by `init_task` panics, so it has no step.

The tasks asleep on the queue form chains along the saved pointers, each starting at `*p` or at a task
that has been made runnable; `Inv` says so and is preserved by every step. The headline is
`sleep_on_loses_nobody`.
-/

namespace OldLinux.Sched
open Lib Function

/-- The values of `task_struct.state`. -/
inductive TaskState where
  | running | interruptible | uninterruptible | zombie | stopped | dead
  deriving DecidableEq, Repr

/-- One queue pointer with the states of all tasks and, for the tasks inside `sleep_on(p)`, the
    pointer they saved in `tmp`. -/
structure WaitQueue (τ : Type*) where
  head : Option τ
  state : τ → TaskState
  tmp : τ → Option (Option τ)

namespace WaitQueue
variable {τ : Type*} [DecidableEq τ]

/-- `sleep_on(p)` called by `t`, up to `schedule()`. -/
def sleepOn (q : WaitQueue τ) (t : τ) : WaitQueue τ where
  head := some t
  state := update q.state t .uninterruptible
  tmp := update q.tmp t (some q.head)

/-- The rest of `sleep_on(p)` once `t` runs again: `if (tmp) tmp->state = TASK_RUNNING`. -/
def resume (q : WaitQueue τ) (t : τ) : WaitQueue τ where
  head := q.head
  state :=
    match q.tmp t with
    | some (some u) => update q.state u .running
    | _ => q.state
  tmp := update q.tmp t none

/-- `wake_up(p)`. -/
def wakeUp (q : WaitQueue τ) : WaitQueue τ :=
  match q.head with
  | some t => { q with head := none, state := update q.state t .running }
  | none => q

/-- The task is inside `sleep_on(p)`. -/
def Inside (q : WaitQueue τ) (t : τ) : Prop := ∃ u, q.tmp t = some u

/-- The task is inside `sleep_on(p)` and has not been made runnable. -/
def Asleep (q : WaitQueue τ) (t : τ) : Prop := q.Inside t ∧ q.state t = .uninterruptible

/-- The saved pointer of `a` names `b`. -/
def Link (q : WaitQueue τ) (a b : τ) : Prop := q.tmp a = some (some b)

/-- The tasks a chain may start at: `*p`, or a runnable task still inside `sleep_on(p)`. -/
def Front (q : WaitQueue τ) (t : τ) : Prop :=
  q.head = some t ∨ (q.Inside t ∧ q.state t = .running)

/-- Who goes to sleep keeps the head in its pointer. -/
@[simp] lemma tmp_sleepOn (q : WaitQueue τ) (t : τ) :
    (q.sleepOn t).tmp = update q.tmp t (some q.head) := rfl

/-- Who goes to sleep sleeps. -/
@[simp] lemma state_sleepOn (q : WaitQueue τ) (t : τ) :
    (q.sleepOn t).state = update q.state t .uninterruptible := rfl

/-- Who goes to sleep is the head. -/
@[simp] lemma head_sleepOn (q : WaitQueue τ) (t : τ) : (q.sleepOn t).head = some t := rfl

/-- Who goes on drops its pointer. -/
@[simp] lemma tmp_resume (q : WaitQueue τ) (t : τ) :
    (q.resume t).tmp = update q.tmp t none := rfl

/-- Who goes on leaves the head. -/
@[simp] lemma head_resume (q : WaitQueue τ) (t : τ) : (q.resume t).head = q.head := rfl

/-- Waking up leaves the pointers. -/
@[simp] lemma tmp_wakeUp (q : WaitQueue τ) : q.wakeUp.tmp = q.tmp := by
  unfold wakeUp; split <;> rfl

/-- Waking up empties the queue. -/
@[simp] lemma head_wakeUp (q : WaitQueue τ) : q.wakeUp.head = none := by
  unfold wakeUp; split
  · rfl
  · assumption

/-- The head runs. -/
lemma state_wakeUp {q : WaitQueue τ} {t} (h : q.head = some t) :
    q.wakeUp.state = update q.state t .running := by
  simp [wakeUp, h]

/-- Nobody is woken up in an empty queue. -/
lemma wakeUp_of_none {q : WaitQueue τ} (h : q.head = none) : q.wakeUp = q := by
  simp [wakeUp, h]

end WaitQueue

/-- What can happen on one queue: a task goes to sleep on it, a task made runnable resumes, somebody
    calls `wake_up(p)`, and a task that is not inside `sleep_on(p)` changes its state for reasons of
    its own. -/
inductive QueueEvent (τ : Type*) where
  | sleep (t : τ)
  | resume (t : τ)
  | wake
  | other (t : τ) (st : TaskState)

section
variable {τ : Type*} [DecidableEq τ] (initTask : τ)

/-- The steps of one wait queue. Only a running task calls `sleep_on`, and only a task whose state is
    `TASK_RUNNING` is switched back in. -/
inductive QueueStep : WaitQueue τ → QueueEvent τ → WaitQueue τ → Prop where
  | sleep {q t} : t ≠ initTask → q.tmp t = none → q.state t = .running →
    QueueStep q (.sleep t) (q.sleepOn t)
  | resume {q t} : q.Inside t → q.state t = .running →
    QueueStep q (.resume t) (q.resume t)
  | wake {q} :
    QueueStep q .wake q.wakeUp
  | other {q t st} : q.tmp t = none →
    QueueStep q (.other t st) { q with state := update q.state t st }

/-- One wait queue that starts empty. -/
def queueSystem : System (WaitQueue τ) (QueueEvent τ) where
  init q := q.head = none ∧ ∀ t, q.tmp t = none
  step := QueueStep initTask

end

namespace WaitQueue

section
variable {τ : Type*} {q : WaitQueue τ}

/-- The tasks that can be reached by following saved pointers from a front task. -/
inductive Linked (q : WaitQueue τ) : τ → Prop where
  | front {t} : q.Front t → Linked q t
  | next {a b} : Linked q a → q.Link a b → Linked q b

/-- The linking invariant: saved pointers name sleepers, one each, that are not `*p`; `*p` is asleep;
    the links close no cycle; every sleeper is linked. -/
structure Inv (q : WaitQueue τ) : Prop where
  named : ∀ {a b}, q.Link a b → q.Asleep b ∧ q.head ≠ some b
  unique : ∀ {a a' b}, q.Link a b → q.Link a' b → a = a'
  head : ∀ {t}, q.head = some t → q.Asleep t
  acyclic : Acyclic q.Link
  linked : ∀ {t}, q.Asleep t → q.Linked t

/-- A linked task is reached by a chain of saved pointers from a front task. -/
lemma Linked.exists_chain {t} (h : q.Linked t) :
    ∃ f, q.Front f ∧ Relation.ReflTransGen q.Link f t := by
  induction h with
  | front hf => exact ⟨_, hf, .refl⟩
  | next _ hl ih =>
    obtain ⟨f, hf, hc⟩ := ih
    exact ⟨f, hf, hc.tail hl⟩

/-- A front task of an invariant queue is inside `sleep_on(p)`. -/
lemma Inv.inside_of_front (h : q.Inv) {t} (hf : q.Front t) : q.Inside t := by
  rcases hf with hh | ⟨hin, _⟩
  · exact (h.head hh).1
  · exact hin

/-- Who is inside is not who is outside. -/
lemma Inside.ne_of_outside {t} (ht : q.tmp t = none) {b} (hb : q.Inside b) : b ≠ t := by
  rintro rfl
  obtain ⟨u, hu⟩ := hb
  rw [ht] at hu
  cases hu

/-- Who sleeps is not who runs. -/
lemma Asleep.ne_of_running {t} (ht : q.state t = .running) {b} (hb : q.Asleep b) : b ≠ t := by
  rintro rfl
  have hs := hb.2
  rw [ht] at hs
  cases hs

/-- Who links is inside. -/
lemma Link.inside {a b} (h : q.Link a b) : q.Inside a := ⟨_, h⟩

end

section
variable {τ : Type*} [DecidableEq τ] {q : WaitQueue τ} {t : τ}

/-! ## Going to sleep -/

/-- The links with one more sleeper. -/
lemma link_sleepOn {a b} :
    (q.sleepOn t).Link a b ↔ (a = t ∧ q.head = some b) ∨ (a ≠ t ∧ q.Link a b) := by
  by_cases e : a = t
  · subst e; simp [Link]
  · simp [Link, e]

/-- The others sleep as before. -/
lemma asleep_sleepOn {b} (hb : b ≠ t) : (q.sleepOn t).Asleep b ↔ q.Asleep b := by
  simp [Asleep, Inside, hb]

/-- Who goes to sleep sleeps in the queue. -/
lemma asleep_sleepOn_self : (q.sleepOn t).Asleep t := by
  simp [Asleep, Inside]

/-- Going to sleep keeps every task linked: the new `*p` names the old one. -/
lemma Linked.sleepOn (ht : q.tmp t = none) {x} (hx : q.Linked x) : (q.sleepOn t).Linked x := by
  induction hx with
  | front hf =>
    rcases hf with hh | ⟨hin, hr⟩
    · exact .next (.front (.inl rfl)) (link_sleepOn.2 (.inl ⟨rfl, hh⟩))
    · have hne := hin.ne_of_outside ht
      refine .front (.inr ⟨?_, ?_⟩)
      · simpa [Inside, hne] using hin
      · simpa [hne] using hr
  | next _ hl ih =>
    exact .next ih (link_sleepOn.2 (.inr ⟨hl.inside.ne_of_outside ht, hl⟩))

/-- Going to sleep keeps the invariant. -/
lemma Inv.sleepOn (h : q.Inv) (ht : q.tmp t = none) : (q.sleepOn t).Inv where
  named := by
    intro a b hl
    have hb : q.Asleep b := by
      rcases link_sleepOn.1 hl with ⟨_, hh⟩ | ⟨_, hl⟩
      · exact h.head hh
      · exact (h.named hl).1
    have hne := hb.1.ne_of_outside ht
    refine ⟨(asleep_sleepOn hne).2 hb, ?_⟩
    intro e
    exact hne (Option.some.inj e).symm
  unique := by
    intro a a' b hl hl'
    rcases link_sleepOn.1 hl with ⟨rfl, hh⟩ | ⟨_, hl⟩ <;>
      rcases link_sleepOn.1 hl' with ⟨e, hh'⟩ | ⟨_, hl'⟩
    · exact e.symm
    · exact ((h.named hl').2 hh).elim
    · exact ((h.named hl).2 hh').elim
    · exact h.unique hl hl'
  head := by
    intro x hx
    obtain rfl : t = x := Option.some.inj hx
    exact asleep_sleepOn_self
  acyclic := by
    -- the only new source is `t`, and nobody names it
    apply h.acyclic.of_fresh (t := t)
    · intro a hl
      rcases link_sleepOn.1 hl with ⟨_, hh⟩ | ⟨_, hl⟩
      · exact (h.head hh).1.ne_of_outside ht rfl
      · exact (h.named hl).1.1.ne_of_outside ht rfl
    · intro a b ha hl
      rcases link_sleepOn.1 hl with ⟨rfl, _⟩ | ⟨_, hl⟩
      · exact (ha rfl).elim
      · exact hl
  linked := by
    intro x hx
    by_cases e : x = t
    · subst e; exact .front (.inl rfl)
    · exact (h.linked ((asleep_sleepOn e).1 hx)).sleepOn ht

/-! ## Resuming -/

/-- The links but those of who goes on. -/
lemma link_resume {a b} : (q.resume t).Link a b ↔ a ≠ t ∧ q.Link a b := by
  by_cases e : a = t
  · subst e; simp [Link]
  · simp [Link, e]

/-- Who is behind it is woken up. -/
lemma state_resume_of_link {b} (hl : q.Link t b) : (q.resume t).state b = .running := by
  have ht : q.tmp t = some (some b) := hl
  simp [resume, ht]

/-- Nobody else is woken up. -/
lemma state_resume_of_not_link {b} (hl : ¬ q.Link t b) : (q.resume t).state b = q.state b := by
  rcases ht : q.tmp t with _ | _ | u
  · simp [resume, ht]
  · simp [resume, ht]
  · have hne : b ≠ u := by
      rintro rfl
      exact hl ht
    simp [resume, ht, hne]

/-- The others stay inside. -/
lemma inside_resume {b} (hb : b ≠ t) : (q.resume t).Inside b ↔ q.Inside b := by
  simp [Inside, hb]

/-- Going on keeps the invariant. -/
lemma Inv.resume (h : q.Inv) (hr : q.state t = .running) : (q.resume t).Inv where
  named := by
    intro a b hl
    obtain ⟨ha, hl⟩ := link_resume.1 hl
    obtain ⟨hb, hh⟩ := h.named hl
    have hnl : ¬ q.Link t b := fun hl' => ha (h.unique hl hl')
    refine ⟨⟨(inside_resume (hb.ne_of_running hr)).2 hb.1, ?_⟩, hh⟩
    rw [state_resume_of_not_link hnl]
    exact hb.2
  unique := by
    intro a a' b hl hl'
    exact h.unique (link_resume.1 hl).2 (link_resume.1 hl').2
  head := by
    intro x hx
    have hs := h.head hx
    have hnl : ¬ q.Link t x := fun hl => (h.named hl).2 hx
    refine ⟨(inside_resume (hs.ne_of_running hr)).2 hs.1, ?_⟩
    rw [state_resume_of_not_link hnl]
    exact hs.2
  acyclic := h.acyclic.mono fun a b hl => (link_resume.1 hl).2
  linked := by
    -- the task `t` named becomes a front task, so the chain behind it is kept
    have key : ∀ {x}, q.Linked x → x ≠ t → (q.resume t).Linked x := by
      intro x hx
      induction hx with
      | @front x hf =>
        intro hne
        rcases hf with hh | ⟨hin, hrun⟩
        · exact .front (.inl hh)
        · refine .front (.inr ⟨(inside_resume hne).2 hin, ?_⟩)
          by_cases hl : q.Link t x
          · exact state_resume_of_link hl
          · rw [state_resume_of_not_link hl]; exact hrun
      | @next a b _ hl ih =>
        intro hne
        by_cases e : a = t
        · subst e
          exact .front (.inr ⟨(inside_resume hne).2 (h.named hl).1.1, state_resume_of_link hl⟩)
        · exact .next (ih e) (link_resume.2 ⟨e, hl⟩)
    intro x hx
    have hne : x ≠ t := by
      rintro rfl
      obtain ⟨u, hu⟩ := hx.1
      simp at hu
    have hnl : ¬ q.Link t x := by
      intro hl
      have hs := hx.2
      rw [state_resume_of_link hl] at hs
      cases hs
    refine key (h.linked ⟨(inside_resume hne).1 hx.1, ?_⟩) hne
    rw [← state_resume_of_not_link hnl]
    exact hx.2

/-! ## Waking up -/

/-- Waking up keeps the invariant. -/
lemma Inv.wakeUp (h : q.Inv) : q.wakeUp.Inv := by
  rcases hh : q.head with _ | t
  · rw [wakeUp_of_none hh]; exact h
  have hs := state_wakeUp hh
  have asleep : ∀ {b}, b ≠ t → (q.wakeUp.Asleep b ↔ q.Asleep b) := by
    intro b hb
    simp [Asleep, Inside, hs, hb]
  have ne : ∀ {b}, q.wakeUp.Asleep b → b ≠ t := by
    intro b hb
    exact hb.ne_of_running (by simp [hs])
  have link : ∀ {a b}, q.wakeUp.Link a b ↔ q.Link a b := by simp [Link]
  refine ⟨?_, ?_, ?_, ?_, ?_⟩
  · intro a b hl
    obtain ⟨hb, hne⟩ := h.named (link.1 hl)
    rw [hh] at hne
    refine ⟨(asleep fun e => hne (e ▸ rfl)).2 hb, by simp⟩
  · intro a a' b hl hl'
    exact h.unique (link.1 hl) (link.1 hl')
  · intro x hx
    simp at hx
  · exact h.acyclic.mono fun a b => link.1
  · intro x hx
    have hl := h.linked ((asleep (ne hx)).1 hx)
    clear hx
    induction hl with
    | @front x hf =>
      refine .front (.inr ⟨?_, ?_⟩)
      · rcases hf with hx | ⟨hin, _⟩
        · simpa [Inside] using (h.head hx).1
        · simpa [Inside] using hin
      · rcases hf with hx | ⟨_, hr⟩
        · obtain rfl : t = x := Option.some.inj (hh.symm.trans hx)
          simp [hs]
        · by_cases e : x = t <;> simp [hs, e, hr]
    | next _ hl ih => exact .next ih (link.2 hl)

/-! ## Changes elsewhere -/

/-- Any other change of a task outside keeps the invariant. -/
lemma Inv.other (h : q.Inv) (ht : q.tmp t = none) (st : TaskState) :
    Inv { q with state := update q.state t st } := by
  have state : ∀ {b}, q.Inside b → update q.state t st b = q.state b := by
    intro b hb
    simp [hb.ne_of_outside ht]
  refine ⟨?_, h.unique, ?_, h.acyclic, ?_⟩
  · intro a b hl
    obtain ⟨hb, hne⟩ := h.named hl
    exact ⟨⟨hb.1, (state hb.1).trans hb.2⟩, hne⟩
  · intro x hx
    have hs := h.head hx
    exact ⟨hs.1, (state hs.1).trans hs.2⟩
  · intro x hx
    have hl := h.linked ⟨hx.1, (state hx.1).symm.trans hx.2⟩
    clear hx
    induction hl with
    | front hf =>
      rcases hf with hh | ⟨hin, hr⟩
      · exact .front (.inl hh)
      · exact .front (.inr ⟨hin, (state hin).trans hr⟩)
    | next _ hl ih => exact .next ih hl

end

/-! ## Every run -/

section
variable {τ : Type*} [DecidableEq τ] {initTask : τ} {q : WaitQueue τ}

/-- The invariant holds at first. -/
lemma inv_init (h : (queueSystem initTask).init q) : q.Inv := by
  obtain ⟨hh, ht⟩ := h
  have out : ∀ {t}, ¬ q.Inside t := by
    rintro t ⟨u, hu⟩
    rw [ht t] at hu
    cases hu
  refine ⟨fun hl => (out hl.inside).elim, fun hl => (out hl.inside).elim, ?_, ?_,
    fun hs => (out hs.1).elim⟩
  · intro t hx
    rw [hh] at hx
    cases hx
  · intro a ha
    obtain ⟨b, hl, _⟩ := Relation.TransGen.head'_iff.1 ha
    exact out (Link.inside hl)

/-- A step keeps the invariant. -/
lemma inv_step {e q'} (h : q.Inv) (st : QueueStep initTask q e q') : q'.Inv := by
  cases st with
  | sleep _ ht _ => exact h.sleepOn ht
  | resume _ hr => exact h.resume hr
  | wake => exact h.wakeUp
  | other ht => exact h.other ht _

/-- The invariant holds of every reachable state. -/
lemma reach_inv (hr : (queueSystem initTask).Reach q) : q.Inv :=
  hr.inv (fun _ => inv_init) fun _ _ _ => inv_step

/-- In every reachable state each task asleep in `sleep_on(p)` ends a chain of saved pointers, all of
    tasks inside `sleep_on(p)`, that starts at `*p` or at a runnable task; no chain of saved pointers
    visits a task twice, no two tasks saved the same one, and every saved pointer names a task that is
    still asleep on the queue. So when `*p` is null and nobody inside is runnable, nobody sleeps. -/
theorem sleep_on_loses_nobody (hr : (queueSystem initTask).Reach q) :
    (∀ t, q.Asleep t → ∃ f l, q.Front f ∧ (f :: l).IsChain q.Link ∧
        (f :: l).getLast (List.cons_ne_nil f l) = t ∧ (f :: l).Nodup ∧ ∀ x ∈ f :: l, q.Inside x) ∧
    (∀ l : List τ, l.IsChain q.Link → l.Nodup) ∧
    (∀ a a' b, q.Link a b → q.Link a' b → a = a') ∧
    (∀ a b, q.Link a b → q.Asleep b) ∧
    (q.head = none → (∀ t, q.Inside t → q.state t ≠ .running) → ∀ t, ¬ q.Asleep t) := by
  have h := reach_inv hr
  have nodup : ∀ l : List τ, l.IsChain q.Link → l.Nodup :=
    fun _ => h.acyclic.nodup_of_isChain
  refine ⟨?_, nodup, fun _ _ _ => h.unique, fun _ _ hl => (h.named hl).1, ?_⟩
  · intro t ht
    obtain ⟨f, hf, hc⟩ := (h.linked ht).exists_chain
    obtain ⟨l, hl, hlast⟩ := List.exists_isChain_cons_of_relationReflTransGen hc
    refine ⟨f, l, hf, hl, hlast, nodup _ hl, ?_⟩
    exact hl.induction q.Inside _ (fun _ _ hxy _ => (h.named hxy).1.1) fun _ => h.inside_of_front hf
  · intro hn hrun t ht
    obtain ⟨f, hf, _⟩ := (h.linked ht).exists_chain
    rcases hf with hh | ⟨hin, hrun'⟩
    · rw [hn] at hh; cases hh
    · exact hrun f hin hrun'

/-- Task 1 and then task 2 go to sleep; task 1 is reached through the pointer task 2 saved. -/
theorem sleep_on_loses_nobody_two :
    let q : WaitQueue (Fin 3) := (sleepOn ⟨none, fun _ => .running, fun _ => none⟩ 1).sleepOn 2
    q.Asleep 1 ∧ ∃ f l, q.Front f ∧ (f :: l).IsChain q.Link ∧
      (f :: l).getLast (List.cons_ne_nil f l) = 1 ∧ (f :: l).Nodup ∧ ∀ x ∈ f :: l, q.Inside x := by
  intro q
  have hr : (queueSystem (0 : Fin 3)).Reach q :=
    .step (.step (.init ⟨rfl, fun _ => rfl⟩) (.sleep (t := 1) (by decide) rfl rfl))
      (.sleep (t := 2) (by decide) rfl rfl)
  have hs : q.Asleep 1 := ⟨⟨none, rfl⟩, rfl⟩
  exact ⟨hs, (sleep_on_loses_nobody hr).1 1 hs⟩

end

end WaitQueue

end OldLinux.Sched
