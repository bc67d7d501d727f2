import OldLinux.Sched.WaitQueue

/-!
# Interruptible wait queues

Model of `interruptible_sleep_on` (`kernel/sched.c`), over the queue of `Sched.WaitQueue`. The function
is split at its call of `schedule()`: `interruptibleSleepOn` runs up to the first call,
`interruptibleResume` from there to the next call or to the return. A task that is switched back in
and finds a newer sleeper at `*p` makes that one runnable and goes back to sleep; it does not enter
itself into the queue again.

A sleeper is lost when no chain of saved pointers leads to it. Of all the steps only the one back to
sleep can lose somebody, and it does so exactly when nobody else leads to the task that takes it
(`Requeued`). The headline is `interruptible_sleep_on_loses_nobody`; `requeued_of_unbroken` gives the
usage under which that never happens.
-/

namespace OldLinux.Sched
open Lib Function

namespace WaitQueue
variable {τ : Type*} [DecidableEq τ]

/-- `interruptible_sleep_on(p)` called by `t`, up to `schedule()`. -/
def interruptibleSleepOn (q : WaitQueue τ) (t : τ) : WaitQueue τ where
  head := some t
  state := update q.state t .interruptible
  tmp := update q.tmp t (some q.head)

/-- The end of `interruptible_sleep_on(p)`: `*p = NULL`, and then as in `sleep_on`. -/
def leave (q : WaitQueue τ) (t : τ) : WaitQueue τ := resume { q with head := none } t

/-- `(**p).state = TASK_RUNNING; goto repeat`: `t` wakes the newer sleeper `u` and sleeps again. -/
def sleepAgain (q : WaitQueue τ) (t u : τ) : WaitQueue τ :=
  { q with state := update (update q.state u .running) t .interruptible }

/-- What follows `schedule()` in `interruptible_sleep_on(p)` once `t` runs again. -/
def interruptibleResume (q : WaitQueue τ) (t : τ) : WaitQueue τ :=
  match q.head with
  | some u => if u ≠ t then q.sleepAgain t u else q.leave t
  | none => q.leave t

/-- The task is inside `interruptible_sleep_on(p)` and has not been made runnable. -/
def Dozing (q : WaitQueue τ) (t : τ) : Prop := q.Inside t ∧ q.state t = .interruptible

end WaitQueue

/-- What can happen on one queue: a call of `interruptible_sleep_on(p)`, the resumption of a task made
    runnable, `wake_up(p)`, a signal (or anything else that sets the state of a sleeper to
    `TASK_RUNNING`), and a change of state of a task that is not inside. -/
inductive InterruptibleEvent (τ : Type*) where
  | call (t : τ)
  | resume (t : τ)
  | wake
  | signal (t : τ)
  | other (t : τ) (st : TaskState)

section
variable {τ : Type*} [DecidableEq τ] (initTask : τ)

/-- The steps of one interruptible wait queue. -/
inductive InterruptibleStep : WaitQueue τ → InterruptibleEvent τ → WaitQueue τ → Prop where
  | call {q t} : t ≠ initTask → q.tmp t = none → q.state t = .running →
    InterruptibleStep q (.call t) (q.interruptibleSleepOn t)
  | resume {q t} : q.Inside t → q.state t = .running →
    InterruptibleStep q (.resume t) (q.interruptibleResume t)
  | wake {q} :
    InterruptibleStep q .wake q.wakeUp
  | signal {q t} : q.Dozing t →
    InterruptibleStep q (.signal t) { q with state := update q.state t .running }
  | other {q t st} : q.tmp t = none →
    InterruptibleStep q (.other t st) { q with state := update q.state t st }

/-- One interruptible wait queue that starts empty. -/
def interruptibleSystem : System (WaitQueue τ) (InterruptibleEvent τ) where
  init q := q.head = none ∧ ∀ t, q.tmp t = none
  step := InterruptibleStep initTask

/-- The event is the resumption of some task. -/
def InterruptibleEvent.IsResume : InterruptibleEvent τ → Prop
  | .resume _ => True
  | _ => False

/-- A `wake_up(p)` in this state can lead to `t` being made runnable: some run that starts with it,
    and in which otherwise only tasks resume, ends with `t` runnable. -/
def Wakeable (q : WaitQueue τ) (t : τ) : Prop :=
  ∃ tr, (interruptibleSystem initTask).Exec q ((.wake, q.wakeUp) :: tr) ∧
    (∀ x ∈ tr, x.1.IsResume) ∧ (last q.wakeUp tr).state t = .running

/-- Nobody is lost: every sleeper is `*p` or is reached along saved pointers from `*p` or from a
    runnable task inside, and a `wake_up(p)` can lead to its being made runnable. -/
def NobodyLost (q : WaitQueue τ) : Prop :=
  ∀ t, q.Dozing t → q.Linked t ∧ Wakeable initTask q t

end

/-- A task that resumes and finds a newer sleeper at `*p` is one that the saved pointers lead to from
    `*p` or from a runnable task other than itself. -/
def Requeued {τ : Type*} (q : WaitQueue τ) :
    InterruptibleEvent τ → WaitQueue τ → Prop
  | .resume t, _ => ∀ u, q.head = some u → u ≠ t →
      ∃ f, f ≠ t ∧ q.Front f ∧ Relation.ReflTransGen q.Link f t
  | _, _ => True

/-- A call finds `*p` null only when nobody is inside. -/
def Unbroken {τ : Type*} (q : WaitQueue τ) :
    InterruptibleEvent τ → WaitQueue τ → Prop
  | .call _, _ => q.head = none → ∀ t, ¬ q.Inside t
  | _, _ => True

namespace WaitQueue

section
variable {τ : Type*} [DecidableEq τ] {q : WaitQueue τ} {t u : τ}

/-- Who leaves empties the queue. -/
@[simp] lemma head_leave : (q.leave t).head = none := rfl

/-- Who sleeps again leaves the head. -/
@[simp] lemma head_sleepAgain : (q.sleepAgain t u).head = q.head := rfl

/-- Who sleeps again leaves the pointers. -/
@[simp] lemma tmp_sleepAgain : (q.sleepAgain t u).tmp = q.tmp := rfl

/-- The links but those of who leaves. -/
lemma link_leave {a b} : (q.leave t).Link a b ↔ a ≠ t ∧ q.Link a b :=
  link_resume (q := { q with head := none })

/-- The others stay inside. -/
lemma inside_leave {b} (hb : b ≠ t) : (q.leave t).Inside b ↔ q.Inside b :=
  inside_resume (q := { q with head := none }) hb

/-- Who leaves is outside. -/
lemma not_inside_leave : ¬ (q.leave t).Inside t := by
  rintro ⟨u, hu⟩
  simp [leave] at hu

/-- Who is behind it is woken up. -/
lemma state_leave_of_link {b} (hl : q.Link t b) : (q.leave t).state b = .running :=
  state_resume_of_link (q := { q with head := none }) hl

/-- Nobody else is woken up. -/
lemma state_leave_of_not_link {b} (hl : ¬ q.Link t b) : (q.leave t).state b = q.state b :=
  state_resume_of_not_link (q := { q with head := none }) hl

/-- What a resumption does: back to sleep behind a newer sleeper, or out of the function. -/
lemma interruptibleResume_cases (q : WaitQueue τ) (t : τ) :
    (∃ u, q.head = some u ∧ u ≠ t ∧ q.interruptibleResume t = q.sleepAgain t u) ∨
    ((q.head = none ∨ q.head = some t) ∧ q.interruptibleResume t = q.leave t) := by
  rcases hh : q.head with _ | u
  · right
    exact ⟨.inl rfl, by simp [interruptibleResume, hh]⟩
  · by_cases e : u = t
    · right
      subst e
      exact ⟨.inr rfl, by simp [interruptibleResume, hh]⟩
    · left
      exact ⟨u, rfl, e, by simp [interruptibleResume, hh, e]⟩

/-! ## Waking a linked sleeper -/

/-- When `*p` is null, a chain of saved pointers that starts at a runnable task is woken one after
    the other. If the first task comes again further down, the chain is cut short there. -/
lemma exec_resume {initTask : τ} : ∀ (n : ℕ) {q : WaitQueue τ} {f t : τ} {l : List τ}, l.length ≤ n →
    q.head = none → q.state f = .running → (f :: l).IsChain q.Link →
    (f :: l).getLast (List.cons_ne_nil f l) = t → q.Inside t →
    ∃ tr, (interruptibleSystem initTask).Exec q tr ∧ (∀ x ∈ tr, x.1.IsResume) ∧
      (last q tr).state t = .running := by
  intro n
  induction n with
  | zero =>
    intro q f t l hn hh hr hc hl ht
    obtain rfl : l = [] := List.length_eq_zero_iff.1 (Nat.le_zero.1 hn)
    obtain rfl : f = t := by simpa using hl
    exact ⟨[], .nil, by simp, hr⟩
  | succ n ih =>
    intro q f t l hn hh hr hc hl ht
    by_cases hf : f ∈ l
    · -- the chain from the last time the task comes is shorter
      obtain ⟨l₁, l₂, rfl⟩ := List.append_of_mem hf
      have hlen : l₂.length ≤ n := by
        rw [List.length_append, List.length_cons] at hn
        omega
      refine ih hlen hh hr ?_ ?_ ht
      · rw [← List.cons_append] at hc
        exact hc.right_of_append
      · simpa using hl
    cases l with
    | nil =>
      obtain rfl : f = t := by simpa using hl
      exact ⟨[], .nil, by simp, hr⟩
    | cons b l =>
      obtain ⟨hfb, hbl⟩ := List.isChain_cons_cons.1 hc
      have hres : q.interruptibleResume f = q.leave f := by simp [interruptibleResume, hh]
      have hst : (interruptibleSystem initTask).step q (.resume f) (q.leave f) := by
        rw [← hres]
        exact .resume hfb.inside hr
      have htl : t ∈ b :: l := by
        rw [← hl, List.getLast_cons (List.cons_ne_nil b l)]
        exact List.getLast_mem _
      -- the task leaves, and the next one of the chain is the first that is awake
      have hbl' : (b :: l).IsChain (q.leave f).Link := by
        refine List.IsChain.imp_of_mem_imp ?_ hbl
        intro x y hx _ hxy
        exact link_leave.2 ⟨ne_of_mem_of_not_mem hx hf, hxy⟩
      obtain ⟨tr, hex, hres', hrun⟩ := ih (q := q.leave f) (f := b) (l := l) (t := t)
        (by simpa using hn) rfl (state_leave_of_link hfb) hbl'
        (by rw [← hl, List.getLast_cons (List.cons_ne_nil b l)])
        ((inside_leave (ne_of_mem_of_not_mem htl hf)).2 ht)
      exact ⟨_, .cons hst hex, by simpa [InterruptibleEvent.IsResume] using hres', hrun⟩

/-- A linked sleeper can be woken by `wake_up(p)`. -/
lemma Linked.wakeable {initTask t : τ} (h : q.Linked t) (ht : q.Dozing t) :
    Wakeable initTask q t := by
  obtain ⟨f, hf, hc⟩ := h.exists_chain
  obtain ⟨l, hl, hlast⟩ := List.exists_isChain_cons_of_relationReflTransGen hc
  have hrun : q.wakeUp.state f = .running := by
    rcases hf with hh | ⟨_, hr⟩
    · simp [state_wakeUp hh]
    · rcases hh : q.head with _ | u
      · rw [wakeUp_of_none hh]
        exact hr
      · by_cases e : f = u <;> simp [state_wakeUp hh, e, hr]
  have hl' : (f :: l).IsChain q.wakeUp.Link := by
    refine hl.imp ?_
    intro a b hab
    simpa [Link] using hab
  have ht' : q.wakeUp.Inside t := by simpa [Inside] using ht.1
  obtain ⟨tr, hex, hres, hrt⟩ := exec_resume l.length le_rfl (head_wakeUp q) hrun hl' hlast ht'
  exact ⟨tr, .cons .wake hex, hres, hrt⟩

/-- Nobody is lost exactly if all who doze are linked. -/
lemma nobodyLost_iff {initTask : τ} : NobodyLost initTask q ↔ ∀ t, q.Dozing t → q.Linked t := by
  constructor
  · intro h t ht
    exact (h t ht).1
  · intro h t ht
    exact ⟨h t ht, (h t ht).wakeable ht⟩

/-! ## The steps -/

omit [DecidableEq τ] in
/-- Who is linked links those behind. -/
lemma Linked.of_chain {f x : τ} (h : q.Linked f) (hc : Relation.ReflTransGen q.Link f x) :
    q.Linked x := by
  induction hc with
  | refl => exact h
  | tail _ hl ih => exact .next ih hl

omit [DecidableEq τ] in
/-- A chain survives a step that keeps the links of the tasks on it and keeps its start a front. -/
lemma Linked.of_keeps {q' : WaitQueue τ} {x} (h : q.Linked x)
    (front : ∀ {f}, q.Front f → q'.Linked f) (link : ∀ {a b}, q.Link a b → q'.Link a b) :
    q'.Linked x := by
  induction h with
  | front hf => exact front hf
  | next _ hl ih => exact .next ih (link hl)

/-- A call keeps every task linked: the new `*p` names the old one. -/
lemma Linked.interruptibleSleepOn {t x : τ} (ht : q.tmp t = none) (h : q.Linked x) :
    (q.interruptibleSleepOn t).Linked x := by
  refine h.of_keeps ?_ ?_
  · intro f hf
    rcases hf with hh | ⟨hin, hr⟩
    · refine .next (.front (.inl rfl)) ?_
      simp [Link, WaitQueue.interruptibleSleepOn, hh]
    · have hne := hin.ne_of_outside ht
      refine .front (.inr ⟨?_, ?_⟩)
      · simpa [Inside, WaitQueue.interruptibleSleepOn, hne] using hin
      · simpa [WaitQueue.interruptibleSleepOn, hne] using hr
  · intro a b hl
    have hne := hl.inside.ne_of_outside ht
    simpa [Link, WaitQueue.interruptibleSleepOn, hne] using hl

omit [DecidableEq τ] in
/-- Making tasks runnable keeps every task linked. -/
lemma Linked.run {st : τ → TaskState} {x : τ} (h : q.Linked x)
    (hst : ∀ b, q.Inside b → q.state b = .running → st b = .running) :
    Linked { q with state := st } x := by
  refine h.of_keeps ?_ fun hl => hl
  intro f hf
  rcases hf with hh | ⟨hin, hr⟩
  · exact .front (.inl hh)
  · exact .front (.inr ⟨hin, hst f hin hr⟩)

/-- `wake_up(p)` keeps every task linked: the task taken off `*p` is runnable. -/
lemma Linked.wakeUp {x : τ} (hin : ∀ t, q.head = some t → q.Inside t) (h : q.Linked x) :
    q.wakeUp.Linked x := by
  refine h.of_keeps ?_ ?_
  · intro f hf
    refine .front (.inr ⟨?_, ?_⟩)
    · rcases hf with hh | ⟨hf, _⟩
      · simpa [Inside] using hin f hh
      · simpa [Inside] using hf
    · rcases hf with hh | ⟨_, hr⟩
      · simp [state_wakeUp hh]
      · rcases hh : q.head with _ | u
        · rw [wakeUp_of_none hh]
          exact hr
        · by_cases e : f = u <;> simp [state_wakeUp hh, e, hr]
  · intro a b hl
    simpa [Link] using hl

/-- A task that leaves keeps every other one linked: the task it named is made runnable. -/
lemma Linked.leave {t x : τ} (hh : q.head = none ∨ q.head = some t) (hx : q.Inside x)
    (h : q.Linked x) : x = t ∨ (q.leave t).Linked x := by
  induction h with
  | @front x hf =>
    by_cases e : x = t
    · exact .inl e
    right
    rcases hf with hh' | ⟨hin, hr⟩
    · rcases hh with hh | hh <;> rw [hh] at hh'
      · cases hh'
      · exact (e (Option.some.inj hh').symm).elim
    · refine .front (.inr ⟨(inside_leave e).2 hin, ?_⟩)
      by_cases hl : q.Link t x
      · exact state_leave_of_link hl
      · rw [state_leave_of_not_link hl]
        exact hr
  | @next a b _ hl ih =>
    by_cases e : b = t
    · exact .inl e
    right
    rcases ih hl.inside with rfl | ha
    · exact .front (.inr ⟨(inside_leave e).2 hx, state_leave_of_link hl⟩)
    · by_cases ea : a = t
      · subst ea
        exact .front (.inr ⟨(inside_leave e).2 hx, state_leave_of_link hl⟩)
      · exact .next ha (link_leave.2 ⟨ea, hl⟩)

/-- Back behind a newer sleeper: the fronts are those other than `t`. -/
lemma front_sleepAgain {t u f : τ} (hu : q.head = some u) (ne : u ≠ t) :
    (q.sleepAgain t u).Front f ↔ f ≠ t ∧ q.Front f := by
  constructor
  · intro hf
    have e : f ≠ t := by
      rintro rfl
      rcases hf with hh | ⟨_, hr⟩
      · exact ne (Option.some.inj (hu.symm.trans hh))
      · simp [sleepAgain] at hr
    refine ⟨e, ?_⟩
    rcases hf with hh | ⟨hin, hr⟩
    · exact .inl hh
    · by_cases eu : f = u
      · exact .inl (eu ▸ hu)
      · exact .inr ⟨hin, by simpa [sleepAgain, e, eu] using hr⟩
  · rintro ⟨e, hh | ⟨hin, hr⟩⟩
    · exact .inl hh
    · refine .inr ⟨hin, ?_⟩
      by_cases eu : f = u
      · subst eu
        simp [sleepAgain, e]
      · simp [sleepAgain, e, eu, hr]

/-- The task back to sleep is linked exactly when a front other than itself leads to it. -/
lemma linked_sleepAgain_self {t u : τ} (hu : q.head = some u) (ne : u ≠ t) :
    (q.sleepAgain t u).Linked t ↔
      ∃ f, f ≠ t ∧ q.Front f ∧ Relation.ReflTransGen q.Link f t := by
  constructor
  · intro h
    obtain ⟨f, hf, hc⟩ := h.exists_chain
    obtain ⟨e, hf⟩ := (front_sleepAgain hu ne).1 hf
    exact ⟨f, e, hf, hc⟩
  · intro ⟨f, e, hf, hc⟩
    exact Linked.of_chain (q := q.sleepAgain t u) (.front ((front_sleepAgain hu ne).2 ⟨e, hf⟩)) hc

/-- Nobody is lost by going back to sleep exactly when the task that does so is still led to. -/
lemma dozing_sleepAgain {t u : τ} (hu : q.head = some u) (ne : u ≠ t) (hin : q.Inside t)
    (h : ∀ x, q.Dozing x → q.Linked x) :
    (∀ x, (q.sleepAgain t u).Dozing x → (q.sleepAgain t u).Linked x) ↔
      ∃ f, f ≠ t ∧ q.Front f ∧ Relation.ReflTransGen q.Link f t := by
  rw [← linked_sleepAgain_self hu ne]
  constructor
  · intro hall
    exact hall t ⟨hin, by simp [sleepAgain]⟩
  · intro ht x hx
    by_cases e : x = t
    · subst e
      exact ht
    have hxu : x ≠ u := by
      rintro rfl
      have hs := hx.2
      simp [sleepAgain, e] at hs
    have hd : q.Dozing x := ⟨hx.1, by simpa [sleepAgain, e, hxu] using hx.2⟩
    refine (h x hd).of_keeps ?_ fun hl => hl
    intro f hf
    by_cases ef : f = t
    · subst ef
      exact ht
    · exact .front ((front_sleepAgain hu ne).2 ⟨ef, hf⟩)

/-! ## Every run -/

/-- `*p` names a task inside, and every sleeper is linked. -/
structure AllLinked (q : WaitQueue τ) : Prop where
  head : ∀ t, q.head = some t → q.Inside t
  linked : ∀ t, q.Dozing t → q.Linked t

/-- Going to sleep links all. -/
lemma AllLinked.interruptibleSleepOn {t : τ} (h : q.AllLinked) (ht : q.tmp t = none) :
    (q.interruptibleSleepOn t).AllLinked where
  head := by
    intro x hx
    obtain rfl : t = x := Option.some.inj hx
    exact ⟨q.head, by simp [WaitQueue.interruptibleSleepOn]⟩
  linked := by
    intro x hx
    by_cases e : x = t
    · subst e
      exact .front (.inl rfl)
    · refine (h.linked x ⟨?_, ?_⟩).interruptibleSleepOn ht
      · simpa [Inside, WaitQueue.interruptibleSleepOn, e] using hx.1
      · simpa [WaitQueue.interruptibleSleepOn, e] using hx.2

/-- Leaving at the head does. -/
lemma AllLinked.leave {t : τ} (h : q.AllLinked) (hh : q.head = none ∨ q.head = some t) :
    (q.leave t).AllLinked where
  head := by simp
  linked := by
    intro x hx
    have e : x ≠ t := by
      rintro rfl
      exact not_inside_leave hx.1
    have hin : q.Inside x := (inside_leave e).1 hx.1
    have hnl : ¬ q.Link t x := by
      intro hl
      have hs := hx.2
      rw [state_leave_of_link hl] at hs
      cases hs
    have hd : q.Dozing x := by
      refine ⟨hin, ?_⟩
      rw [← state_leave_of_not_link hnl]
      exact hx.2
    exact ((h.linked x hd).leave hh hin).resolve_left e

/-- Waking up keeps every sleeper linked. -/
lemma AllLinked.wakeUp (h : q.AllLinked) : q.wakeUp.AllLinked where
  head := by simp
  linked := by
    intro x hx
    refine (h.linked x ⟨by simpa [Inside] using hx.1, ?_⟩).wakeUp h.head
    rcases hh : q.head with _ | u
    · rw [← wakeUp_of_none hh]
      exact hx.2
    · have e : x ≠ u := by
        rintro rfl
        have hs := hx.2
        simp [state_wakeUp hh] at hs
      simpa [state_wakeUp hh, e] using hx.2

/-- A signal keeps every sleeper linked. -/
lemma AllLinked.signal {t : τ} (h : q.AllLinked) :
    AllLinked { q with state := update q.state t .running } where
  head := h.head
  linked := by
    intro x hx
    have e : x ≠ t := by
      rintro rfl
      have hs := hx.2
      simp at hs
    refine (h.linked x ⟨hx.1, by simpa [e] using hx.2⟩).run ?_
    intro b _ hr
    by_cases eb : b = t <;> simp [eb, hr]

/-- Any other change of a task outside keeps every sleeper linked. -/
lemma AllLinked.other {t : τ} {st} (h : q.AllLinked) (ht : q.tmp t = none) :
    AllLinked { q with state := update q.state t st } where
  head := h.head
  linked := by
    intro x hx
    have e := Inside.ne_of_outside (q := q) ht hx.1
    refine (h.linked x ⟨hx.1, by simpa [e] using hx.2⟩).run ?_
    intro b hb hr
    simpa [hb.ne_of_outside ht] using hr

variable {initTask : τ}

/-- At first all are linked. -/
lemma allLinked_init (h : (interruptibleSystem initTask).init q) : q.AllLinked where
  head := by simp [h.1]
  linked := by
    rintro t ⟨⟨u, hu⟩, _⟩
    rw [h.2 t] at hu
    cases hu

/-- A step keeps everybody linked exactly when it meets `Requeued`. -/
lemma allLinked_step {e q'} (h : q.AllLinked) (st : (interruptibleSystem initTask).step q e q') :
    q'.AllLinked ↔ Requeued q e q' := by
  cases st with
  | call _ ht _ => exact iff_of_true (h.interruptibleSleepOn ht) trivial
  | wake => exact iff_of_true h.wakeUp trivial
  | signal _ => exact iff_of_true h.signal trivial
  | other ht => exact iff_of_true (h.other ht) trivial
  | @resume t hin _ =>
    rcases q.interruptibleResume_cases t with ⟨u, hu, ne, e⟩ | ⟨hh, e⟩
    · rw [e]
      have key := dozing_sleepAgain hu ne hin h.linked
      constructor
      · intro h' u' hu' _
        exact key.1 h'.linked
      · intro hr
        exact ⟨h.head, key.2 (hr u hu ne)⟩
    · rw [e]
      refine iff_of_true (h.leave hh) ?_
      intro u hu ne
      rcases hh with hh | hh <;> rw [hh] at hu
      · cases hu
      · exact (ne (Option.some.inj hu).symm).elim

/-- The head is inside. -/
lemma inside_head_step {e q'} (h : ∀ t, q.head = some t → q.Inside t)
    (st : (interruptibleSystem initTask).step q e q') : ∀ t, q'.head = some t → q'.Inside t := by
  cases st with
  | @call t _ _ _ =>
    intro x hx
    obtain rfl : t = x := Option.some.inj hx
    exact ⟨q.head, by simp [WaitQueue.interruptibleSleepOn]⟩
  | wake => simp
  | signal _ => exact h
  | other _ => exact h
  | @resume t _ _ =>
    rcases q.interruptibleResume_cases t with ⟨u, hu, ne, e⟩ | ⟨hh, e⟩ <;> rw [e]
    · exact h
    · simp

/-- In a run from the empty queue nobody asleep in `interruptible_sleep_on(p)` is ever lost exactly
    when every task that goes back to sleep behind a newer sleeper is still led to, from `*p` or from
    another runnable task, by the saved pointers. -/
theorem interruptible_sleep_on_loses_nobody {tr} (h0 : (interruptibleSystem initTask).init q)
    (ex : (interruptibleSystem initTask).Exec q tr) :
    Always (NobodyLost initTask) q tr ↔ Along Requeued q tr := by
  have hi := allLinked_init h0
  have key : Along (fun _ _ q' => NobodyLost initTask q') q tr ↔ Along Requeued q tr := by
    refine ex.along_iff (I := AllLinked) ?_ ?_ hi
    · intro q e q' h st hr
      have h' := (allLinked_step h st).2 hr
      exact ⟨h', nobodyLost_iff.2 h'.linked⟩
    · intro q e q' h st hn
      exact (allLinked_step h st).1 ⟨inside_head_step h.head st, nobodyLost_iff.1 hn⟩
  rw [← key]
  constructor
  · intro h
    exact h.2
  · intro h
    exact ⟨nobodyLost_iff.2 hi.linked, h⟩

/-- Where no call finds `*p` null while somebody is inside, nobody is lost: then `*p`, unless it is
    null, leads to everybody inside. -/
theorem requeued_of_unbroken {tr} (h0 : (interruptibleSystem initTask).init q)
    (ex : (interruptibleSystem initTask).Exec q tr) (hu : Along Unbroken q tr) :
    Along Requeued q tr := by
  refine (ex.along_of_inv (C := Unbroken) (Q := Requeued)
    (I := fun q => ∀ u t, q.head = some u → q.Inside t → Relation.ReflTransGen q.Link u t)
    ?_ (by simp [h0.1]) hu).2
  intro q e q' h st hc
  cases st with
  | @call t _ ht _ =>
    refine ⟨?_, trivial⟩
    intro v x hv hx
    obtain rfl : t = v := Option.some.inj hv
    by_cases e : x = t
    · subst e
      exact .refl
    have hin : q.Inside x := by simpa [Inside, WaitQueue.interruptibleSleepOn, e] using hx
    rcases hh : q.head with _ | w
    · exact (hc hh x hin).elim
    · have hw : (q.interruptibleSleepOn t).Link t w := by
        simp [Link, WaitQueue.interruptibleSleepOn, hh]
      refine .head hw (Relation.ReflTransGen.mono ?_ _ _ (h w x hh hin))
      intro a b hl
      have hne := hl.inside.ne_of_outside ht
      simpa [Link, WaitQueue.interruptibleSleepOn, hne] using hl
  | wake => exact ⟨by simp, trivial⟩
  | signal _ => exact ⟨h, trivial⟩
  | other _ => exact ⟨h, trivial⟩
  | @resume t hin _ =>
    have hr : Requeued q (.resume t) (q.interruptibleResume t) := by
      intro u hu ne
      exact ⟨u, ne, .inl hu, h u t hu hin⟩
    rcases q.interruptibleResume_cases t with ⟨u, _, _, e⟩ | ⟨_, e⟩ <;> rw [e] at hr ⊢
    · exact ⟨h, hr⟩
    · exact ⟨by simp, hr⟩

end

/-! ## Two runs -/

/-- A queue nobody sleeps on. -/
def emptyQueue : WaitQueue (Fin 3) := ⟨none, fun _ => .running, fun _ => none⟩

/-- Task 1 and task 2 sleep on the queue. -/
def twoDozing : WaitQueue (Fin 3) := (emptyQueue.interruptibleSleepOn 1).interruptibleSleepOn 2

/-- Task 1 of two sleepers gets a signal. -/
def signalled : WaitQueue (Fin 3) :=
  { twoDozing with state := update twoDozing.state 1 .running }

/-- Task 1 gets a signal, finds task 2 at `*p`, and goes back to sleep. -/
def signalRun : List (InterruptibleEvent (Fin 3) × WaitQueue (Fin 3)) :=
  [(.call 1, emptyQueue.interruptibleSleepOn 1), (.call 2, twoDozing), (.signal 1, signalled),
    (.resume 1, signalled.interruptibleResume 1)]

/-- Task 1 is woken, and task 2 goes to sleep on the emptied queue before task 1 runs. -/
def overtaken : WaitQueue (Fin 3) :=
  (emptyQueue.interruptibleSleepOn 1).wakeUp.interruptibleSleepOn 2

/-- Task 1 is woken, is overtaken by task 2, and goes back to sleep. -/
def overtakenRun : List (InterruptibleEvent (Fin 3) × WaitQueue (Fin 3)) :=
  [(.call 1, emptyQueue.interruptibleSleepOn 1), (.wake, (emptyQueue.interruptibleSleepOn 1).wakeUp),
    (.call 2, overtaken), (.resume 1, overtaken.interruptibleResume 1)]

/-- The task that goes back to sleep after a signal is led to by the pointer task 2 saved. -/
theorem interruptible_sleep_on_loses_nobody_signal :
    (interruptibleSystem 0).Exec emptyQueue signalRun ∧
    (signalled.interruptibleResume 1).Dozing 1 ∧
    Always (NobodyLost 0) emptyQueue signalRun := by
  have ex : (interruptibleSystem 0).Exec emptyQueue signalRun :=
    .cons (.call (by decide) rfl rfl) (.cons (.call (by decide) rfl rfl)
      (.cons (.signal ⟨⟨_, rfl⟩, rfl⟩) (.cons (.resume ⟨_, rfl⟩ rfl) .nil)))
  refine ⟨ex, ⟨⟨_, rfl⟩, rfl⟩, ?_⟩
  refine (interruptible_sleep_on_loses_nobody ⟨rfl, fun _ => rfl⟩ ex).2 ?_
  refine ⟨trivial, trivial, trivial, ?_, trivial⟩
  intro u hu ne
  exact ⟨2, by decide, .inl rfl, .single rfl⟩

/-- A task that is woken, is overtaken by a new sleeper before it runs, and goes back to sleep is
    lost: nothing leads to it any more. -/
theorem interruptible_sleep_on_loses_overtaken :
    (interruptibleSystem 0).init emptyQueue ∧
    (interruptibleSystem 0).Exec emptyQueue overtakenRun ∧
    (overtaken.interruptibleResume 1).Dozing 1 ∧ ¬ (overtaken.interruptibleResume 1).Linked 1 ∧
    ¬ Always (NobodyLost 0) emptyQueue overtakenRun := by
  have ex : (interruptibleSystem 0).Exec emptyQueue overtakenRun :=
    .cons (.call (by decide) rfl rfl) (.cons .wake (.cons (.call (by decide) rfl rfl)
      (.cons (.resume ⟨_, rfl⟩ rfl) .nil)))
  have hd : (overtaken.interruptibleResume 1).Dozing 1 := ⟨⟨_, rfl⟩, rfl⟩
  have hl : ¬ (overtaken.interruptibleResume 1).Linked 1 := by
    intro h
    cases h with
    | front hf =>
      rcases hf with hh | ⟨_, hr⟩
      · cases hh
      · cases hr
    | @next a _ _ hl =>
      have : ∀ a, (overtaken.interruptibleResume 1).tmp a ≠ some (some 1) := by decide
      exact this a hl
  refine ⟨⟨rfl, fun _ => rfl⟩, ex, hd, hl, ?_⟩
  intro h
  simp only [overtakenRun, always_cons, always_nil] at h
  exact hl (h.2.2.2.2 1 hd).1

end WaitQueue

end OldLinux.Sched
