import OldLinux.Lib.Cost
import OldLinux.Sched.Selection

/-!
# No task is passed over

Time slices are given out when no task that can run has time left. A task loses time by its own ticks only, and a
new time slice is at least the priority, so a task that can run all the time runs for at least that many ticks
before time slices are given out again (`runnable_tasks_run`).
-/

namespace OldLinux.Sched
open Lib Function Mm

/-- In this step time slices are given out. -/
def TimerState.GivesTime (s : TimerState) : TimerEvent → Prop
  | .schedule => s.checkSignals.Exhausted
  | .timer true => ¬ (0#64).slt ((s.tasks s.current).counter - 1) = true ∧ (s.setCounter 0).checkSignals.Exhausted
  | _ => False

instance (s : TimerState) (e : TimerEvent) : Decidable (s.GivesTime e) :=
  match e with
  | .schedule => inferInstanceAs (Decidable (SchedState.Exhausted _))
  | .timer true => inferInstanceAs (Decidable (_ ∧ _))
  | .timer false => .isFalse id
  | .fork _ _ => .isFalse id
  | .run _ => .isFalse id
  | .other => .isFalse id

/-- The tick of the task at `p`. -/
def tickOf (p : BitVec 64) (s : TimerState) : TimerEvent → TimerState → Nat
  | .timer _, _ => if s.current = p then 1 else 0
  | _, _ => 0

/-- A task keeps its time slice, or gets more. -/
def TaskStruct.Renews (t t' : TaskStruct) : Prop :=
  t.Fair → t'.Fair ∧ t.counter.toNat ≤ t'.counter.toNat ∧ t'.priority = t.priority

namespace TaskStruct
variable {t t' t'' : TaskStruct}

/-- A task is renewed by nothing. -/
lemma Renews.refl (t : TaskStruct) : t.Renews t := fun h => ⟨h, le_rfl, rfl⟩

/-- Two steps that renew do so together. -/
lemma Renews.trans (h : t.Renews t') (h' : t'.Renews t'') : t.Renews t'' := by
  intro hf
  obtain ⟨hf', hle, hp⟩ := h hf
  obtain ⟨hf'', hle', hp'⟩ := h' hf'
  exact ⟨hf'', hle.trans hle', hp'.trans hp⟩

/-- Looking at the signals of a task renews it. -/
lemma check_renews {jiffies : BitVec 64} : t.Renews (t.check jiffies) := by
  intro hf
  have hsame : (t.check jiffies).counter = t.counter ∧ (t.check jiffies).priority = t.priority := by
    rw [TaskStruct.check]
    split
    · split
      · exact ⟨rfl, rfl⟩
      · exact ⟨rfl, rfl⟩
    · split
      · exact ⟨rfl, rfl⟩
      · exact ⟨rfl, rfl⟩
  rw [hsame.1]
  exact ⟨hf.check, le_rfl, hsame.2⟩

/-- A new time slice is what is left, halved, and the priority. -/
lemma recharge_counter (h : t.Fair) : t.recharge.counter.toNat = t.counter.toNat / 2 + t.priority.toNat := by
  obtain ⟨_, _, h1, h2, h3⟩ := h.toNat
  have hmsb : t.counter.msb = false := by
    rw [BitVec.msb_eq_false_iff_two_mul_lt]
    omega
  rw [recharge, BitVec.toNat_add, BitVec.sshiftRight_eq_of_msb_false hmsb, BitVec.toNat_ushiftRight,
    Nat.shiftRight_eq_div_pow]
  omega

/-- So does recharging it. -/
lemma recharge_renews : t.Renews t.recharge := by
  intro hf
  obtain ⟨_, _, h1, -, -⟩ := hf.toNat
  refine ⟨hf.recharge.1, ?_, rfl⟩
  rw [recharge_counter hf]
  omega

/-- The comparison of `do_timer`. -/
lemma Fair.slt_iff (h : t.Fair) : (0#64).slt (t.counter - 1) = true ↔ 1 < t.counter.toNat := by
  obtain ⟨_, _, h1, _, h3⟩ := h.toNat
  have hone : (1 : BitVec 64).toNat = 1 := rfl
  by_cases h0 : t.counter.toNat = 0
  · obtain e : t.counter = 0#64 := BitVec.eq_of_toNat_eq h0
    rw [e]
    decide
  · have hsub : (t.counter - 1).toNat = t.counter.toNat - 1 := by
      rw [BitVec.toNat_sub, hone]
      omega
    have hint : (t.counter - 1).toInt = t.counter.toNat - 1 := by
      rw [BitVec.toInt_eq_toNat_of_lt (by omega), hsub]
      omega
    have hzero : (0#64).toInt = 0 := rfl
    rw [BitVec.slt_iff_toInt_lt, hint, hzero]
    omega

end TaskStruct

namespace SchedState
variable {s s' : SchedState} {i : Fin 64} {p : BitVec 64}

/-- What a loop over the tasks does to each of them. -/
lemma forTasks_rel {f : TaskStruct → TaskStruct} {R : TaskStruct → TaskStruct → Prop} (hrefl : ∀ t, R t t)
    (htrans : ∀ t t' t'', R t t' → R t' t'' → R t t'') (hf : ∀ t, R t (f t)) :
    R (s.tasks p) ((s.forTasks f).tasks p) := by
  have hturn : ∀ (s : SchedState) (i : Fin 64), R (s.tasks p) ((onTask f s i).tasks p) := by
    intro s i
    rw [onTask]
    split
    · show R (s.tasks p) (update s.tasks (s.task i) _ p)
      by_cases h : p = s.task i
      · rw [h, update_self]
        exact hf _
      · rw [update_of_ne h]
        exact hrefl _
    · exact hrefl _
  have hfold : ∀ (l : List (Fin 64)) (s : SchedState), R (s.tasks p) ((l.foldl (onTask f) s).tasks p) := by
    intro l
    induction l with
    | nil => exact fun s => hrefl _
    | cons i l ih =>
      intro s
      rw [List.foldl_cons]
      exact htrans _ _ _ (hturn s i) (ih _)
  rw [forTasks]
  exact hfold slots s

/-- What renews each task renews all. -/
lemma forTasks_renews {f : TaskStruct → TaskStruct} (hf : ∀ t : TaskStruct, t.Renews (f t)) :
    (s.tasks p).Renews ((s.forTasks f).tasks p) :=
  forTasks_rel .refl (fun _ _ _ => .trans) hf

/-- Selecting a task renews the others. -/
lemma select_renews {n : Nat} {r : Fin 64 × SchedState} (e : select n s = some r) :
    (s.tasks p).Renews (r.2.tasks p) := by
  induction n generalizing s with
  | zero => cases e
  | succ n ih =>
    rw [select] at e
    split at e
    · cases e
      exact .refl _
    · exact (forTasks_renews fun _ => TaskStruct.recharge_renews).trans (ih e)

/-- `schedule` takes no time from anyone. -/
lemma schedule_renews {n : Nat} {next : Fin 64} (e : s.schedule n = some (next, s')) :
    (s.tasks p).Renews (s'.tasks p) := by
  rw [schedule, Option.map_eq_some_iff] at e
  obtain ⟨r, hsel, e⟩ := e
  cases e
  exact (forTasks_renews fun _ => TaskStruct.check_renews).trans (select_renews hsel)

/-- Whoever can run still can behind the loop over the signals, with the same time left. -/
lemma checkSignals_runnable (h : s.Runnable i) :
    s.checkSignals.Runnable i ∧ s.checkSignals.timeLeft i = s.timeLeft i := by
  have hcheck : ∀ t : TaskStruct, (t.check s.jiffies).counter = t.counter ∧
      (t.state = .running → (t.check s.jiffies).state = .running) := by
    intro t
    rw [TaskStruct.check]
    split
    · split
      · exact ⟨rfl, fun _ => rfl⟩
      · exact ⟨rfl, id⟩
    · split
      · exact ⟨rfl, fun _ => rfl⟩
      · exact ⟨rfl, id⟩
  have hp : (s.checkSignals.tasks (s.task i)).counter = (s.tasks (s.task i)).counter ∧
      ((s.tasks (s.task i)).state = .running → (s.checkSignals.tasks (s.task i)).state = .running) := by
    rw [checkSignals]
    exact forTasks_rel (R := fun t t' => t'.counter = t.counter ∧ (t.state = .running → t'.state = .running))
      (fun _ => ⟨rfl, id⟩) (fun _ _ _ h h' => ⟨h'.1.trans h.1, h'.2 ∘ h.2⟩) hcheck
  obtain ⟨h0, ht, hs⟩ := h
  have hall : s.checkSignals.task = s.task := task_forTasks _
  have htask := congrFun hall i
  refine ⟨⟨h0, ?_, ?_⟩, ?_⟩
  · rwa [htask]
  · rw [htask]
    exact hp.2 hs
  · rw [timeLeft, timeLeft, htask]
    rw [hp.1]

/-- Behind a call of `schedule` that gives out time slices, every task has at least its priority. -/
lemma schedule_gives {n : Nat} {next : Fin 64} (hf : s.Fair) (hx : s.checkSignals.Exhausted)
    (e : s.schedule n = some (next, s')) (hi : i ≠ 0) (ht : s.task i ≠ 0) :
    (s'.tasks (s.task i)).priority.toNat ≤ (s'.tasks (s.task i)).counter.toNat := by
  have htask : s.checkSignals.task = s.task := task_forTasks _
  have hall := foldl_onTask (f := TaskStruct.recharge) (P := TaskStruct.Fair)
    (Q := fun t => t.priority.toNat ≤ t.counter.toNat)
    (fun t hf => ⟨hf.recharge.1, by
      rw [TaskStruct.recharge_counter hf]
      exact Nat.le_add_left _ _⟩) slots s.checkSignals hf.checkSignals i (by rwa [htask])
  rw [htask] at hall
  have hfair : (s.checkSignals.recharge.tasks (s.task i)).Fair := by
    rw [recharge, forTasks]
    exact hall.1
  have hq : (s.checkSignals.recharge.tasks (s.task i)).priority.toNat ≤
      (s.checkSignals.recharge.tasks (s.task i)).counter.toNat := by
    rw [recharge, forTasks]
    exact hall.2 (.inl (mem_slots.2 hi))
  rw [schedule, Option.map_eq_some_iff] at e
  obtain ⟨r, hsel, e⟩ := e
  cases e
  cases n with
  | zero => cases hsel
  | succ n =>
    rw [select, if_neg (not_not.2 ((pick_selects hf.checkSignals).2.2 hx))] at hsel
    obtain ⟨-, hle, hp⟩ := select_renews (p := s.task i) hsel hfair
    show (r.2.tasks (s.task i)).priority.toNat ≤ (r.2.tasks (s.task i)).counter.toNat
    rw [hp]
    exact hq.trans hle

end SchedState

namespace TimerState
open SchedState
variable {s s' : TimerState} {e : TimerEvent} {i : Fin 64} {p : BitVec 64} {n : Nat}

/-! ## Ticks -/

/-- Only the current task gets the counter. -/
lemma setCounter_tasks {s : SchedState} {c : BitVec 64} : (s.setCounter c).tasks p =
    if s.current = p then { s.tasks p with counter := c } else s.tasks p := by
  show update s.tasks s.current _ p = _
  by_cases h : s.current = p
  · rw [if_pos h, ← h, update_self]
  · rw [if_neg h, update_of_ne (Ne.symm h)]

/-- A tick takes at most one from the running task, and nothing from the others. -/
lemma doTimer_counter {user : Bool} (hf : s.Fair) (h0 : s.task i ≠ 0) (hp : s.task i = p)
    (e : s.doTimer user n = some s') : (s'.tasks p).priority = (s.tasks p).priority ∧
      (s.tasks p).counter.toNat ≤ (s'.tasks p).counter.toNat + if s.current = p then 1 else 0 := by
  have hfair := hf i h0
  have hzero : (s.setCounter 0).Fair := hf.setCounter fun ht => ht.spend
  have hfair' := hzero i h0
  have htask : (s.setCounter 0).task i = p := hp
  rw [hp] at hfair
  rw [htask] at hfair'
  -- a time slice that ends was 1 or 0
  have hspent : ¬ (0#64).slt ((s.tasks s.current).counter - 1) = true →
      ((s.setCounter 0).tasks p).priority = (s.tasks p).priority ∧
        (s.tasks p).counter.toNat ≤ ((s.setCounter 0).tasks p).counter.toNat + if s.current = p then 1 else 0 := by
    intro hle
    rw [setCounter_tasks]
    by_cases hc : s.current = p
    · rw [hc, hfair.slt_iff] at hle
      rw [if_pos hc, if_pos hc]
      exact ⟨rfl, Nat.le_add_left_of_le (Nat.le_of_not_lt hle)⟩
    · rw [if_neg hc, if_neg hc]
      exact ⟨rfl, le_rfl⟩
  rw [doTimer] at e
  dsimp only at e
  rw [count_sched, setCounter_twice] at e
  split at e
  · next hpos =>
    cases e
    show ((s.setCounter _).tasks p).priority = _ ∧ _ ≤ ((s.setCounter _).tasks p).counter.toNat + _
    rw [setCounter_tasks]
    by_cases hc : s.current = p
    · rw [hc] at hpos
      have hone : (1 : BitVec 64).toNat = 1 := rfl
      have hgt := hfair.slt_iff.1 hpos
      rw [if_pos hc, if_pos hc, hc]
      refine ⟨rfl, ?_⟩
      show _ ≤ ((s.tasks p).counter - 1).toNat + 1
      rw [BitVec.toNat_sub, hone]
      omega
    · rw [if_neg hc, if_neg hc]
      exact ⟨rfl, le_rfl⟩
  · next hle =>
    obtain ⟨hprio, hcount⟩ := hspent hle
    split at e
    · obtain ⟨r, hs, e⟩ := Option.map_eq_some_iff.1 e
      cases e
      obtain ⟨-, hle', hprio'⟩ := schedule_renews (p := p) hs hfair'
      exact ⟨hprio'.trans hprio, hcount.trans (Nat.add_le_add_right hle' _)⟩
    · cases e
      exact ⟨hprio, hcount⟩

/-- The task at `p` is in slot `i`, and no new task is put there. -/
def Stays (i : Fin 64) (p : BitVec 64) (s : TimerState) (e : TimerEvent) (_ : TimerState) : Prop :=
  s.task i = p ∧ p ≠ 0 ∧ ∀ k, e ≠ .fork k p

/-- A task loses time by its own ticks only. -/
lemma step_counter (hf : s.Fair) (st : TimerStep s e s') (h : Stays i p s e s') :
    (s'.tasks p).priority = (s.tasks p).priority ∧
      (s.tasks p).counter.toNat ≤ (s'.tasks p).counter.toNat + tickOf p s e s' := by
  obtain ⟨hp, h0, hfork⟩ := h
  have h0' : s.task i ≠ 0 := by rwa [hp]
  have hfair : (s.tasks p).Fair := hp ▸ hf i h0'
  cases st with
  | schedule hs =>
    obtain ⟨-, hle, hprio⟩ := schedule_renews (p := p) hs hfair
    exact ⟨hprio, hle⟩
  | timer hs => exact doTimer_counter hf h0' hp hs
  | @fork k q j hi hfree hq hj hc =>
    have hne : p ≠ q := by
      rintro rfl
      exact hfork k rfl
    show (update s.tasks q _ p).priority = _ ∧ _ ≤ (update s.tasks q _ p).counter.toNat + 0
    rw [update_of_ne hne]
    exact ⟨rfl, le_rfl⟩
  | run _ => exact ⟨rfl, le_rfl⟩
  | other _ hc =>
    obtain ⟨hcounter, hprio⟩ := hc p
    refine ⟨hprio, ?_⟩
    rw [← hcounter]
    exact le_rfl

/-- After time slices have been given out, every task has at least its priority. -/
lemma gives_counter (hf : s.Fair) (st : TimerStep s e s') (hg : s.GivesTime e) (hi : i ≠ 0) (h0 : s'.task i ≠ 0) :
    (s'.tasks (s'.task i)).priority.toNat ≤ (s'.tasks (s'.task i)).counter.toNat := by
  cases st with
  | @schedule n next s' hs =>
    have ht : s'.task = s.task := schedule_task hs
    have h0 : s'.task i ≠ 0 := h0
    show (s'.tasks (s'.task i)).priority.toNat ≤ _
    rw [ht] at h0 ⊢
    exact schedule_gives hf hg hs hi h0
  | @timer user n s' hs =>
    cases user with
    | false => exact hg.elim
    | true =>
      obtain ⟨hle, hx⟩ := hg
      have hzero : (s.setCounter 0).Fair := hf.setCounter fun ht => ht.spend
      rw [doTimer] at hs
      dsimp only at hs
      rw [count_sched, setCounter_twice, if_neg hle, if_pos rfl] at hs
      obtain ⟨⟨next, s₂⟩, hsel, e⟩ := Option.map_eq_some_iff.1 hs
      cases e
      have ht : s₂.task = (s.setCounter 0).task := schedule_task hsel
      have h0 : s₂.task i ≠ 0 := h0
      show (s₂.tasks (s₂.task i)).priority.toNat ≤ _
      rw [ht] at h0 ⊢
      exact schedule_gives hzero hx hsel hi h0
  | fork => exact hg.elim
  | run => exact hg.elim
  | other => exact hg.elim

/-- When time slices are given out, a task that can run has no time left, or uses up the last of it in this tick. -/
lemma gives_spent (hf : s.Fair) (hg : s.GivesTime e) (hr : s.Runnable i) :
    (s.tasks (s.task i)).counter.toNat ≤ tickOf (s.task i) s e s' := by
  have hleft : ∀ {t : SchedState}, t.Fair → t.task = s.task → t.checkSignals.Exhausted → t.Runnable i →
      (t.tasks (s.task i)).counter.toNat = 0 := by
    intro t ht htask hx hr
    obtain ⟨hr', heq⟩ := checkSignals_runnable hr
    have hz := hx.2 i hr'
    rw [heq, timeLeft, (ht i hr.2.1).toNat.1, htask] at hz
    exact_mod_cast hz
  cases e with
  | schedule => exact (hleft hf rfl hg hr).le
  | timer user =>
    cases user with
    | false => exact hg.elim
    | true =>
      obtain ⟨hle, hx⟩ := hg
      show _ ≤ if s.current = s.task i then 1 else 0
      by_cases hc : s.current = s.task i
      · rw [if_pos hc]
        rw [hc, (hf i hr.2.1).slt_iff] at hle
        exact Nat.le_of_not_lt hle
      · have hzero : (s.setCounter 0).Fair := hf.setCounter fun ht => ht.spend
        have hsame : (s.setCounter 0).tasks (s.task i) = s.tasks (s.task i) := by
          rw [setCounter_tasks, if_neg hc]
        have hr' : (s.setCounter 0).Runnable i := by
          refine ⟨hr.1, hr.2.1, ?_⟩
          show ((s.setCounter 0).tasks (s.task i)).state = _
          rw [hsame]
          exact hr.2.2
        have hz := hleft hzero rfl hx hr'
        rw [hsame] at hz
        rw [hz]
        exact Nat.zero_le _
  | fork => exact hg.elim
  | run => exact hg.elim
  | other => exact hg.elim

/-- **No task is passed over**: a task that can run from the time when time slices are given out, in the step `e`,
    until they are given out again, in the step `e'`, runs for at least as many ticks as its priority. -/
theorem runnable_tasks_run {s₁ s₂ : TimerState} {e' : TimerEvent} {tr : List (TimerEvent × TimerState)}
    (hr : timerSystem.Reach s) (st : TimerStep s e s₁) (hg : s.GivesTime e)
    (ex : timerSystem.Exec s₁ (tr ++ [(e', s₂)])) (hg' : (last s₁ tr).GivesTime e')
    (hrun : Always (fun s => s.task i = p ∧ s.Runnable i) s₁ tr)
    (hfork : Along (fun _ e _ => ∀ k, e ≠ .fork k p) s₁ tr) :
    (s₁.tasks p).priority.toNat ≤ cost (tickOf p) s₁ (tr ++ [(e', s₂)]) := by
  have hf : s.Fair := hr.inv (fun _ h => h) fun _ _ _ h st => step_fair h st
  have hf₁ := step_fair hf st
  have ex := ex.split.1
  obtain ⟨rfl, hrun₁⟩ := hrun.1
  have hstays : Along (Stays i (s₁.task i)) s₁ tr :=
    (hrun.along.and hfork).mono fun _ _ _ h => ⟨h.1.1, hrun₁.2.1, h.2⟩
  have hlast : (last s₁ tr).Fair := (ex.along_of_inv (I := fun s => s.Fair) (C := fun _ _ _ => True)
    (Q := fun _ _ _ => True) (fun _ _ _ h st _ => ⟨step_fair h st, trivial⟩) hf₁
    (.of_forall fun _ _ _ => trivial)).1.at_last
  have hspend := ex.le_cost (I := fun s => s.Fair) (v := fun s => (s.tasks (s₁.task i)).counter.toNat)
    (fun _ _ _ hf st h => ⟨step_fair hf st, (step_counter hf st h).2⟩) hf₁ hstays
  have hend : _ ≤ tickOf _ (last s₁ tr) e' s₂ := gives_spent hlast hg' hrun.at_last.2
  rw [hrun.at_last.1] at hend
  rw [cost_append, cost_singleton]
  calc (s₁.tasks (s₁.task i)).priority.toNat
      ≤ (s₁.tasks (s₁.task i)).counter.toNat := gives_counter hf st hg hrun₁.1 hrun₁.2.1
    _ ≤ ((last s₁ tr).tasks (s₁.task i)).counter.toNat + cost (tickOf (s₁.task i)) s₁ tr := hspend
    _ ≤ cost (tickOf (s₁.task i)) s₁ tr + tickOf (s₁.task i) (last s₁ tr) e' s₂ := by omega

/-- `init_task` and a task of priority 1 in slot 1, in its last tick. -/
def short : TimerState where
  task i := if i = 0 then vaKernel else if i = 1 then pageAddr 4 else 0
  tasks _ := { state := .running, counter := 1, priority := 1, alarm := 0, signal := 0 }
  current := pageAddr 4
  jiffies := 0
  utime _ := 0
  stime _ := 0

/-- The sample is fair. -/
lemma short_fair : short.Fair := by
  intro i _
  apply TaskStruct.Fair.of_toNat
  · show (1#64).toNat < 2 * (1#64).toNat
    decide
  · show 1 ≤ (1#64).toNat
    decide
  · show 2 * (1#64).toNat < 2 ^ 31
    decide

/-- Behind that tick. -/
def shortNext : TimerState := (short.doTimer true 2).getD short

/-- The task is switched to again. -/
def shortRun : TimerState := { shortNext with current := shortNext.task 1 }

set_option maxRecDepth 8000 in
/-- Between the last ticks of two time slices the task is switched to. -/
theorem runnable_tasks_run_short : ∃ s₂, timerSystem.Exec shortNext ([(.run 1, shortRun)] ++ [(.timer true, s₂)]) ∧
    (shortNext.tasks (pageAddr 4)).priority.toNat ≤
      cost (tickOf (pageAddr 4)) shortNext ([(.run 1, shortRun)] ++ [(.timer true, s₂)]) := by
  obtain ⟨s₁, e₁⟩ : ∃ s₁, short.doTimer true 2 = some s₁ := Option.isSome_iff_exists.1 (by decide)
  obtain ⟨s₂, e₂⟩ : ∃ s₂, shortRun.doTimer true 2 = some s₂ := Option.isSome_iff_exists.1 (by decide)
  have hnext : short.doTimer true 2 = some shortNext := by
    rw [shortNext, e₁]
    rfl
  have hrun : ∀ s ∈ [shortNext, shortRun], s.task 1 = pageAddr 4 ∧ s.Runnable 1 := by decide
  have ex : timerSystem.Exec shortNext ([(.run 1, shortRun)] ++ [(.timer true, s₂)]) :=
    .cons (.run (by decide)) (.cons (.timer e₂) .nil)
  refine ⟨s₂, ex, runnable_tasks_run (.init short_fair) (.timer hnext) (by decide) ex (by decide)
    (always_cons.2 ⟨hrun _ (.head _), always_nil.2 (hrun _ (.tail _ (.head _)))⟩) ⟨?_, trivial⟩⟩
  exact fun k hk => by cases hk

end TimerState

end OldLinux.Sched
