import OldLinux.Sched.Schedule
import OldLinux.Lib.FirstMax

/-!
# The choice of the next task

The selection loop of `schedule` (`kernel/sched.c`) settles on the first maximum of the counters of the
tasks that can run, from the last slot down, and new time slices make its second round the last. The time
slices are given out by `schedule` and `copy_process` (`kernel/fork.c`) and used up by `do_timer`, which
all keep them below twice the priority (`TaskStruct.Fair`).

Which task a switch goes to is left open in the runs here: the running task may become any entry of
`task[]`.
-/

namespace OldLinux.Sched
open Lib Function Mm

/-- The time slice of a task is within its bounds. -/
structure TaskStruct.Fair (t : TaskStruct) : Prop where
  counter_nonneg : 0 ≤ t.counter.toInt
  counter_lt : t.counter.toInt < 2 * t.priority.toInt
  priority_pos : 1 ≤ t.priority.toInt
  priority_int : 2 * t.priority.toInt < 2 ^ 31

namespace SchedState

/-- Every task of the table has a time slice within its bounds. -/
def Fair (s : SchedState) : Prop := ∀ i, s.task i ≠ 0 → (s.tasks (s.task i)).Fair

/-- The task in slot `i` can be selected. -/
def Runnable (s : SchedState) (i : Fin 64) : Prop :=
  i ≠ 0 ∧ s.task i ≠ 0 ∧ (s.tasks (s.task i)).state = .running

instance (s : SchedState) (i : Fin 64) : Decidable (s.Runnable i) :=
  inferInstanceAs (Decidable (_ ∧ _ ∧ _))

/-- The counter of the task in slot `i`. -/
def timeLeft (s : SchedState) (i : Fin 64) : Int := (s.tasks (s.task i)).counter.toInt

/-- There are tasks that can run, but none of them has time left. -/
def Exhausted (s : SchedState) : Prop := (∃ i, s.Runnable i) ∧ ∀ i, s.Runnable i → s.timeLeft i = 0

instance (s : SchedState) : Decidable s.Exhausted := inferInstanceAs (Decidable (_ ∧ _))

/-- `next` is the last of the tasks with most time left, or 0 if no task can run. -/
def Selects (s : SchedState) (next : Fin 64) : Prop :=
  (next = 0 ∧ ∀ i, ¬ s.Runnable i) ∨ (s.Runnable next ∧ ∀ i, s.Runnable i →
    s.timeLeft i < s.timeLeft next ∨ s.timeLeft i = s.timeLeft next ∧ i ≤ next)

/-- The states differ in the counters of tasks only. -/
def OnlyCounters (s s' : SchedState) : Prop :=
  s'.task = s.task ∧ s'.current = s.current ∧ s'.jiffies = s.jiffies ∧
    ∀ p, { s'.tasks p with counter := (s.tasks p).counter } = s.tasks p

end SchedState

/-! ## Time -/

/-- The scheduler with the times that `do_timer` counts. -/
structure TimerState extends SchedState where
  utime : BitVec 64 → BitVec 64
  stime : BitVec 64 → BitVec 64

/-- `current->counter = n`. -/
def SchedState.setCounter (s : SchedState) (n : BitVec 64) : SchedState :=
  { s with tasks := update s.tasks s.current { s.tasks s.current with counter := n } }

/-- The first lines of `do_timer`. -/
def TimerState.count (user : Bool) (s : TimerState) : TimerState :=
  if user then { s with utime := update s.utime s.current (s.utime s.current + 1) }
  else { s with stime := update s.stime s.current (s.stime s.current + 1) }

/-- `do_timer(regs)` up to its call of `do_signal`, where `user` is `user_mode(regs)`, with a bound on the
    turns of the selection loop. -/
def TimerState.doTimer (user : Bool) (n : Nat) (s : TimerState) : Option TimerState :=
  let s := s.count user
  let counter := (s.tasks s.current).counter - 1
  let s := { s with toSchedState := s.setCounter counter }
  if (0#64).slt counter then some s
  else
    let s := { s with toSchedState := s.setCounter 0 }
    if user then (s.schedule n).map fun r => { s with toSchedState := r.2 } else some s

/-- The fields that `copy_process` sets in the copy of the running task. -/
def TaskStruct.forked (t : TaskStruct) : TaskStruct :=
  { t with state := .running, counter := t.priority, signal := 0, alarm := 0 }

inductive TimerEvent where
  | schedule
  | timer (user : Bool)
  | fork (i : Fin 64) (p : BitVec 64)
  | run (i : Fin 64)
  | other

/-- The steps: a call of `schedule`, a tick, a fork by a task of the table, a switch to a task of the
    table, and anything else, which may change states and signals, release tasks and move the clock, but
    touches no counter and no priority. -/
inductive TimerStep : TimerState → TimerEvent → TimerState → Prop where
  | schedule {s n next s'} : s.toSchedState.schedule n = some (next, s') →
    TimerStep s .schedule { s with toSchedState := s' }
  | timer {s user n s'} : s.doTimer user n = some s' → TimerStep s (.timer user) s'
  | fork {s i p j} : i ≠ 0 → s.task i = 0 → IsPage p → s.task j ≠ 0 → s.current = s.task j →
    TimerStep s (.fork i p) { s with
      task := update s.task i p
      tasks := update s.tasks p (s.tasks s.current).forked
      utime := update s.utime p 0
      stime := update s.stime p 0 }
  | run {s i} : s.task i ≠ 0 → TimerStep s (.run i) { s with current := s.task i }
  | other {s task tasks current jiffies} : (∀ i, task i = s.task i ∨ task i = 0) →
    (∀ p, (tasks p).counter = (s.tasks p).counter ∧ (tasks p).priority = (s.tasks p).priority) →
    TimerStep s .other { s with task := task, tasks := tasks, current := current, jiffies := jiffies }

/-- The scheduler from any table whose time slices are within their bounds. -/
def timerSystem : System TimerState TimerEvent where
  init s := s.Fair
  step := TimerStep

namespace TaskStruct
variable {t : TaskStruct}

/-! ## The bounds -/

/-- The bounds in natural numbers. -/
lemma Fair.toNat (h : t.Fair) : t.counter.toInt = t.counter.toNat ∧ t.priority.toInt = t.priority.toNat ∧
    t.counter.toNat < 2 * t.priority.toNat ∧ 1 ≤ t.priority.toNat ∧ 2 * t.priority.toNat < 2 ^ 31 := by
  obtain ⟨h0, h1, h2, h3⟩ := h
  have hc := t.counter.isLt
  have hp := t.priority.isLt
  rw [BitVec.toInt_eq_toNat_cond] at h0 h1 h2 h3 ⊢
  rw [BitVec.toInt_eq_toNat_cond] at h1 ⊢
  split at h2
  · next hps =>
    split at h0
    · next hcs =>
      rw [if_pos hcs, if_pos hps] at h1
      rw [if_pos hps] at h3
      rw [if_pos hcs, if_pos hps]
      refine ⟨rfl, rfl, ?_, ?_, ?_⟩
      all_goals omega
    · omega
  · omega

/-- The bounds as numbers. -/
lemma Fair.of_toNat (h1 : t.counter.toNat < 2 * t.priority.toNat) (h2 : 1 ≤ t.priority.toNat)
    (h3 : 2 * t.priority.toNat < 2 ^ 31) : t.Fair := by
  have hc : t.counter.toInt = t.counter.toNat := BitVec.toInt_eq_toNat_of_lt (by omega)
  have hp : t.priority.toInt = t.priority.toNat := BitVec.toInt_eq_toNat_of_lt (by omega)
  refine ⟨?_, ?_, ?_, ?_⟩
  · rw [hc]
    omega
  · rw [hc, hp]
    omega
  · rw [hp]
    omega
  · rw [hp]
    omega

/-- A time slice may be shortened. -/
lemma Fair.shorten {n : BitVec 64} (h : t.Fair) (hn : n.toNat ≤ t.counter.toNat) :
    Fair { t with counter := n } := by
  obtain ⟨_, _, h1, h2, h3⟩ := h.toNat
  exact .of_toNat (Nat.lt_of_le_of_lt hn h1) h2 h3

/-- A tick. -/
lemma Fair.tick (h : t.Fair) (hpos : (0#64).slt (t.counter - 1) = true) :
    Fair { t with counter := t.counter - 1 } := by
  obtain ⟨_, _, h1, _, h3⟩ := h.toNat
  have hsub : (t.counter - 1).toNat = t.counter.toNat - 1 := by
    have hone : (1 : BitVec 64).toNat = 1 := rfl
    by_cases h0 : t.counter.toNat = 0
    · obtain e : t.counter = 0#64 := BitVec.eq_of_toNat_eq h0
      rw [e] at hpos
      exact absurd hpos (by decide)
    · rw [BitVec.toNat_sub, hone]
      omega
  exact h.shorten (by omega)

/-- The end of a time slice. -/
lemma Fair.spend (h : t.Fair) : Fair { t with counter := 0 } :=
  h.shorten (Nat.zero_le _)

/-- A new time slice. -/
lemma Fair.recharge (h : t.Fair) : t.recharge.Fair ∧ 0 < t.recharge.counter.toInt := by
  obtain ⟨_, _, h1, h2, h3⟩ := h.toNat
  have hmsb : t.counter.msb = false := by
    rw [BitVec.msb_eq_false_iff_two_mul_lt]
    omega
  have hn : t.recharge.counter.toNat = t.counter.toNat / 2 + t.priority.toNat := by
    rw [TaskStruct.recharge, BitVec.toNat_add, BitVec.sshiftRight_eq_of_msb_false hmsb,
      BitVec.toNat_ushiftRight, Nat.shiftRight_eq_div_pow]
    omega
  have hp : t.recharge.priority = t.priority := rfl
  have hf : t.recharge.Fair := by
    apply Fair.of_toNat
    · rw [hn, hp]
      omega
    · exact h2
    · exact h3
  refine ⟨hf, ?_⟩
  rw [hf.toNat.1, hn]
  omega

/-- Looking at the signals keeps the bounds. -/
lemma Fair.check {jiffies : BitVec 64} (h : t.Fair) : (t.check jiffies).Fair := by
  have hsame : (t.check jiffies).counter = t.counter ∧ (t.check jiffies).priority = t.priority := by
    rw [TaskStruct.check]
    split
    · split
      · exact ⟨rfl, rfl⟩
      · exact ⟨rfl, rfl⟩
    · split
      · exact ⟨rfl, rfl⟩
      · exact ⟨rfl, rfl⟩
  obtain ⟨_, _, h1, h2, h3⟩ := h.toNat
  apply Fair.of_toNat
  all_goals
    rw [hsame.2]
    try rw [hsame.1]
    assumption

/-- The time slice of a child. -/
lemma Fair.forked (h : t.Fair) : t.forked.Fair := by
  obtain ⟨_, _, _, h2, h3⟩ := h.toNat
  apply Fair.of_toNat
  · show t.priority.toNat < 2 * t.priority.toNat
    omega
  · exact h2
  · exact h3

/-- The counter fits the variable `c` of the selection loop. -/
lemma Fair.fits (h : t.Fair) : (t.counter.setWidth 32).signExtend 64 = t.counter := by
  obtain ⟨hc, _, h1, h2, h3⟩ := h.toNat
  apply BitVec.eq_of_toInt_eq
  rw [BitVec.toInt_signExtend_of_le (by decide), hc, BitVec.toInt_eq_toNat_of_lt]
  · rw [BitVec.toNat_setWidth]
    omega
  · rw [BitVec.toNat_setWidth]
    omega

end TaskStruct

namespace SchedState
variable {s s' : SchedState} {i j : Fin 64}

/-- Changing the tasks leaves the table. -/
lemma task_forTasks (f : TaskStruct → TaskStruct) : (s.forTasks f).task = s.task :=
  foldl_onTask_task _ _ _

/-- What keeps the bounds of each keeps those of all. -/
lemma Fair.forTasks {f : TaskStruct → TaskStruct} (h : s.Fair) (hf : ∀ t, t.Fair → (f t).Fair) :
    (s.forTasks f).Fair := by
  intro i hi
  rw [task_forTasks] at hi ⊢
  have hall := foldl_onTask (f := f) (P := TaskStruct.Fair) (Q := fun _ => True)
    (fun t ht => ⟨hf t ht, trivial⟩) slots s h i hi
  rw [SchedState.forTasks]
  exact hall.1

/-- Looking at all signals does. -/
lemma Fair.checkSignals (h : s.Fair) : s.checkSignals.Fair :=
  h.forTasks fun _ ht => ht.check

/-- Recharging keeps the bounds. -/
lemma Fair.recharge (h : s.Fair) : s.recharge.Fair :=
  h.forTasks fun _ ht => ht.recharge.1

/-- All slots but the first are looked at. -/
lemma mem_slots : i ∈ slots ↔ i ≠ 0 := by
  revert i
  decide

/-- The slots are looked at from the last one down. -/
lemma slots_descend : slots.Pairwise (· > ·) :=
  List.pairwise_reverse.2 (List.pairwise_lt_finRange 64).tail

/-- After new time slices every task has time left. -/
lemma recharge_timeLeft (h : s.Fair) (hi : i ≠ 0) (ht : s.task i ≠ 0) : 0 < s.recharge.timeLeft i := by
  have hall := foldl_onTask (f := TaskStruct.recharge) (P := TaskStruct.Fair)
    (Q := fun t => 0 < t.counter.toInt) (fun t ht => ht.recharge) slots s h i ht
  have hleft := hall.2 (.inl (mem_slots.2 hi))
  rw [timeLeft, SchedState.recharge, task_forTasks, SchedState.forTasks]
  exact hleft

/-! ## A recharge changes only counters -/

/-- Nothing done changes no counter. -/
lemma OnlyCounters.refl (s : SchedState) : OnlyCounters s s :=
  ⟨rfl, rfl, rfl, fun _ => rfl⟩

/-- Two changes of counters are one. -/
lemma OnlyCounters.trans {s'' : SchedState} (h : OnlyCounters s s') (h' : OnlyCounters s' s'') :
    OnlyCounters s s'' := by
  obtain ⟨ht, hc, hj, hp⟩ := h
  obtain ⟨ht', hc', hj', hp'⟩ := h'
  refine ⟨ht'.trans ht, hc'.trans hc, hj'.trans hj, fun p => ?_⟩
  rw [← hp p, ← hp' p]

/-- Recharging a task changes its counter only. -/
lemma onTask_recharge (s : SchedState) (i : Fin 64) : OnlyCounters s (onTask TaskStruct.recharge s i) := by
  rw [onTask]
  split
  · refine ⟨rfl, rfl, rfl, fun p => ?_⟩
    show { update s.tasks (s.task i) (s.tasks (s.task i)).recharge p with
      counter := (s.tasks p).counter } = s.tasks p
    by_cases hp : p = s.task i
    · subst hp
      rw [update_self]
      rfl
    · rw [update_of_ne hp]
  · exact .refl s

/-- Recharging changes the counters only. -/
lemma recharge_onlyCounters (s : SchedState) : OnlyCounters s s.recharge := by
  have hfold : ∀ (l : List (Fin 64)) (s : SchedState),
      OnlyCounters s (l.foldl (onTask TaskStruct.recharge) s) := by
    intro l
    induction l with
    | nil => exact .refl
    | cons i l ih =>
      intro s
      exact (onTask_recharge s i).trans (ih _)
  exact hfold slots s

/-- Who is runnable does not depend on the counters. -/
lemma OnlyCounters.runnable (h : OnlyCounters s s') : s'.Runnable i ↔ s.Runnable i := by
  obtain ⟨ht, _, _, hp⟩ := h
  have hstate : (s'.tasks (s.task i)).state = (s.tasks (s.task i)).state := by
    have h := congrArg TaskStruct.state (hp (s.task i))
    exact h
  rw [Runnable, Runnable, ht, hstate]

/-! ## The selection -/

/-- What the inner loop has found so far. -/
def Found (s : SchedState) (best : BitVec 32 × Fin 64) : Option (Fin 64) → Prop
  | none => best = (-1, 0)
  | some b => best = ((s.tasks (s.task b)).counter.setWidth 32, b) ∧ s.Runnable b

/-- The best so far after one more slot. -/
lemma visit_found {best : BitVec 32 × Fin 64} {o : Option (Fin 64)} (hf : s.Fair) (hi : i ≠ 0)
    (h : Found s best o) :
    Found s (s.visit best i) (if s.Runnable i then keepBest s.timeLeft o i else o) := by
  rw [visit]
  by_cases h0 : s.task i = 0
  · rw [if_pos h0, if_neg fun hr => hr.2.1 h0]
    exact h
  rw [if_neg h0]
  by_cases hs : (s.tasks (s.task i)).state = .running
  · have hr : s.Runnable i := ⟨hi, h0, hs⟩
    rw [if_pos hr]
    cases o with
    | none =>
      -- the sentinel -1 is below every counter
      have hlt : ((-1 : BitVec 32).signExtend 64).slt (s.tasks (s.task i)).counter = true := by
        have hneg : ((-1 : BitVec 32).signExtend 64).toInt = -1 := by decide
        have hge := (hf i h0).counter_nonneg
        rw [BitVec.slt_iff_toInt_lt, hneg]
        omega
      obtain rfl : best = (-1, 0) := h
      rw [if_pos ⟨hs, hlt⟩]
      exact ⟨rfl, hr⟩
    | some b =>
      obtain ⟨rfl, hb⟩ := h
      have hfit := (hf b hb.2.1).fits
      rw [keepBest, hfit]
      by_cases hlt : s.timeLeft b < s.timeLeft i
      · rw [if_pos hlt, if_pos ⟨hs, BitVec.slt_iff_toInt_lt.2 hlt⟩]
        exact ⟨rfl, hr⟩
      · rw [if_neg hlt, if_neg fun h => hlt (BitVec.slt_iff_toInt_lt.1 h.2)]
        exact ⟨rfl, hb⟩
  · rw [if_neg fun h => hs h.1, if_neg fun hr => hs hr.2.2]
    exact h

/-- The inner loop finds the first maximum of the tasks that can run. -/
lemma pick_found (hf : s.Fair) :
    Found s s.pick (firstMax s.timeLeft (slots.filter fun i => s.Runnable i)) := by
  have hfold : ∀ (l : List (Fin 64)) (best : BitVec 32 × Fin 64) (o : Option (Fin 64)),
      (∀ i ∈ l, i ≠ 0) → Found s best o →
      Found s (l.foldl s.visit best) ((l.filter fun i => s.Runnable i).foldl (keepBest s.timeLeft) o) := by
    intro l
    induction l with
    | nil => exact fun _ _ _ h => h
    | cons i l ih =>
      intro best o hl h
      have hstep := visit_found hf (hl i List.mem_cons_self) h
      have hl' : ∀ j ∈ l, j ≠ 0 := fun j hj => hl j (List.mem_cons_of_mem _ hj)
      rw [List.foldl_cons, List.filter_cons]
      by_cases hr : s.Runnable i
      · rw [if_pos hr] at hstep
        rw [if_pos (decide_eq_true hr), List.foldl_cons]
        exact ih _ _ hl' hstep
      · rw [if_neg hr] at hstep
        rw [if_neg (by simpa using hr)]
        exact ih _ _ hl' hstep
  exact hfold slots (-1, 0) none (fun i hi => mem_slots.1 hi) rfl

/-- The inner loop selects, and its counter is 0 exactly if all time is used up. -/
lemma pick_selects (hf : s.Fair) : s.Selects s.pick.2 ∧ (s.pick.1 = 0 ↔ s.Exhausted) := by
  have hmem : ∀ {i}, s.Runnable i → i ∈ slots.filter fun i => s.Runnable i := by
    intro i hr
    exact List.mem_filter.2 ⟨mem_slots.2 hr.1, decide_eq_true hr⟩
  have hfound := pick_found hf
  rcases firstMax_spec s.timeLeft (slots.filter fun i => s.Runnable i) with ⟨hnone, hnil⟩ | ⟨b, hb, hmax⟩
  · have hno : ∀ i, ¬ s.Runnable i := by
      intro i hr
      have hin := hmem hr
      rw [hnil] at hin
      cases hin
    rw [hnone] at hfound
    have hpick : s.pick = (-1, 0) := hfound
    rw [hpick]
    refine ⟨.inl ⟨rfl, hno⟩, ?_⟩
    constructor
    · intro h
      exact absurd h (by decide)
    · rintro ⟨⟨i, hr⟩, _⟩
      exact absurd hr (hno i)
  · rw [hb] at hfound
    obtain ⟨hpick, hr⟩ := hfound
    have hgreatest : ∀ i, s.Runnable i →
        s.timeLeft i < s.timeLeft b ∨ s.timeLeft i = s.timeLeft b ∧ i ≤ b :=
      fun i hi => hmax.greatest (slots_descend.filter _) (hmem hi)
    rw [hpick]
    refine ⟨.inr ⟨hr, hgreatest⟩, ?_⟩
    have hzero : (s.tasks (s.task b)).counter.setWidth 32 = 0 ↔ s.timeLeft b = 0 := by
      have hfit := (hf b hr.2.1).fits
      constructor
      · intro h
        rw [h] at hfit
        rw [timeLeft, ← hfit]
        decide
      · intro h
        have hc : (s.tasks (s.task b)).counter = 0 := BitVec.eq_of_toInt_eq h
        rw [hc]
        rfl
    rw [hzero]
    constructor
    · intro h0
      refine ⟨⟨b, hr⟩, fun i hi => ?_⟩
      have hge : 0 ≤ s.timeLeft i := (hf i hi.2.1).counter_nonneg
      rcases hgreatest i hi with hlt | ⟨he, _⟩
      · omega
      · omega
    · exact fun h => h.2 b hr

/-- The state in which the selection loop comes to an end. -/
def settled (s : SchedState) : SchedState := if s.Exhausted then s.recharge else s

/-- The settled state is fair. -/
lemma settled_fair (hf : s.Fair) : s.settled.Fair := by
  rw [settled]
  split
  · exact hf.recharge
  · exact hf

/-- Somebody has time left in the settled state. -/
lemma settled_not_exhausted (hf : s.Fair) : ¬ s.settled.Exhausted := by
  rw [settled]
  split
  · rintro ⟨⟨i, hr⟩, hall⟩
    have hold := (recharge_onlyCounters s).runnable.1 hr
    have hleft := recharge_timeLeft hf hold.1 hold.2.1
    rw [hall i hr] at hleft
    exact absurd hleft (by decide)
  · next h => exact h

/-- The selection loop needs at most two rounds. -/
lemma select_settled (hf : s.Fair) (n : Nat) : select (n + 2) s = some (s.settled.pick.2, s.settled) := by
  rw [select]
  by_cases h : s.Exhausted
  · have hs : s.settled = s.recharge := if_pos h
    have hnot := settled_not_exhausted hf
    rw [hs] at hnot
    rw [if_neg (not_not.2 ((pick_selects hf).2.2 h)), select, hs,
      if_pos fun h0 => hnot ((pick_selects hf.recharge).2.1 h0)]
  · have hs : s.settled = s := if_neg h
    rw [if_pos fun h0 => h ((pick_selects hf).2.1 h0), hs]

/-! ## Every run -/

/-- Selecting keeps the bounds. -/
lemma select_fair {n : Nat} {r : Fin 64 × SchedState} (hf : s.Fair) (e : select n s = some r) :
    r.2.Fair := by
  induction n generalizing s with
  | zero => cases e
  | succ n ih =>
    rw [select] at e
    split at e
    · cases e
      exact hf
    · exact ih hf.recharge e

/-- `schedule` keeps the bounds. -/
lemma schedule_fair {n : Nat} {next : Fin 64} (hf : s.Fair) (e : s.schedule n = some (next, s')) :
    s'.Fair := by
  rw [schedule, Option.map_eq_some_iff] at e
  obtain ⟨r, hsel, e⟩ := e
  cases e
  exact select_fair hf.checkSignals hsel

/-- Only the running task's counter is written. -/
lemma Fair.setCounter {n : BitVec 64} (h : s.Fair)
    (hn : (s.tasks s.current).Fair → TaskStruct.Fair { s.tasks s.current with counter := n }) :
    (s.setCounter n).Fair := by
  intro i hi
  show (update s.tasks s.current _ (s.task i)).Fair
  by_cases hc : s.task i = s.current
  · rw [hc, update_self]
    exact hn (hc ▸ h i hi)
  · rw [update_of_ne hc]
    exact h i hi

end SchedState

namespace TimerState
open SchedState
variable {s s' : TimerState}

/-- Counting the time of a task leaves the scheduler. -/
lemma count_sched (user : Bool) : (s.count user).toSchedState = s.toSchedState := by
  rw [count]
  split
  · rfl
  · rfl

/-- The last value written stays. -/
lemma setCounter_twice (s : SchedState) (n n' : BitVec 64) :
    (s.setCounter n).setCounter n' = s.setCounter n' := by
  have hrow : (s.setCounter n).tasks s.current = { s.tasks s.current with counter := n } :=
    update_self _ _ _
  have hsame : (s.setCounter n).current = s.current := rfl
  rw [SchedState.setCounter, hsame, hrow, SchedState.setCounter, SchedState.setCounter]
  dsimp only
  rw [update_idem]

/-- `do_timer` keeps the bounds. -/
lemma doTimer_fair {user : Bool} {n : Nat} (hf : s.Fair) (e : s.doTimer user n = some s') : s'.Fair := by
  have hzero : (s.setCounter 0).Fair := hf.setCounter fun ht => ht.spend
  rw [doTimer] at e
  dsimp only at e
  rw [count_sched, setCounter_twice] at e
  split at e
  · next hpos =>
    cases e
    exact hf.setCounter fun ht => ht.tick hpos
  · split at e
    · obtain ⟨r, hs, e⟩ := Option.map_eq_some_iff.1 e
      cases e
      exact schedule_fair hzero hs
    · cases e
      exact hzero

/-- One step keeps the bounds. -/
lemma step_fair {e : TimerEvent} (hf : s.Fair) (st : TimerStep s e s') : s'.Fair := by
  cases st with
  | schedule hs => exact schedule_fair hf hs
  | timer hs => exact doTimer_fair hf hs
  | @fork i p j hi hfree hp hj hc =>
    intro k hk
    show (update s.tasks p _ (update s.task i p k)).Fair
    have hk : update s.task i p k ≠ 0 := hk
    by_cases hkp : update s.task i p k = p
    · rw [hkp, update_self, hc]
      exact (hf j hj).forked
    · have hki : k ≠ i := by
        rintro rfl
        exact hkp (update_self _ _ _)
      rw [update_of_ne hkp]
      rw [update_of_ne hki] at hk ⊢
      exact hf k hk
  | run _ => exact hf
  | @other task tasks _ _ ht hc =>
    intro i hi
    show (tasks (task i)).Fair
    obtain ⟨hcounter, hpriority⟩ := hc (task i)
    cases ht i with
    | inl h =>
      have hi : task i ≠ 0 := hi
      have hold := hf i (h ▸ hi)
      rw [← h] at hold
      obtain ⟨h0, h1, h2, h3⟩ := hold
      refine ⟨?_, ?_, ?_, ?_⟩
      · rw [hcounter]
        exact h0
      · rw [hcounter, hpriority]
        exact h1
      · rw [hpriority]
        exact h2
      · rw [hpriority]
        exact h3
    | inr h => exact absurd h hi

/-- **The choice of the next task**: from a table whose time slices are within their bounds, the selection
    loop ends in the first round, or in the second if no task that can run has time left; it selects the
    last task with most time left; new time slices change only counters; and all states of a run have
    such a table. -/
theorem schedule_selects {tr : List (TimerEvent × TimerState)} (hf : timerSystem.init s)
    (ex : timerSystem.Exec s tr) :
    (∀ n, select (n + 2) s.toSchedState = some (s.settled.pick.2, s.settled)) ∧
      s.settled.Selects s.settled.pick.2 ∧ OnlyCounters s.toSchedState s.recharge ∧
      Always (fun s => s.toSchedState.Fair) s tr := by
  refine ⟨select_settled hf, (pick_selects (settled_fair hf)).1, recharge_onlyCounters _, ?_⟩
  have hstep : ∀ s e s', SchedState.Fair s.toSchedState → TimerStep s e s' → True →
      SchedState.Fair s'.toSchedState ∧ True :=
    fun _ _ _ h st _ => ⟨step_fair h st, trivial⟩
  exact (ex.along_of_inv (C := fun _ _ _ => True) hstep hf (Along.of_forall fun _ _ _ => trivial)).1

/-- `init_task` and a task in slot 1, which have used up their time but for one tick. -/
def pair : TimerState where
  task i := if i = 0 then vaKernel else if i = 1 then pageAddr 4 else 0
  tasks _ := { state := .running, counter := 1, priority := 15, alarm := 0, signal := 0 }
  current := pageAddr 4
  jiffies := 0
  utime _ := 0
  stime _ := 0

/-- The last tick of the task in slot 1. -/
theorem schedule_selects_pair : ∃ s', timerSystem.Exec pair [(TimerEvent.timer false, s')] ∧
    (∀ n, select (n + 2) pair.toSchedState = some (pair.settled.pick.2, pair.settled)) ∧
      pair.settled.Selects pair.settled.pick.2 ∧ OnlyCounters pair.toSchedState pair.recharge ∧
      Always (fun s => s.toSchedState.Fair) pair [(TimerEvent.timer false, s')] := by
  have hf : pair.Fair := by
    intro i _
    apply TaskStruct.Fair.of_toNat
    · show (1#64).toNat < 2 * (15#64).toNat
      decide
    · show 1 ≤ (15#64).toNat
      decide
    · show 2 * (15#64).toNat < 2 ^ 31
      decide
  have hstep : ∃ s', pair.doTimer false 0 = some s' := ⟨_, rfl⟩
  obtain ⟨s', e⟩ := hstep
  have ex : timerSystem.Exec pair [(TimerEvent.timer false, s')] := .cons (.timer e) .nil
  exact ⟨s', ex, schedule_selects hf ex⟩

end TimerState

end OldLinux.Sched
