import OldLinux.Sched.WaitQueue
import OldLinux.Mm.Allocator

/-!
# The scheduler

Model of `schedule` and of the end of `context_switch` (`kernel/sched.c`, `kernel/entry.S`): the loop
over alarms and signals, the selection loop, and the pointer that is handed to `context_switch`,
which becomes `tp` and so `current`. The selection loop may go round for ever, so it has a bound on
its turns.

`task[]` holds pointers, 0 for a free slot. The table of a run starts with `init_task` alone, which
lies in the kernel image, and gets its other entries from `get_two_free_pages` in `copy_process`, so
all entries in use are addresses of the kernel half (`Kernel`). The selection is right
(`select_runnable`), but `schedule` passes the index itself as a pointer: `schedule_never_switches`.
-/

namespace OldLinux.Sched
open Lib Function Mm

/-- What `schedule` uses of a `task_struct`. -/
structure TaskStruct where
  state : TaskState
  counter : BitVec 64
  priority : BitVec 64
  alarm : BitVec 64
  signal : BitVec 64

/-- `1<<(SIGALRM-1)`. -/
def sigAlrm : BitVec 64 := 0x2000#64

/-- The body of the first loop of `schedule`, on a task. -/
def TaskStruct.check (jiffies : BitVec 64) (t : TaskStruct) : TaskStruct :=
  let t := if t.alarm ≠ 0 ∧ t.alarm.slt jiffies then
      { t with signal := t.signal ||| sigAlrm, alarm := 0 } else t
  if t.signal ≠ 0 ∧ t.state = .interruptible then { t with state := .running } else t

/-- The body of the loop that gives new time slices: `counter = (counter >> 1) + priority`. -/
def TaskStruct.recharge (t : TaskStruct) : TaskStruct :=
  { t with counter := t.counter.sshiftRight 1 + t.priority }

/-- `task[]` with the structures it points to, the running task and `jiffies`. -/
structure SchedState where
  task : Fin 64 → BitVec 64
  tasks : BitVec 64 → TaskStruct
  current : BitVec 64
  jiffies : BitVec 64

namespace SchedState

/-- The slots from `LAST_TASK` down to the one after `FIRST_TASK`. -/
def slots : List (Fin 64) := (List.finRange 64).tail.reverse

/-- A turn of such a loop: `if (*p) ..`. -/
def onTask (f : TaskStruct → TaskStruct) (s : SchedState) (i : Fin 64) : SchedState :=
  if s.task i ≠ 0 then { s with tasks := update s.tasks (s.task i) (f (s.tasks (s.task i))) } else s

/-- A loop of `schedule` over the slots in use. -/
def forTasks (s : SchedState) (f : TaskStruct → TaskStruct) : SchedState := slots.foldl (onTask f) s

/-- The first loop of `schedule`. -/
def checkSignals (s : SchedState) : SchedState := s.forTasks (TaskStruct.check s.jiffies)

/-- The loop that gives new time slices. -/
def recharge (s : SchedState) : SchedState := s.forTasks TaskStruct.recharge

/-- The body of the inner selection loop; `c` is an `int`. -/
def visit (s : SchedState) (best : BitVec 32 × Fin 64) (i : Fin 64) : BitVec 32 × Fin 64 :=
  let t := s.tasks (s.task i)
  if s.task i = 0 then best
  else if t.state = .running ∧ (best.1.signExtend 64).slt t.counter then (t.counter.setWidth 32, i)
  else best

/-- The inner selection loop: `c` and `next`. -/
def pick (s : SchedState) : BitVec 32 × Fin 64 := slots.foldl s.visit (-1, 0)

/-- The selection loop of `schedule`, with `n` turns to go. -/
def select : Nat → SchedState → Option (Fin 64 × SchedState)
  | 0, _ => none
  | n + 1, s => if s.pick.1 ≠ 0 then some (s.pick.2, s) else select n s.recharge

/-- The second argument of `context_switch(current, next)`: the index, converted to a pointer. -/
def nextPointer (next : Fin 64) : BitVec 64 := .ofNat 64 next

/-- `context_switch(prev, next)` and `__switch_to`: the page directory and the registers are loaded from
    `*next`, and `tp` becomes `next`. -/
def contextSwitch (s : SchedState) (next : BitVec 64) : SchedState := { s with current := next }

/-- `schedule()`, with a bound on the turns of the selection loop: the index selected, and the state
    after the switch. -/
def schedule (n : Nat) (s : SchedState) : Option (Fin 64 × SchedState) :=
  (select n s.checkSignals).map fun r => (r.1, r.2.contextSwitch (nextPointer r.1))

end SchedState

/-- What changes the state of the scheduler: a fork puts a new task into a free slot, a task is
    released, `schedule` is called, and anything else that happens to the tasks and the clock. -/
inductive SchedEvent where
  | fork (i : Fin 64) (p : BitVec 64)
  | release (i : Fin 64)
  | schedule
  | other

/-- The steps of the scheduler. The pointer of a new task comes from `get_two_free_pages`. -/
inductive SchedStep : SchedState → SchedEvent → SchedState → Prop where
  | fork {s i p t} : i ≠ 0 → s.task i = 0 → IsPage p →
    SchedStep s (.fork i p) { s with task := update s.task i p, tasks := update s.tasks p t }
  | release {s i} : i ≠ 0 →
    SchedStep s (.release i) { s with task := update s.task i 0 }
  | schedule {s n next s'} : s.schedule n = some (next, s') →
    SchedStep s .schedule s'
  | other {s tasks current jiffies} :
    SchedStep s .other { s with tasks := tasks, current := current, jiffies := jiffies }

/-- The scheduler from `sched_init` on: only `init_task`, which is linked into the kernel half. -/
def schedSystem : System SchedState SchedEvent where
  init s := vaKernel ≤ s.task 0 ∧ ∀ i, i ≠ 0 → s.task i = 0
  step := SchedStep

/-- A call of `schedule` selects a task, hands its entry of `task[]` to `context_switch`, and leaves
    `task[0]` or a task in state `TASK_RUNNING` running. -/
def SwitchesToSelected (s : SchedState) : Prop :=
  ∃ n next s', s.schedule n = some (next, s') ∧ SchedState.nextPointer next = s.task next ∧
    ∃ i, s'.current = s'.task i ∧ s'.task i ≠ 0 ∧
      (i = 0 ∨ (s'.tasks (s'.task i)).state = .running)

namespace SchedState

/-! ## The selection -/

variable {s : SchedState}

/-- Changing a task leaves the table. -/
lemma onTask_task (f : TaskStruct → TaskStruct) (s : SchedState) (i : Fin 64) :
    (onTask f s i).task = s.task := by
  rw [onTask]
  split <;> rfl

/-- Changing many tasks leaves the table. -/
lemma foldl_onTask_task (f : TaskStruct → TaskStruct) (l : List (Fin 64)) (s : SchedState) :
    (l.foldl (onTask f) s).task = s.task := by
  induction l generalizing s with
  | nil => rfl
  | cons i l ih => rw [List.foldl_cons, ih, onTask_task]

/-- Selecting leaves it. -/
lemma select_task {n : Nat} {next : Fin 64} {s' : SchedState} (h : select n s = some (next, s')) :
    s'.task = s.task := by
  induction n generalizing s with
  | zero => cases h
  | succ n ih =>
    rw [select] at h
    split at h
    · cases h
      rfl
    · rw [ih h]
      exact foldl_onTask_task _ _ _

/-- The inner loop settles on slot 0 or on a task that can run. -/
lemma pick_runnable (s : SchedState) :
    s.pick.2 = 0 ∨ (s.task s.pick.2 ≠ 0 ∧ (s.tasks (s.task s.pick.2)).state = .running) := by
  have key : ∀ (l : List (Fin 64)) (best : BitVec 32 × Fin 64),
      (best.2 = 0 ∨ (s.task best.2 ≠ 0 ∧ (s.tasks (s.task best.2)).state = .running)) →
      ((l.foldl s.visit best).2 = 0 ∨ (s.task (l.foldl s.visit best).2 ≠ 0 ∧
        (s.tasks (s.task (l.foldl s.visit best).2)).state = .running)) := by
    intro l
    induction l with
    | nil => exact fun _ h => h
    | cons i l ih =>
      intro best h
      rw [List.foldl_cons]
      apply ih
      rw [visit]
      split
      · exact h
      · next h0 =>
        split
        · next hr => exact .inr ⟨h0, hr.1⟩
        · exact h
  exact key slots (-1, 0) (.inl rfl)

/-- The selection loop chooses `task[0]` or a task in state `TASK_RUNNING`. -/
lemma select_runnable {n : Nat} {next : Fin 64} {s' : SchedState} (h : select n s = some (next, s')) :
    next = 0 ∨ (s'.task next ≠ 0 ∧ (s'.tasks (s'.task next)).state = .running) := by
  induction n generalizing s with
  | zero => cases h
  | succ n ih =>
    rw [select] at h
    split at h
    · cases h
      exact pick_runnable _
    · exact ih h

/-- `schedule` leaves the table. -/
lemma schedule_task {n : Nat} {next : Fin 64} {s' : SchedState} (h : s.schedule n = some (next, s')) :
    s'.task = s.task := by
  rw [schedule, Option.map_eq_some_iff] at h
  obtain ⟨r, hsel, e⟩ := h
  cases e
  exact (select_task hsel).trans (foldl_onTask_task _ _ _)

/-! ## Every run -/

/-- The entries in use are addresses of the kernel half, and `task[0]` is one. -/
structure Kernel (s : SchedState) : Prop where
  first : s.task 0 ≠ 0
  high : ∀ i, s.task i ≠ 0 → vaKernel ≤ s.task i

/-- Another slot than the first is set to null or to an address of the kernel half. -/
lemma Kernel.set {s' : SchedState} {i : Fin 64} {p : BitVec 64} (h : s.Kernel) (hi : i ≠ 0)
    (hp : p ≠ 0 → vaKernel ≤ p) (ht : s'.task = update s.task i p) : s'.Kernel := by
  refine ⟨?_, ?_⟩
  · rw [ht, update_of_ne (Ne.symm hi)]
    exact h.first
  · intro j hj
    rw [ht] at hj ⊢
    by_cases e : j = i
    · subst e
      rw [update_self] at hj ⊢
      exact hp hj
    · rw [update_of_ne e] at hj ⊢
      exact h.high j hj

/-- Task 0 stays what it is. -/
lemma Kernel.step {e : SchedEvent} {s' : SchedState} (h : s.Kernel) (st : SchedStep s e s') :
    s'.Kernel := by
  cases st with
  | fork hi _ hp => exact h.set hi (fun _ => BitVec.le_trans (by decide) hp.2.1) rfl
  | release hi => exact h.set hi (fun h0 => (h0 rfl).elim) rfl
  | schedule hs =>
    have ht := schedule_task hs
    refine ⟨?_, ?_⟩
    · rw [ht]
      exact h.first
    · rw [ht]
      exact h.high
  | other => exact ⟨h.first, h.high⟩

/-- Task 0 is what it is at first. -/
lemma Kernel.init (h : schedSystem.init s) : s.Kernel := by
  refine ⟨?_, ?_⟩
  · intro e
    have h0 := h.1
    rw [e] at h0
    exact absurd h0 (by decide)
  · intro i hi
    by_cases e : i = 0
    · subst e
      exact h.1
    · exact (hi (h.2 i e)).elim

/-- An index is no address of the kernel half. -/
lemma nextPointer_ne {next : Fin 64} {p : BitVec 64} (h : vaKernel ≤ p) : nextPointer next ≠ p := by
  rintro rfl
  rw [BitVec.le_def, nextPointer, BitVec.toNat_ofNat] at h
  have hva : vaKernel.toNat = 0xFFFFFFC000000000 := by decide
  have hn := next.isLt
  omega

/-- In every reachable state `schedule` never hands the entry it selected to `context_switch`, and
    after every call the running task is no entry of `task[]` at all. -/
theorem schedule_never_switches (hr : schedSystem.Reach s) :
    ¬ SwitchesToSelected s ∧
    ∀ n next s', s.schedule n = some (next, s') →
      nextPointer next ≠ s'.task next ∧ ∀ i, s'.task i ≠ 0 → s'.current ≠ s'.task i := by
  have h : s.Kernel := hr.inv (fun _ => Kernel.init) fun _ _ _ h st => h.step st
  have key : ∀ n next s', s.schedule n = some (next, s') →
      nextPointer next ≠ s'.task next ∧ ∀ i, s'.task i ≠ 0 → s'.current ≠ s'.task i := by
    intro n next s' hs
    have ht := schedule_task hs
    rw [schedule, Option.map_eq_some_iff] at hs
    obtain ⟨⟨i, s₁⟩, hsel, e⟩ := hs
    cases e
    refine ⟨?_, ?_⟩
    · have hnext : s.task i ≠ 0 := by
        have hsr := select_task hsel
        rcases select_runnable hsel with rfl | ⟨hne, _⟩
        · exact h.first
        · rw [← ht]
          exact hne
      rw [ht]
      exact nextPointer_ne (h.high i hnext)
    · intro j hj
      rw [ht] at hj ⊢
      exact nextPointer_ne (h.high j hj)
  refine ⟨?_, key⟩
  rintro ⟨n, next, s', hs, _, i, hcur, hi, _⟩
  exact (key n next s' hs).2 i hi hcur

/-! ## The selection comes to an end -/

/-- A time slice is small and the priority is positive and small. -/
def Sane (t : TaskStruct) : Prop :=
  t.counter.toNat < 2 ^ 31 ∧ 0 < t.priority.toNat ∧ t.priority.toNat < 2 ^ 30

/-- A sane task is recharged above 0. -/
lemma Sane.recharge {t : TaskStruct} (h : Sane t) :
    Sane t.recharge ∧ t.recharge.counter.setWidth 32 ≠ 0 := by
  obtain ⟨hc, hp, hp'⟩ := h
  have hmsb : t.counter.msb = false := by
    rw [BitVec.msb_eq_false_iff_two_mul_lt]
    omega
  have hn : t.recharge.counter.toNat = t.counter.toNat / 2 + t.priority.toNat := by
    rw [TaskStruct.recharge, BitVec.toNat_add, BitVec.sshiftRight_eq_of_msb_false hmsb,
      BitVec.toNat_ushiftRight, Nat.shiftRight_eq_div_pow]
    omega
  refine ⟨⟨by omega, hp, hp'⟩, ?_⟩
  intro e
  have he := congrArg BitVec.toNat e
  have h0 : (0 : BitVec 32).toNat = 0 := rfl
  rw [BitVec.toNat_setWidth, hn, h0] at he
  omega

/-- Looking at its signals leaves it sane. -/
lemma Sane.check {t : TaskStruct} {jiffies : BitVec 64} (h : Sane t) : Sane (t.check jiffies) := by
  rw [TaskStruct.check]
  split <;> split <;> exact h

/-- The task that is changed. -/
lemma onTask_of_eq {f : TaskStruct → TaskStruct} {i j : Fin 64} (hj : s.task j ≠ 0)
    (e : s.task j = s.task i) :
    (onTask f s i).tasks (s.task j) = f (s.tasks (s.task j)) := by
  rw [e] at hj ⊢
  rw [onTask, if_pos hj]
  exact update_self _ _ _

/-- The tasks that are not changed. -/
lemma onTask_of_ne {f : TaskStruct → TaskStruct} {i j : Fin 64} (e : s.task j ≠ s.task i) :
    (onTask f s i).tasks (s.task j) = s.tasks (s.task j) := by
  rw [onTask]
  split
  · exact update_of_ne e _ _
  · rfl

/-- A loop over the slots keeps what its body keeps, and brings about on each slot in its list what its
    body brings about. -/
lemma foldl_onTask {f : TaskStruct → TaskStruct} {P Q : TaskStruct → Prop}
    (hf : ∀ t, P t → P (f t) ∧ Q (f t)) (l : List (Fin 64)) :
    ∀ s : SchedState, (∀ j, s.task j ≠ 0 → P (s.tasks (s.task j))) → ∀ j, s.task j ≠ 0 →
      P ((l.foldl (onTask f) s).tasks (s.task j)) ∧
      (j ∈ l ∨ Q (s.tasks (s.task j)) → Q ((l.foldl (onTask f) s).tasks (s.task j))) := by
  induction l with
  | nil =>
    intro s hP j hj
    refine ⟨hP j hj, ?_⟩
    rintro (hm | hq)
    · cases hm
    · exact hq
  | cons i l ih =>
    intro s hP j hj
    have hP' : ∀ j, (onTask f s i).task j ≠ 0 → P ((onTask f s i).tasks ((onTask f s i).task j)) := by
      intro j hj
      rw [onTask_task] at hj ⊢
      by_cases e : s.task j = s.task i
      · rw [onTask_of_eq hj e]
        exact (hf _ (hP j hj)).1
      · rw [onTask_of_ne e]
        exact hP j hj
    have hj' : (onTask f s i).task j ≠ 0 := by rwa [onTask_task]
    obtain ⟨hp, hq⟩ := ih (onTask f s i) hP' j hj'
    rw [onTask_task] at hp hq
    rw [List.foldl_cons]
    refine ⟨hp, ?_⟩
    intro h
    apply hq
    by_cases e : s.task j = s.task i
    · right
      rw [onTask_of_eq hj e]
      exact (hf _ (hP j hj)).2
    · rw [onTask_of_ne e]
      rcases h with hm | hQ
      · rcases List.mem_cons.1 hm with rfl | hm
        · exact (e rfl).elim
        · exact .inl hm
      · exact .inr hQ

/-- If no running task is out of time, the inner loop settles on one or finds none. -/
lemma pick_ne_zero (h : ∀ i ∈ slots, s.task i ≠ 0 → (s.tasks (s.task i)).counter.setWidth 32 ≠ 0) :
    s.pick.1 ≠ 0 := by
  have key : ∀ (l : List (Fin 64)) (best : BitVec 32 × Fin 64), (∀ i ∈ l, i ∈ slots) → best.1 ≠ 0 →
      (l.foldl s.visit best).1 ≠ 0 := by
    intro l
    induction l with
    | nil => exact fun _ _ hb => hb
    | cons i l ih =>
      intro best hl hb
      rw [List.foldl_cons]
      apply ih _ fun j hj => hl j (List.mem_cons_of_mem _ hj)
      rw [visit]
      split
      · exact hb
      · next h0 =>
        split
        · exact h i (hl i List.mem_cons_self) h0
        · exact hb
  exact key slots (-1, 0) (fun _ h => h) (by decide)

/-- When the tasks are sane, two turns of the selection loop are enough. -/
theorem schedule_ends (h : ∀ j, s.task j ≠ 0 → Sane (s.tasks (s.task j))) :
    ∃ next s', s.schedule 2 = some (next, s') := by
  have hc : ∀ j, s.checkSignals.task j ≠ 0 →
      Sane (s.checkSignals.tasks (s.checkSignals.task j)) := by
    have ht : s.checkSignals.task = s.task := foldl_onTask_task _ _ _
    intro j hj
    rw [ht] at hj ⊢
    have key := foldl_onTask (f := TaskStruct.check s.jiffies) (P := Sane) (Q := fun _ => True)
      (fun t hs => ⟨hs.check, trivial⟩) slots s h j hj
    rw [checkSignals, forTasks]
    exact key.1
  have hsel : ∃ r, select 2 s.checkSignals = some r := by
    by_cases h0 : s.checkSignals.pick.1 ≠ 0
    · exact ⟨_, if_pos h0⟩
    · have h1 : s.checkSignals.recharge.pick.1 ≠ 0 := by
        apply pick_ne_zero
        have ht : s.checkSignals.recharge.task = s.checkSignals.task := foldl_onTask_task _ _ _
        intro i hi hne
        rw [ht] at hne ⊢
        have key := foldl_onTask (f := TaskStruct.recharge) (P := Sane)
          (Q := fun t => t.counter.setWidth 32 ≠ 0) (fun t hs => hs.recharge) slots s.checkSignals hc i hne
        rw [recharge, forTasks]
        exact key.2 (.inl hi)
      refine ⟨_, (if_neg h0).trans (if_pos h1)⟩
  obtain ⟨r, hr⟩ := hsel
  exact ⟨_, _, by rw [schedule, hr]; rfl⟩

/-- The state after `sched_init`, with `init_task` at the start of the kernel image. -/
def booted : SchedState where
  task i := if i = 0 then vaKernel else 0
  tasks _ := { state := .running, counter := 15, priority := 15, alarm := 0, signal := 0 }
  current := vaKernel
  jiffies := 0

/-- The sample is initial. -/
lemma booted_init : schedSystem.init booted := by
  refine ⟨?_, ?_⟩
  · exact BitVec.le_refl _
  · intro i hi
    exact if_neg hi

/-- With `init_task` alone `schedule` comes to an end and leaves a null pointer running. -/
theorem schedule_never_switches_booted :
    (∃ next s', booted.schedule 2 = some (next, s') ∧ s'.current ≠ s'.task 0) ∧
    ¬ SwitchesToSelected booted := by
  have hr : schedSystem.Reach booted := .init booted_init
  obtain ⟨hno, hall⟩ := schedule_never_switches hr
  have hsane : ∀ j, booted.task j ≠ 0 → Sane (booted.tasks (booted.task j)) := by
    intro j _
    show 15 < 2 ^ 31 ∧ 0 < 15 ∧ 15 < 2 ^ 30
    decide
  obtain ⟨next, s', hs⟩ := schedule_ends hsane
  have h0 : s'.task 0 ≠ 0 := by
    rw [schedule_task hs]
    decide
  exact ⟨⟨next, s', hs, (hall 2 next s' hs).2 0 h0⟩, hno⟩

/-- `schedule` selects index 0 for `init_task` and hands over the pointer 0. -/
theorem schedule_hands_null_booted :
    schedSystem.Reach booted ∧
    (booted.schedule 1).map (fun r => (r.1, nextPointer r.1, r.2.current, r.2.task r.1)) =
      some (0, 0, 0, 0xFFFFFFC000000000#64) := by
  exact ⟨.init booted_init, by decide +kernel⟩

end SchedState

end OldLinux.Sched
