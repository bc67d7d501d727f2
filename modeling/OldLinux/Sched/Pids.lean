import OldLinux.Sched.Fork
import OldLinux.Sched.Zombies

/-!
# Process numbers

Model of `find_empty_process` and of `copy_process` (`kernel/fork.c`) on `task[]` and `last_pid`, and of
the runs in which they take the place of the fork of `Sched.Processes`. The loop behind `repeat` has a
number of turns to go; that it ends, from 65 turns on always in the same way, is part of
`find_empty_process_pids`. A fork that succeeds is a fork of the tasks (`copyProcess_step`), so that what
holds of their steps holds here: no step gives two tasks one pid.
-/

namespace OldLinux.Sched.Pids
open Lib Function Mm ForkState Tasks

/-- The tasks and `last_pid`. -/
structure State where
  tasks : Tasks
  lastPid : BitVec 64

/-- The loop behind `repeat`: some task has the pid. -/
def pidInUse (s : Tasks) (pid : BitVec 64) : Bool :=
  (List.finRange 64).any fun i => (s.task i).any fun p => p.pid = pid

/-- The first free slot behind slot 0. -/
def freeSlot (s : Tasks) : Option (Fin 64) := firstSlot fun i => (s.task i).isNone

/-- `find_empty_process()`, with `turns` turns of the loop to go; `none` is `-EAGAIN`. -/
def findEmptyProcess (turns : Nat) : Prog State (Option (Fin 64)) := do
  let s ← Prog.get
  match search (pidInUse s.tasks) turns s.lastPid with
  | none => Prog.fault
  | some pid =>
    Prog.modify fun s => { s with lastPid := pid }
    pure (freeSlot s.tasks)

/-- `copy_process(regs)`; `page` is what `get_two_free_pages` returns, where `copy_page_tables` succeeds
    too, and `memory` the memory afterwards. -/
def copyProcess (turns : Nat) (page : Option (BitVec 64)) (memory : Memory) :
    Prog State (Option (BitVec 32)) := do
  match ← findEmptyProcess turns with
  | none => pure none
  | some nr =>
    Prog.modify fun s => { s with tasks := { s.tasks with memory := memory } }
    match page with
    | none => pure none
    | some p =>
      let s ← Prog.get
      match s.tasks.cur with
      | none => Prog.fault
      | some c =>
        Prog.modify fun s =>
          { s with tasks := { s.tasks with task := update s.tasks.task nr (some (child c s.lastPid p)) } }
        pure (some (s.lastPid.setWidth 32))

/-- A call of `fork`, or another event of the tasks. -/
inductive Event where
  | fork
  | task (e : TaskEvent)

/-- The steps. -/
inductive Step : State → Event → State → Prop where
  | fork {s turns page memory r s'} : s.tasks.Alive →
    copyProcess turns page memory s = .ret (r, s') → Step s .fork s'
  | task {s e tasks} : (∀ nr, e ≠ .fork nr) → TaskStep s.tasks e tasks →
    Step s (.task e) { s with tasks := tasks }

/-- The tasks from `sched_init` on. -/
def system : System State Event where
  init s := taskSystem.init s.tasks ∧ s.lastPid = 0
  step := Step

/-- No two tasks have one pid. -/
def DistinctPids (s : Tasks) : Prop :=
  ∀ i j t u, s.task i = some t → s.task j = some u → t.pid = u.pid → i = j

/-- The slot is the lowest free one behind slot 0; there is none exactly when no slot is. -/
structure LowestFree (s : Tasks) (r : Option (Fin 64)) : Prop where
  slot : ∀ nr, r = some nr ↔ nr ≠ 0 ∧ s.task nr = none ∧ ∀ i, i ≠ 0 → i < nr → s.task i ≠ none
  none : r = none ↔ ∀ i, i ≠ 0 → s.task i ≠ none

/-- What `find_empty_process` has done when it returns `r`. -/
structure FoundEmpty (s : State) (r : Option (Fin 64)) (s' : State) : Prop where
  tasks : s'.tasks = s.tasks
  positive : 0 < s'.lastPid.toInt
  fresh : ∀ i t, s.tasks.task i = some t → t.pid ≠ s'.lastPid
  lowest : LowestFree s.tasks r

variable {s s' : State} {t t' : Tasks} {i : Fin 64} {pid : BitVec 64} {turns : Nat}

/-! ## One call -/

/-- A pid is in use if a task has it. -/
lemma pidInUse_iff : pidInUse t pid = true ↔ ∃ i p, t.task i = some p ∧ p.pid = pid := by
  rw [pidInUse, List.any_eq_true]
  constructor
  · rintro ⟨i, -, h⟩
    obtain ⟨p, hp, he⟩ := (Option.any_eq_true _ _).1 h
    exact ⟨i, p, hp, of_decide_eq_true he⟩
  · rintro ⟨i, p, hp, he⟩
    exact ⟨i, List.mem_finRange i, (Option.any_eq_true _ _).2 ⟨p, hp, decide_eq_true he⟩⟩

/-- The pids in use, as a list with an entry for each task. -/
def pids (t : Tasks) : List (BitVec 64) := (List.finRange 64).filterMap fun i => (t.task i).map (·.pid)

/-- It is among the pids then. -/
lemma mem_pids (h : pidInUse t pid = true) : pid ∈ pids t := by
  obtain ⟨i, p, hp, rfl⟩ := pidInUse_iff.1 h
  refine List.mem_filterMap.2 ⟨i, List.mem_finRange i, ?_⟩
  rw [hp, Option.map_some]

/-- There are 64 at most. -/
lemma length_pids : (pids t).length ≤ 64 := by
  refine (List.length_filterMap_le _ _).trans ?_
  rw [List.length_finRange]

/-- The search among the pids of 64 tasks ends. -/
lemma exists_freshPid (t : Tasks) (pid : BitVec 64) : ∃ pid', search (pidInUse t) 65 pid = some pid' :=
  exists_search (fun _ => mem_pids) (Nat.lt_succ_of_le length_pids) (by decide) pid

/-- The slots but the first. -/
lemma mem_laterSlots : i ∈ (List.finRange 64).tail ↔ i ≠ 0 := by
  revert i
  decide

/-- The slots behind slot 0 come in order. -/
lemma laterSlots_sorted : (List.finRange 64).tail.Pairwise (· < ·) := by
  decide

/-- The slot that is found is the lowest free one. -/
lemma freeSlot_lowest (t : Tasks) : LowestFree t (freeSlot t) := by
  have hnone : freeSlot t = none ↔ ∀ i, i ≠ 0 → t.task i ≠ none := by
    rw [freeSlot, firstSlot, List.find?_eq_none]
    simp only [mem_laterSlots, Option.isNone_iff_eq_none]
  -- the first free slot has only occupied ones before it
  have hfirst : ∀ nr, freeSlot t = some nr →
      nr ≠ 0 ∧ t.task nr = none ∧ ∀ i, i ≠ 0 → i < nr → t.task i ≠ none := by
    intro nr h
    obtain ⟨hfree, as, bs, hl, has⟩ := List.find?_eq_some_iff_append.1 h
    have hmem : nr ∈ (List.finRange 64).tail := hl ▸ List.mem_append_right as List.mem_cons_self
    refine ⟨mem_laterSlots.1 hmem, Option.isNone_iff_eq_none.1 hfree, fun i hi hlt hn => ?_⟩
    have hord := laterSlots_sorted
    have him := mem_laterSlots.2 hi
    rw [hl] at hord him
    rcases List.mem_append.1 him with ha | hb
    · have hocc := has i ha
      rw [hn] at hocc
      cases hocc
    · have hafter := (List.pairwise_append.1 hord).2.1
      rcases List.mem_cons.1 hb with rfl | hb
      · exact lt_irrefl i hlt
      · exact lt_asymm hlt ((List.pairwise_cons.1 hafter).1 i hb)
  refine ⟨fun nr => ⟨hfirst nr, ?_⟩, hnone⟩
  rintro ⟨h0, hfree, hmin⟩
  cases h : freeSlot t with
  | none => exact absurd hfree (hnone.1 h nr h0)
  | some k =>
    obtain ⟨hk0, hkfree, hkmin⟩ := hfirst k h
    rcases lt_trichotomy k nr with hlt | rfl | hlt
    · exact absurd hkfree (hmin k hk0 hlt)
    · rfl
    · exact absurd hfree (hkmin nr h0 hlt)

/-- What the code does where the search comes to an end. -/
lemma findEmptyProcess_of_search (h : search (pidInUse s.tasks) turns s.lastPid = some pid) :
    findEmptyProcess turns s = .ret (freeSlot s.tasks, { s with lastPid := pid }) := by
  rw [findEmptyProcess, Prog.bind_of_ret (t := s) rfl, h]
  rfl

/-- `find_empty_process` returns only when the search has come to an end. -/
lemma findEmptyProcess_wp : Prog.wp (findEmptyProcess turns) (fun r s' => r = freeSlot s.tasks ∧
    ∃ pid, search (pidInUse s.tasks) turns s.lastPid = some pid ∧ s' = { s with lastPid := pid }) s := by
  intro r s' e
  cases h : search (pidInUse s.tasks) turns s.lastPid with
  | none =>
    rw [findEmptyProcess, Prog.bind_of_ret (t := s) rfl, h] at e
    cases e
  | some pid =>
    rw [findEmptyProcess_of_search h] at e
    cases e
    exact ⟨rfl, pid, rfl, rfl⟩

/-- The state after a search. -/
lemma FoundEmpty.of_search (h0 : 0 ≤ s.lastPid.toInt)
    (h : search (pidInUse s.tasks) turns s.lastPid = some pid) :
    FoundEmpty s (freeSlot s.tasks) { s with lastPid := pid } := by
  obtain ⟨hfree, hpos⟩ := search_some h
  refine ⟨rfl, hpos h0, fun i p hp he => ?_, freeSlot_lowest s.tasks⟩
  have hused := pidInUse_iff.2 ⟨i, p, hp, he⟩
  rw [hfree] at hused
  cases hused

/-- `find_empty_process` returns, whatever the tasks and whatever `last_pid`, once it has 65 turns. -/
lemma findEmptyProcess_found (h0 : 0 ≤ s.lastPid.toInt) :
    ∃ r s', (∀ turns, 65 ≤ turns → findEmptyProcess turns s = .ret (r, s')) ∧ FoundEmpty s r s' := by
  obtain ⟨pid, h⟩ := exists_freshPid s.tasks s.lastPid
  exact ⟨_, _, fun _ hk => findEmptyProcess_of_search (search_mono h hk), .of_search h0 h⟩

/-! ## Runs -/

/-- Every task there has been there before, with the same pid. -/
def KeepsPids (t t' : Tasks) : Prop := ∀ i p', t'.task i = some p' → ∃ p, t.task i = some p ∧ p'.pid = p.pid

/-- Two steps that keep the pids do so together. -/
lemma KeepsPids.trans {t₁ t₂ t₃ : Tasks} (h : KeepsPids t₁ t₂) (h' : KeepsPids t₂ t₃) :
    KeepsPids t₁ t₃ := by
  intro i p₃ h₃
  obtain ⟨p₂, h₂, e₂⟩ := h' i p₃ h₃
  obtain ⟨p₁, h₁, e₁⟩ := h i p₂ h₂
  exact ⟨p₁, h₁, e₂.trans e₁⟩

/-- Pids that are kept stay distinct. -/
lemma KeepsPids.distinct (h : KeepsPids t t') (hd : DistinctPids t) : DistinctPids t' := by
  intro i j p q hp hq he
  obtain ⟨p₀, hp₀, ep⟩ := h i p hp
  obtain ⟨q₀, hq₀, eq⟩ := h j q hq
  exact hd i j p₀ q₀ hp₀ hq₀ (by rw [← ep, ← eq, he])

/-- What is tame keeps the pids. -/
lemma keepsPids_of_tame (h : Tame t t') : KeepsPids t t' := by
  intro i p' hp'
  obtain ⟨p, hp, _, hpid, _⟩ := h.task i p' hp'
  exact ⟨p, hp, hpid⟩

/-- `do_exit` keeps them. -/
lemma keepsPids_exit {code : BitVec 64} (e : Tasks.doExit code t = .ret ((), t')) : KeepsPids t t' := by
  cases hc : t.cur with
  | none =>
    rw [Tasks.doExit, Prog.bind_of_ret (t := t) rfl, hc] at e
    cases e
  | some c =>
    obtain ⟨_, _, htask⟩ := doExit_spec hc _ _ e
    intro i p' hp'
    rw [htask, Option.map_eq_some_iff] at hp'
    obtain ⟨p, hp, rfl⟩ := hp'
    exact ⟨p, hp, rfl⟩

/-- `schedule` keeps them. -/
lemma keepsPids_schedule {next : Fin 64} (e : Tasks.schedule next t = .ret ((), t')) : KeepsPids t t' := by
  have hs' : t' = { t.forSlots SchedState.slots (check t.jiffies) with current := next } :=
    contextSwitch_spec _ _ e
  have hcheck : KeepsPids t (t.forSlots SchedState.slots (check t.jiffies)) :=
    keepsPids_of_tame checked_steady.tame
  rw [hs']
  exact hcheck

/-- No step of the tasks gives two tasks one pid. -/
lemma DistinctPids.step {e : TaskEvent} (h : DistinctPids t) (st : TaskStep t e t') : DistinctPids t' := by
  cases st with
  | @fork c nr pid page memory _ _ _ _ hfresh _ =>
    intro i j p q hp hq he
    change update t.task nr (some (child c pid page)) i = some p at hp
    change update t.task nr (some (child c pid page)) j = some q at hq
    rw [update_apply] at hp hq
    split at hp
    · next hi =>
      split at hq
      · next hj => exact hi.trans hj.symm
      · cases hp
        exact absurd he.symm (hfresh j q hq)
    · split at hq
      · cases hq
        exact absurd he (hfresh i p hp)
      · exact h i j p q hp hq he
  | exit _ e => exact (keepsPids_exit e).distinct h
  | waitpid _ e => exact (keepsPids_of_tame (waitpid_tame _ _ e)).distinct h
  | afterPause _ => exact (keepsPids_of_tame (show Steady t t.afterPause from signal_steady).tame).distinct h
  | kill _ => exact (keepsPids_of_tame sysKill_steady.tame).distinct h
  | brokenPipe _ => exact (keepsPids_of_tame (show Steady t t.brokenPipe from signal_steady).tame).distinct h
  | takeAlarm _ => exact (keepsPids_of_tame (show Steady t t.takeAlarm from signal_steady).tame).distinct h
  | doSignal _ e =>
    rcases doSignal_steady _ _ e with ⟨_, ht⟩ | ⟨_, t₁, code, ht, e₁⟩
    · exact (keepsPids_of_tame ht.tame).distinct h
    · exact ((keepsPids_of_tame ht.tame).trans (keepsPids_exit e₁)).distinct h
  | ttyIntr => exact (keepsPids_of_tame ttyIntr_steady.tame).distinct h
  | schedule _ e => exact (keepsPids_schedule e).distinct h
  | other _ hslots hother =>
    refine KeepsPids.distinct (fun i p' hp' => ?_) h
    cases hp : t.task i with
    | none =>
      rw [(hslots i).2 hp] at hp'
      cases hp'
    | some p => exact ⟨p, rfl, (hother i p p' hp hp').pid⟩

/-- A fork of the code is a fork of the tasks, or it fails and leaves `task[]` alone. -/
lemma copyProcess_step {page : Option (BitVec 64)} {memory : Memory} (h0 : 0 ≤ s.lastPid.toInt)
    (hl : s.tasks.Alive) :
    Prog.wp (copyProcess turns page memory) (fun _ s' => 0 < s'.lastPid.toInt ∧
      (s'.tasks.task = s.tasks.task ∨ ∃ nr, TaskStep s.tasks (.fork nr) s'.tasks)) s := by
  rw [copyProcess, Prog.wp_bind]
  refine findEmptyProcess_wp.mono ?_
  rintro _ _ ⟨rfl, pid, hpid, rfl⟩
  have hfound := FoundEmpty.of_search h0 hpid
  cases hnr : freeSlot s.tasks with
  | none =>
    rw [Prog.wp_pure]
    exact ⟨hfound.positive, .inl rfl⟩
  | some nr =>
    rw [Prog.wp_bind, Prog.wp_modify]
    cases page with
    | none =>
      rw [Prog.wp_pure]
      exact ⟨hfound.positive, .inl rfl⟩
    | some p =>
      rw [Prog.wp_bind, Prog.wp_get]
      have hcur := hl
      obtain ⟨c, hc, _⟩ := hcur
      have hc' : ({ s.tasks with memory := memory } : Tasks).cur = some c := hc
      rw [hc', Prog.wp_bind, Prog.wp_modify, Prog.wp_pure]
      obtain ⟨hnr0, hfree, _⟩ := (hfound.lowest.slot nr).1 hnr
      have hpos : (0#64).slt pid = true := BitVec.slt_iff_toInt_lt.2 hfound.positive
      exact ⟨hfound.positive, .inr ⟨nr, .fork hl hc hnr0 hfree hfound.fresh hpos⟩⟩

/-- What the runs keep. -/
structure Inv (s : State) : Prop where
  lastPid : 0 ≤ s.lastPid.toInt
  distinct : DistinctPids s.tasks

/-- The invariant is kept. -/
lemma Inv.step {e : Event} (h : Inv s) (st : Step s e s') : Inv s' := by
  cases st with
  | fork hl e =>
    obtain ⟨hpos, hsame | ⟨nr, hfork⟩⟩ := copyProcess_step h.lastPid hl _ _ e
    · refine ⟨hpos.le, ?_⟩
      rw [DistinctPids, hsame]
      exact h.distinct
    · exact ⟨hpos.le, h.distinct.step hfork⟩
  | task _ hs => exact ⟨h.lastPid, h.distinct.step hs⟩

/-- It holds at first. -/
lemma Inv.init (h : system.init s) : Inv s := by
  obtain ⟨⟨_, _, hnone⟩, hlast⟩ := h
  refine ⟨by rw [hlast]; decide, fun i j p q hp hq _ => ?_⟩
  -- only slot 0 is occupied
  have hzero : ∀ i p, s.tasks.task i = some p → i = 0 := by
    intro i p hp
    by_contra hi
    rw [hnone i hi] at hp
    cases hp
  rw [hzero i p hp, hzero j q hq]

/-- `find_empty_process` ends, with a positive `last_pid` that no task has and the lowest free slot, and
    in every state that the forks, exits and waits of the tasks reach no two tasks have one pid. -/
theorem find_empty_process_pids :
    (∀ s : State, 0 ≤ s.lastPid.toInt → ∃ r s',
      (∀ turns, 65 ≤ turns → findEmptyProcess turns s = .ret (r, s')) ∧ FoundEmpty s r s') ∧
    ∀ s, system.Reach s → DistinctPids s.tasks := by
  refine ⟨fun s h0 => findEmptyProcess_found h0, fun s h => ?_⟩
  have hinv : Inv s := h.inv (fun _ => Inv.init) fun _ _ _ hi st => hi.step st
  exact hinv.distinct

/-- `init_task` alone. -/
def boot : State := ⟨bootTasks, 0⟩

/-- The state after a fork of `init_task`. -/
def bootForked : State := Prog.after (copyProcess 65 (some (pageAddr 0)) bootTasks.memory) boot

/-- The sample is reachable. -/
lemma bootForked_reach : system.Reach bootForked := by
  have hhalts : Prog.halts (copyProcess 65 (some (pageAddr 0)) bootTasks.memory) boot = true := by
    decide
  obtain ⟨_, e⟩ := Prog.ret_after hhalts
  exact .step (.init ⟨bootTasks_init, rfl⟩) (.fork (alive_of_runs (by decide)) e)

/-- The first task has pid 1, and `last_pid` is at the top of its range. -/
def wrapped : State := { bootForked with lastPid := .intMax 64 }

example : bootForked.lastPid = 1 ∧ (bootForked.tasks.task 1).map Task.pid = some 1 := by
  decide

/-- The pids of two tasks, and the next one after the largest. -/
theorem find_empty_process_pids_wrapped : DistinctPids bootForked.tasks ∧
    ∃ r s', findEmptyProcess 65 wrapped = .ret (r, s') ∧ FoundEmpty wrapped r s' := by
  obtain ⟨hfind, hreach⟩ := find_empty_process_pids
  obtain ⟨r, s', h, hfound⟩ := hfind wrapped (by decide)
  exact ⟨hreach _ bootForked_reach, r, s', h 65 (by decide), hfound⟩

end OldLinux.Sched.Pids
