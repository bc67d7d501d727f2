import OldLinux.Sched.Signals

/-!
# Zombies

Who takes away a task that has exited. A task with a father becomes a zombie and waits for `sys_waitpid`;
a task without one is `TASK_DEAD`, and the switch away from it is to release it. Two cases are missed: the
children that are zombies already when their father exits, and every switch away from a dead task, since
nothing calls `finish_task_switch`.
-/

namespace OldLinux.Sched
open Lib Function Mm Tasks

/-- Every zombie has a father to wait for it, and only the running task can be dead. -/
structure Reapable (s : Tasks) : Prop where
  zombie : ∀ i p, s.task i = some p → p.state = .zombie → p.father ≠ 0
  dead : ∀ i p, s.task i = some p → p.state = .dead → i = s.current

/-- A switch away from a dead task releases its slot and its two pages. -/
def Reclaims (s : Tasks) (e : TaskEvent) (s' : Tasks) : Prop :=
  ∀ next, e = .schedule next → ∀ p, s.cur = some p → p.state = .dead →
    s'.task s.current = none ∧ freeTwoPages p.page s.memory = .ret ((), s'.memory)

/-- The running task has no child that is a zombie. -/
def NoZombieChild (s : Tasks) : Prop :=
  ∀ c, s.cur = some c → ∀ i p, s.task i = some p → p.state = .zombie → p.father ≠ c.pid

/-- No task exits that has a child which is a zombie, and no dead task is switched away from. -/
def Careful (s : Tasks) (e : TaskEvent) (_ : Tasks) : Prop :=
  match e with
  | .exit _ => NoZombieChild s
  | .doSignal userMode intr =>
    (∃ s', Tasks.doSignal userMode intr s = .ret (.exited, s')) → NoZombieChild s
  | .schedule _ => ∀ p, s.cur = some p → p.state ≠ .dead
  | _ => True

variable {s s' : Tasks} {i : Fin 64} {p c : Task}

/-! ## Steps that leave states and fathers alone -/

/-- No task becomes a zombie or dead, and none changes its father. -/
structure Tame (s s' : Tasks) : Prop where
  current : s'.current = s.current
  task : ∀ i p', s'.task i = some p' → ∃ p, s.task i = some p ∧ p'.father = p.father ∧ p'.pid = p.pid ∧
    (p'.state = .zombie → p.state = .zombie) ∧ (p'.state = .dead → p.state = .dead)

/-- No change is tame. -/
lemma Tame.refl : Tame s s := ⟨rfl, fun _ p h => ⟨p, h, rfl, rfl, id, id⟩⟩

/-- Tame changes one after the other. -/
lemma Tame.trans {s₁ s₂ s₃ : Tasks} (h : Tame s₁ s₂) (h' : Tame s₂ s₃) : Tame s₁ s₃ := by
  refine ⟨h'.current.trans h.current, fun i p₃ h₃ => ?_⟩
  obtain ⟨p₂, h₂, hf₂, hp₂, hz₂, hd₂⟩ := h'.task i p₃ h₃
  obtain ⟨p₁, h₁, hf₁, hp₁, hz₁, hd₁⟩ := h.task i p₂ h₂
  exact ⟨p₁, h₁, hf₂.trans hf₁, hp₂.trans hp₁, hz₁ ∘ hz₂, hd₁ ∘ hd₂⟩

/-- A tame change leaves the tasks that are to be reaped. -/
lemma Tame.reapable (h : Tame s s') (hr : Reapable s) : Reapable s' := by
  constructor
  · intro i p' hp' hz
    obtain ⟨p, hp, hf, _, hz', _⟩ := h.task i p' hp'
    rw [hf]
    exact hr.zombie i p hp (hz' hz)
  · intro i p' hp' hd
    obtain ⟨p, hp, _, _, _, hd'⟩ := h.task i p' hp'
    rw [h.current]
    exact hr.dead i p hp (hd' hd)

/-- A tame change makes no child a zombie. -/
lemma Tame.noZombieChild (h : Tame s s') (hn : NoZombieChild s) : NoZombieChild s' := by
  intro c' hc' i p' hp' hz
  rw [cur, h.current] at hc'
  obtain ⟨c, hc, _, hpid, _⟩ := h.task _ c' hc'
  obtain ⟨p, hp, hf, _, hz', _⟩ := h.task i p' hp'
  rw [hf, hpid]
  exact hn c hc i p hp (hz' hz)

/-- Two states of a task that agree on who it is, whose child it is and whether it has exited. -/
structure SameRole (p p' : Task) : Prop where
  father : p'.father = p.father
  pid : p'.pid = p.pid
  zombie : p'.state = .zombie ↔ p.state = .zombie
  dead : p'.state = .dead ↔ p.state = .dead

/-- No change of a task. -/
lemma SameRole.refl : SameRole p p := ⟨rfl, rfl, Iff.rfl, Iff.rfl⟩

/-- The slots stay in use, and their tasks keep their roles. -/
structure Steady (s s' : Tasks) : Prop where
  current : s'.current = s.current
  task : ∀ i, ∃ f : Task → Task, s'.task i = (s.task i).map f ∧ ∀ p, SameRole p (f p)

/-- No change is steady. -/
lemma Steady.refl : Steady s s := ⟨rfl, fun _ => ⟨id, by rw [Option.map_id_fun, id_eq], fun _ => .refl⟩⟩

/-- Steady changes one after the other. -/
lemma Steady.trans {s₁ s₂ s₃ : Tasks} (h : Steady s₁ s₂) (h' : Steady s₂ s₃) : Steady s₁ s₃ := by
  refine ⟨h'.current.trans h.current, fun i => ?_⟩
  obtain ⟨f, hf, hrole⟩ := h.task i
  obtain ⟨g, hg, hrole'⟩ := h'.task i
  refine ⟨g ∘ f, by rw [hg, hf, Option.map_map], fun p => ?_⟩
  have h₁ := hrole p
  have h₂ := hrole' (f p)
  exact ⟨h₂.father.trans h₁.father, h₂.pid.trans h₁.pid, h₂.zombie.trans h₁.zombie, h₂.dead.trans h₁.dead⟩

/-- A steady change is tame. -/
lemma Steady.tame (h : Steady s s') : Tame s s' := by
  refine ⟨h.current, fun i p' hp' => ?_⟩
  obtain ⟨f, hf, hrole⟩ := h.task i
  rw [hf, Option.map_eq_some_iff] at hp'
  obtain ⟨p, hp, rfl⟩ := hp'
  exact ⟨p, hp, (hrole p).father, (hrole p).pid, (hrole p).zombie.1, (hrole p).dead.1⟩

/-- A child that is a zombie stays one. -/
lemma Steady.noZombieChild (h : Steady s s') (hn : NoZombieChild s') : NoZombieChild s := by
  intro c hc i p hp hz
  obtain ⟨f, hf, hrole⟩ := h.task i
  obtain ⟨g, hg, hrole'⟩ := h.task s.current
  have hc' : s'.cur = some (g c) := by
    rw [cur, h.current, hg, ← cur, hc]
    rfl
  have hp' : s'.task i = some (f p) := by
    rw [hf, hp]
    rfl
  have hne := hn _ hc' i _ hp' ((hrole p).zombie.2 hz)
  rwa [(hrole p).father, (hrole' c).pid] at hne

/-- The running task goes on. -/
lemma Steady.alive (h : Steady s s') (hl : s.Alive) : s'.Alive := by
  obtain ⟨c, hc, hz, hd⟩ := hl
  obtain ⟨f, hf, hrole⟩ := h.task s.current
  refine ⟨f c, ?_, mt (hrole c).zombie.1 hz, mt (hrole c).dead.1 hd⟩
  rw [cur, h.current, hf, ← cur, hc]
  rfl

/-- A change of the running task that keeps its role. -/
lemma onCurrent_steady {f : Task → Task} (hf : ∀ p, SameRole p (f p)) : Steady s (s.onCurrent f) := by
  refine ⟨onCurrent_current, fun i => ⟨fun p => if i = s.current then f p else p, ?_, fun p => ?_⟩⟩
  · rw [onCurrent_task]
    split
    · rfl
    · rw [Option.map_id']
  · split
    · exact hf p
    · exact .refl

/-- A change of the word of the running task. -/
lemma signal_steady {w : Task → BitVec 64} : Steady s (s.onCurrent fun p => { p with signal := w p }) :=
  onCurrent_steady fun _ => ⟨rfl, rfl, Iff.rfl, Iff.rfl⟩

/-- `send_sig` changes the word and nothing else. -/
lemma sendSig_word {g : BitVec 64} {b : Bool} : ∃ w, sendSig c g b p = { p with signal := w } := by
  rw [sendSig]
  split
  · exact ⟨p.signal, rfl⟩
  · split
    · exact ⟨_, rfl⟩
    · exact ⟨p.signal, rfl⟩

/-- `sys_kill` keeps the roles. -/
lemma sysKill_steady {pid sig : BitVec 32} : Steady s (s.sysKill pid sig) := by
  cases hc : s.cur with
  | none =>
    rw [sysKill_none hc]
    exact .refl
  | some c =>
    refine ⟨?_, fun i => ⟨_, sysKill_task hc, fun p => ?_⟩⟩
    · rw [sysKill, hc]
      exact doKill_current
    · split
      · obtain ⟨w, e⟩ := sendSig_word (c := c) (p := p) (g := sig.signExtend 64)
          (b := !(c.uid ≠ 0 || c.euid ≠ 0))
        rw [e]
        exact ⟨rfl, rfl, Iff.rfl, Iff.rfl⟩
      · exact .refl

/-- `tty_intr` keeps the roles. -/
lemma ttyIntr_steady {pgrp : BitVec 32} : Steady s (s.ttyIntr pgrp) := by
  refine ⟨ttyIntr_current, fun i => ⟨_, ttyIntr_task, fun p => ?_⟩⟩
  split
  · exact ⟨rfl, rfl, Iff.rfl, Iff.rfl⟩
  · exact .refl

/-- The first loop of `schedule` keeps the role of a task. -/
lemma check_sameRole {j : BitVec 64} : SameRole p (check j p) := by
  have hwake : ∀ q : Task, SameRole p q →
      SameRole p (if q.signal ≠ 0 ∧ q.state = .interruptible then { q with state := .running } else q) := by
    intro q hq
    split
    · next hi =>
      refine ⟨hq.father, hq.pid, ?_, ?_⟩
      · rw [← hq.zombie, hi.2]
        exact ⟨nofun, nofun⟩
      · rw [← hq.dead, hi.2]
        exact ⟨nofun, nofun⟩
    · exact hq
  rw [check]
  split
  · exact hwake _ ⟨rfl, rfl, Iff.rfl, Iff.rfl⟩
  · exact hwake _ .refl

/-- The loop of `schedule` before the switch. -/
lemma checked_steady : Steady s (s.forSlots SchedState.slots (check s.jiffies)) := by
  refine ⟨forSlots_rest.1, fun i => ⟨_, checked_task, fun p => ?_⟩⟩
  split
  · exact check_sameRole
  · exact .refl

/-- A release takes a task away. -/
lemma Tasks.Released.tame (h : Released i p s s') : Tame s s' :=
  ⟨h.current, fun _ q hq => ⟨q, (h.some hq).2, rfl, rfl, id, id⟩⟩

/-- `sys_waitpid` is tame. -/
lemma waitpid_tame {pid : BitVec 32} {noHang : Bool} :
    Prog.wp (Tasks.waitpid pid noHang) (fun _ s' => Tame s s') s := by
  refine waitpid_spec.mono fun _ s' h => ?_
  obtain rfl | rfl | ⟨i, p, utime, stime, hr⟩ := h
  · exact .refl
  · -- a task that goes to sleep is no zombie and not dead
    refine ⟨onCurrent_current, fun i p' hp' => ?_⟩
    rw [onCurrent_task] at hp'
    split at hp'
    · obtain ⟨p, hp, rfl⟩ := Option.map_eq_some_iff.1 hp'
      exact ⟨p, hp, rfl, rfl, nofun, nofun⟩
    · exact ⟨p', hp', rfl, rfl, id, id⟩
  · have hrole : ∀ c : Task, SameRole c { c with cutime := c.cutime + utime, cstime := c.cstime + stime } :=
      fun _ => ⟨rfl, rfl, Iff.rfl, Iff.rfl⟩
    exact (onCurrent_steady hrole).tame.trans hr.tame

/-- Interrupts of terminals keep the roles. -/
lemma intrs_steady {l : List (BitVec 32)} : Steady s (l.foldl (fun s pgrp => s.ttyIntr pgrp) s) := by
  induction l generalizing s with
  | nil => exact .refl
  | cons pgrp l ih => exact ttyIntr_steady.trans ih

/-- `do_signal` changes states and fathers only where it ends the task. -/
lemma signalLoop_steady {intr : Fin 32 → List (BitVec 32)} {l : List (Fin 32)} :
    Prog.wp (signalLoop intr l) (fun r s' => (r = .returned ∧ Steady s s') ∨
      (r = .exited ∧ ∃ s₁ code, Steady s s₁ ∧ Tasks.doExit code s₁ = .ret ((), s'))) s := by
  induction l generalizing s with
  | nil =>
    rw [signalLoop, Prog.wp_pure]
    exact .inl ⟨rfl, .refl⟩
  | cons nr l ih =>
    rw [signalLoop, Prog.wp_bind, Prog.wp_modify, Prog.wp_bind, Prog.wp_get]
    have h₁ : Steady s ((intr nr).foldl (fun s pgrp => s.ttyIntr pgrp) s) := intrs_steady
    generalize (intr nr).foldl (fun s pgrp => s.ttyIntr pgrp) s = s₁ at h₁
    -- the rest of the loop
    have hgo : ∀ s₂, Steady s₁ s₂ → Prog.wp (signalLoop intr l) (fun r s' => (r = .returned ∧ Steady s s') ∨
        (r = .exited ∧ ∃ s₁ code, Steady s s₁ ∧ Tasks.doExit code s₁ = .ret ((), s'))) s₂ := by
      intro s₂ h₂
      refine ih.mono fun r s' h => ?_
      rcases h with ⟨hr, h⟩ | ⟨hr, s₃, code, h, e⟩
      · exact .inl ⟨hr, (h₁.trans h₂).trans h⟩
      · exact .inr ⟨hr, s₃, code, (h₁.trans h₂).trans h, e⟩
    cases s₁.cur with
    | none => exact Prog.wp_fault
    | some c =>
      show Prog.wp (if _ then _ else _) _ s₁
      split
      · exact hgo s₁ .refl
      · rw [Prog.wp_bind, Prog.wp_modify]
        have h₂ : Steady s₁ (s₁.onCurrent fun p => { p with signal := p.signal &&& ~~~(1#64 <<< nr.val) }) :=
          signal_steady
        split
        · split
          · exact hgo _ h₂
          · rw [Prog.wp_bind]
            intro _ s' e
            rw [Prog.wp_pure]
            exact .inr ⟨rfl, _, _, h₁.trans h₂, e⟩
        · split
          · exact hgo _ h₂
          · exact Prog.wp_panic

/-- `do_signal` keeps the roles up to the exit that it may end in. -/
lemma doSignal_steady {userMode : Bool} {intr : Fin 32 → List (BitVec 32)} :
    Prog.wp (Tasks.doSignal userMode intr) (fun r s' => (r = .returned ∧ Steady s s') ∨
      (r = .exited ∧ ∃ s₁ code, Steady s s₁ ∧ Tasks.doExit code s₁ = .ret ((), s'))) s := by
  rw [Tasks.doSignal, Prog.wp_bind, Prog.wp_get]
  cases s.cur with
  | none => exact Prog.wp_fault
  | some c =>
    show Prog.wp (if _ then _ else _) _ s
    split
    · rw [Prog.wp_pure]
      exact .inl ⟨rfl, .refl⟩
    split
    · rw [Prog.wp_pure]
      exact .inl ⟨rfl, .refl⟩
    split
    · rw [Prog.wp_pure]
      exact .inl ⟨rfl, .refl⟩
    · exact signalLoop_steady

/-- An exit leaves a zombie that has a father, or a dead task that runs. -/
lemma Reapable.exit {code : BitVec 64} (h : Reapable s) (hn : NoZombieChild s)
    (e : Tasks.doExit code s = .ret ((), s')) : Reapable s' := by
  cases hc : s.cur with
  | none =>
    rw [Tasks.doExit, Prog.bind_of_ret (t := s) rfl, hc] at e
    cases e
  | some c =>
    obtain ⟨_, hcur, htask⟩ := doExit_spec hc _ _ e
    constructor
    · intro i p' hp' hz
      rw [htask, Option.map_eq_some_iff] at hp'
      obtain ⟨p, hp, rfl⟩ := hp'
      by_cases hi : i = s.current
      · subst hi
        have hpc : p = c := Option.some.inj (hp.symm.trans hc)
        subst hpc
        simp only [Tasks.exited, decide_true, if_true] at hz ⊢
        split at hz
        · next hl => exact hl
        · cases hz
      · simp only [Tasks.exited, hi, decide_false] at hz ⊢
        rw [if_neg (hn c hc i p hp hz)]
        exact h.zombie i p hp hz
    · intro i p' hp' hd
      rw [hcur]
      rw [htask, Option.map_eq_some_iff] at hp'
      obtain ⟨p, hp, rfl⟩ := hp'
      -- only the task that exits becomes dead
      by_contra hi
      simp only [Tasks.exited, hi, decide_false] at hd
      exact hi (h.dead i p hp hd)

/-- A child that is a zombie when its father exits is left without one. -/
lemma Reapable.noZombieChild {code : BitVec 64} (h : Reapable s') (hl : s.Alive)
    (e : Tasks.doExit code s = .ret ((), s')) : NoZombieChild s := by
  intro c hc i p hp hz hf
  obtain ⟨_, _, htask⟩ := doExit_spec hc _ _ e
  have hi : i ≠ s.current := by
    rintro rfl
    obtain ⟨c', hc', hnz, _⟩ := hl
    exact hnz (Option.some.inj (hc'.symm.trans hp) ▸ hz)
  have hp' : s'.task i = some (Tasks.exited c code (i = s.current) (i = 0) p) := by
    rw [htask, hp, Option.map_some]
  refine h.zombie i _ hp' ?_ ?_
  · simp only [Tasks.exited, hi, decide_false, Bool.false_eq_true, if_false, hz]
  · simp only [Tasks.exited, hf, if_true]

/-- A call of `schedule` that leaves a task which is not dead. -/
lemma Reapable.schedule {next : Fin 64} (h : Reapable s) (hlive : ∀ p, s.cur = some p → p.state ≠ .dead)
    (e : Tasks.schedule next s = .ret ((), s')) : Reapable s' := by
  have hs' : s' = { s.forSlots SchedState.slots (check s.jiffies) with current := next } :=
    contextSwitch_spec _ _ e
  have hr : Reapable (s.forSlots SchedState.slots (check s.jiffies)) := checked_steady.tame.reapable h
  subst hs'
  refine ⟨hr.zombie, fun i p hp hd => ?_⟩
  -- no task is dead, not even the one that is left
  obtain ⟨q, hq, _, _, _, hd'⟩ := checked_steady.tame.task i p hp
  have hi := h.dead i q hq (hd' hd)
  subst hi
  exact absurd (hd' hd) (hlive q hq)

/-- A switch releases nothing. -/
lemma Reclaims.live {next : Fin 64} (e : Tasks.schedule next s = .ret ((), s'))
    (h : Reclaims s (.schedule next) s') (hp : s.cur = some p) : p.state ≠ .dead := by
  intro hd
  have hs' : s' = { s.forSlots SchedState.slots (check s.jiffies) with current := next } :=
    contextSwitch_spec _ _ e
  have hnone := (h next rfl p hp hd).1
  rw [hs'] at hnone
  change (s.forSlots SchedState.slots (check s.jiffies)).task s.current = none at hnone
  rw [checked_task, ← cur, hp] at hnone
  cases hnone

/-! ## Every run -/

/-- A step that meets the condition. -/
lemma Reapable.step {e : TaskEvent} (h : Reapable s) (st : TaskStep s e s') (hc : Careful s e s') :
    Reapable s' ∧ Reclaims s e s' := by
  cases st with
  | @fork c nr pid page =>
    refine ⟨⟨fun i p hp hz => ?_, fun i p hp hd => ?_⟩, nofun⟩
    · change update s.task nr (some (child c pid page)) i = some p at hp
      rw [update_apply] at hp
      split at hp
      · cases hp
        cases hz
      · exact h.zombie i p hp hz
    · change update s.task nr (some (child c pid page)) i = some p at hp
      rw [update_apply] at hp
      split at hp
      · cases hp
        cases hd
      · exact h.dead i p hp hd
  | exit _ e => exact ⟨h.exit hc e, nofun⟩
  | waitpid _ e => exact ⟨(waitpid_tame _ _ e).reapable h, nofun⟩
  | afterPause _ => exact ⟨(show Steady s s.afterPause from signal_steady).tame.reapable h, nofun⟩
  | kill _ => exact ⟨sysKill_steady.tame.reapable h, nofun⟩
  | brokenPipe _ => exact ⟨(show Steady s s.brokenPipe from signal_steady).tame.reapable h, nofun⟩
  | takeAlarm _ => exact ⟨(show Steady s s.takeAlarm from signal_steady).tame.reapable h, nofun⟩
  | doSignal _ e =>
    rcases doSignal_steady _ _ e with ⟨_, hs⟩ | ⟨rfl, s₁, code, hs, e₁⟩
    · exact ⟨hs.tame.reapable h, nofun⟩
    · exact ⟨(hs.tame.reapable h).exit (hs.tame.noZombieChild (hc ⟨_, e⟩)) e₁, nofun⟩
  | ttyIntr => exact ⟨ttyIntr_steady.tame.reapable h, nofun⟩
  | schedule _ e => exact ⟨h.schedule hc e, fun _ _ p hp hd => absurd hd (hc p hp)⟩
  | other hcur hslots hother =>
    refine ⟨Tame.reapable ⟨hcur, fun i p' hp' => ?_⟩ h, nofun⟩
    cases hp : s.task i with
    | none =>
      rw [(hslots i).2 hp] at hp'
      cases hp'
    | some p =>
      have ho := hother i p p' hp hp'
      exact ⟨p, rfl, ho.father, ho.pid, ho.zombie.1, ho.dead.1⟩

/-- A step that reaps what it should meets the condition. -/
lemma Reapable.careful {e : TaskEvent} (h' : Reapable s') (hr : Reclaims s e s') (st : TaskStep s e s') :
    Careful s e s' := by
  cases st with
  | exit hl e => exact h'.noZombieChild hl e
  | doSignal hl e =>
    rintro ⟨s₂, e₂⟩
    rw [e₂] at e
    obtain ⟨rfl, rfl⟩ := Prod.mk.inj (Result.ret.inj e)
    rcases doSignal_steady _ _ e₂ with ⟨hret, _⟩ | ⟨_, s₁, code, hs, e₁⟩
    · cases hret
    · exact hs.noZombieChild (h'.noZombieChild (hs.alive hl) e₁)
  | schedule _ e => exact fun p hp => hr.live e hp
  | fork | waitpid | afterPause | kill | brokenPipe | takeAlarm | ttyIntr | other => trivial

/-- **No unreapable zombies**: in a run each zombie has a father, only the running task is dead, and a switch
    away from it releases its slot and its pages, exactly when no task with a zombie for a child exits and no
    dead task is switched away from. -/
theorem zombies_reaped_iff {tr} (ex : taskSystem.Exec s tr) (h0 : taskSystem.init s) :
    Always Reapable s tr ∧ Along Reclaims s tr ↔ Along Careful s tr := by
  have hinit : Reapable s := by
    obtain ⟨_, ⟨t, ht, hrun, _⟩, hnone⟩ := h0
    have hstate : ∀ i p, s.task i = some p → p.state = .running := by
      intro i p hp
      by_cases hi : i = 0
      · subst hi
        rw [ht] at hp
        rw [← Option.some.inj hp, hrun]
      · rw [hnone i hi] at hp
        cases hp
    refine ⟨fun i p hp hz => ?_, fun i p hp hd => ?_⟩
    · rw [hstate i p hp] at hz
      cases hz
    · rw [hstate i p hp] at hd
      cases hd
  rw [always_and_along_iff hinit]
  refine ex.along_iff (fun _ _ _ h st hc => ?_) (fun _ _ _ _ st hq => hq.1.careful hq.2 st) hinit
  have hstep := h.step st hc
  exact ⟨hstep.1, hstep⟩

/-- The second task has been forked from the first, and has exited while that waits for it. -/
def childFirst : Tasks :=
  Prog.after (Tasks.doExit 0) (Prog.after (Tasks.schedule 2) (firstRuns.forked 2 2 (pageAddr 2)))

/-- No task in the slots is a zombie. -/
lemma noZombieChild_of_all
    (h : ((List.finRange 64).all fun i => (s.task i).all fun p => p.state ≠ .zombie) = true) : NoZombieChild s := by
  intro c _ i p hp hz
  have hi := List.all_eq_true.1 h i (List.mem_finRange i)
  rw [hp] at hi
  simp [hz] at hi

/-- The running task is not dead. -/
lemma live_of_all (h : s.cur.all (fun p => p.state ≠ .dead) = true) : ∀ p, s.cur = some p → p.state ≠ .dead := by
  intro p hp
  rw [hp] at h
  simpa using h

/-- The father runs again. -/
def fatherAgain : Tasks := Prog.after (Tasks.schedule 1) childFirst

/-- The steps up to then. -/
lemma fatherAgain_run : ∃ tr, taskSystem.Exec bootTasks tr ∧ last bootTasks tr = fatherAgain ∧
    Along Careful bootTasks tr := by
  have ex : taskSystem.Exec bootTasks [(.fork 1, firstFork), (.schedule 1, firstRuns),
      (.fork 2, firstRuns.forked 2 2 (pageAddr 2)),
      (.schedule 2, Prog.after (Tasks.schedule 2) (firstRuns.forked 2 2 (pageAddr 2))),
      (.exit 0, childFirst), (.schedule 1, fatherAgain)] :=
    .cons firstFork_step (.cons firstRuns_step
      (.cons (fork_step (by decide) (by decide) (by decide) (by decide) (by decide))
        (.cons (schedule_step (by decide) (by decide))
          (.cons (exit_step (by decide) (by decide))
            (.cons (schedule_step (by decide) (by decide)) .nil)))))
  exact ⟨_, ex, by simp only [last], trivial, live_of_all (by decide +kernel), trivial,
    live_of_all (by decide +kernel), noZombieChild_of_all (by decide +kernel), live_of_all (by decide +kernel),
    trivial⟩

/-- The father takes it away. -/
def childReaped : Tasks := Prog.after (Tasks.waitpid (-1) false) fatherAgain

/-- A father that waits for its child releases its slot and its pages. -/
theorem zombies_reaped_iff_child : ∃ tr, taskSystem.Exec bootTasks tr ∧ Always Reapable bootTasks tr ∧
    Along Reclaims bootTasks tr ∧ ((last bootTasks tr).task 2).isNone = true ∧
    (last bootTasks tr).memory.memMap 2 = 0 := by
  obtain ⟨tr, ex, hlast, hc⟩ := fatherAgain_run
  have hhalts : Prog.halts (Tasks.waitpid (-1) false) fatherAgain = true := by decide +kernel
  obtain ⟨_, e⟩ := Prog.ret_after hhalts
  have hwait : TaskStep (last bootTasks tr) (.waitpid (-1) false) childReaped := by
    rw [hlast]
    exact .waitpid (alive_of_runs (by decide +kernel)) e
  have hrun := ex.append (.cons hwait .nil)
  obtain ⟨ha, hq⟩ := (zombies_reaped_iff hrun bootTasks_init).2 (hc.append ⟨trivial, trivial⟩)
  have hslot : (childReaped.task 2).isNone = true := by decide +kernel
  have hpage : childReaped.memory.memMap 2 = 0 := by decide +kernel
  refine ⟨_, hrun, ha, hq, ?_, ?_⟩
  · simp only [last_append, last, hslot]
  · simp only [last_append, last, hpage]

/-- The father exits without having waited. -/
def fatherSecond : Tasks := Prog.after (Tasks.doExit 0) fatherAgain

/-- `init_task` goes on when both are gone. -/
def initAgain : Tasks := Prog.after (Tasks.schedule 0) fatherSecond

/-- The steps up to then. -/
lemma initAgain_run : ∃ tr, taskSystem.Exec bootTasks tr ∧ last bootTasks tr = initAgain := by
  obtain ⟨tr, ex, hlast, _⟩ := fatherAgain_run
  have hexit : TaskStep (last bootTasks tr) (.exit 0) fatherSecond := by
    rw [hlast]
    exact exit_step (by decide +kernel) (by decide +kernel)
  have hswitch : TaskStep fatherSecond (.schedule 0) initAgain :=
    schedule_step (by decide +kernel) (by decide +kernel)
  refine ⟨_, ex.append (.cons hexit (.cons hswitch .nil)), ?_⟩
  simp only [last_append, last]

/-- The zombie is left without a father, and its dead father keeps its slot and its pages when `init_task` goes
    on. -/
theorem zombie_left : ∃ tr, taskSystem.init bootTasks ∧ taskSystem.Exec bootTasks tr ∧
    ((last bootTasks tr).task 2).map (fun p => (p.state, p.father)) = some (.zombie, 0) ∧
    ((last bootTasks tr).task 1).map (fun p => p.state) = some .dead ∧
    (last bootTasks tr).current = 0 ∧ ¬ Always Reapable bootTasks tr := by
  obtain ⟨tr, ex, hlast⟩ := initAgain_run
  have hzombie : (initAgain.task 2).map (fun p => (p.state, p.father)) = some (.zombie, 0) := by
    decide +kernel
  have hdead : (initAgain.task 1).map (fun p => p.state) = some .dead := by decide +kernel
  have hcur : initAgain.current = 0 := by decide +kernel
  rw [← hlast] at hzombie hdead hcur
  refine ⟨tr, bootTasks_init, ex, hzombie, hdead, hcur, fun ha => ?_⟩
  obtain ⟨p, hp, hs⟩ := Option.map_eq_some_iff.1 hzombie
  obtain ⟨hz, hf⟩ := Prod.mk.inj hs
  exact ha.at_last.zombie 2 p hp hz hf

end OldLinux.Sched
