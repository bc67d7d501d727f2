import OldLinux.Sched.Signals

/-!
# The selectors of kill and waitpid

`do_kill` and `sys_waitpid` (`kernel/exit.c`) select tasks by a pid, the one with a loop for each kind of
argument, the other with one boolean expression; `wanted` and `waitsFor` are the two in the model. With
the argument 0 `do_kill` compares the process group of a task with `current->pid`, where `sys_waitpid`
compares it with `current->pgrp`. The selectors differ on the tasks that are `Missed` or `Stray`
(`wanted_iff`), and `kill_selects_iff` says what this comes to for the signals.
-/

namespace OldLinux.Sched.Kill
open Lib Tasks

/-- The test of `send_sig`: the caller is privileged or shares a user with the task. -/
def MaySend (c : Task) (priv : Bool) (p : Task) : Prop :=
  priv = true ∨ c.uid = p.uid ∨ c.euid = p.uid ∨ c.uid = p.euid ∨ c.euid = p.euid

instance (c : Task) (priv : Bool) (p : Task) : Decidable (MaySend c priv p) :=
  inferInstanceAs (Decidable (_ ∨ _))

/-- `do_kill` sets the signal's bit in the tasks behind slot 0 that the selector of `sys_waitpid` matches
    and that the caller may send to, and changes no other word. -/
structure SelectsAsWait (s : Tasks) (c : Task) (pid sig : BitVec 64) (priv : Bool) : Prop where
  matched : ∀ i p, i ≠ 0 → s.task i = some p → waitsFor c pid p = true → MaySend c priv p →
    ∃ p', (s.doKill pid sig priv).task i = some p' ∧ p'.signal.getLsbD (sig.toNat - 1) = true
  others : ∀ i p, s.task i = some p → ¬ (i ≠ 0 ∧ waitsFor c pid p = true ∧ MaySend c priv p) →
    ∃ p', (s.doKill pid sig priv).task i = some p' ∧ p'.signal = p.signal

/-- Matched by `sys_waitpid` and not by `do_kill`: with the argument 0 a task of the caller's group that
    is not in the group with the caller's pid. (No task behind slot 0 has a pid below 1.) -/
def Missed (c : Task) (pid : BitVec 64) (p : Task) : Prop :=
  (pid = 0 ∧ p.pgrp ≠ c.pid ∧ (p.pgrp = c.pgrp ∨ p.pid = 0)) ∨
    (pid.slt (-1) = true ∧ p.pid = pid ∧ p.pgrp ≠ -pid)

/-- Matched by `do_kill` and not by `sys_waitpid`. -/
def Stray (c : Task) (pid : BitVec 64) (p : Task) : Prop :=
  pid = 0 ∧ p.pgrp = c.pid ∧ p.pgrp ≠ c.pgrp ∧ p.pid ≠ 0

/-- Each missed task that the caller may send to has the signal already, and each stray one has it. -/
def Coincide (s : Tasks) (c : Task) (pid sig : BitVec 64) (priv : Bool) : Prop :=
  ∀ i p, i ≠ 0 → s.task i = some p → MaySend c priv p →
    (Missed c pid p → p.signal.getLsbD (sig.toNat - 1) = true) ∧
    (Stray c pid p → p.signal ||| sigMask sig = p.signal)

variable {s : Tasks} {c p : Task} {i : Fin 64} {pid sig : BitVec 64} {priv : Bool}

/-! ## The two selectors -/

/-- Above 0 as a `long`. -/
lemma zero_slt_iff {x : BitVec 64} : (0#64).slt x = true ↔ 0 < x.toInt := BitVec.slt_iff_toInt_lt

/-- Below 0. -/
lemma slt_zero_iff {x : BitVec 64} : x.slt 0 = true ↔ x.toInt < 0 := BitVec.slt_iff_toInt_lt

/-- Below -1. -/
lemma slt_neg_one_iff {x : BitVec 64} : x.slt (-1) = true ↔ x.toInt < -1 := BitVec.slt_iff_toInt_lt

/-- `kill(0)` wants the group of the caller. -/
lemma wanted_zero : wanted c 0 p = true ↔ p.pgrp = c.pid := by
  rw [wanted, if_pos rfl, decide_eq_true_eq]

/-- A positive pid wants the task. -/
lemma wanted_pos (h : (0#64).slt pid = true) : wanted c pid p = true ↔ p.pid = pid := by
  have hne : pid ≠ 0 := by
    rintro rfl
    cases h
  rw [wanted, if_neg hne, if_pos h, decide_eq_true_eq]

/-- The pid -1 wants all. -/
lemma wanted_all : wanted c (-1) p = true := rfl

/-- Below -1 it wants the group. -/
lemma wanted_group (h : pid.slt (-1) = true) : wanted c pid p = true ↔ p.pgrp = -pid := by
  have hne : pid ≠ 0 := by
    rintro rfl
    cases h
  have hne1 : pid ≠ -1 := by
    rintro rfl
    cases h
  have hpos : ¬ (0#64).slt pid = true := by
    rw [slt_neg_one_iff] at h
    rw [zero_slt_iff]
    omega
  rw [wanted, if_neg hne, if_neg hpos, if_neg hne1, decide_eq_true_eq]

/-- Whom `waitpid` waits for. -/
lemma waitsFor_iff : waitsFor c pid p = true ↔ pid = -1 ∨ p.pid = pid ∨ (pid = 0 ∧ p.pgrp = c.pgrp) ∨
    (pid.slt 0 = true ∧ p.pgrp = -pid) := by
  rw [waitsFor, decide_eq_true_eq]

/-- The arguments by the loop of `do_kill` that they select. -/
lemma pid_cases (pid : BitVec 64) :
    pid = 0 ∨ (0#64).slt pid = true ∨ pid = -1 ∨ pid.slt (-1) = true := by
  rw [zero_slt_iff, slt_neg_one_iff, ← BitVec.toInt_inj, ← BitVec.toInt_inj (y := -1)]
  have e0 : (0 : BitVec 64).toInt = 0 := rfl
  have e1 : (-1 : BitVec 64).toInt = -1 := rfl
  omega

/-- The selector of `do_kill`, in terms of that of `sys_waitpid`. -/
lemma wanted_iff : wanted c pid p = true ↔
    (waitsFor c pid p = true ∧ ¬ Missed c pid p) ∨ Stray c pid p := by
  rw [waitsFor_iff, Missed, Stray]
  obtain rfl | hpos | rfl | hneg := pid_cases pid
  · rw [wanted_zero]
    have h1 : (0 : BitVec 64) ≠ -1 := by decide
    have h2 : ¬ BitVec.slt (0 : BitVec 64) (-1) = true := by decide
    have h3 : ¬ BitVec.slt (0 : BitVec 64) 0 = true := by decide
    tauto
  · have hne : pid ≠ 0 := by
      rintro rfl
      cases hpos
    have hne1 : pid ≠ -1 := by
      rintro rfl
      cases hpos
    have hn : ¬ pid.slt 0 = true ∧ ¬ pid.slt (-1) = true := by
      rw [zero_slt_iff] at hpos
      rw [slt_zero_iff, slt_neg_one_iff]
      omega
    rw [wanted_pos hpos]
    tauto
  · have h1 : (-1 : BitVec 64) ≠ 0 := by decide
    have h2 : ¬ BitVec.slt (-1 : BitVec 64) (-1) = true := by decide
    have h3 := wanted_all (c := c) (p := p)
    tauto
  · have hne : pid ≠ 0 := by
      rintro rfl
      cases hneg
    have hne1 : pid ≠ -1 := by
      rintro rfl
      cases hneg
    have hn : pid.slt 0 = true := by
      rw [slt_neg_one_iff] at hneg
      rw [slt_zero_iff]
      omega
    rw [wanted_group hneg]
    tauto

/-- A child that is missed is waited for. -/
lemma Missed.waitsFor (h : Missed c pid p) : waitsFor c pid p = true := by
  rw [waitsFor_iff]
  rcases h with ⟨rfl, _, h | h⟩ | ⟨_, h, _⟩
  · exact .inr (.inr (.inl ⟨rfl, h⟩))
  · exact .inr (.inl h)
  · exact .inr (.inl h)

/-- A stray one is not. -/
lemma Stray.not_waitsFor (h : Stray c pid p) : ¬ waitsFor c pid p = true := by
  obtain ⟨rfl, _, hg, hp⟩ := h
  have h1 : (0 : BitVec 64) ≠ -1 := by decide
  have h3 : ¬ BitVec.slt (0 : BitVec 64) 0 = true := by decide
  rw [waitsFor_iff]
  tauto

/-! ## The signals -/

/-- The bit of a signal. -/
lemma sigMask_bit (h1 : 1 ≤ sig.toNat) (h2 : sig.toNat ≤ 32) :
    (sigMask sig).getLsbD (sig.toNat - 1) = true := by
  obtain hlt | h32 := Nat.lt_or_eq_of_le h2
  · rw [sigMask_eq h1 hlt, BitVec.getLsbD_twoPow]
    simp
    omega
  · rw [show sig = 32 from BitVec.eq_of_toNat_eq h32]
    decide

/-- `send_sig` with a signal in range. -/
lemma sendSig_eq (h1 : 1 ≤ sig.toNat) (h2 : sig.toNat ≤ 32) : sendSig c sig priv p =
    if MaySend c priv p then { p with signal := p.signal ||| sigMask sig } else p := by
  have hin : ¬ (sig.slt 1 = true ∨ (32#64).slt sig = true) := by
    simp only [BitVec.slt_iff_toInt_lt, BitVec.toInt_eq_toNat_of_lt (show 2 * sig.toNat < 2 ^ 64 by omega)]
    have e1 : (1 : BitVec 64).toInt = 1 := rfl
    have e2 : (32#64).toInt = 32 := rfl
    omega
  rw [sendSig, if_neg hin]
  rfl

/-- The word of a task behind slot 0 after `do_kill`. -/
lemma doKill_signal (pid : BitVec 64) (priv : Bool) (h : s.cur = some c) (h1 : 1 ≤ sig.toNat)
    (h2 : sig.toNat ≤ 32) (hi : i ≠ 0) (hp : s.task i = some p) :
    ∃ p', (s.doKill pid sig priv).task i = some p' ∧ p'.signal =
      if wanted c pid p = true ∧ MaySend c priv p then p.signal ||| sigMask sig else p.signal := by
  refine ⟨_, by rw [doKill_task h, if_pos hi, hp, Option.map_some], ?_⟩
  rw [sendSig_eq h1 h2]
  by_cases hw : wanted c pid p = true
  · by_cases hm : MaySend c priv p
    · rw [if_pos hw, if_pos hm, if_pos ⟨hw, hm⟩]
    · rw [if_pos hw, if_neg hm, if_neg fun h => hm h.2]
  · rw [if_neg hw, if_neg fun h => hw h.1]

/-- Task 0 is not killed. -/
lemma doKill_slotZero (h : s.cur = some c) : (s.doKill pid sig priv).task 0 = s.task 0 := by
  rw [doKill_task h, if_neg (not_not_intro rfl)]

/-- `do_kill` sends to the tasks that `sys_waitpid` matches exactly when each task on which the two
    selectors differ, and to which the caller may send, has the signal already. -/
theorem kill_selects_iff (h : s.cur = some c) (h1 : 1 ≤ sig.toNat) (h2 : sig.toNat ≤ 32) :
    SelectsAsWait s c pid sig priv ↔ Coincide s c pid sig priv := by
  constructor
  · intro ha i p hi hp hm
    obtain ⟨p', hp', hsig⟩ := doKill_signal pid priv h h1 h2 hi hp
    constructor
    · intro hmiss
      obtain ⟨q, hq, hbit⟩ := ha.matched i p hi hp hmiss.waitsFor hm
      have hw : ¬ wanted c pid p = true := by
        rw [wanted_iff]
        rintro (⟨_, hn⟩ | hs)
        · exact hn hmiss
        · exact hs.not_waitsFor hmiss.waitsFor
      rw [if_neg fun h => hw h.1] at hsig
      rw [hp'] at hq
      cases hq
      rwa [← hsig]
    · intro hs
      obtain ⟨q, hq, hsame⟩ := ha.others i p hp fun hsel => hs.not_waitsFor hsel.2.1
      rw [if_pos ⟨wanted_iff.2 (.inr hs), hm⟩] at hsig
      rw [hp'] at hq
      cases hq
      rw [← hsig, hsame]
  · intro hco
    constructor
    · intro i p hi hp hw hm
      obtain ⟨p', hp', hsig⟩ := doKill_signal pid priv h h1 h2 hi hp
      refine ⟨p', hp', ?_⟩
      by_cases hmiss : Missed c pid p
      · have hbit := (hco i p hi hp hm).1 hmiss
        rw [hsig]
        split
        · rw [BitVec.getLsbD_or, hbit, Bool.true_or]
        · exact hbit
      · rw [hsig, if_pos ⟨wanted_iff.2 (.inl ⟨hw, hmiss⟩), hm⟩, BitVec.getLsbD_or,
          sigMask_bit h1 h2, Bool.or_true]
    · intro i p hp hsel
      obtain rfl | hi := eq_or_ne i 0
      · exact ⟨p, by rw [doKill_slotZero h, hp], rfl⟩
      obtain ⟨p', hp', hsig⟩ := doKill_signal pid priv h h1 h2 hi hp
      refine ⟨p', hp', ?_⟩
      rw [hsig]
      split
      · next hk =>
        -- only a stray task is sent to without being matched
        rcases wanted_iff.1 hk.1 with ⟨hw, _⟩ | hs
        · exact absurd ⟨hi, hw, hk.2⟩ hsel
        · exact (hco i p hi hp hk.2).2 hs
      · rfl

/-- A caller that leads its group, among tasks with positive pids, is answered as it expects. -/
lemma coincide_of_leader (hlead : c.pid = c.pgrp)
    (hpos : ∀ i p, i ≠ 0 → s.task i = some p → (0#64).slt p.pid = true) : Coincide s c pid sig priv := by
  intro i p hi hp _
  have hp0 := hpos i p hi hp
  constructor
  · rintro (⟨_, hne, hg | hz⟩ | ⟨hneg, rfl, _⟩)
    · exact absurd (hg.trans hlead.symm) hne
    · rw [hz] at hp0
      cases hp0
    · rw [zero_slt_iff] at hp0
      rw [slt_neg_one_iff] at hneg
      omega
  · rintro ⟨_, hg, hne, _⟩
    exact absurd (hg.trans hlead) hne

/-- A task of group 1. -/
def member (pid : BitVec 64) : Task := { initTask with pid := pid, pgrp := 1 }

/-- Two tasks of group 1, of which the one with pid `current` runs. -/
def groupOne (current : Fin 64) : Tasks :=
  { bootTasks with
    task := fun i => if i = 1 then some (member 1) else if i = 2 then some (member 2) else bootTasks.task i
    current := current }

/-- The leader of the group sends `SIGINT` to it. -/
theorem kill_selects_leader : SelectsAsWait (groupOne 1) (member 1) 0 2 true := by
  refine (kill_selects_iff rfl (by decide) (by decide)).2 (coincide_of_leader rfl fun i p hi hp => ?_)
  simp only [groupOne, bootTasks] at hp
  split at hp
  · cases hp
    rfl
  · split at hp
    · cases hp
      rfl
    · cases hp

/-- The other task of the group sends `SIGINT` to it, and reaches nobody. -/
theorem kill_misses_group : ¬ SelectsAsWait (groupOne 2) (member 2) 0 2 true := by
  intro h
  obtain ⟨p', hp', hbit⟩ := h.matched 1 (member 1) (by decide) rfl rfl (.inl rfl)
  have hsame : ((groupOne 2).doKill 0 2 true).task 1 = some (member 1) := by
    rw [doKill_task (c := member 2) rfl]
    rfl
  rw [hsame] at hp'
  cases hp'
  exact absurd hbit (by decide)

end OldLinux.Sched.Kill
