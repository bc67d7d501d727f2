import OldLinux.Sched.Processes
import Mathlib.Tactic.IntervalCases

/-!
# Signal words

Which bits of `signal` are ever set. A signal below 32 sets its own bit; signal 32, which `send_sig` lets
through, is the `int` `1<<31` and sets bits 31 to 63, of which `do_signal` clears only the first. So the
words stay within 32 bits in the runs in which nobody is sent signal 32, and `do_signal` leaves a word
empty unless a terminal interrupts it behind the bit of `SIGINT`.
-/

namespace OldLinux.Sched
open Lib Function Mm Tasks

/-- No bit above the 32 signals is set. -/
def Small (word : BitVec 64) : Prop := ∀ b, 32 ≤ b → word.getLsbD b = false

/-- No task has a bit set above the 32 signals. -/
def Within (s : Tasks) : Prop := ∀ i p, s.task i = some p → Small p.signal

/-- The signal that an event sends to the task `p` in slot `i`. -/
def sent (s : Tasks) (i : Fin 64) (p : Task) : TaskEvent → Option (BitVec 64)
  | .kill pid sig =>
    match s.cur with
    | none => none
    | some c =>
      if i ≠ 0 ∧ wanted c (pid.signExtend 64) p ∧ ¬ ((sig.signExtend 64).slt 1 ∨
          (32#64).slt (sig.signExtend 64)) ∧ (c.uid = 0 ∧ c.euid = 0 ∨ c.uid = p.uid ∨ c.euid = p.uid ∨
          c.uid = p.euid ∨ c.euid = p.euid) then some (sig.signExtend 64)
      else none
  | .ttyIntr pgrp => if ¬ pgrp.sle 0 ∧ p.pgrp = pgrp.signExtend 64 then some sigInt else none
  | .brokenPipe => if i = s.current then some sigPipe else none
  | .exit _ =>
    match s.cur with
    | none => none
    | some c =>
      let father := if c.father = c.pid then 0 else c.father
      if father ≠ 0 ∧ i ≠ 0 ∧ wanted c father p then some sigChld else none
  | .schedule _ => if i ≠ 0 ∧ p.alarm ≠ 0 ∧ p.alarm.slt s.jiffies then some 14 else none
  | _ => none

/-- The events that send signals. -/
def TaskEvent.IsSend : TaskEvent → Prop
  | .kill .. | .ttyIntr _ | .brokenPipe | .exit _ | .schedule _ => True
  | _ => False

/-- An event that sends a signal sets the bit of the signal and no other, and `do_signal` does not return
    to a user program with a signal left. -/
structure Delivers (s : Tasks) (e : TaskEvent) (s' : Tasks) : Prop where
  exactly : e.IsSend → ∀ i p p', s.task i = some p → s'.task i = some p' →
    p'.signal = match sent s i p e with
      | none => p.signal
      | some sig => p.signal ||| BitVec.twoPow 64 (sig.toNat - 1)
  empties : ∀ intr, e = .doSignal true intr → s.current ≠ 0 →
    Tasks.doSignal true intr s = .ret (.returned, s') → ∀ p, s'.cur = some p → p.signal = 0

/-- Nobody is sent signal 32, and no terminal sends `SIGINT` to a task whose `do_signal` has gone past
    it. -/
def Deliverable (s : Tasks) (e : TaskEvent) (_ : Tasks) : Prop :=
  match e with
  | .kill .. => ∀ i p, s.task i = some p → sent s i p e ≠ some 32
  | .doSignal _ intr => ∀ p, s.cur = some p → ∀ nr, 1 < nr → ∀ pgrp ∈ intr nr,
      sent s s.current p (.ttyIntr pgrp) = none
  | _ => True

variable {s s' : Tasks} {i : Fin 64} {p c : Task}

/-! ## Words -/

/-- The bit of a signal below 32. -/
lemma sigMask_eq {sig : BitVec 64} (h1 : 1 ≤ sig.toNat) (h2 : sig.toNat < 32) :
    sigMask sig = BitVec.twoPow 64 (sig.toNat - 1) := by
  have hk : (sig - 1).toNat = sig.toNat - 1 := by
    have h1' : (1 : BitVec 64).toNat = 1 := rfl
    rw [BitVec.toNat_sub, h1']
    have := sig.isLt
    omega
  rw [sigMask, hk]
  have hlt : sig.toNat - 1 < 31 := by omega
  -- below 31 the sign bit of the `int` is not reached
  generalize sig.toNat - 1 = k at hlt
  interval_cases k <;> decide

/-- No bit is small. -/
lemma Small.zero : Small 0 := fun _ _ => BitVec.getLsbD_zero

/-- Small words make small ones. -/
lemma Small.or {a b : BitVec 64} (ha : Small a) (hb : Small b) : Small (a ||| b) := by
  intro k hk
  rw [BitVec.getLsbD_or, ha k hk, hb k hk]
  rfl

/-- Parts of small words are small. -/
lemma Small.and {a b : BitVec 64} (ha : Small a) : Small (a &&& b) := by
  intro k hk
  rw [BitVec.getLsbD_and, ha k hk, Bool.false_and]

/-- A low bit is small. -/
lemma Small.twoPow {k : Nat} (h : k < 32) : Small (BitVec.twoPow 64 k) := by
  intro b hb
  rw [BitVec.getLsbD_twoPow]
  simp
  omega

/-- The signals that `send_sig` lets through. -/
lemma sig_range {sig : BitVec 64} (h : ¬ (sig.slt 1 ∨ (32#64).slt sig)) :
    1 ≤ sig.toNat ∧ sig.toNat ≤ 32 := by
  obtain ⟨h1, h2⟩ := not_or.1 h
  rw [BitVec.slt_iff_toInt_lt, Int.not_lt] at h1 h2
  have e1 : (1 : BitVec 64).toInt = 1 := rfl
  have e2 : (32#64).toInt = 32 := rfl
  rw [e1] at h1
  rw [e2] at h2
  have hc := BitVec.toInt_eq_toNat_cond sig
  have hlt := sig.isLt
  split at hc
  · omega
  · omega

/-- Every word that was small still is. -/
def KeepsSmall (s s' : Tasks) : Prop :=
  ∀ i p', s'.task i = some p' → ∃ p, s.task i = some p ∧ (Small p.signal → Small p'.signal)

/-- Nothing done keeps the words small. -/
lemma KeepsSmall.refl : KeepsSmall s s := fun _ p h => ⟨p, h, id⟩

/-- Two steps that do, do so together. -/
lemma KeepsSmall.trans {s₁ s₂ s₃ : Tasks} (h : KeepsSmall s₁ s₂) (h' : KeepsSmall s₂ s₃) :
    KeepsSmall s₁ s₃ := by
  intro i p₃ h₃
  obtain ⟨p₂, h₂, hs₂⟩ := h' i p₃ h₃
  obtain ⟨p₁, h₁, hs₁⟩ := h i p₂ h₂
  exact ⟨p₁, h₁, fun hs => hs₂ (hs₁ hs)⟩

/-- Words that are small stay so. -/
lemma KeepsSmall.within (h : KeepsSmall s s') (hw : Within s) : Within s' := by
  intro i p' hp'
  obtain ⟨p, hp, hs⟩ := h i p' hp'
  exact hs (hw i p hp)

/-- A loop or a single change of tasks. -/
lemma KeepsSmall.of_map {f : Fin 64 → Task → Task} (h : ∀ i, s'.task i = (s.task i).map (f i))
    (hf : ∀ i p, s.task i = some p → Small p.signal → Small (f i p).signal) : KeepsSmall s s' := by
  intro i p' hp'
  rw [h, Option.map_eq_some_iff] at hp'
  obtain ⟨p, hp, rfl⟩ := hp'
  exact ⟨p, hp, hf i p hp⟩

/-! ## The events -/

/-- The tasks after `sys_kill`. -/
lemma sysKill_task {pid sig : BitVec 32} (h : s.cur = some c) :
    (s.sysKill pid sig).task i = (s.task i).map fun p => if i ≠ 0 ∧ wanted c (pid.signExtend 64) p then
      sendSig c (sig.signExtend 64) (!(c.uid ≠ 0 || c.euid ≠ 0)) p else p := by
  rw [sysKill, h]
  show (doKill _ _ _ s).task i = _
  rw [doKill_task h]
  by_cases hi : i = 0
  · simp [hi]
  · simp [hi]

/-- Without a current task nothing is sent. -/
lemma sysKill_none {pid sig : BitVec 32} (h : s.cur = none) : s.sysKill pid sig = s := by
  rw [sysKill, h]

/-- An event sends each task the signal that `sent` says, and no other. -/
def Sends (s : Tasks) (e : TaskEvent) (s' : Tasks) : Prop :=
  ∀ i p', s'.task i = some p' → ∃ p, s.task i = some p ∧
    ((sent s i p e = none ∧ p'.signal = p.signal) ∨
      ∃ n, sent s i p e = some n ∧ 1 ≤ n.toNat ∧ n.toNat < 32 ∧
        p'.signal = p.signal ||| BitVec.twoPow 64 (n.toNat - 1))

variable {e : TaskEvent}

/-- What sends signals keeps the words small. -/
lemma Sends.keepsSmall (h : Sends s e s') : KeepsSmall s s' := by
  intro i p' hp'
  obtain ⟨p, hp, ⟨_, hsig⟩ | ⟨n, _, h1, h32, hsig⟩⟩ := h i p' hp'
  · exact ⟨p, hp, fun hs => hsig ▸ hs⟩
  · refine ⟨p, hp, fun hs => ?_⟩
    rw [hsig]
    exact hs.or (.twoPow (by omega))

/-- It sets the bit of the signal and no other one. -/
lemma Sends.exactly (h : Sends s e s') {p' : Task} (hp : s.task i = some p) (hp' : s'.task i = some p') :
    p'.signal = match sent s i p e with
      | none => p.signal
      | some sig => p.signal ||| BitVec.twoPow 64 (sig.toNat - 1) := by
  obtain ⟨q, hq, hsig⟩ := h i p' hp'
  rw [hp] at hq
  cases hq
  obtain ⟨e0, hsig⟩ | ⟨n, en, _, _, hsig⟩ := hsig
  · rw [e0, hsig]
  · rw [en, hsig]

/-- A change that sends the signal `n` to the tasks for which `b` holds. -/
lemma Sends.of_map {f : Fin 64 → Task → Task} {n : BitVec 64} {b : Fin 64 → Task → Prop}
    [∀ i p, Decidable (b i p)] (h : ∀ i, s'.task i = (s.task i).map (f i)) (h1 : 1 ≤ n.toNat)
    (h2 : n.toNat < 32)
    (hf : ∀ i p, (f i p).signal = if b i p then p.signal ||| sigMask n else p.signal)
    (hsent : ∀ i p, s.task i = some p → sent s i p e = if b i p then some n else none) : Sends s e s' := by
  intro i p' hp'
  rw [h, Option.map_eq_some_iff] at hp'
  obtain ⟨p, hp, rfl⟩ := hp'
  refine ⟨p, hp, ?_⟩
  rw [hf, hsent i p hp]
  split
  · exact .inr ⟨n, rfl, h1, h2, by rw [sigMask_eq h1 h2]⟩
  · exact .inl ⟨rfl, rfl⟩

/-- What a `kill` does to the word of a task. -/
lemma sysKill_sent {pid sig : BitVec 32} {p' : Task} (hp : s.task i = some p)
    (hp' : (s.sysKill pid sig).task i = some p') (h32 : sent s i p (.kill pid sig) ≠ some 32) :
    (sent s i p (.kill pid sig) = none ∧ p'.signal = p.signal) ∨
      ∃ n, sent s i p (.kill pid sig) = some n ∧ 1 ≤ n.toNat ∧ n.toNat < 32 ∧
        p'.signal = p.signal ||| BitVec.twoPow 64 (n.toNat - 1) := by
  cases hc : s.cur with
  | none =>
    rw [sysKill_none hc, hp] at hp'
    refine .inl ⟨?_, ?_⟩
    · rw [sent, hc]
    · rw [Option.some.inj hp']
  | some c =>
    rw [sysKill_task hc, hp, Option.map_some, Option.some.injEq] at hp'
    rw [sent, hc] at h32 ⊢
    dsimp only at h32 ⊢
    by_cases hw : i ≠ 0 ∧ wanted c (pid.signExtend 64) p
    · rw [if_pos hw, sendSig] at hp'
      split at hp'
      · next hr => exact .inl ⟨if_neg fun h => h.2.2.1 hr, by rw [hp']⟩
      · next hr =>
        split at hp'
        · next hperm =>
          have hperm' : c.uid = 0 ∧ c.euid = 0 ∨ c.uid = p.uid ∨ c.euid = p.uid ∨ c.uid = p.euid ∨
              c.euid = p.euid := by
            refine hperm.imp_left fun h => ?_
            simpa using h
          rw [if_pos ⟨hw.1, hw.2, hr, hperm'⟩] at h32 ⊢
          obtain ⟨h1, h2⟩ := sig_range hr
          -- of the signals that are let through only 32 sets other bits
          have hne : (sig.signExtend 64).toNat ≠ 32 := by
            intro h
            apply h32
            rw [show sig.signExtend 64 = 32 from BitVec.eq_of_toNat_eq h]
          refine .inr ⟨_, rfl, h1, by omega, ?_⟩
          rw [← hp', sigMask_eq h1 (by omega)]
        · next hperm =>
          refine .inl ⟨if_neg fun h => hperm ?_, by rw [hp']⟩
          refine h.2.2.2.imp_left fun h => ?_
          simpa using h
    · rw [if_neg hw] at hp'
      exact .inl ⟨if_neg fun h => hw ⟨h.1, h.2.1⟩, by rw [hp']⟩

/-- `sys_kill` sends signals below 32. -/
lemma sysKill_sends {pid sig : BitVec 32}
    (h32 : ∀ i p, s.task i = some p → sent s i p (.kill pid sig) ≠ some 32) :
    Sends s (.kill pid sig) (s.sysKill pid sig) := by
  intro i p' hp'
  have hex : ∃ p, s.task i = some p := by
    cases hc : s.cur with
    | none => exact ⟨p', by rwa [sysKill_none hc] at hp'⟩
    | some c =>
      rw [sysKill_task hc, Option.map_eq_some_iff] at hp'
      exact hp'.imp fun _ h => h.1
  obtain ⟨p, hp⟩ := hex
  exact ⟨p, hp, sysKill_sent hp hp' (h32 i p hp)⟩

/-- The tasks after `tty_intr`. -/
lemma ttyIntr_task {pgrp : BitVec 32} : (s.ttyIntr pgrp).task i = (s.task i).map fun p =>
    if ¬ pgrp.sle 0 ∧ p.pgrp = pgrp.signExtend 64 then { p with signal := p.signal ||| sigMask sigInt }
    else p := by
  rw [ttyIntr]
  split
  · next h =>
    have hid : (fun p : Task => if ¬ pgrp.sle 0 ∧ p.pgrp = pgrp.signExtend 64 then
        { p with signal := p.signal ||| sigMask sigInt } else p) = id :=
      funext fun p => if_neg fun hp => hp.1 h
    rw [hid, Option.map_id, id]
  · next h =>
    rw [allSlots_task]
    refine congrArg (fun f => Option.map f (s.task i)) (funext fun p => ?_)
    exact if_congr ⟨fun hp => ⟨h, hp⟩, And.right⟩ rfl rfl

/-- `tty_intr` leaves the current task. -/
lemma ttyIntr_current {pgrp : BitVec 32} : (s.ttyIntr pgrp).current = s.current := by
  rw [ttyIntr]
  split
  · rfl
  · exact forSlots_rest.1

/-- `tty_intr` sends SIGINT to the group. -/
lemma ttyIntr_sends {pgrp : BitVec 32} : Sends s (.ttyIntr pgrp) (s.ttyIntr pgrp) := by
  refine .of_map (n := sigInt) (b := fun _ p => ¬ pgrp.sle 0 ∧ p.pgrp = pgrp.signExtend 64)
    (fun _ => ttyIntr_task) (by decide) (by decide) (fun i p => ?_) (fun _ _ _ => rfl)
  split
  · rfl
  · rfl

/-- A broken pipe sends SIGPIPE. -/
lemma brokenPipe_sends : Sends s .brokenPipe s.brokenPipe := by
  refine .of_map (n := sigPipe) (b := fun i _ => i = s.current)
    (f := fun i p => if i = s.current then { p with signal := p.signal ||| sigMask sigPipe } else p)
    (fun i => ?_) (by decide) (by decide) (fun i p => ?_) (fun _ _ _ => rfl)
  · rw [brokenPipe, onCurrent_task]
    split
    · rfl
    · rw [Option.map_id']
  · split
    · rfl
    · rfl

/-- `do_exit` sends to the father and the session. -/
lemma doExit_sends {code : BitVec 64} :
    Prog.wp (Tasks.doExit code) (fun _ s' => Sends s (.exit code) s') s := by
  cases hc : s.cur with
  | none =>
    rw [Tasks.doExit, Prog.wp_bind, Prog.wp_get, hc]
    exact Prog.wp_fault
  | some c =>
    refine (doExit_spec hc).mono ?_
    rintro _ s' ⟨_, _, htask⟩
    refine .of_map (n := sigChld) (b := fun i p => fatherLeft c ≠ 0 ∧ i ≠ 0 ∧ wanted c (fatherLeft c) p)
      htask (by decide) (by decide) (fun i p => ?_) (fun i p _ => ?_)
    · simp [Tasks.exited]
    · rw [sent, hc]
      rfl

/-- What `schedule` does to a task before the switch. -/
lemma check_signal {jiffies : BitVec 64} : (check jiffies p).signal =
    if p.alarm ≠ 0 ∧ p.alarm.slt jiffies then p.signal ||| sigMask 14 else p.signal := by
  have hmask : sigAlrm = sigMask 14 := by decide
  rw [check, hmask]
  split
  · split
    · rfl
    · rfl
  · split
    · rfl
    · rfl

/-- The tasks after their alarms have been looked at. -/
lemma checked_task : (s.forSlots SchedState.slots (check s.jiffies)).task i =
    (s.task i).map fun p => if i ≠ 0 then check s.jiffies p else p := by
  rw [forSlots_task slots_nodup]
  by_cases hi : i = 0
  · rw [if_neg (fun h => mem_slots.1 h hi)]
    simp [hi]
  · rw [if_pos (mem_slots.2 hi)]
    simp [hi]

/-- A call of `schedule` changes the words where its first loop does. -/
lemma schedule_sends {next : Fin 64} (e : Tasks.schedule next s = .ret ((), s')) :
    Sends s (.schedule next) s' := by
  intro i p' hp'
  have hs' : s' = { s.forSlots SchedState.slots (check s.jiffies) with current := next } :=
    contextSwitch_spec _ _ e
  rw [hs'] at hp'
  change (s.forSlots SchedState.slots (check s.jiffies)).task i = some p' at hp'
  rw [checked_task, Option.map_eq_some_iff] at hp'
  obtain ⟨p, hp, rfl⟩ := hp'
  refine ⟨p, hp, ?_⟩
  rw [sent]
  by_cases hi : i = 0
  · rw [if_neg (fun h => h.1 hi), if_neg (not_not.2 hi)]
    exact .inl ⟨rfl, rfl⟩
  · rw [if_pos hi, check_signal]
    by_cases ha : p.alarm ≠ 0 ∧ p.alarm.slt s.jiffies
    · rw [if_pos ha, if_pos ⟨hi, ha⟩]
      exact .inr ⟨14, rfl, by decide, by decide, by rw [sigMask_eq (by decide) (by decide)]⟩
    · rw [if_neg ha, if_neg fun h => ha h.2]
      exact .inl ⟨rfl, rfl⟩

/-! ## do_signal -/

/-- The interrupts of a turn. -/
lemma intrs_keepSmall {l : List (BitVec 32)} :
    KeepsSmall s (l.foldl (fun s pgrp => s.ttyIntr pgrp) s) ∧
      (l.foldl (fun s pgrp => s.ttyIntr pgrp) s).current = s.current := by
  induction l generalizing s with
  | nil => exact ⟨.refl, rfl⟩
  | cons pgrp l ih =>
    obtain ⟨hk, hc⟩ := ih (s := s.ttyIntr pgrp)
    exact ⟨ttyIntr_sends.keepsSmall.trans hk, hc.trans ttyIntr_current⟩

/-- They set no bit of the running task but that of `SIGINT`, and this only if they are from its
    terminal. -/
lemma intrs_cur {l : List (BitVec 32)} (h : s.cur = some p) :
    ∃ p', (l.foldl (fun s pgrp => s.ttyIntr pgrp) s).cur = some p' ∧ p'.pgrp = p.pgrp ∧
      ∀ b, p'.signal.getLsbD b = true → p.signal.getLsbD b = true ∨
        (b = 1 ∧ ∃ pgrp ∈ l, ¬ pgrp.sle 0 ∧ p.pgrp = pgrp.signExtend 64) := by
  induction l generalizing s p with
  | nil => exact ⟨p, h, rfl, fun _ hb => .inl hb⟩
  | cons pgrp l ih =>
    have hcur : (s.ttyIntr pgrp).cur = some (if ¬ pgrp.sle 0 ∧ p.pgrp = pgrp.signExtend 64 then
        { p with signal := p.signal ||| sigMask sigInt } else p) := by
      rw [cur, ttyIntr_current, ttyIntr_task, ← cur, h]
      rfl
    obtain ⟨p', hp', hg, hbits⟩ := ih hcur
    refine ⟨p', hp', ?_, fun b hb => ?_⟩
    · rw [hg]
      split
      · rfl
      · rfl
    · rcases hbits b hb with hb | ⟨rfl, pg, hpg, hs, he⟩
      · split at hb
        · next hhit =>
          rw [BitVec.getLsbD_or, Bool.or_eq_true] at hb
          cases hb with
          | inl hb => exact .inl hb
          | inr hb =>
            have h1 : sigMask sigInt = BitVec.twoPow 64 1 := by decide
            rw [h1, BitVec.getLsbD_twoPow, Bool.and_eq_true] at hb
            refine .inr ⟨?_, pgrp, List.mem_cons_self, hhit⟩
            exact (of_decide_eq_true hb.2).symm
        · exact .inl hb
      · refine .inr ⟨rfl, pg, List.mem_cons_of_mem _ hpg, hs, ?_⟩
        split at he
        · exact he
        · exact he

/-- A change of the current task that keeps its word small. -/
lemma onCurrent_keepsSmall {f : Task → Task} (hf : ∀ p, Small p.signal → Small (f p).signal) :
    KeepsSmall s (s.onCurrent f) := by
  refine .of_map (f := fun i p => if i = s.current then f p else p) (fun i => ?_) fun i p _ hp => ?_
  · rw [onCurrent_task]
    split
    · rfl
    · rw [Option.map_id']
  · split
    · exact hf p hp
    · exact hp

/-- A turn tests one bit. -/
lemma mask_bit {w : BitVec 64} {nr : Fin 32} : w &&& 1#64 <<< nr.val = 0 ↔ w.getLsbD nr = false := by
  have h1 : 1#64 <<< nr.val = BitVec.twoPow 64 nr := rfl
  rw [h1]
  constructor
  · intro h
    have hb := congrArg (fun x : BitVec 64 => x.getLsbD nr) h
    have hlt : nr.val < 64 := by omega
    simpa [BitVec.getLsbD_and, BitVec.getLsbD_twoPow, hlt] using hb
  · intro h
    apply BitVec.eq_of_getLsbD_eq
    intro b _
    rw [BitVec.getLsbD_and, BitVec.getLsbD_twoPow]
    by_cases hb : nr.val = b
    · rw [← hb, h]
      simp
    · simp [hb]

/-- Clearing a bit leaves the others. -/
lemma clear_bit {w : BitVec 64} {nr : Fin 32} {b : Nat} :
    (w &&& ~~~(1#64 <<< nr.val)).getLsbD b = true → w.getLsbD b = true ∧ b ≠ nr := by
  intro h
  rw [BitVec.getLsbD_and, Bool.and_eq_true] at h
  refine ⟨h.1, ?_⟩
  rintro rfl
  have h2 := h.2
  simp at h2

/-- The loop from a signal on: the bits before it are clear and stay so. -/
lemma signalLoop_spec {intr : Fin 32 → List (BitVec 32)} {l : List (Fin 32)} (hl : l.Pairwise (· < ·))
    (hbelow : ∀ b, b ∉ l → ∀ a ∈ l, b < a) (hc : s.cur = some c)
    (hcalm : ∀ nr ∈ l, 1 < nr → ∀ pgrp ∈ intr nr, ¬ (¬ pgrp.sle 0 ∧ c.pgrp = pgrp.signExtend 64))
    (hclear : ∀ b : Fin 32, b ∉ l → c.signal.getLsbD b = false) :
    Prog.wp (signalLoop intr l) (fun r s' => KeepsSmall s s' ∧
      (r = .returned → ∀ p, s'.cur = some p → ∀ b : Fin 32, p.signal.getLsbD b = false)) s := by
  induction l generalizing s c with
  | nil =>
    rw [signalLoop, Prog.wp_pure]
    refine ⟨.refl, fun _ p hp b => ?_⟩
    rw [hc] at hp
    rw [← Option.some.inj hp]
    exact hclear b List.not_mem_nil
  | cons nr l ih =>
    obtain ⟨hlt, hl⟩ := List.pairwise_cons.1 hl
    have hbelow' : ∀ b, b ∉ l → ∀ a ∈ l, b < a := by
      intro b hb a ha
      by_cases e : b = nr
      · exact e ▸ hlt a ha
      · exact hbelow b (by simp [e, hb]) a (List.mem_cons_of_mem _ ha)
    rw [signalLoop, Prog.wp_bind, Prog.wp_modify, Prog.wp_bind, Prog.wp_get]
    obtain ⟨hk₁, hcur₁⟩ := intrs_keepSmall (s := s) (l := intr nr)
    obtain ⟨c₁, hc₁, hg₁, hbits₁⟩ := intrs_cur (l := intr nr) hc
    generalize (intr nr).foldl (fun s pgrp => s.ttyIntr pgrp) s = s₁ at hk₁ hcur₁ hc₁
    -- a bit behind the loop can only be set by an interrupt, and that would be `SIGINT`
    have hclear₁ : ∀ b : Fin 32, b ∉ nr :: l → c₁.signal.getLsbD b = false := by
      intro b hb
      by_contra hset
      rcases hbits₁ b (Bool.of_not_eq_false hset) with h | ⟨h1, pgrp, hin, hhit⟩
      · rw [hclear b hb] at h
        cases h
      · have hb1 : b = 1 := Fin.ext h1
        subst hb1
        exact hcalm nr List.mem_cons_self (hbelow 1 hb nr List.mem_cons_self) pgrp hin hhit
    have hcalm' : ∀ c' : Task, c'.pgrp = c.pgrp → ∀ nr ∈ l, 1 < nr → ∀ pgrp ∈ intr nr,
        ¬ (¬ pgrp.sle 0 ∧ c'.pgrp = pgrp.signExtend 64) := by
      intro c' hg a ha
      rw [hg]
      exact hcalm a (List.mem_cons_of_mem _ ha)
    rw [hc₁]
    show Prog.wp (if _ then _ else _) _ s₁
    split
    · next h0 =>
      refine (ih hl hbelow' hc₁ (hcalm' c₁ hg₁) fun b hb => ?_).mono fun r s' h => ⟨hk₁.trans h.1, h.2⟩
      by_cases e : b = nr
      · exact e ▸ mask_bit.1 h0
      · exact hclear₁ b (by simp [e, hb])
    · rw [Prog.wp_bind, Prog.wp_modify]
      -- the bit is cleared, and all of those before it are clear
      have hc₂ := onCurrent_cur (f := fun p => { p with signal := p.signal &&& ~~~(1#64 <<< nr.val) }) hc₁
      have hk₂ : KeepsSmall s₁ (s₁.onCurrent fun p => { p with signal := p.signal &&& ~~~(1#64 <<< nr.val) }) :=
        onCurrent_keepsSmall fun p hp => hp.and
      generalize s₁.onCurrent (fun p => { p with signal := p.signal &&& ~~~(1#64 <<< nr.val) }) = s₂ at hc₂ hk₂
      have hgo : Prog.wp (signalLoop intr l) (fun r s' => KeepsSmall s s' ∧
          (r = .returned → ∀ p, s'.cur = some p → ∀ b : Fin 32, p.signal.getLsbD b = false)) s₂ := by
        refine (ih hl hbelow' hc₂ (hcalm' _ hg₁) fun b hb => ?_).mono
          fun r s' h => ⟨(hk₁.trans hk₂).trans h.1, h.2⟩
        by_contra hset
        obtain ⟨hset, hne⟩ := clear_bit (Bool.of_not_eq_false hset)
        rw [hclear₁ b (by simp [Fin.val_ne_iff.1 hne, hb])] at hset
        cases hset
      split
      · split
        · exact hgo
        · rw [Prog.wp_bind]
          refine doExit_sends.mono fun _ s' h => ?_
          rw [Prog.wp_pure]
          exact ⟨(hk₁.trans hk₂).trans h.keepsSmall, nofun⟩
      · split
        · exact hgo
        · exact Prog.wp_panic

/-- A small word without low bits is 0. -/
lemma Small.eq_zero {w : BitVec 64} (h : Small w) (hlow : ∀ b : Fin 32, w.getLsbD b = false) : w = 0 := by
  apply BitVec.eq_of_getLsbD_eq
  intro b _
  rcases Nat.lt_or_ge b 32 with hb | hb
  · exact (hlow ⟨b, hb⟩).trans BitVec.getLsbD_zero.symm
  · exact (h b hb).trans BitVec.getLsbD_zero.symm

/-- `do_signal` leaves a small word empty. -/
lemma doSignal_spec {userMode : Bool} {intr : Fin 32 → List (BitVec 32)}
    (hcalm : ∀ p, s.cur = some p → ∀ nr, 1 < nr → ∀ pgrp ∈ intr nr,
      ¬ (¬ pgrp.sle 0 ∧ p.pgrp = pgrp.signExtend 64)) :
    Prog.wp (Tasks.doSignal userMode intr) (fun r s' => KeepsSmall s s' ∧
      (userMode = true → s.current ≠ 0 → r = .returned → ∀ p, s'.cur = some p → Small p.signal →
        p.signal = 0)) s := by
  rw [Tasks.doSignal, Prog.wp_bind, Prog.wp_get]
  cases hc : s.cur with
  | none => exact Prog.wp_fault
  | some c =>
    show Prog.wp (if _ then _ else _) _ s
    split
    · next h0 =>
      rw [Prog.wp_pure]
      exact ⟨.refl, fun _ h => absurd h0 h⟩
    split
    · next hu =>
      rw [Prog.wp_pure]
      refine ⟨.refl, fun h => ?_⟩
      rw [h] at hu
      cases hu
    split
    · next hz =>
      rw [Prog.wp_pure]
      refine ⟨.refl, fun _ _ _ p hp _ => ?_⟩
      rw [hc] at hp
      rw [← Option.some.inj hp, hz]
    · refine (signalLoop_spec (List.pairwise_lt_finRange 32) (fun b hb => absurd (List.mem_finRange b) hb)
        hc (fun nr _ => hcalm c hc nr) (fun b hb => absurd (List.mem_finRange b) hb)).mono ?_
      intro r s' ⟨hk, hz⟩
      exact ⟨hk, fun _ _ hr p hp hs => hs.eq_zero (hz hr p hp)⟩

/-- Releasing a task keeps the others. -/
lemma Tasks.Released.keepsSmall (h : Released i p s s') : KeepsSmall s s' :=
  fun _ q hq => ⟨q, (h.some hq).2, id⟩

/-- `waitpid` keeps the words small. -/
lemma waitpid_keepsSmall {pid : BitVec 32} {noHang : Bool} :
    Prog.wp (Tasks.waitpid pid noHang) (fun _ s' => KeepsSmall s s') s := by
  refine waitpid_spec.mono fun _ s' h => ?_
  obtain rfl | rfl | ⟨i, p, utime, stime, hr⟩ := h
  · exact .refl
  · exact onCurrent_keepsSmall fun _ => id
  · refine KeepsSmall.trans ?_ hr.keepsSmall
    exact onCurrent_keepsSmall fun _ => id

/-! ## Runs -/

/-- Events other than those that send signals and `do_signal`. -/
lemma Delivers.of_quiet {e : TaskEvent} (h : ¬ e.IsSend) (h' : ∀ intr, e ≠ .doSignal true intr) :
    Delivers s e s' :=
  ⟨fun hs => absurd hs h, fun intr he => absurd he (h' intr)⟩

/-- What only sends delivers. -/
lemma Delivers.of_sends {e : TaskEvent} (h : Sends s e s') (h' : ∀ intr, e ≠ .doSignal true intr) :
    Delivers s e s' :=
  ⟨fun _ _ _ _ hp hp' => h.exactly hp hp', fun intr he => absurd he (h' intr)⟩

/-- A step that meets the condition. -/
lemma Within.step {e : TaskEvent} (h : Within s) (st : TaskStep s e s') (hd : Deliverable s e s') :
    Within s' ∧ Delivers s e s' := by
  cases st with
  | @fork c nr pid page =>
    refine ⟨fun i p hp => ?_, .of_quiet nofun nofun⟩
    change update s.task nr (some (child c pid page)) i = some p at hp
    rw [update_apply] at hp
    split at hp
    · cases hp
      exact .zero
    · exact h i p hp
  | exit _ e =>
    have hs := doExit_sends _ _ e
    exact ⟨hs.keepsSmall.within h, .of_sends hs nofun⟩
  | waitpid _ e => exact ⟨(waitpid_keepsSmall _ _ e).within h, .of_quiet nofun nofun⟩
  | afterPause _ =>
    exact ⟨(onCurrent_keepsSmall fun _ hp => hp.and).within h, .of_quiet nofun nofun⟩
  | kill _ =>
    have hs := sysKill_sends hd
    exact ⟨hs.keepsSmall.within h, .of_sends hs nofun⟩
  | brokenPipe _ => exact ⟨brokenPipe_sends.keepsSmall.within h, .of_sends brokenPipe_sends nofun⟩
  | takeAlarm _ =>
    exact ⟨(onCurrent_keepsSmall fun _ hp => hp.and).within h, .of_quiet nofun nofun⟩
  | @doSignal userMode intr r _ _ e =>
    have hcalm : ∀ p, s.cur = some p → ∀ nr, 1 < nr → ∀ pgrp ∈ intr nr,
        ¬ (¬ pgrp.sle 0 ∧ p.pgrp = pgrp.signExtend 64) := by
      intro p hp nr hnr pgrp hin hhit
      have hnone := hd p hp nr hnr pgrp hin
      rw [sent, if_pos hhit] at hnone
      cases hnone
    have hw := (doSignal_spec hcalm _ _ e).1.within h
    refine ⟨hw, nofun, fun intr' he h0 hr p hp => ?_⟩
    cases he
    exact (doSignal_spec hcalm _ _ hr).2 rfl h0 rfl p hp (hw _ p hp)
  | ttyIntr => exact ⟨ttyIntr_sends.keepsSmall.within h, .of_sends ttyIntr_sends nofun⟩
  | schedule _ e =>
    have hs := schedule_sends e
    exact ⟨hs.keepsSmall.within h, .of_sends hs nofun⟩
  | other _ hslots hother =>
    refine ⟨fun i p' hp' => ?_, .of_quiet nofun nofun⟩
    cases hp : s.task i with
    | none =>
      rw [(hslots i).2 hp] at hp'
      cases hp'
    | some p =>
      rw [(hother i p p' hp hp').signal]
      exact h i p hp

/-- **Signal words**: in every run in which nobody is sent signal 32 and no interrupt overtakes
    `do_signal`, the words stay within the 32 signals, each signal sets its bit, and `do_signal` returns
    with none left. -/
theorem signal_words {tr} (ex : taskSystem.Exec s tr) (h0 : taskSystem.init s)
    (hd : Along Deliverable s tr) : Always Within s tr ∧ Along Delivers s tr := by
  refine ex.along_of_inv (fun _ _ _ hw st hd => hw.step st hd) (fun i p hp => ?_) hd
  obtain ⟨_, ⟨t, ht, _, hsig, _⟩, hnone⟩ := h0
  by_cases hi : i = 0
  · subst hi
    rw [ht] at hp
    rw [← Option.some.inj hp, hsig]
    exact .zero
  · rw [hnone i hi] at hp
    cases hp

/-- The first task sends itself `SIGCHLD`. -/
theorem signal_words_first : ∃ tr, taskSystem.Exec bootTasks tr ∧ Always Within bootTasks tr ∧
    Along Delivers bootTasks tr ∧
    ((last bootTasks tr).task 1).map (fun p => p.signal) = some 0x10000#64 := by
  have ex : taskSystem.Exec bootTasks
      [(.fork 1, firstFork), (.schedule 1, firstRuns), (.kill 1 17, firstRuns.sysKill 1 17)] :=
    .cons firstFork_step (.cons firstRuns_step (.cons (.kill (alive_of_runs (by decide))) .nil))
  have hd : Along Deliverable bootTasks
      [(.fork 1, firstFork), (.schedule 1, firstRuns), (.kill 1 17, firstRuns.sysKill 1 17)] := by
    refine ⟨trivial, trivial, fun i p _ => ?_, trivial⟩
    rw [sent]
    split
    · nofun
    · split
      · decide
      · nofun
  obtain ⟨ha, hq⟩ := signal_words ex bootTasks_init hd
  exact ⟨_, ex, ha, hq, by decide⟩

/-- Signal 32 sets half of the word. -/
theorem signal_32_spills : ∃ tr, taskSystem.init bootTasks ∧ taskSystem.Exec bootTasks tr ∧
    ((last bootTasks tr).task 1).map (fun p => p.signal) = some 0xFFFFFFFF80000000#64 ∧
    ¬ Always Within bootTasks tr := by
  have ex : taskSystem.Exec bootTasks
      [(.fork 1, firstFork), (.schedule 1, firstRuns), (.kill 1 32, firstRuns.sysKill 1 32)] :=
    .cons firstFork_step (.cons firstRuns_step (.cons (.kill (alive_of_runs (by decide))) .nil))
  have hword : ((firstRuns.sysKill 1 32).task 1).map (fun p => p.signal) = some 0xFFFFFFFF80000000#64 := by
    decide
  refine ⟨_, bootTasks_init, ex, hword, fun ha => ?_⟩
  obtain ⟨p, hp, hs⟩ := Option.map_eq_some_iff.1 hword
  have hbit := ha.at_last 1 p hp 63 (by decide)
  rw [hs] at hbit
  exact absurd hbit (by decide)

end OldLinux.Sched
