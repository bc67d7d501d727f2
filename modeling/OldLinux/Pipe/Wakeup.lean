import OldLinux.Pipe.Fifo

/-!
# No lost wake-up on a pipe

One reading task `r` and one writing task `w` share a pipe; each may close its end between two calls
(`iput`). Both ends use the one queue `i_wait`, and every stretch of `read_pipe` and `write_pipe`, and
`iput`, calls `wake_up` before it ends. So the queue holds at most one sleeper, whose saved pointer is
null, and whoever runs a stretch leaves the other one runnable: that is the invariant `Duo.Inv`. The
headline is `no_lost_pipe_wakeup`.
-/

namespace OldLinux.Pipe
open Lib Sched Function

/-- A pipe with its two ends. -/
structure Duo (τ : Type*) where
  s : PipeState τ
  rOpen : Bool
  wOpen : Bool

/-- A stretch of a call, or the closing of one end. -/
inductive DuoEvent (τ : Type*) where
  | pipe (e : PipeEvent τ)
  | closeRead
  | closeWrite

section
variable {τ : Type*} [DecidableEq τ] (initTask r w : τ)

/-- The steps of the two tasks. A task closes its end (`do_close` calls `iput` when the last descriptor
    goes) only outside the two calls, and makes no call afterwards. -/
inductive DuoStep : Duo τ → DuoEvent τ → Duo τ → Prop where
  | read {d count o s'} : d.rOpen = true →
    PipeStep initTask d.s (.call r (.read count) o) s' →
    DuoStep d (.pipe (.call r (.read count) o)) { d with s := s' }
  | readResume {d k o s'} :
    PipeStep initTask d.s (.resume r k o) s' →
    DuoStep d (.pipe (.resume r k o)) { d with s := s' }
  | write {d buf count o s'} : d.wOpen = true →
    PipeStep initTask d.s (.call w (.write buf count) o) s' →
    DuoStep d (.pipe (.call w (.write buf count) o)) { d with s := s' }
  | writeResume {d k o s'} :
    PipeStep initTask d.s (.resume w k o) s' →
    DuoStep d (.pipe (.resume w k o)) { d with s := s' }
  | closeRead {d} : d.rOpen = true → d.s.op r = none → d.s.ino.wait.state r = .running →
    DuoStep d .closeRead { d with s := { d.s with ino := d.s.ino.iput }, rOpen := false }
  | closeWrite {d} : d.wOpen = true → d.s.op w = none → d.s.ino.wait.state w = .running →
    DuoStep d .closeWrite { d with s := { d.s with ino := d.s.ino.iput }, wOpen := false }

/-- A new pipe with both ends open, an empty queue and both tasks running. -/
def duoSystem : System (Duo τ) (DuoEvent τ) where
  init d := (pipeSystem initTask).init d.s ∧ d.rOpen = true ∧ d.wOpen = true ∧
    d.s.ino.wait.head = none ∧
    ∀ t, t = r ∨ t = w → d.s.ino.wait.state t = .running ∧ d.s.ino.wait.tmp t = none
  step := DuoStep initTask r w

end

/-! ## What a stretch of a call does to the queue -/

/-- The loop leaves the queue. -/
lemma readLoop_wait {τ : Type*} : ∀ (n : Nat) (p : PipeInode τ),
    (PipeInode.readLoop n p).2.wait = p.wait
  | 0, _ => rfl
  | n + 1, p => by
    rw [PipeInode.readLoop]
    split
    · exact rfl
    · exact readLoop_wait n p.take

section
variable {τ : Type*} [DecidableEq τ] {p : PipeInode τ} {t : τ}

/-- Waking up twice is waking up. -/
@[simp] lemma wakeUp_wakeUp (q : WaitQueue τ) : q.wakeUp.wakeUp = q.wakeUp :=
  WaitQueue.wakeUp_of_none (WaitQueue.head_wakeUp q)

/-- If nobody but `*p` sleeps, nobody does after a `wake_up`. -/
lemma state_wakeUp_running {q : WaitQueue τ}
    (hs : q.state t = if q.head = some t then .uninterruptible else .running) :
    q.wakeUp.state t = .running := by
  rcases hh : q.head with _ | x
  · rw [WaitQueue.wakeUp_of_none hh, hs, hh]
    rfl
  · rw [WaitQueue.state_wakeUp hh]
    by_cases e : t = x
    · simp [e]
    · rw [update_of_ne e, hs, hh, if_neg]
      simpa using Ne.symm e

/-- What a sleeping call sleeps for: a reader for an empty pipe to fill, a writer for a full one to
    drain. -/
def PipeOp.Blocked (p : PipeInode τ) : PipeOp → Prop
  | .reading _ => p.PipeEmpty
  | .writing _ _ _ => p.PipeFull

/-- The call is a `read_pipe`. -/
def PipeOp.Reads (k : PipeOp) : Prop := ∃ count, k = .reading count

/-- The call is a `write_pipe`. -/
def PipeOp.Writes (k : PipeOp) : Prop := ∃ buf b left, k = .writing buf b left

/-- What a stretch of a call of kind `K` does to the queue: when it returns it has only woken it up,
    and when it sleeps it does so on the woken queue, blocked on a pipe with two ends. -/
def Outcome.Waits (p : PipeInode τ) (t : τ) (K : PipeOp → Prop) : Outcome τ → Prop
  | .ret _ p' => p'.wait = p.wait.wakeUp
  | .sleep k p' => p'.wait = p.wait.wakeUp.sleepOn t ∧ K k ∧ k.Blocked p' ∧ p'.iCount = 2

/-- A stretch that starts on a woken queue may as well start before the `wake_up`. -/
lemma Outcome.Waits.of_wakeUp {p' : PipeInode τ} {K} {o : Outcome τ} (h : o.Waits p' t K)
    (hw : p'.wait = p.wait.wakeUp) : o.Waits p t K := by
  have e : p'.wait.wakeUp = p.wait.wakeUp := by rw [hw, wakeUp_wakeUp]
  cases o with
  | ret n q => exact h.trans e
  | sleep k q =>
    obtain ⟨hq, hk⟩ := h
    exact ⟨hq.trans (e ▸ rfl), hk⟩

/-- `read_pipe` waits as a reader. -/
lemma readPipe_waits (count : Int) : (p.readPipe t count).Waits p t PipeOp.Reads := by
  rw [PipeInode.readPipe]
  split
  · have he : p.PipeEmpty := ‹_›
    show Outcome.Waits p t _ (if p.iCount ≠ 2 then _ else _)
    split
    · exact rfl
    · exact ⟨rfl, ⟨_, rfl⟩, he, not_not.1 ‹_›⟩
  · exact congrArg WaitQueue.wakeUp (readLoop_wait count.toNat p)

/-- The loop waits as a writer. -/
lemma writeLoop_waits (buf : Nat → UInt8) : ∀ (left b : Nat) (p : PipeInode τ),
    (PipeInode.writeLoop t buf left b p).Waits p t PipeOp.Writes
  | 0, _, _ => rfl
  | left + 1, b, p => by
    rw [PipeInode.writeLoop]
    split
    · have hf : p.PipeFull := ‹_›
      show Outcome.Waits p t _ (if p.iCount ≠ 2 then _ else _)
      split
      · exact rfl
      · exact ⟨rfl, ⟨_, _, _, rfl⟩, hf, not_not.1 ‹_›⟩
    · exact (writeLoop_waits buf left (b + 1) (p.store t (buf b)).wakeUp).of_wakeUp rfl

/-- `write_pipe` waits as a writer. -/
lemma writePipe_waits (buf : Nat → UInt8) (count : Int) :
    (p.writePipe t buf count).Waits p t PipeOp.Writes := by
  show Outcome.Waits p t _ (if p.iCount ≠ 2 then _ else _)
  split
  · exact rfl
  · exact (writeLoop_waits buf count.toNat 0 p.wakeUp).of_wakeUp rfl

/-- The calls each end makes. -/
def Duo.kind (r t : τ) : PipeOp → Prop := if t = r then PipeOp.Reads else PipeOp.Writes

/-- A call that goes on waits as it did. -/
lemma again_waits {r : τ} {k : PipeOp} (hk : Duo.kind r t k) :
    (p.again t k).Waits p t (Duo.kind r t) := by
  unfold Duo.kind at hk ⊢
  by_cases e : t = r
  · rw [if_pos e] at hk ⊢
    obtain ⟨count, rfl⟩ := hk
    exact readPipe_waits count
  · rw [if_neg e] at hk ⊢
    obtain ⟨buf, b, left, rfl⟩ := hk
    exact writeLoop_waits buf left b p

end

/-! ## The invariant -/

section
variable {τ : Type*} [DecidableEq τ] {initTask r w : τ} {d d' : Duo τ}

/-- The sleeper is the task `*p` names: whoever has a call under way has saved a null pointer, is of its
    end's kind, and is asleep exactly when it is `*p`, blocked on a pipe with two ends. -/
structure Duo.Inv (r w : τ) (d : Duo τ) : Prop where
  kind : ∀ t k, t = r ∨ t = w → d.s.op t = some k → Duo.kind r t k
  tmp : ∀ t, t = r ∨ t = w → d.s.ino.wait.tmp t = (d.s.op t).map fun _ => none
  state : ∀ t, t = r ∨ t = w →
    d.s.ino.wait.state t = if d.s.ino.wait.head = some t then .uninterruptible else .running
  head : ∀ t, d.s.ino.wait.head = some t → (t = r ∨ t = w) ∧
    ∃ k, d.s.op t = some k ∧ k.Blocked d.s.ino ∧ d.s.ino.iCount = 2

/-- `iput` keeps the invariant: it only wakes up the queue and drops a reference. -/
lemma Duo.Inv.iput (h : d.Inv r w) (a b : Bool) :
    Duo.Inv r w ⟨{ d.s with ino := d.s.ino.iput }, a, b⟩ := by
  refine ⟨h.kind, fun t ht => ?_, fun t ht => ?_, fun t hh => ?_⟩
  · exact (congrFun (WaitQueue.tmp_wakeUp d.s.ino.wait) t).trans (h.tmp t ht)
  · show d.s.ino.wait.wakeUp.state t = if d.s.ino.wait.wakeUp.head = some t then _ else _
    rw [state_wakeUp_running (h.state t ht), WaitQueue.head_wakeUp]
    rfl
  · have hh : d.s.ino.wait.wakeUp.head = some t := hh
    rw [WaitQueue.head_wakeUp] at hh
    cases hh

/-- The queue a stretch of a call by `t` starts from. -/
def Duo.entered (d : Duo τ) (t : τ) : WaitQueue τ :=
  { d.s.ino.wait with tmp := update d.s.ino.wait.tmp t none }

/-- Who calls is in no queue. -/
lemma Duo.Inv.entered_of_call (h : d.Inv r w) {t} (ht : t = r ∨ t = w) (ho : d.s.op t = none) :
    d.s.ino.wait = d.entered t := by
  have e : update d.s.ino.wait.tmp t none = d.s.ino.wait.tmp := by
    rw [update_eq_self_iff, h.tmp t ht, ho]
    rfl
  rw [Duo.entered, e]

/-- Who goes on is in no queue. -/
lemma Duo.Inv.entered_of_resume (h : d.Inv r w) {t k} (ht : t = r ∨ t = w)
    (ho : d.s.op t = some k) : (d.s.ino.resume t).wait = d.entered t := by
  have e : d.s.ino.wait.tmp t = some none := by
    rw [h.tmp t ht, ho]
    rfl
  simp [PipeInode.resume, WaitQueue.resume, Duo.entered, e]

/-- A stretch that returns leaves both tasks running and the queue empty. -/
lemma Duo.Inv.ret (h : d.Inv r w) {t p sent} (ht : t = r ∨ t = w)
    (hw : p.wait = (d.entered t).wakeUp) (a b : Bool) :
    Duo.Inv r w ⟨⟨p, update d.s.op t none, sent⟩, a, b⟩ := by
  have head : p.wait.head = none := by rw [hw, WaitQueue.head_wakeUp]
  refine ⟨fun u k hu hk => ?_, fun u hu => ?_, fun u hu => ?_, fun u hh => ?_⟩
  · by_cases e : u = t
    · subst e; simp at hk
    · exact h.kind u k hu (by simpa [e] using hk)
  · show p.wait.tmp u = (update d.s.op t none u).map _
    rw [hw, WaitQueue.tmp_wakeUp]
    by_cases e : u = t
    · subst e; simp [Duo.entered]
    · simp [Duo.entered, e, h.tmp u hu]
  · show p.wait.state u = if p.wait.head = some u then _ else _
    rw [head, hw]
    exact state_wakeUp_running (h.state u hu)
  · have hh : p.wait.head = some u := hh
    rw [head] at hh
    cases hh

/-- A stretch that sleeps leaves the other task running and itself as the only sleeper. -/
lemma Duo.Inv.sleep (h : d.Inv r w) {t k p sent} (ht : t = r ∨ t = w)
    (hw : p.wait = (d.entered t).wakeUp.sleepOn t) (hk : Duo.kind r t k)
    (hb : k.Blocked p) (h2 : p.iCount = 2) (a b : Bool) :
    Duo.Inv r w ⟨⟨p, update d.s.op t (some k), sent⟩, a, b⟩ := by
  have head : p.wait.head = some t := by rw [hw]; rfl
  refine ⟨fun u k' hu hk' => ?_, fun u hu => ?_, fun u hu => ?_, fun u hh => ?_⟩
  · by_cases e : u = t
    · subst e
      obtain rfl : k = k' := by simpa using hk'
      exact hk
    · exact h.kind u k' hu (by simpa [e] using hk')
  · show p.wait.tmp u = (update d.s.op t (some k) u).map _
    rw [hw, WaitQueue.tmp_sleepOn, WaitQueue.head_wakeUp, WaitQueue.tmp_wakeUp]
    by_cases e : u = t
    · subst e; simp
    · simp [Duo.entered, e, h.tmp u hu]
  · show p.wait.state u = if p.wait.head = some u then _ else _
    rw [head, hw, WaitQueue.state_sleepOn]
    by_cases e : u = t
    · subst e; simp
    · have hs : (d.entered t).wakeUp.state u = .running :=
        state_wakeUp_running (h.state u hu)
      simp [e, Ne.symm e, hs]
  · have hh : p.wait.head = some u := hh
    obtain rfl : t = u := Option.some.inj (head.symm.trans hh)
    exact ⟨ht, k, update_self .., hb, h2⟩

/-! ## Every run -/

/-- The invariant holds at first. -/
lemma duo_init (h : (duoSystem initTask r w).init d) : d.Inv r w := by
  obtain ⟨⟨_, _, _, e⟩, _, _, hh, ht⟩ := h
  have op : ∀ t, d.s.op t = none := fun t => by rw [e]
  refine ⟨fun t k _ hk => ?_, fun t h => ?_, fun t h => ?_, fun t h => ?_⟩
  · rw [op t] at hk; cases hk
  · rw [(ht t h).2, op t]; rfl
  · rw [(ht t h).1, hh]; rfl
  · rw [hh] at h; cases h

/-- A stretch of a call by one of the two tasks keeps the invariant. -/
lemma Duo.Inv.stretch (h : d.Inv r w) {t e s'} (ht : t = r ∨ t = w)
    (hcall : ∀ c o, e = .call t c o → (c.run d.s.ino t).Waits d.s.ino t (Duo.kind r t))
    (he : (∃ c o, e = .call t c o) ∨ ∃ k o, e = .resume t k o)
    (st : PipeStep initTask d.s e s') (a b : Bool) : Duo.Inv r w ⟨s', a, b⟩ := by
  cases st with
  | @callRet u c n p hop _ hrun =>
    obtain ⟨c', o, e⟩ | ⟨_, _, e⟩ := he <;> cases e
    have hw := hcall _ _ rfl
    rw [hrun] at hw
    have hw : p.wait = d.s.ino.wait.wakeUp := hw
    rw [h.entered_of_call ht hop] at hw
    have e : update d.s.op t none = d.s.op := update_eq_self_iff.2 hop.symm
    rw [← e]
    exact h.ret ht hw a b
  | @callSleep u c k p _ hop _ hrun =>
    obtain ⟨c', o, e⟩ | ⟨_, _, e⟩ := he <;> cases e
    have hw := hcall _ _ rfl
    rw [hrun] at hw
    obtain ⟨hw, hk, hb, h2⟩ := hw
    rw [h.entered_of_call ht hop] at hw
    exact h.sleep ht hw hk hb h2 a b
  | @resumeRet u k n p hop _ hrun =>
    obtain ⟨_, _, e⟩ | ⟨k', o, e⟩ := he <;> cases e
    have hw := again_waits (p := d.s.ino.resume t) (t := t) (h.kind t k ht hop)
    rw [hrun] at hw
    have hw : p.wait = (d.s.ino.resume t).wait.wakeUp := hw
    rw [h.entered_of_resume ht hop] at hw
    exact h.ret ht hw a b
  | @resumeSleep u k k' p hop _ hrun =>
    obtain ⟨_, _, e⟩ | ⟨k', o, e⟩ := he <;> cases e
    have hw := again_waits (p := d.s.ino.resume t) (t := t) (h.kind t k ht hop)
    rw [hrun] at hw
    obtain ⟨hw, hk, hb, h2⟩ := hw
    rw [h.entered_of_resume ht hop] at hw
    exact h.sleep ht hw hk hb h2 a b
  | setCount => obtain ⟨_, _, e⟩ | ⟨_, _, e⟩ := he <;> cases e
  | wake => obtain ⟨_, _, e⟩ | ⟨_, _, e⟩ := he <;> cases e

/-- A step of the two tasks keeps the invariant. -/
lemma duo_step {e} (hne : r ≠ w) (h : d.Inv r w) (st : DuoStep initTask r w d e d') : d'.Inv r w := by
  have kr : Duo.kind r r = PipeOp.Reads := if_pos rfl
  have kw : Duo.kind r w = PipeOp.Writes := if_neg hne.symm
  cases st with
  | @read count o s' _ st =>
    refine h.stretch (.inl rfl) (fun c o e => ?_) (.inl ⟨_, _, rfl⟩) st _ _
    cases e
    exact kr ▸ readPipe_waits count
  | readResume st => exact h.stretch (.inl rfl) (fun _ _ e => by cases e) (.inr ⟨_, _, rfl⟩) st _ _
  | @write buf count o s' _ st =>
    refine h.stretch (.inr rfl) (fun c o e => ?_) (.inl ⟨_, _, rfl⟩) st _ _
    cases e
    exact kw ▸ writePipe_waits buf count
  | writeResume st => exact h.stretch (.inr rfl) (fun _ _ e => by cases e) (.inr ⟨_, _, rfl⟩) st _ _
  | closeRead => exact h.iput _ _
  | closeWrite => exact h.iput _ _

/-- The task sleeps in one of the two calls. -/
def Duo.AsleepIn (d : Duo τ) (t : τ) (K : PipeOp → Prop) : Prop :=
  ∃ k, d.s.op t = some k ∧ K k ∧ d.s.ino.wait.Asleep t

/-- Who sleeps is at the head of the queue. -/
lemma Duo.Inv.head_of_asleep (h : d.Inv r w) {t} (ht : t = r ∨ t = w)
    (ha : d.s.ino.wait.Asleep t) : d.s.ino.wait.head = some t := by
  by_contra hne
  have hs := h.state t ht
  rw [if_neg hne, ha.2] at hs
  cases hs

/-- In every reachable state a reader asleep in `read_pipe` faces an empty pipe and a writer asleep in
    `write_pipe` a full one, with `i_count` 2 in both cases, and the two are never asleep together. -/
theorem no_lost_pipe_wakeup (hne : r ≠ w) (hr : (duoSystem initTask r w).Reach d) :
    (d.AsleepIn r PipeOp.Reads → d.s.ino.PipeEmpty ∧ d.s.ino.iCount = 2) ∧
    (d.AsleepIn w PipeOp.Writes → d.s.ino.PipeFull ∧ d.s.ino.iCount = 2) ∧
    ¬ (d.s.ino.wait.Asleep r ∧ d.s.ino.wait.Asleep w) := by
  have h : d.Inv r w := hr.inv (fun _ => duo_init) fun _ _ _ => duo_step hne
  refine ⟨?_, ?_, ?_⟩
  · rintro ⟨_, hop, ⟨count, rfl⟩, ha⟩
    obtain ⟨_, k, hk, hb, h2⟩ := h.head r (h.head_of_asleep (.inl rfl) ha)
    obtain rfl : PipeOp.reading count = k := Option.some.inj (hop.symm.trans hk)
    exact ⟨hb, h2⟩
  · rintro ⟨_, hop, ⟨buf, b, left, rfl⟩, ha⟩
    obtain ⟨_, k, hk, hb, h2⟩ := h.head w (h.head_of_asleep (.inr rfl) ha)
    obtain rfl : PipeOp.writing buf b left = k := Option.some.inj (hop.symm.trans hk)
    exact ⟨hb, h2⟩
  · rintro ⟨ha, hb⟩
    have e := h.head_of_asleep (.inl rfl) ha
    rw [h.head_of_asleep (.inr rfl) hb] at e
    exact hne (Option.some.inj e).symm

/-- Task 1 reads from a new pipe and goes to sleep; task 2 is the writer. -/
theorem no_lost_pipe_wakeup_asleep :
    ∃ d : Duo (Fin 3), d.AsleepIn 1 PipeOp.Reads ∧ d.s.ino.PipeEmpty ∧ d.s.ino.iCount = 2 := by
  have hw : PipeCall.run newPipe 1 (.read 5) =
      .sleep (.reading 5) (newPipe.wakeUp.sleepOn 1) := by rfl
  have h0 : (duoSystem (0 : Fin 3) 1 2).Reach ⟨⟨newPipe, fun _ => none, fun _ => []⟩, true, true⟩ :=
    .init ⟨⟨_, _, _, rfl⟩, rfl, rfl, rfl, fun _ _ => ⟨rfl, rfl⟩⟩
  have h1 := h0.step (.read rfl (.callSleep (by decide) rfl rfl hw))
  have ha := no_lost_pipe_wakeup (by decide) h1
  refine ⟨_, ?_, ha.1 ?_⟩ <;> exact ⟨_, rfl, ⟨5, rfl⟩, ⟨none, rfl⟩, rfl⟩

end

end OldLinux.Pipe
