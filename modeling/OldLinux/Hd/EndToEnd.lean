import OldLinux.Hd.Driver
import OldLinux.Lib.System

/-!
# The disk driver end to end

Any sequence of `rw_abs_hd` calls over a device that executes each command on one sector and then
raises one interrupt (`hdSystem`). `Settled` and `StepOk` state what the driver should guarantee in
every state and at every step.

Every command is issued as a write, whatever its kind, and the handlers return after the first half
of a request without issuing the second one. So the first interrupt that is handled leaves the
request queued with no command under way: the driver keeps its guarantees only until then, and the
command of a read may not even be executed, unless the sector already holds what is in the bounce
buffer. `hd_end_to_end_iff` says so exactly.
-/

namespace OldLinux.Hd
open Lib Fs Function

/-- A call of `rw_abs_hd`, another look for a free slot, the device executing a command, an
    interrupt. -/
inductive HdEvent (β : Type*) where
  | call (c : RwCall β)
  | retry (c : RwCall β)
  | exec
  | interrupt

section
variable {β : Type*} [DecidableEq β]

/-- The state a function leaves; after a panic or a fault nothing happens any more. -/
def Driver.after (s : Driver β) : Result (Driver β) → Driver β
  | .ret s' => s'
  | .panic _ => { s with halted := true }
  | .fault => { s with halted := true }

/-- The steps of the driver and the device, each function running to its end. -/
inductive HdStep : Driver β → HdEvent β → Driver β → Prop where
  | call {s c} : s.halted = false →
    HdStep s (.call c) (s.after (s.rwAbsHd c))
  | retry {s c l r} : s.halted = false → s.waiting = l ++ c :: r →
    HdStep s (.retry c) (s.after ({ s with waiting := l ++ r }.rwAbsHdRepeat c))
  | exec {s} : s.halted = false → s.executed < s.issued →
    HdStep s .exec s.deviceExec
  | interrupt {s} : s.halted = false → 0 < s.raised →
    HdStep s .interrupt (s.after { s with raised := s.raised - 1 }.hdInterrupt)

/-- The driver as `hd_init` leaves it, with any disk and any buffers. -/
def hdSystem : System (Driver β) (HdEvent β) where
  init s := (∀ r, (s.request r).hd = -1 ∧ (s.request r).next = none) ∧ s.thisRequest = none ∧
    s.doHd = none ∧ s.sorting = false ∧ s.issued = s.executed ∧ s.raised = 0 ∧ s.waiting = [] ∧
    s.halted = false
  step := HdStep

end

section
variable {β : Type*} {s s' : Driver β} {r q : Fin 32} {b : β}

/-- The first sector a request is about. -/
def Driver.addr (s : Driver β) (r : Fin 32) : BitVec 64 :=
  hdSector s.heads s.sectors (s.request r).sector (s.request r).head (s.request r).cyl

/-- With no command under way and no interrupt to come, the request queue is empty. -/
def Settled (s : Driver β) : Prop :=
  s.halted = false → s.issued = s.executed → s.raised = 0 → s.thisRequest = none

/-- What each step should do: a command is that of the current request, a read changes no sector and a
    write at most its two sectors, to the halves of its data; an interrupt is expected, and when it
    unlocks the buffer of a read the data is that of the two sectors; a call changes no sector. -/
def StepOk (s : Driver β) (e : HdEvent β) (s' : Driver β) : Prop :=
  match e with
  | .call _ => s'.disk = s.disk
  | .retry _ => s'.disk = s.disk
  | .exec =>
    ∃ r data, s.thisRequest = some r ∧ s.dataOf r = some data ∧
      ((s.request r).cmd = winRead → s'.disk = s.disk) ∧
      ((s.request r).cmd = winWrite → ∀ x, s'.disk x ≠ s.disk x →
        (x = s.addr r ∧ s'.disk x = half data 0) ∨ (x = s.addr r + 1 ∧ s'.disk x = half data 1))
  | .interrupt =>
    s'.disk = s.disk ∧ s.doHd ≠ none ∧
      ∀ r b, s.thisRequest = some r → (s.request r).bh = some b → (s.request r).cmd = winRead →
        (s'.buffers b).bLock = false →
        half (s'.buffers b).bData 0 = s.disk (s.addr r) ∧
        half (s'.buffers b).bData 1 = s.disk (s.addr r + 1)

/-- The steps the defects do not touch: no interrupt is handled, and the command of a read is executed
    only on a sector that already holds the contents of the bounce buffer. -/
def Untouched (s : Driver β) (e : HdEvent β) (_ : Driver β) : Prop :=
  match e with
  | .call _ => True
  | .retry _ => True
  | .exec => ∀ r, s.thisRequest = some r → (s.request r).cmd = winRead →
      s.disk (s.addr r) = s.virtBuffer
  | .interrupt => False

/-! ## The driver before its first interrupt -/

/-- Nothing is queued. -/
def Driver.Quiet (s : Driver β) : Prop :=
  s.thisRequest = none ∧ s.doHd = none ∧ s.issued = s.executed ∧ s.raised = 0

/-- Request `r` on buffer `b` has been started, as a write, and its handler waits. -/
structure Driver.Busy (s : Driver β) (r : Fin 32) (b : β) : Prop where
  this : s.thisRequest = some r
  used : (s.request r).hd.slt 0 = false
  nsector : (s.request r).nsector = 2
  bh : (s.request r).bh = some b
  kind : ((s.request r).cmd = winRead ∧ s.doHd = some .readIntr) ∨
    ((s.request r).cmd = winWrite ∧ s.doHd = some .writeIntr ∧
      s.virtBuffer = half (s.buffers b).bData 0)
  req : s.virtRequest = ⟨true, s.addr r⟩
  phase : (s.issued = s.executed + 1 ∧ s.raised = 0) ∨ (s.issued = s.executed ∧ s.raised = 1)

/-- The states reached before an interrupt is handled. -/
def Driver.Early (s : Driver β) : Prop :=
  s.halted = true ∨ (s.sorting = false ∧ (s.Quiet ∨ ∃ r b, s.Busy r b))

/-- The same request but for its place in the queue. -/
def Request.SameBody (a b : Request β) : Prop := { a with next := none } = { b with next := none }

/-- Requests with the same body have the same fields. -/
lemma Request.SameBody.fields {a b : Request β} (h : a.SameBody b) :
    a.hd = b.hd ∧ a.nsector = b.nsector ∧ a.sector = b.sector ∧ a.head = b.head ∧ a.cyl = b.cyl ∧
      a.cmd = b.cmd ∧ a.bh = b.bh := by
  rw [SameBody, Request.mk.injEq] at h
  obtain ⟨h1, h2, h3, h4, h5, h6, _, h8, _⟩ := h
  exact ⟨h1, h2, h3, h4, h5, h6, h8⟩

/-- Setting a pointer leaves the bodies. -/
lemma Driver.setNext_sameBody (u : Option (Fin 32)) :
    ((s.setNext q u).request r).SameBody (s.request r) := by
  by_cases e : r = q
  · subst e
    simp [setNext, Request.SameBody]
  · simp [setNext, Request.SameBody, e]

/-- `add_request` behind a current request touches nothing but `next` fields. -/
lemma Driver.link_of_some {t : Fin 32} (h : s.thisRequest = some t) :
    ∃ f, s.link q = { s with request := f } ∧ ∀ r, (f r).SameBody (s.request r) := by
  rcases hn : (s.request t).next with _ | u
  · refine ⟨(s.setNext t (some q)).request, ?_, fun r => setNext_sameBody _⟩
    simp [link, h, hn, setNext]
  · refine ⟨((s.setNext q (s.request (s.findPlace q 32 u)).next).setNext
      (s.findPlace q 32 u) (some q)).request, ?_, fun r => ?_⟩
    · simp [link, h, hn, setNext]
    · exact (setNext_sameBody _).trans (setNext_sameBody _)

/-- A started request stays so while its own fields, the device and the data stay. -/
lemma Driver.Busy.congr (h : s.Busy r b) {f w g} (hf : (f r).SameBody (s.request r))
    (hg : ∀ b, (g b).bData = (s.buffers b).bData) :
    Driver.Busy { s with request := f, waiting := w, buffers := g } r b := by
  obtain ⟨h1, h2, h3, h4, h5, h6, h7⟩ := hf.fields
  have ha : Driver.addr { s with request := f, waiting := w, buffers := g } r = s.addr r := by
    show hdSector s.heads s.sectors (f r).sector (f r).head (f r).cyl = _
    rw [h3, h4, h5]
    rfl
  refine ⟨h.this, ?_, ?_, ?_, ?_, ?_, h.phase⟩
  · exact h1 ▸ h.used
  · exact h2 ▸ h.nsector
  · exact h7 ▸ h.bh
  · show ((f r).cmd = winRead ∧ _) ∨ ((f r).cmd = winWrite ∧ _ ∧ s.virtBuffer = half (g b).bData 0)
    rw [h6, hg]
    exact h.kind
  · rw [ha]
    exact h.req

/-- A free slot has a negative drive. -/
lemma Driver.hd_of_freeSlot (h : s.freeSlot = some q) : (s.request q).hd.slt 0 = true := by
  have hf := List.find?_some h
  exact hf

/-- A call that finds a request started only queues its own. -/
lemma Driver.Busy.rwAbsHdRepeat (h : s.Busy r b) (c : RwCall β) :
    ∃ f w, s.rwAbsHdRepeat c = .ret { s with request := f, waiting := w } ∧
      (f r).SameBody (s.request r) := by
  rw [Driver.rwAbsHdRepeat]
  rcases hs : s.freeSlot with _ | q
  · exact ⟨_, _, rfl, rfl⟩
  · have hne : r ≠ q := by
      rintro rfl
      have hu := h.used
      rw [Driver.hd_of_freeSlot hs] at hu
      cases hu
    simp only [Driver.addRequest, update_self, ne_eq, not_true, if_false]
    generalize he : (Request.mk _ _ _ _ _ _ _ _ _ : Request β) = entry
    obtain ⟨f, hl, hf⟩ := Driver.link_of_some (q := q)
      (s := { s with request := update s.request q entry }) h.this
    have hd : s.doHd ≠ none := by
      rcases h.kind with ⟨_, e⟩ | ⟨_, e, _⟩ <;> rw [e] <;> exact Option.some_ne_none _
    refine ⟨f, s.waiting, ?_, ?_⟩
    · rw [hl]
      exact if_neg hd
    · have hr := hf r
      simp only [update_of_ne hne] at hr
      exact hr

/-- `hd_out` panics or issues the command. -/
lemma Driver.hdOut_cases (s : Driver β) (drive sect head cyl cmd : BitVec 32) (intr : Intr) :
    (∃ msg, s.hdOut drive sect head cyl cmd intr = .panic msg) ∨
    (drive.slt 0 = false ∧ s.hdOut drive sect head cyl cmd intr =
      .ret ({ s with doHd := some intr }.virtioCmd cmd (hdSector s.heads s.sectors sect head cyl))) := by
  rw [hdOut]
  split
  · exact .inl ⟨_, rfl⟩
  · refine .inr ⟨?_, rfl⟩
    have hbad : ¬ (drive > 1 ∨ head > 15) := ‹_›
    have hd : drive = 0 ∨ drive = 1 := by bv_omega
    rcases hd with rfl | rfl <;> rfl

/-- `do_request` for a read. -/
lemma Driver.doRequest_read (hs : s.sorting = false) (hthis : s.thisRequest = some r)
    (hc : (s.request r).cmd = winRead) :
    s.doRequest = s.hdOut (s.request r).hd (s.request r).sector (s.request r).head
      (s.request r).cyl (s.request r).cmd .readIntr := by
  have hne : winRead ≠ winWrite := by decide
  simp [doRequest, hs, hthis, hc, hne]

/-- `do_request` for a write. -/
lemma Driver.doRequest_write (hs : s.sorting = false) (hthis : s.thisRequest = some r)
    (hc : (s.request r).cmd = winWrite) (hb : (s.request r).bh = some b) :
    s.doRequest =
      { s with virtBuffer := half (s.buffers b).bData ((s.request r).nsector &&& 1).toNat }.hdOut
        (s.request r).hd (s.request r).sector (s.request r).head (s.request r).cyl
        (s.request r).cmd .writeIntr := by
  simp [doRequest, hs, hthis, hc, dataOf, hb]

/-- `do_request` on a request of two sectors starts it, as a write, or ends in a panic. -/
lemma Driver.doRequest_start (hs : s.sorting = false) (hthis : s.thisRequest = some r)
    (hn : (s.request r).nsector = 2) (hb : (s.request r).bh = some b)
    (hc : (s.request r).cmd = winRead ∨ (s.request r).cmd = winWrite)
    (hi : s.issued = s.executed) (hr : s.raised = 0) :
    (∃ msg, s.doRequest = .panic msg) ∨
    ∃ s', s.doRequest = .ret s' ∧ s'.Busy r b ∧ s'.sorting = false ∧ s'.disk = s.disk := by
  have hiss : s.issued + 1 = s.executed + 1 := congrArg (· + 1) hi
  rcases hc with hc | hc
  · rw [doRequest_read hs hthis hc]
    obtain ⟨msg, hm⟩ | ⟨hu, hret⟩ := hdOut_cases s (s.request r).hd (s.request r).sector
      (s.request r).head (s.request r).cyl (s.request r).cmd .readIntr
    · exact .inl ⟨msg, hm⟩
    · refine .inr ⟨_, hret, ⟨hthis, hu, hn, hb, .inl ⟨hc, rfl⟩, ?_, .inl ⟨hiss, hr⟩⟩, hs, rfl⟩
      rw [hc]
      rfl
  · rw [doRequest_write hs hthis hc hb]
    obtain ⟨msg, hm⟩ | ⟨hu, hret⟩ := hdOut_cases
      { s with virtBuffer := half (s.buffers b).bData ((s.request r).nsector &&& 1).toNat }
      (s.request r).hd (s.request r).sector
      (s.request r).head (s.request r).cyl (s.request r).cmd .writeIntr
    · exact .inl ⟨msg, hm⟩
    · refine .inr ⟨_, hret, ⟨hthis, hu, hn, hb, .inr ⟨hc, rfl, ?_⟩, ?_, .inl ⟨hiss, hr⟩⟩, hs, rfl⟩
      · show half _ ((s.request r).nsector &&& 1).toNat = _
        rw [hn]
        rfl
      · rw [hc]
        rfl

/-- A call that finds nothing queued starts its request or ends in a panic. -/
lemma Driver.Quiet.rwAbsHdRepeat (h : s.Quiet) (hs : s.sorting = false) (c : RwCall β) :
    (∃ w, s.rwAbsHdRepeat c = .ret { s with waiting := w }) ∨
    (∃ msg, s.rwAbsHdRepeat c = .panic msg) ∨
    ∃ s' r, s.rwAbsHdRepeat c = .ret s' ∧ s'.Busy r c.bh ∧ s'.sorting = false ∧ s'.disk = s.disk := by
  obtain ⟨hthis, hdo, hiss, hrai⟩ := h
  rw [Driver.rwAbsHdRepeat]
  rcases s.freeSlot with _ | q
  · exact .inl ⟨_, rfl⟩
  · right
    simp only [Driver.addRequest, Driver.link, hthis, update_self, hdo, ne_eq, not_true, if_false, if_true]
    have hc : (if c.rw = .read then winRead else winWrite) = winRead ∨
        (if c.rw = .read then winRead else winWrite) = winWrite := by
      cases c.rw <;> simp
    generalize he : (Request.mk _ _ _ _ _ _ _ _ _ : Request β) = entry
    obtain ⟨msg, hm⟩ | ⟨s', hs', hb, hd⟩ := Driver.doRequest_start (r := q) (b := c.bh)
      (s := { s with request := update s.request q entry, thisRequest := some q, doHd := none }) hs rfl
      (by simp [← he]) (by simp [← he]) (by simp only [← he, update_self]; exact hc) hiss hrai
    · exact .inl ⟨msg, hm⟩
    · exact .inr ⟨s', q, hs', hb, hd⟩

/-- Nothing that was asked for is wrong before the first request. -/
lemma Driver.Early.settled (h : s.Early) : Settled s := by
  intro hh hi hr
  obtain hh' | ⟨_, hq | ⟨r, b, hb⟩⟩ := h
  · rw [hh] at hh'
    cases hh'
  · exact hq.1
  · rcases hb.phase with ⟨hi', _⟩ | ⟨_, hr'⟩
    · omega
    · omega

/-! ## The steps -/

/-- A call changes no sector and keeps the driver as it is before an interrupt. -/
lemma Driver.Early.rwAbsHdRepeat (s₁ : Driver β) (hs : s₁.sorting = false)
    (h : s₁.Quiet ∨ ∃ r b, s₁.Busy r b) (hd : s₁.disk = s.disk) (c : RwCall β) :
    (s.after (s₁.rwAbsHdRepeat c)).Early ∧ (s.after (s₁.rwAbsHdRepeat c)).disk = s.disk := by
  rcases h with hq | ⟨r, b, hb⟩
  · obtain ⟨w, e⟩ | ⟨msg, e⟩ | ⟨s', r, e, hb, hs', hd'⟩ := hq.rwAbsHdRepeat hs c
    · rw [e]
      exact ⟨.inr ⟨hs, .inl hq⟩, hd⟩
    · rw [e]
      exact ⟨.inl rfl, rfl⟩
    · rw [e]
      exact ⟨.inr ⟨hs', .inr ⟨r, c.bh, hb⟩⟩, hd'.trans hd⟩
  · obtain ⟨f, w, e, hf⟩ := hb.rwAbsHdRepeat c
    rw [e]
    exact ⟨.inr ⟨hs, .inr ⟨r, b, hb.congr hf fun _ => rfl⟩⟩, hd⟩

/-- A command that is executed is that of a started request, as a write. -/
lemma Driver.Early.exec (h : s.Early) (hh : s.halted = false) (hlt : s.executed < s.issued) :
    ∃ r b, s.Busy r b ∧ s.deviceExec.Busy r b ∧ s.deviceExec.sorting = false ∧
      s.deviceExec.disk = update s.disk (s.addr r) s.virtBuffer := by
  obtain hh' | ⟨hs, hq | ⟨r, b, hb⟩⟩ := h
  · rw [hh] at hh'
    cases hh'
  · have hi := hq.2.2.1
    omega
  · obtain ⟨hi, hr⟩ | ⟨hi, _⟩ := hb.phase
    swap
    · omega
    have hout : s.deviceExec =
        { s with
          executed := s.executed + 1, raised := s.raised + 1
          disk := update s.disk s.virtRequest.sector s.virtBuffer } := by
      simp [deviceExec, hb.req]
    have ha : s.virtRequest.sector = s.addr r := by rw [hb.req]
    refine ⟨r, b, hb, ?_, ?_, ?_⟩
    · rw [hout]
      exact ⟨hb.this, hb.used, hb.nsector, hb.bh, hb.kind, hb.req, .inr ⟨hi, by simp [hr]⟩⟩
    · rw [hout]
      exact hs
    · rw [hout, ha]

/-- The first interrupt that is handled leaves its request queued and no command under way. -/
lemma Driver.Busy.not_settled_interrupt [DecidableEq β] (hb : s.Busy r b) (hh : s.halted = false)
    (hr : 0 < s.raised) : ¬ Settled (s.after { s with raised := s.raised - 1 }.hdInterrupt) := by
  obtain ⟨_, hr'⟩ | ⟨hi, hr'⟩ := hb.phase
  · omega
  have h1 : (s.request r).nsector - 1 ≠ 0 := by
    rw [hb.nsector]
    decide
  have stuck : ∀ s' : Driver β, s'.halted = s.halted → s'.issued = s.issued →
      s'.executed = s.executed → s'.raised = s.raised - 1 → s'.thisRequest = s.thisRequest →
      ¬ Settled s' := by
    intro s' e1 e2 e3 e4 e5 hset
    have hn := hset (e1.trans hh) (e2.trans (hi.trans e3.symm)) (by omega)
    rw [e5, hb.this] at hn
    cases hn
  obtain ⟨_, hd⟩ | ⟨_, hd, _⟩ := hb.kind
  · simp only [hdInterrupt, hd, readIntr, hb.this, hb.bh, if_pos h1, after]
    exact stuck _ rfl rfl rfl rfl hb.this.symm
  · simp only [hdInterrupt, hd, writeIntr, hb.this, hb.bh, if_pos h1, after]
    exact stuck _ rfl rfl rfl rfl hb.this.symm

end

/-! ## Every run -/

section
variable {β : Type*} [DecidableEq β] {s s' : Driver β} {e : HdEvent β}

/-- A step in which nobody touches the first request is right. -/
lemma hd_step_ok (h : s.Early) (st : HdStep s e s') (hc : Untouched s e s') :
    s'.Early ∧ Settled s' ∧ StepOk s e s' := by
  cases st with
  | @call c hh =>
    obtain hh' | ⟨hs, hb⟩ := h
    · rw [hh] at hh'
      cases hh'
    have hlock : ∀ b', (update s.buffers c.bh { s.buffers c.bh with bLock := true } b').bData =
        (s.buffers b').bData := by
      intro b'
      by_cases e : b' = c.bh
      · subst e; simp
      · simp [e]
    have hd : Driver.disk { s with
        buffers := update s.buffers c.bh { s.buffers c.bh with bLock := true } } = s.disk := rfl
    obtain ⟨he, hdisk⟩ := Driver.Early.rwAbsHdRepeat (s := s) { s with
        buffers := update s.buffers c.bh { s.buffers c.bh with bLock := true } } hs
      (hb.imp id fun ⟨r, b, hb⟩ => ⟨r, b, hb.congr rfl hlock⟩) hd c
    exact ⟨he, he.settled, hdisk⟩
  | @retry c l r hh hw =>
    obtain hh' | ⟨hs, hb⟩ := h
    · rw [hh] at hh'
      cases hh'
    have hd : Driver.disk { s with waiting := l ++ r } = s.disk := rfl
    obtain ⟨he, hdisk⟩ := Driver.Early.rwAbsHdRepeat (s := s) { s with waiting := l ++ r } hs
      (hb.imp id fun ⟨r, b, hb⟩ => ⟨r, b, hb.congr rfl fun _ => rfl⟩) hd c
    exact ⟨he, he.settled, hdisk⟩
  | exec hh hlt =>
    obtain ⟨r, b, hb, hb', hs', hd⟩ := h.exec hh hlt
    have he : s.deviceExec.Early := .inr ⟨hs', .inr ⟨r, b, hb'⟩⟩
    refine ⟨he, he.settled, r, (s.buffers b).bData, hb.this, ?_, ?_, ?_⟩
    · rw [Driver.dataOf, hb.bh]
      rfl
    · intro hcmd
      rw [hd, ← hc r hb.this hcmd, update_eq_self]
    · intro hcmd x hx
      rw [hd] at hx ⊢
      have e : x = s.addr r := by
        by_contra hne
        exact hx (update_of_ne hne _ _)
      refine .inl ⟨e, ?_⟩
      rw [e, update_self]
      rcases hb.kind with ⟨hr, _⟩ | ⟨_, _, hv⟩
      · rw [hcmd] at hr
        cases hr
      · exact hv
  | interrupt => exact hc.elim

/-- A step that is right is one of those. -/
lemma hd_step_only (h : s.Early) (st : HdStep s e s') (hok : Settled s' ∧ StepOk s e s') :
    Untouched s e s' := by
  cases st with
  | call => trivial
  | retry => trivial
  | exec hh hlt =>
    obtain ⟨r, b, hb, _, _, hd⟩ := h.exec hh hlt
    intro r' hr' hcmd
    obtain rfl : r = r' := Option.some.inj (hb.this.symm.trans hr')
    obtain ⟨r', data, hthis, _, hread, _⟩ := hok.2
    obtain rfl : r = r' := Option.some.inj (hb.this.symm.trans hthis)
    have hsame := congrFun (hread hcmd) (s.addr r)
    rw [hd, update_self] at hsame
    exact hsame.symm
  | interrupt hh hr =>
    obtain hh' | ⟨_, hq | ⟨r, b, hb⟩⟩ := h
    · rw [hh] at hh'
      cases hh'
    · have hr0 := hq.2.2.2
      omega
    · exact hb.not_settled_interrupt hh hr hok.1

/-- The driver is early at first. -/
lemma hd_init (h : hdSystem.init s) : s.Early :=
  .inr ⟨h.2.2.2.1, .inl ⟨h.2.1, h.2.2.1, h.2.2.2.2.1, h.2.2.2.2.2.1⟩⟩

/-- A run of the driver keeps its guarantees in every state and at every step if and only if it handles
    no interrupt and executes the command of a read only on a sector that already holds the contents
    of the bounce buffer. -/
theorem hd_end_to_end_iff {tr} (h0 : hdSystem.init s) (ex : hdSystem.Exec s tr) :
    Always Settled s tr ∧ Along StepOk s tr ↔ Along Untouched s tr := by
  have he := hd_init h0
  rw [always_and_along_iff he.settled]
  exact ex.along_iff (fun _ _ _ => hd_step_ok) (fun _ _ _ => hd_step_only) he

/-- A disk of 16 heads and 63 sectors a track, full of ones, and one buffer. -/
def sampleDriver : Driver Unit where
  request _ := ⟨-1, 0, 0, 0, 0, 0, 0, none, none⟩
  thisRequest := none
  doHd := none
  sorting := false
  buffers _ := ⟨fun _ => 7, false, false, false⟩
  heads := 16
  sectors := 63
  virtBuffer _ := 0
  virtRequest := ⟨false, 0⟩
  issued := 0
  executed := 0
  raised := 0
  disk _ _ := 1
  waiting := []
  halted := false

/-- So is the sample. -/
lemma sampleDriver_init : hdSystem.init sampleDriver :=
  ⟨fun _ => ⟨rfl, rfl⟩, rfl, rfl, rfl, rfl, rfl, rfl, rfl⟩

/-- A request for the first two sectors of the disk. -/
def sampleCall (rw : Rw) : RwCall Unit := ⟨rw, 0, 1, 0, 0, ()⟩

/-- The driver once that request is queued. -/
def sampleQueued (rw : Rw) : Driver Unit := sampleDriver.after (sampleDriver.rwAbsHd (sampleCall rw))

/-- The run that queues the request and lets the device execute its first command. -/
def sampleRun (rw : Rw) : List (HdEvent Unit × Driver Unit) :=
  [(.call (sampleCall rw), sampleQueued rw), (.exec, (sampleQueued rw).deviceExec)]

/-- The sample is a run. -/
lemma sampleRun_exec (rw : Rw) : hdSystem.Exec sampleDriver (sampleRun rw) := by
  refine .cons (.call rfl) (.cons (.exec ?_ ?_) .nil)
  · cases rw <;> rfl
  · cases rw <;> decide

/-- The first half of a write gets to the disk as it should. -/
theorem hd_end_to_end_first_half :
    Always Settled sampleDriver (sampleRun .write) ∧ Along StepOk sampleDriver (sampleRun .write) := by
  apply (hd_end_to_end_iff sampleDriver_init (sampleRun_exec .write)).2
  refine ⟨trivial, ?_, trivial⟩
  intro r hr hcmd
  obtain rfl : (0 : Fin 32) = r := Option.some.inj hr
  revert hcmd
  decide

/-- The command of a read overwrites the sector with the bounce buffer. -/
theorem hd_read_changes_sector :
    ¬ ∀ (s : Driver Unit) tr, hdSystem.init s → hdSystem.Exec s tr →
      Always Settled s tr ∧ Along StepOk s tr := by
  intro h
  obtain ⟨_, _, ⟨r, _, hr, _, hread, _⟩, _⟩ := h _ _ sampleDriver_init (sampleRun_exec .read)
  obtain rfl : (0 : Fin 32) = r := Option.some.inj hr
  have hsame := congrFun (congrFun (hread rfl) 0) 0
  revert hsame
  decide

end

end OldLinux.Hd
