import OldLinux.Pipe.Code

/-!
# A pipe is a lossless queue

Any number of tasks call `read_pipe` and `write_pipe` on one pipe inode, with any counts, and are
interleaved where the calls sleep or return (`PipeStep`). `i_count` may change and `wake_up` may be
called at any such point. The page with its two offsets is a ring (`PipeInode.ring`), `store` and `take`
are its `push` and `pop`, and the invariant `Fifo` relates the ring to the record of bytes. The headline
is `pipe_lossless_fifo`.
-/

namespace OldLinux.Pipe
open Lib Sched Function

/-- The first `n` bytes of a user buffer. -/
def bytes (buf : Nat → UInt8) (n : Nat) : List UInt8 := (List.range n).map buf

/-- The two system calls. -/
inductive PipeCall where
  | read (count : Int)
  | write (buf : Nat → UInt8) (count : Int)

/-- A call from its beginning to its first sleep or its return. -/
def PipeCall.run {τ : Type*} [DecidableEq τ] (p : PipeInode τ) (t : τ) : PipeCall → Outcome τ
  | .read count => p.readPipe t count
  | .write buf count => p.writePipe t buf count

/-- The bytes a call that returns `n` reports as accepted: the first `b - buf` bytes of its buffer. -/
def PipeCall.reported : PipeCall → Int → List UInt8
  | .read _, _ => []
  | .write buf _, n => bytes buf n.toNat

/-- The same for a call that slept before it returned. -/
def PipeOp.reported : PipeOp → Int → List UInt8
  | .reading _, _ => []
  | .writing buf _ _, n => bytes buf n.toNat

/-- The bytes a sleeping call has stored so far. -/
def PipeOp.progress : PipeOp → List UInt8
  | .reading _ => []
  | .writing buf b _ => bytes buf b

/-- A pipe with the calls that sleep on it; `sent t` collects what the finished calls of `t`
    reported. -/
structure PipeState (τ : Type*) where
  ino : PipeInode τ
  op : τ → Option PipeOp
  sent : τ → List UInt8

/-- A stretch of one call, with the value it returned if it returned, and changes from outside. -/
inductive PipeEvent (τ : Type*) where
  | call (t : τ) (c : PipeCall) (r : Option Int)
  | resume (t : τ) (k : PipeOp) (r : Option Int)
  | setCount (n : Nat)
  | wake

section
variable {τ : Type*} [DecidableEq τ] (initTask : τ)

/-- The steps of the tasks on one pipe. `sleep_on` panics when `init_task` calls it. -/
inductive PipeStep : PipeState τ → PipeEvent τ → PipeState τ → Prop where
  | callRet {s t c n p} : s.op t = none → s.ino.wait.state t = .running →
    c.run s.ino t = .ret n p →
    PipeStep s (.call t c (some n))
      { s with ino := p, sent := update s.sent t (s.sent t ++ c.reported n) }
  | callSleep {s t c k p} : t ≠ initTask → s.op t = none → s.ino.wait.state t = .running →
    c.run s.ino t = .sleep k p →
    PipeStep s (.call t c none) { s with ino := p, op := update s.op t (some k) }
  | resumeRet {s t k n p} : s.op t = some k → s.ino.wait.state t = .running →
    (s.ino.resume t).again t k = .ret n p →
    PipeStep s (.resume t k (some n))
      { ino := p, op := update s.op t none, sent := update s.sent t (s.sent t ++ k.reported n) }
  | resumeSleep {s t k k' p} : s.op t = some k → s.ino.wait.state t = .running →
    (s.ino.resume t).again t k = .sleep k' p →
    PipeStep s (.resume t k none) { s with ino := p, op := update s.op t (some k') }
  | setCount {s n} :
    PipeStep s (.setCount n) { s with ino := { s.ino with iCount := n } }
  | wake {s} :
    PipeStep s .wake { s with ino := s.ino.wakeUp }

/-- A pipe that starts as `get_pipe_inode` makes it, with no call under way. -/
def pipeSystem : System (PipeState τ) (PipeEvent τ) where
  init s := ∃ page wait signal,
    s = ⟨.getPipeInode page wait signal, fun _ => none, fun _ => []⟩
  step := PipeStep initTask

end

/-! ## The ring in the page -/

namespace PipeInode

section
variable {τ : Type*} {p : PipeInode τ}

/-- Both offsets lie in the page. -/
def InPage (p : PipeInode τ) : Prop := p.head.toNat < 4096 ∧ p.tail.toNat < 4096

/-- The page as a ring of 4096 slots. -/
def ring (p : PipeInode τ) (h : p.InPage) : RingBuffer UInt8 4096 where
  slot := p.page
  head := p.head.toNat
  tail := p.tail.toNat
  head_lt := h.1
  tail_lt := h.2

/-- The index goes round the page. -/
lemma toNat_incPipe (x : BitVec 64) :
    (incPipe x).toNat = (x.toNat + 1) % 4096 := by
  have e : (incPipe x).toNat = (x + 1).toNat % 2 ^ 12 := by
    rw [incPipe, BitVec.toNat_and]
    exact Nat.and_two_pow_sub_one_eq_mod _ 12
  rw [e, BitVec.toNat_add]
  show (x.toNat + 1) % 2 ^ 64 % 2 ^ 12 = _
  omega

/-- The index stays in the page. -/
lemma incPipe_lt (x : BitVec 64) : (incPipe x).toNat < 4096 := by
  rw [toNat_incPipe]
  exact Nat.mod_lt _ (by omega)

/-- `PIPE_SIZE` is the number of bytes in the ring. -/
lemma toNat_pipeSize (h : p.InPage) : p.pipeSize.toNat = (p.ring h).size := by
  have h1 := h.1
  have h2 := h.2
  have e : p.pipeSize.toNat = (p.head - p.tail).toNat % 2 ^ 12 := by
    rw [pipeSize, BitVec.toNat_and]
    exact Nat.and_two_pow_sub_one_eq_mod _ 12
  rw [e, BitVec.toNat_sub]
  show _ = (p.head.toNat + (4096 - p.tail.toNat)) % 4096
  omega

/-- There is room for a byte. -/
lemma size_of_not_full (h : p.InPage) (hf : ¬ p.PipeFull) : (p.ring h).size + 1 < 4096 := by
  have hlt := (p.ring h).size_lt
  have hne : (p.ring h).size ≠ 4095 := by
    intro e
    apply hf
    apply BitVec.eq_of_toNat_eq
    rw [toNat_pipeSize h, e]
    rfl
  omega

/-- There is a byte. -/
lemma size_of_not_empty (h : p.InPage) (he : ¬ p.PipeEmpty) : (p.ring h).size ≠ 0 := by
  intro e
  exact he (BitVec.eq_of_toNat_eq (RingBuffer.size_eq_zero.1 e))

/-- The indices stay in the page. -/
lemma InPage.store (h : p.InPage) (t : τ) (x : UInt8) : (p.store t x).InPage :=
  ⟨incPipe_lt _, h.2⟩

/-- The indices stay in the page when a byte is taken. -/
lemma InPage.take (h : p.InPage) : p.take.InPage :=
  ⟨h.1, incPipe_lt _⟩

/-- A byte is put in at the head. -/
lemma ring_store (h : p.InPage) (t : τ) (x : UInt8) :
    (p.store t x).ring (h.store t x) = (p.ring h).push x := by
  apply RingBuffer.ext
  · rfl
  · exact toNat_incPipe _
  · rfl

/-- A byte is taken out at the tail. -/
lemma ring_take (h : p.InPage) : p.take.ring h.take = (p.ring h).pop := by
  apply RingBuffer.ext
  · rfl
  · rfl
  · exact toNat_incPipe _

/-- The bytes taken out are the first ones stored, and the ring holds the rest. -/
structure Fifo (p : PipeInode τ) : Prop where
  inPage : p.InPage
  bytes : p.accepted.map Prod.snd = p.delivered ++ (p.ring inPage).contents

/-- What is put in comes behind the rest. -/
lemma Fifo.store (h : p.Fifo) (hf : ¬ p.PipeFull) (t : τ) (x : UInt8) : (p.store t x).Fifo := by
  refine ⟨h.inPage.store t x, ?_⟩
  rw [ring_store h.inPage, RingBuffer.contents_push x (size_of_not_full h.inPage hf)]
  show (p.accepted ++ [(t, x)]).map Prod.snd = p.delivered ++ _
  rw [List.map_append, h.bytes, List.append_assoc]
  rfl

/-- What is taken out came first. -/
lemma Fifo.take (h : p.Fifo) (he : ¬ p.PipeEmpty) : p.take.Fifo := by
  refine ⟨h.inPage.take, ?_⟩
  rw [ring_take h.inPage]
  show p.accepted.map Prod.snd = (p.delivered ++ [p.page p.tail.toNat]) ++ _
  rw [h.bytes, RingBuffer.contents_pop (size_of_not_empty h.inPage he), List.append_assoc]
  rfl

/-- What the copy loop of `read_pipe` does: it takes `k` bytes, at least one if there is one. -/
lemma readLoop_spec : ∀ (n : Nat) {p : PipeInode τ}, p.Fifo →
    let o := readLoop n p
    o.2.Fifo ∧ o.2.accepted = p.accepted ∧ o.2.delivered.length = p.delivered.length + o.1 ∧
      (n ≠ 0 → ¬ p.PipeEmpty → o.1 ≠ 0)
  | 0, p, h => ⟨h, rfl, rfl, fun h0 => (h0 rfl).elim⟩
  | n + 1, p, h => by
    rw [readLoop]
    split
    · exact ⟨h, rfl, rfl, fun _ he => (he ‹_›).elim⟩
    · obtain ⟨hf, ha, hd, _⟩ := readLoop_spec n (h.take ‹_›)
      refine ⟨hf, ha, ?_, fun _ _ => Nat.succ_ne_zero _⟩
      have e : p.take.delivered.length = p.delivered.length + 1 := by
        simp [PipeInode.take]
      show (readLoop n p.take).2.delivered.length = p.delivered.length + ((readLoop n p.take).1 + 1)
      omega

end

section
variable {τ : Type*} [DecidableEq τ] {p p' : PipeInode τ} {t : τ}

/-- Waking up moves no byte. -/
lemma Fifo.wakeUp (h : p.Fifo) : p.wakeUp.Fifo := ⟨h.inPage, h.bytes⟩

/-- Going to sleep moves no byte. -/
lemma Fifo.sleepOn (h : p.Fifo) (t : τ) : (p.sleepOn t).Fifo := ⟨h.inPage, h.bytes⟩

/-- Going on moves no byte. -/
lemma Fifo.resume (h : p.Fifo) (t : τ) : (p.resume t).Fifo := ⟨h.inPage, h.bytes⟩

/-- A signal moves no byte. -/
lemma Fifo.raiseSigpipe (h : p.Fifo) (t : τ) : (p.raiseSigpipe t).Fifo := ⟨h.inPage, h.bytes⟩

/-! ## The bytes of one writer -/

/-- The bytes that `t` has stored. -/
def bytesFrom (p : PipeInode τ) (t : τ) : List UInt8 :=
  (p.accepted.filter fun x => x.1 = t).map Prod.snd

/-- The bytes of the writer. -/
lemma bytesFrom_store_self (x : UInt8) : (p.store t x).bytesFrom t = p.bytesFrom t ++ [x] := by
  simp [bytesFrom, PipeInode.store]

/-- The bytes of the other writers. -/
lemma bytesFrom_store_of_ne {u} (hu : u ≠ t) (x : UInt8) :
    (p.store t x).bytesFrom u = p.bytesFrom u := by
  simp [bytesFrom, PipeInode.store, hu.symm]

/-- They depend on what was accepted. -/
lemma bytesFrom_congr (h : p'.accepted = p.accepted) (u : τ) : p'.bytesFrom u = p.bytesFrom u := by
  rw [bytesFrom, bytesFrom, h]

end

end PipeInode

/-- One more byte of the buffer. -/
lemma bytes_succ (buf : Nat → UInt8) (n : Nat) : bytes buf (n + 1) = bytes buf n ++ [buf n] := by
  simp [bytes, List.range_succ]

section
variable {τ : Type*} [DecidableEq τ] {p : PipeInode τ} {t : τ}

/-- The pipe a stretch of a call leaves behind. -/
def Outcome.inode : Outcome τ → PipeInode τ
  | .ret _ p => p
  | .sleep _ p => p

/-- The bytes the whole call has stored when the stretch ends: what it reports, or what it has to
    continue from. -/
def Outcome.stored (rep : Int → List UInt8) : Outcome τ → List UInt8
  | .ret n _ => rep n
  | .sleep k _ => k.progress

/-- What a stretch of a call by `t` guarantees, given the bytes `pre` the call had stored before: the
    pipe is a queue, the other writers' bytes are as they were, and those of `t` have grown by what
    the call has stored since. -/
structure Outcome.Ok (p : PipeInode τ) (t : τ) (pre : List UInt8) (rep : Int → List UInt8)
    (o : Outcome τ) : Prop where
  fifo : o.inode.Fifo
  others : ∀ u, u ≠ t → o.inode.bytesFrom u = p.bytesFrom u
  grown : ∃ new, o.inode.bytesFrom t = p.bytesFrom t ++ new ∧ pre ++ new = o.stored rep

/-- A byte was stored before. -/
lemma Outcome.Ok.of_store {x pre rep} {o : Outcome τ}
    (h : o.Ok (p.store t x).wakeUp t (pre ++ [x]) rep) : o.Ok p t pre rep := by
  refine ⟨h.fifo, fun u hu => ?_, ?_⟩
  · rw [h.others u hu]
    exact PipeInode.bytesFrom_store_of_ne hu x
  · obtain ⟨new, hnew, hrep⟩ := h.grown
    refine ⟨x :: new, ?_, ?_⟩
    · rw [hnew]
      show (p.store t x).bytesFrom t ++ new = _
      rw [PipeInode.bytesFrom_store_self, List.append_assoc]
      rfl
    · rw [← hrep, List.append_assoc]
      rfl

/-- Nothing was stored. -/
lemma Outcome.Ok.of_same {pre rep} {o : Outcome τ} (hf : o.inode.Fifo)
    (ha : o.inode.accepted = p.accepted) (hs : o.stored rep = pre) : o.Ok p t pre rep := by
  refine ⟨hf, fun u _ => PipeInode.bytesFrom_congr ha u, [], ?_, ?_⟩
  · rw [List.append_nil]
    exact PipeInode.bytesFrom_congr ha t
  · rw [List.append_nil, hs]

/-- `read_pipe` stores nothing. -/
lemma readPipe_ok (h : p.Fifo) (count : Int) : (p.readPipe t count).Ok p t [] fun _ => [] := by
  rw [PipeInode.readPipe]
  split
  · show Outcome.Ok p t [] _ (if p.iCount ≠ 2 then _ else _)
    split
    · exact .of_same h.wakeUp rfl rfl
    · exact .of_same (h.wakeUp.sleepOn t) rfl rfl
  · obtain ⟨hf, ha, _⟩ := PipeInode.readLoop_spec count.toNat h
    exact .of_same hf.wakeUp ha rfl

/-- The loop of `write_pipe` stores `buf[b]`, `buf[b+1]`, .. and reports how far it came. -/
lemma writeLoop_ok (buf : Nat → UInt8) : ∀ (left b : Nat) {p : PipeInode τ}, p.Fifo →
    (PipeInode.writeLoop t buf left b p).Ok p t (bytes buf b) fun n => bytes buf n.toNat
  | 0, b, p, h => .of_same h.wakeUp rfl rfl
  | left + 1, b, p, h => by
    rw [PipeInode.writeLoop]
    split
    · show Outcome.Ok p t _ _ (if p.iCount ≠ 2 then _ else _)
      split
      · exact .of_same (h.wakeUp.raiseSigpipe t) rfl rfl
      · exact .of_same (h.wakeUp.sleepOn t) rfl rfl
    · have ih := writeLoop_ok buf left (b + 1) (h.store ‹_› t (buf b)).wakeUp
      rw [bytes_succ] at ih
      exact ih.of_store

/-- A call is right. -/
lemma call_ok (h : p.Fifo) (c : PipeCall) : (c.run p t).Ok p t [] c.reported := by
  cases c with
  | read count => exact readPipe_ok h count
  | write buf count =>
    show Outcome.Ok p t [] _ (if p.iCount ≠ 2 then _ else _)
    split
    · exact .of_same (h.wakeUp.raiseSigpipe t) rfl rfl
    · obtain ⟨hf, hu, hg⟩ := writeLoop_ok (t := t) buf count.toNat 0 h.wakeUp
      exact ⟨hf, hu, hg⟩

/-- Going on with a call is right. -/
lemma again_ok (h : p.Fifo) (k : PipeOp) : (p.again t k).Ok p t k.progress k.reported := by
  cases k with
  | reading count => exact readPipe_ok h count
  | writing buf b left => exact writeLoop_ok buf left b h

end

/-! ## Every run -/

section
variable {τ : Type*} [DecidableEq τ] {initTask : τ} {s s' : PipeState τ}

/-- The bytes the unfinished call of a task has stored. -/
def PipeState.progress (s : PipeState τ) (t : τ) : List UInt8 :=
  (s.op t).elim [] PipeOp.progress

/-- The pipe is a queue, and the bytes of each writer are those its calls reported followed by those
    its unfinished call has stored. -/
structure PipeState.Inv (s : PipeState τ) : Prop where
  fifo : s.ino.Fifo
  sent : ∀ t, s.ino.bytesFrom t = s.sent t ++ s.progress t

/-- The invariant holds at first. -/
lemma inv_init (h : (pipeSystem initTask).init s) : s.Inv := by
  obtain ⟨page, wait, signal, rfl⟩ := h
  have hp : (PipeInode.getPipeInode page wait signal).InPage := by
    show (0 : BitVec 64).toNat < 4096 ∧ (0 : BitVec 64).toNat < 4096
    decide
  refine ⟨⟨hp, ?_⟩, fun _ => rfl⟩
  symm
  apply List.eq_nil_of_length_eq_zero
  rw [List.length_append, RingBuffer.length_contents, RingBuffer.size_eq_zero.2 rfl]
  rfl

/-- A stretch of a call by `t` that had stored `pre` keeps the invariant. -/
lemma inv_of_ok {t pre rep} {o : Outcome τ} (h : s.Inv) (ho : o.Ok s.ino t pre rep)
    (hpre : s.progress t = pre) (hino : s'.ino = o.inode)
    (hself : s'.sent t ++ s'.progress t = s.sent t ++ o.stored rep)
    (hother : ∀ u, u ≠ t → s'.sent u ++ s'.progress u = s.sent u ++ s.progress u) : s'.Inv := by
  refine ⟨hino ▸ ho.fifo, fun u => ?_⟩
  by_cases e : u = t
  · subst e
    obtain ⟨new, hnew, hrep⟩ := ho.grown
    rw [hino, hnew, h.sent, hself, ← hrep, hpre, List.append_assoc]
  · rw [hino, ho.others u e, h.sent, hother u e]

/-- A step keeps the invariant. -/
lemma inv_step {e} (h : s.Inv) (st : PipeStep initTask s e s') : s'.Inv := by
  cases st with
  | @callRet t c n p hop _ hrun =>
    have ho := call_ok (t := t) h.fifo c
    rw [hrun] at ho
    have hp : s.progress t = [] := by simp [PipeState.progress, hop]
    refine inv_of_ok h ho hp rfl ?_ fun u hu => ?_
    · show update s.sent t _ t ++ s.progress t = _
      rw [update_self, hp, List.append_nil]
      rfl
    · show update s.sent t _ u ++ s.progress u = _
      rw [update_of_ne hu]
  | @callSleep t c k p _ hop _ hrun =>
    have ho := call_ok (t := t) h.fifo c
    rw [hrun] at ho
    refine inv_of_ok h ho (by simp [PipeState.progress, hop]) rfl ?_ fun u hu => ?_
    · simp [PipeState.progress, Outcome.stored]
    · simp [PipeState.progress, hu]
  | @resumeRet t k n p hop _ hrun =>
    have ho := again_ok (t := t) (h.fifo.resume t) k
    rw [hrun] at ho
    refine inv_of_ok h ⟨ho.fifo, ho.others, ho.grown⟩ (by simp [PipeState.progress, hop]) rfl ?_
      fun u hu => ?_
    · simp [PipeState.progress, Outcome.stored]
    · simp [PipeState.progress, hu]
  | @resumeSleep t k k' p hop _ hrun =>
    have ho := again_ok (t := t) (h.fifo.resume t) k
    rw [hrun] at ho
    refine inv_of_ok h ⟨ho.fifo, ho.others, ho.grown⟩ (by simp [PipeState.progress, hop]) rfl ?_
      fun u hu => ?_
    · simp [PipeState.progress, Outcome.stored]
    · simp [PipeState.progress, hu]
  | setCount => exact ⟨⟨h.fifo.inPage, h.fifo.bytes⟩, h.sent⟩
  | wake => exact ⟨h.fifo.wakeUp, h.sent⟩

/-- The invariant holds of every reachable state. -/
lemma reach_inv (hr : (pipeSystem initTask).Reach s) : s.Inv :=
  hr.inv (fun _ => inv_init) fun _ _ _ => inv_step

/-- The value returned by a `read_pipe` with the given count, if the event is such a return. -/
inductive ReadRet {τ : Type*} : PipeEvent τ → Int → Int → Prop where
  | call {t count n} : ReadRet (.call t (.read count) (some n)) count n
  | resume {t count n} : ReadRet (.resume t (.reading count) (some n)) count n

/-- What `read_pipe` returns: the number of bytes it takes out; for a positive count this is 0 only
    when the pipe is empty and `i_count` is not 2. -/
lemma readPipe_ret {p p' : PipeInode τ} {t : τ} {count n : Int} (h : p.Fifo)
    (hr : p.readPipe t count = .ret n p') :
    (p'.delivered.length : Int) = p.delivered.length + n ∧
      (0 < count → n = 0 → p.PipeEmpty ∧ p.iCount ≠ 2) := by
  rw [PipeInode.readPipe] at hr
  split at hr
  · have hr : (if p.iCount ≠ 2 then Outcome.ret 0 p.wakeUp else _) = Outcome.ret n p' := hr
    split at hr
    · cases hr
      exact ⟨by simp [PipeInode.wakeUp], fun _ _ => ⟨‹_›, ‹_›⟩⟩
    · cases hr
  · obtain ⟨_, _, hd, hk⟩ := PipeInode.readLoop_spec count.toNat h
    cases hr
    refine ⟨?_, fun hc hn => ?_⟩
    · show ((PipeInode.readLoop count.toNat p).2.delivered.length : Int) = _
      rw [hd]
      push_cast
      rfl
    · have hne := hk (by omega) ‹_›
      exact (hne (by exact_mod_cast hn)).elim

/-- In every reachable state the bytes delivered are a prefix of the bytes accepted, what is missing
    are the `PIPE_SIZE` bytes in the ring, of which there are at most 4095, and the bytes accepted
    from each writer are those its `write_pipe` calls reported (with the part the sleeping call has
    stored so far). Every `read_pipe` that returns has taken out as many bytes as it says, and it
    says 0 for a positive count only if the pipe is empty and `i_count` is not 2. -/
theorem pipe_lossless_fifo (hr : (pipeSystem initTask).Reach s) :
    (∃ hp : s.ino.InPage,
      s.ino.accepted.map Prod.snd = s.ino.delivered ++ (s.ino.ring hp).contents ∧
      (s.ino.ring hp).contents.length = s.ino.pipeSize.toNat) ∧
    s.ino.pipeSize.toNat ≤ 4095 ∧
    (∀ t, s.ino.bytesFrom t = s.sent t ++ s.progress t) ∧
    (∀ e s' count n, (pipeSystem initTask).step s e s' → ReadRet e count n →
      (s'.ino.delivered.length : Int) = s.ino.delivered.length + n ∧
      (0 < count → n = 0 → s.ino.PipeEmpty ∧ s.ino.iCount ≠ 2)) := by
  have h := reach_inv hr
  have hsize := PipeInode.toNat_pipeSize h.fifo.inPage
  refine ⟨⟨h.fifo.inPage, h.fifo.bytes, ?_⟩, ?_, h.sent, ?_⟩
  · rw [RingBuffer.length_contents, hsize]
  · have hlt := (s.ino.ring h.fifo.inPage).size_lt
    omega
  · intro e s' count n st hret
    cases hret with
    | call =>
      cases st with
      | callRet _ _ hrun => exact readPipe_ret h.fifo hrun
    | @resume t _ _ =>
      cases st with
      | resumeRet _ _ hrun =>
        exact readPipe_ret (p := s.ino.resume t) (h.fifo.resume t) hrun

/-- A new pipe of three runnable tasks. -/
def newPipe : PipeInode (Fin 3) :=
  .getPipeInode (fun _ => 0) ⟨none, fun _ => .running, fun _ => none⟩ fun _ => 0

/-- Task 1 writes two bytes into a new pipe. -/
theorem pipe_lossless_fifo_two :
    ∃ s : PipeState (Fin 3), s.ino.accepted = [(1, 7), (1, 7)] ∧ s.ino.pipeSize.toNat ≤ 4095 ∧
      s.ino.bytesFrom 1 = s.sent 1 ++ s.progress 1 := by
  have hw : PipeCall.run newPipe 1 (.write (fun _ => 7) 2) =
      .ret 2 ((newPipe.wakeUp.store 1 7).wakeUp.store 1 7).wakeUp.wakeUp := by rfl
  have hr : (pipeSystem (0 : Fin 3)).Reach ⟨newPipe, fun _ => none, fun _ => []⟩ :=
    .init ⟨_, _, _, rfl⟩
  obtain ⟨_, hle, hsent, _⟩ := pipe_lossless_fifo (hr.step (.callRet rfl rfl hw))
  exact ⟨_, rfl, hle, hsent 1⟩

end

end OldLinux.Pipe
