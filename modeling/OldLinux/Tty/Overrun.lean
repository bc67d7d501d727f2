import Mathlib.Algebra.Order.BigOperators.Group.Finset
import Mathlib.Data.Fintype.Prod
import OldLinux.Lib.Tally
import OldLinux.Tty.Terminal

/-!
# Queues that are never overrun

Every store into a queue and every removal from one is preceded by a test of the queue, except the
echo of `copy_to_cooked`, which goes into `write_q` untested. An activity *owes* the operations that
it has tested for and not yet carried out. As long as the operations owed fit the queues, together,
no `PUTCH` meets a full queue and no `GETCH` or `DEC` an empty one; `no_overrun` is the run lemma for
that, and the echo, an interrupt that comes between a test and its store, and `write_char`, which
moves the tail of its queue the wrong way, are what can break it.
-/

namespace OldLinux.Tty
open Lib Function

/-- Whether an operation needs room in its queue, or characters. -/
inductive Need where
  | store
  | take
  deriving DecidableEq

instance : Fintype Need where
  elems := {.store, .take}
  complete d := by cases d <;> decide

/-- What an operation needs. -/
def QueueOp.need : QueueOp → Need
  | put _ => .store
  | get | dec | send => .take

/-- How often the queue can meet the need: `LEFT`, `CHARS`. -/
def TtyQueue.space (q : TtyQueue) : Need → Nat
  | .store => q.left
  | .take => q.ring.size

/-! ## What the activities owe -/

/-- What a statement of `copy_to_cooked` needs. -/
def CookStmt.owed (c : CookStmt) : List (QueueName × Need) :=
  c.op.toList.map fun (n, op) => (n, op.need)

/-- What `copy_to_cooked` still owes in an iteration. -/
def CookState.owed : CookState → List (QueueName × Need)
  | .loop | .returned => []
  | .getch => [(.readQ, .take), (.secondary, .store)]
  | .fetched _ => [(.secondary, .store)]
  | .stmts l => l.flatMap CookStmt.owed

/-- What `tty_read` owes. -/
def ReadState.owed : ReadState → List (QueueName × Need)
  | .getch _ => [(.secondary, .take)]
  | _ => []

/-- What `tty_write` owes. -/
def WriteState.owed : WriteState → List (QueueName × Need)
  | .char _ => [(.writeQ, .store)]
  | _ => []

/-- What an activity owes, by queue. -/
def Activity.owed : Activity → List ((Fin 3 × QueueName) × Need)
  | .idle => []
  | .cooking ch k => k.owed.map fun (n, d) => ((ch, n), d)
  | .reading ch k => k.owed.map fun (n, d) => ((ch, n), d)
  | .writing ch k => k.owed.map fun (n, d) => ((ch, n), d)

namespace Terminals
variable {ι : Type*} [DecidableEq ι] [Fintype ι]

/-- How often the need arises, over all activities. -/
def owed (s : Terminals ι) (d : (Fin 3 × QueueName) × Need) : Nat := ∑ i, (s.act i).owed.count d

/-- How often it can be met. -/
def space (s : Terminals ι) (d : (Fin 3 × QueueName) × Need) : Nat := (s.queue d.1).space d.2

/-- Everything owed fits. -/
def Covered (s : Terminals ι) : Prop := ∀ d, s.owed d ≤ s.space d

end Terminals

section
variable {ι : Type*} [DecidableEq ι] [Fintype ι]

/-- A statement by which an activity comes to owe something, a test of a queue or the decision to
    echo, finds that it fits beside what all activities owe; a received character that is stored
    leaves the room that is owed; no character is sent. -/
def Admitted (s : Terminals ι) : Event ι → Terminals ι → Prop
  | .run i, s' => ∀ d, (s.act i).owed.count d < (s'.act i).owed.count d → s'.owed d ≤ s.space d
  | .receive k _, _ => ¬ (s.queue (tableList k)).Full →
      s.owed (tableList k, .store) < (s.queue (tableList k)).left
  | .transmit k, _ => (s.queue (tableList k)).Empty
  | _, _ => True

instance (s : Terminals ι) (e : Event ι) (s' : Terminals ι) : Decidable (Admitted s e s') :=
  match e with
  | .run i => inferInstanceAs (Decidable
      (∀ d, (s.act i).owed.count d < (s'.act i).owed.count d → s'.owed d ≤ s.space d))
  | .receive k _ => inferInstanceAs (Decidable (¬ (s.queue (tableList k)).Full →
      s.owed (tableList k, .store) < (s.queue (tableList k)).left))
  | .transmit k => inferInstanceAs (Decidable (s.queue (tableList k)).Empty)
  | .cook .. | .read .. | .write .. | .signal .. | .tick => .isTrue trivial

/-- The operation on the queue `p`, if that is the one operated on. -/
def opOn {κ : Type*} [DecidableEq κ] (m : Option (κ × QueueOp)) (p : κ) : Option QueueOp :=
  m.bind fun (p', op) => if p' = p then some op else none

/-- The step keeps every queue intact: a `PUTCH` meets a queue that is not `FULL` and does not bring
    `head` round to `tail`, an operation that takes a character meets one that is not `EMPTY`, and the
    stored characters change as those of a FIFO queue of at most 1023 do. -/
structure Intact (s : Terminals ι) (e : Event ι) (s' : Terminals ι) : Prop where
  fits : ∀ p op, opOn (s.move e) p = some op → op.Fits (s.queue p)
  ahead : ∀ p c, opOn (s.move e) p = some (.put c) → ¬ (s'.queue p).Empty
  fifo : ∀ p, (s'.queue p).contents = match opOn (s.move e) p with
    | some op => op.spec (s.queue p).contents
    | none => (s.queue p).contents
  bounded : ∀ p, (s'.queue p).contents.length ≤ 1023

end

/-! ## The queues along a step -/

section
variable {κ : Type*} [DecidableEq κ] {m : Option (κ × QueueOp)} {p : κ} {op : QueueOp}

/-- No operation. -/
@[simp] lemma opOn_none : opOn (none : Option (κ × QueueOp)) p = none := rfl

/-- An operation is on one queue. -/
@[simp] lemma opOn_some {p' : κ} : opOn (some (p', op)) p = if p' = p then some op else none := rfl

/-- The queue that an operation is on. -/
lemma opOn_eq_some : opOn m p = some op ↔ m = some (p, op) := by
  cases m with
  | none => simp
  | some x =>
    obtain ⟨p', op'⟩ := x
    rw [opOn_some]
    split
    case isTrue h => simp [h]
    case isFalse h => simp [h]

/-- The queues change by the operation and by nothing else. -/
def Carried (m : Option (κ × QueueOp)) (f g : κ → TtyQueue) : Prop :=
  ∀ p, match opOn m p with
    | some op => (g p).ring = op.run (f p).ring
    | none => (g p).contents = (f p).contents

/-- Nothing is carried out. -/
lemma Carried.refl (f : κ → TtyQueue) : Carried none f f := fun _ => rfl

/-- An operation is carried out. -/
lemma Carried.of_update {f : κ → TtyQueue} {q : TtyQueue} (h : q.ring = op.run (f p).ring) :
    Carried (some (p, op)) f (update f p q) := by
  intro p'
  by_cases hp : p = p'
  · subst hp
    rw [opOn_some, if_pos rfl, update_self]
    exact h
  · rw [opOn_some, if_neg hp, update_of_ne (Ne.symm hp)]

/-- A change of the queues that no operation stands behind leaves their contents. -/
lemma Carried.of_contents {f : κ → TtyQueue} {q : TtyQueue} (h : q.contents = (f p).contents) :
    Carried none f (update f p q) := by
  intro p'
  by_cases hp : p = p'
  · subst hp
    rw [opOn_none, update_self]
    exact h
  · rw [opOn_none, update_of_ne (Ne.symm hp)]

end

/-- The operation carried out, if any, is one the activity owed, and the rest is still owed. -/
def Paid {κ : Type*} (m : Option (κ × QueueOp)) (owed owed' : List (κ × Need)) : Prop :=
  ∀ p op, m = some (p, op) → op ≠ .send ∧ owed = (p, op.need) :: owed'

/-- Nothing is to be paid. -/
lemma Paid.none {κ : Type*} {owed owed' : List (κ × Need)} : Paid none owed owed' :=
  fun _ _ h => absurd h.symm (Option.some_ne_none _)

/-- A statement of `copy_to_cooked` does to the queues what `CookStmt.op` says. -/
lemma CookStmt.run_carried {c : CookStmt} {tty tty' : TtyStruct} (h : c.run tty = some tty') :
    Carried c.op tty.queue tty'.queue := by
  cases c with
  | putWrite x =>
    cases h
    exact .of_update rfl
  | write =>
    simp only [CookStmt.run, TtyStruct.callWrite] at h
    split at h
    case h_1 => cases h
    case h_2 =>
      cases h
      exact .refl _
  | decHead =>
    cases h
    exact .of_update rfl
  | stopped b =>
    cases h
    exact .refl _
  | ttyIntr =>
    cases h
    exact .refl _
  | count =>
    cases h
    exact .of_contents rfl
  | putSecondary x =>
    cases h
    exact .of_update rfl

/-- Cooking carries its operations out. -/
lemma cookStep_carried {tty tty' : TtyStruct} {k k' : CookState}
    (h : cookStep tty k = some (k', tty')) : Carried k.move tty.queue tty'.queue := by
  cases k with
  | loop =>
    cases h
    exact .refl _
  | getch =>
    cases h
    exact .of_update rfl
  | fetched c =>
    cases h
    exact .refl _
  | stmts l =>
    cases l with
    | nil =>
      cases h
      exact .refl _
    | cons c l =>
      obtain ⟨tty1, hrun, he⟩ := Option.map_eq_some_iff.1 h
      cases he
      exact CookStmt.run_carried hrun
  | returned => cases h

/-- Cooking pays for its operations. -/
lemma cookStep_paid {tty tty' : TtyStruct} {k k' : CookState}
    (h : cookStep tty k = some (k', tty')) : Paid k.move k.owed k'.owed := by
  cases k with
  | loop => exact .none
  | getch =>
    cases h
    rintro _ _ ⟨⟩
    exact ⟨QueueOp.noConfusion, rfl⟩
  | fetched c => exact .none
  | stmts l =>
    cases l with
    | nil => exact .none
    | cons c l =>
      obtain ⟨tty1, -, he⟩ := Option.map_eq_some_iff.1 h
      cases he
      intro n op hop
      have hne : op ≠ .send := by
        rintro rfl
        cases c with
        | putWrite | write | decHead | stopped | ttyIntr | count | putSecondary => cases hop
      have howed : c.owed = [(n, op.need)] := by
        rw [CookStmt.owed, show c.op = some (n, op) from hop]
        rfl
      exact ⟨hne, by rw [CookState.owed, List.flatMap_cons, howed]; rfl⟩
  | returned => exact .none

/-- Reading a character takes it out. -/
lemma Reader.getch_carried {r : Reader} {tty : TtyStruct} :
    Carried (some (.secondary, .get)) tty.queue (r.getch tty).2.queue := by
  unfold Reader.getch
  dsimp only
  split
  all_goals
    refine .of_update ?_
    split <;> rfl

/-- Reading a character owes nothing. -/
lemma Reader.getch_owed {r : Reader} {tty : TtyStruct} : (r.getch tty).1.owed = [] := by
  unfold Reader.getch
  dsimp only
  split <;> rfl

/-- Reading carries its operations out. -/
lemma readStep_carried {tty tty' : TtyStruct} {j : Int} {cur cur' : Current} {k k' : ReadState}
    (h : readStep tty j cur k = some (k', tty', cur')) : Carried k.move tty.queue tty'.queue := by
  cases k with
  | loop r =>
    cases h
    exact .refl _
  | asleep r =>
    cases h
    exact .refl _
  | getch r =>
    cases h
    exact Reader.getch_carried
  | test r =>
    cases h
    exact .refl _
  | returned n => cases h

/-- Reading pays for its operations. -/
lemma readStep_paid {tty tty' : TtyStruct} {j : Int} {cur cur' : Current} {k k' : ReadState}
    (h : readStep tty j cur k = some (k', tty', cur')) : Paid k.move k.owed k'.owed := by
  cases k with
  | getch r =>
    simp only [readStep, Option.some.injEq, Prod.mk.injEq] at h
    obtain ⟨rfl, rfl, rfl⟩ := h
    rintro _ _ ⟨⟩
    rw [Reader.getch_owed]
    exact ⟨QueueOp.noConfusion, rfl⟩
  | loop r | asleep r | test r | returned n => exact .none

/-- Writing puts characters in. -/
lemma WriteState.move_eq {tty : TtyStruct} {crFlag crFlag' : Bool} {cur : Current}
    {k k' : WriteState} {put : Option (BitVec 8)}
    (h : writeStep tty crFlag cur k = some (k', crFlag', put)) :
    k.move tty crFlag cur = put.map fun x => (.writeQ, .put x) := by
  rw [WriteState.move, h]
  rfl

/-- Writing pays for its operations. -/
lemma writeStep_paid {tty : TtyStruct} {crFlag crFlag' : Bool} {cur : Current} {k k' : WriteState}
    {put : Option (BitVec 8)} (h : writeStep tty crFlag cur k = some (k', crFlag', put)) :
    Paid (k.move tty crFlag cur) k.owed k'.owed := by
  rw [WriteState.move_eq h]
  cases k with
  | char w =>
    rw [writeStep] at h
    split at h
    case h_1 => cases h
    case h_2 c rest _ =>
      cases h
      rintro _ _ ⟨⟩
      exact ⟨QueueOp.noConfusion, rfl⟩
  | flush w =>
    obtain ⟨_, _, he⟩ := Option.map_eq_some_iff.1 h
    cases he
    exact .none
  | loop w | asleep w | test w =>
    cases h
    exact .none
  | returned n w => cases h

namespace Terminals

section
variable {ι : Type*} {s s' : Terminals ι} {i : ι} {ch : Fin 3}

/-- What happens to the queues of one terminal, seen among those of all. -/
lemma carried_at {m : Option (QueueName × QueueOp)} {tty : TtyStruct}
    (h : Carried m (s.tty ch).queue tty.queue) (ht : s'.tty = update s.tty ch tty) :
    Carried (m.map fun (n, op) => ((ch, n), op)) s.queue s'.queue := by
  rintro ⟨ch', n⟩
  have hq : ∀ n, s'.queue (ch', n) = (update s.tty ch tty ch').queue n := by
    intro n
    rw [queue, ht]
  rw [hq]
  have hop : opOn (m.map fun (n, op) => ((ch, n), op)) (ch', n) =
      if ch = ch' then opOn m n else none := by
    cases m with
    | none =>
      rw [Option.map_none, opOn_none, opOn_none, ite_self]
    | some x =>
      obtain ⟨n', op⟩ := x
      rw [Option.map_some, opOn_some, opOn_some]
      by_cases hc : ch = ch'
      · simp [hc]
      · simp [hc]
  rw [hop]
  by_cases hc : ch = ch'
  · subst hc
    rw [if_pos rfl, update_self]
    exact h n
  · rw [if_neg hc, update_of_ne (Ne.symm hc)]
    rfl

/-- What an activity owes, seen among the queues of all terminals. -/
lemma paid_at {m : Option (QueueName × QueueOp)} {owed owed' : List (QueueName × Need)}
    (h : Paid m owed owed') : Paid (m.map fun (n, op) => ((ch, n), op))
      (owed.map fun (n, d) => ((ch, n), d)) (owed'.map fun (n, d) => ((ch, n), d)) := by
  intro p op hm
  obtain ⟨⟨n, op'⟩, hm', he⟩ := Option.map_eq_some_iff.1 hm
  cases he
  obtain ⟨hne, howed⟩ := h n op hm'
  exact ⟨hne, by rw [howed]; rfl⟩

/-- A statement of an activity changes the queues by the operation `move` names, an activity owes what
    it carries out, and the other activities stay where they are. -/
lemma run_spec [DecidableEq ι] (h : s.run i = some s') :
    Carried (s.move (.run i)) s.queue s'.queue ∧
      Paid (s.move (.run i)) (s.act i).owed (s'.act i).owed ∧
      s'.act = update s.act i (s'.act i) := by
  unfold run at h
  unfold move
  dsimp only
  split at h
  case h_1 => cases h
  case h_2 ch k hk =>
    obtain ⟨⟨k', tty⟩, hstep, he⟩ := Option.map_eq_some_iff.1 h
    cases he
    rw [hk]
    refine ⟨carried_at (cookStep_carried hstep) rfl, ?_, ?_⟩
    · show Paid _ _ (update s.act i (.cooking ch k') i).owed
      rw [update_self]
      exact paid_at (cookStep_paid hstep)
    · show update s.act i (.cooking ch k') = update s.act i (update s.act i (.cooking ch k') i)
      rw [update_self]
  case h_3 ch k hk =>
    obtain ⟨⟨k', tty, cur⟩, hstep, he⟩ := Option.map_eq_some_iff.1 h
    cases he
    rw [hk]
    refine ⟨carried_at (readStep_carried hstep) rfl, ?_, ?_⟩
    · show Paid _ _ (update s.act i (.reading ch k') i).owed
      rw [update_self]
      exact paid_at (readStep_paid hstep)
    · show update s.act i (.reading ch k') = update s.act i (update s.act i (.reading ch k') i)
      rw [update_self]
  case h_4 ch k hk =>
    obtain ⟨⟨k', crFlag, put⟩, hstep, he⟩ := Option.map_eq_some_iff.1 h
    cases he
    rw [hk]
    refine ⟨?_, ?_, ?_⟩
    · rw [WriteState.move_eq hstep]
      cases put with
      | none => exact .refl _
      | some x =>
        have hput : Carried (some (.writeQ, .put x)) (s.tty ch).queue
            ((s.tty ch).onQueue .writeQ (.put x)).queue := .of_update rfl
        exact carried_at hput rfl
    · show Paid _ _ (update s.act i (.writing ch k') i).owed
      rw [update_self]
      exact paid_at (writeStep_paid hstep)
    · show update s.act i (.writing ch k') = update s.act i (update s.act i (.writing ch k') i)
      rw [update_self]

/-- The queue that is set. -/
lemma queue_setQueue (s : Terminals ι) (p : Fin 3 × QueueName) (q : TtyQueue) :
    (s.setQueue p q).queue = update s.queue p q := by
  obtain ⟨ch, n⟩ := p
  funext ⟨ch', n'⟩
  by_cases hc : ch' = ch
  · subst hc
    by_cases hn : n' = n
    · subst hn
      simp [setQueue, queue]
    · simp [setQueue, queue, hn]
  · simp [setQueue, queue, hc]

/-- Every step changes the queues by the operation `move` names. -/
theorem step_carried [DecidableEq ι] {e : Event ι} (h : s.step e = some s') :
    Carried (s.move e) s.queue s'.queue := by
  cases e with
  | cook i ch =>
    obtain ⟨-, he⟩ := Option.ite_none_right_eq_some.1 h
    cases he
    exact .refl _
  | read i ch nr =>
    obtain ⟨-, he⟩ := Option.ite_none_right_eq_some.1 h
    cases he
    exact .refl _
  | write i ch buf nr =>
    obtain ⟨-, he⟩ := Option.ite_none_right_eq_some.1 h
    cases he
    exact .refl _
  | run i => exact (run_spec h).1
  | receive k c =>
    cases h
    rw [queue_setQueue, move, TtyQueue.receive]
    split
    · exact .of_contents (RingBuffer.contents_poke ..)
    · exact .of_update rfl
  | transmit k =>
    cases h
    rw [move]
    split
    · exact .refl _
    · rw [queue_setQueue]
      exact .of_update rfl
  | signal i cur =>
    cases h
    exact .refl _
  | tick =>
    cases h
    exact .refl _

end

end Terminals

/-! ## What is owed along a step -/

namespace TtyQueue
variable {q q' : TtyQueue} {op : QueueOp}

/-- What has room fits. -/
lemma fits_of_space (h : 0 < q.space op.need) : op.Fits q := by
  cases op with
  | put c => exact Nat.pos_iff_ne_zero.1 h
  | get => exact not_empty.2 (Nat.pos_iff_ne_zero.1 h)
  | dec => exact not_empty.2 (Nat.pos_iff_ne_zero.1 h)
  | send => exact not_empty.2 (Nat.pos_iff_ne_zero.1 h)

/-- The room depends on the contents. -/
lemma space_congr (h : q'.contents = q.contents) (d : Need) : q'.space d = q.space d := by
  have hsize : q'.ring.size = q.ring.size := by
    rw [← RingBuffer.length_contents, ← RingBuffer.length_contents]
    exact congrArg List.length h
  have h1 := q.left_eq
  have h2 := q'.left_eq
  cases d with
  | store =>
    show q'.left = q.left
    omega
  | take => exact hsize

/-- An operation takes from the room or from the characters what it needs, and adds to the other. -/
lemma space_run (hop : op ≠ .send) (hfits : op.Fits q) (h : q'.ring = op.run q.ring) (d : Need) :
    q.space d ≤ q'.space d + if op.need = d then 1 else 0 := by
  have hsize : q'.ring.size = (q.run op).ring.size := congrArg _ h
  have h1 := q.left_eq
  have h2 := q'.left_eq
  cases op with
  | put c =>
    have hput := size_put hfits c
    cases d with
    | store =>
      show q.left ≤ q'.left + 1
      omega
    | take =>
      show q.ring.size ≤ q'.ring.size
      omega
  | get =>
    have hget := size_get hfits
    cases d with
    | store =>
      show q.left ≤ q'.left
      omega
    | take =>
      show q.ring.size ≤ q'.ring.size + 1
      omega
  | dec =>
    have hdec := size_dec hfits
    cases d with
    | store =>
      show q.left ≤ q'.left
      omega
    | take =>
      show q.ring.size ≤ q'.ring.size + 1
      omega
  | send => exact absurd rfl hop

end TtyQueue

namespace Terminals

section
variable {ι : Type*} [DecidableEq ι] {s s' : Terminals ι} {e : Event ι} {i : ι}

/-- If what a step does fits the queues, they stay intact. -/
lemma intact_of_fits (h : s.step e = some s')
    (hfits : ∀ p op, s.move e = some (p, op) → op ≠ .send ∧ op.Fits (s.queue p)) : Intact s e s' := by
  have hfifo : ∀ p, (s'.queue p).contents = match opOn (s.move e) p with
      | some op => op.spec (s.queue p).contents
      | none => (s.queue p).contents := by
    intro p
    have hcar := step_carried h p
    cases hop : opOn (s.move e) p with
    | none =>
      rw [hop] at hcar
      exact hcar
    | some op =>
      rw [hop] at hcar
      obtain ⟨hne, hfit⟩ := hfits p op (opOn_eq_some.1 hop)
      show _ = op.spec (s.queue p).contents
      rw [← TtyQueue.contents_run hne hfit]
      exact congrArg RingBuffer.contents hcar
  refine ⟨fun p op hop => (hfits p op (opOn_eq_some.1 hop)).2, ?_, hfifo,
    fun p => TtyQueue.length_contents_le _⟩
  intro p c hop
  have hcont := hfifo p
  rw [hop] at hcont
  rw [TtyQueue.not_empty, ← RingBuffer.length_contents]
  rw [show (s'.queue p).ring.contents = _ from hcont]
  simp [QueueOp.spec]

/-- The need a step meets on the queue it operates on. -/
def met (s : Terminals ι) (e : Event ι) : Option ((Fin 3 × QueueName) × Need) :=
  (s.move e).map fun (p, op) => (p, op.need)

/-- A step uses up space only for the need it meets. -/
lemma space_step (h : s.step e = some s')
    (hfits : ∀ p op, s.move e = some (p, op) → op ≠ .send ∧ op.Fits (s.queue p))
    (d : (Fin 3 × QueueName) × Need) : s.space d ≤ s'.space d + ref (s.met e) d := by
  have hcar := step_carried h d.1
  cases hop : opOn (s.move e) d.1 with
  | none =>
    rw [hop] at hcar
    have hsame : s'.space d = s.space d := TtyQueue.space_congr hcar d.2
    omega
  | some op =>
    rw [hop] at hcar
    have hm := opOn_eq_some.1 hop
    obtain ⟨hne, hfit⟩ := hfits _ _ hm
    have hrun := TtyQueue.space_run hne hfit hcar d.2
    have href : ref (s.met e) d = if op.need = d.2 then 1 else 0 := by
      rw [met, hm, ref]
      exact if_congr (by simp [Prod.ext_iff]) rfl rfl
    rw [href]
    exact hrun

/-- Carrying out an operation leaves the rest of what the activity owed. -/
lemma count_owed (h : s.run i = some s') (hm : s.move (.run i) ≠ none)
    (d : (Fin 3 × QueueName) × Need) :
    (s.act i).owed.count d = (s'.act i).owed.count d + ref (s.met (.run i)) d := by
  obtain ⟨⟨p, op⟩, hm⟩ := Option.ne_none_iff_exists'.1 hm
  rw [((run_spec h).2.1 p op hm).2, List.count_cons, met, hm, ref]
  exact congrArg _ (if_congr (by simp) rfl rfl)

end

section
variable {ι : Type*} [DecidableEq ι] [Fintype ι] {s s' : Terminals ι} {e : Event ι} {i : ι}

/-- When one activity goes on, what is owed changes by what that activity owes. -/
lemma owed_run {a : Activity} (h : s'.act = update s.act i a) (d : (Fin 3 × QueueName) × Need) :
    s'.owed d + (s.act i).owed.count d = s.owed d + a.owed.count d := by
  rw [owed, h]
  exact total_update s.act (fun a => a.owed.count d) i a

omit [DecidableEq ι] in
/-- What is owed depends on what is done. -/
lemma owed_congr (h : ∀ i, (s'.act i).owed = (s.act i).owed) : s'.owed = s.owed := by
  funext d
  simp only [owed, h]

/-- An activity that is over owes nothing, and neither does one that begins. -/
lemma owed_begin {a : Activity} (ho : (s.act i).Over) (ha : a.owed = [])
    (h : s'.act = update s.act i a) : s'.owed = s.owed := by
  apply owed_congr
  intro j
  rw [h]
  by_cases hj : j = i
  · subst hj
    rw [update_self, ha]
    unfold Activity.Over at ho
    split at ho
    case h_5 => cases ho
    all_goals
      rename_i he
      rw [he]
      rfl
  · rw [update_of_ne hj]

/-- What a step of an admitted run does to a queue fits it. -/
lemma fits_of_covered (hc : s.Covered) (h : s.step e = some s') (ha : Admitted s e s')
    {p : Fin 3 × QueueName} {op : QueueOp} (hm : s.move e = some (p, op)) :
    op ≠ .send ∧ op.Fits (s.queue p) := by
  cases e with
  | run i =>
    obtain ⟨hne, howed⟩ := (run_spec h).2.1 p op hm
    refine ⟨hne, TtyQueue.fits_of_space ?_⟩
    have hpos : 0 < (s.act i).owed.count (p, op.need) := by
      rw [howed, List.count_cons_self]
      omega
    have hle : (s.act i).owed.count (p, op.need) ≤ s.owed (p, op.need) :=
      Finset.single_le_sum (f := fun j => (s.act j).owed.count (p, op.need))
        (fun _ _ => Nat.zero_le _) (Finset.mem_univ i)
    exact hpos.trans_le (hle.trans (hc (p, op.need)))
  | receive k c =>
    simp only [move] at hm
    split at hm
    case isTrue => cases hm
    case isFalse hfull =>
      cases hm
      exact ⟨QueueOp.noConfusion, hfull⟩
  | transmit k =>
    simp only [move] at hm
    rw [if_pos (show (s.queue (tableList k)).Empty from ha)] at hm
    cases hm
  | cook i ch => cases hm
  | read i ch nr => cases hm
  | write i ch buf nr => cases hm
  | signal i cur => cases hm
  | tick => cases hm

/-- The step lemma: an admitted step keeps what is owed covered, and keeps the queues intact. -/
theorem covered_step (hc : s.Covered) (h : s.step e = some s') (ha : Admitted s e s') :
    s'.Covered ∧ Intact s e s' := by
  have hfits : ∀ p op, s.move e = some (p, op) → op ≠ .send ∧ op.Fits (s.queue p) :=
    fun _ _ hm => fits_of_covered hc h ha hm
  refine ⟨?_, intact_of_fits h hfits⟩
  intro d
  have hcd := hc d
  have hspace := space_step h hfits d
  -- A step that owes nothing new and operates on no queue.
  have hidle : s'.owed = s.owed → s.met e = none → s'.owed d ≤ s'.space d := by
    intro howed hmet
    rw [hmet, ref_none] at hspace
    rw [howed]
    exact hcd.trans hspace
  cases e with
  | cook i ch =>
    obtain ⟨ho, he⟩ := Option.ite_none_right_eq_some.1 h
    exact hidle (owed_begin ho rfl (congrArg act (Option.some.inj he).symm)) rfl
  | read i ch nr =>
    obtain ⟨ho, he⟩ := Option.ite_none_right_eq_some.1 h
    have hb : (Activity.reading ch (ttyRead (s.tty ch) s.jiffies (s.cur i) nr).1).owed = [] := by
      unfold ttyRead
      split <;> rfl
    exact hidle (owed_begin ho hb (congrArg act (Option.some.inj he).symm)) rfl
  | write i ch buf nr =>
    obtain ⟨ho, he⟩ := Option.ite_none_right_eq_some.1 h
    have hb : (Activity.writing ch (ttyWrite buf nr)).owed = [] := by
      unfold ttyWrite
      dsimp only
      split <;> rfl
    exact hidle (owed_begin ho hb (congrArg act (Option.some.inj he).symm)) rfl
  | run i =>
    have hsum := owed_run (run_spec h).2.2 d
    cases hm : s.move (.run i) with
    | none =>
      -- The activity has tested something: what it owes now is covered by admission.
      have hmet : s.met (.run i) = none := congrArg _ hm
      rw [hmet, ref_none] at hspace
      cases Nat.lt_or_ge ((s.act i).owed.count d) ((s'.act i).owed.count d) with
      | inl hmore => exact (ha d hmore).trans hspace
      | inr hless =>
        simp only [Pi.zero_apply] at hspace
        omega
    | some m =>
      -- The activity has carried out something it owed.
      have hcount := count_owed h (hm ▸ Option.some_ne_none m) d
      omega
  | receive k c =>
    have howed : s'.owed = s.owed := by
      cases h
      rfl
    by_cases hfull : (s.queue (tableList k)).Full
    · exact hidle howed (congrArg _ (if_pos hfull))
    · have hmet : s.met (.receive k c) = some (tableList k, .store) := congrArg _ (if_neg hfull)
      rw [hmet] at hspace
      rw [howed]
      by_cases hd : d = (tableList k, .store)
      · have hlt : s.owed d < s.space d := hd ▸ ha hfull
        rw [hd, ref_self] at hspace
        rw [hd] at hlt ⊢
        omega
      · rw [ref_of_ne hd] at hspace
        exact hcd.trans hspace
  | transmit k =>
    have hs : s' = s := by
      cases h
      exact if_pos ha
    rw [hs]
    exact hcd
  | signal i cur =>
    cases h
    exact hcd
  | tick =>
    cases h
    exact hcd

end

end Terminals

section
variable {ι : Type*} [DecidableEq ι] [Fintype ι]

/-- In every run whose steps are all admitted, no `PUTCH` is applied to a full queue, and the queues of
    all terminals behave as FIFO queues of at most 1023 characters. -/
theorem no_overrun {s : Terminals ι} {tr} (ex : (terminals ι).Exec s tr) (h0 : (terminals ι).init s)
    (ha : Along Admitted s tr) : Along Intact s tr := by
  have hinit : s.Covered := by
    intro d
    have hz : s.owed d = 0 := Finset.sum_eq_zero fun i _ => by
      rw [h0 i]
      rfl
    omega
  exact (ex.along_of_inv (I := Terminals.Covered)
    (fun _ _ _ hc hst had => Terminals.covered_step hc hst had) hinit ha).2

end

/-- `tty_table` with nobody at the terminals. -/
def bootTerminals : Terminals (Fin 2) where
  tty := ttyTable
  crFlag := false
  jiffies := 0
  cur _ := { signal := 0, alarm := 0 }
  act _ := .idle

/-- Two characters are written to the first serial line, and one is received and echoed on the
    console. -/
def writeAndEcho : List (Event (Fin 2)) :=
  [.write 0 1 (fun _ => 97) 2, .receive 0 98, .cook 1 0, .run 0, .run 0, .run 1, .run 1, .run 0,
    .run 1, .run 1, .run 0, .run 0]

/-- Such a run is admitted. -/
theorem no_overrun_write_and_echo : ∃ tr, (terminals (Fin 2)).Exec bootTerminals tr ∧
    Along Intact bootTerminals tr ∧
    ((last bootTerminals tr).queue (0, .writeQ)).contents = [98] ∧
    ((last bootTerminals tr).queue (1, .writeQ)).contents = [97, 97] := by
  have hrun : (trace Terminals.step bootTerminals writeAndEcho).map (fun tr =>
      (decide (Along Admitted bootTerminals tr), ((last bootTerminals tr).queue (0, .writeQ)).contents,
        ((last bootTerminals tr).queue (1, .writeQ)).contents)) =
      some (true, [98], [97, 97]) := by decide
  obtain ⟨tr, htr, hlast⟩ := Option.map_eq_some_iff.1 hrun
  simp only [Prod.mk.injEq, decide_eq_true_eq] at hlast
  obtain ⟨had, hconsole, hline⟩ := hlast
  have ex : (terminals (Fin 2)).Exec bootTerminals tr := System.exec_of_trace (fun _ _ _ => id) htr
  exact ⟨tr, ex, no_overrun ex (fun _ => rfl) had, hconsole, hline⟩

/-- A call of `tty_write` on the console fills `write_q` and has not yet called `tty->write`, when
    `copy_to_cooked` comes in with a received character. -/
def fillAndEcho : List (Event (Fin 2)) :=
  .write 0 0 (fun _ => 97) 1023 :: .receive 0 98 :: List.replicate 2047 (.run 0) ++
    [.cook 1 0, .run 1, .run 1, .run 1]

set_option maxRecDepth 4000 in
/-- The echo is put into the full queue, which is empty afterwards. -/
theorem echo_overruns : ∃ tr, (terminals (Fin 2)).init bootTerminals ∧
    (terminals (Fin 2)).Exec bootTerminals tr ∧ ¬ Along Intact bootTerminals tr := by
  have hrun : (trace Terminals.step bootTerminals fillAndEcho).bind (fun tr =>
      ((last bootTerminals tr).step (.run 1)).map fun s => (opOn ((last bootTerminals tr).move (.run 1))
        (0, .writeQ), ((last bootTerminals tr).queue (0, .writeQ)).left,
        (s.queue (0, .writeQ)).contents)) =
      some (some (.put 98), 0, []) := by decide +kernel
  obtain ⟨tr, htr, hlast⟩ := Option.bind_eq_some_iff.1 hrun
  obtain ⟨s, hs, hlast⟩ := Option.map_eq_some_iff.1 hlast
  simp only [Prod.mk.injEq] at hlast
  obtain ⟨hop, hfull, -⟩ := hlast
  have ex : (terminals (Fin 2)).Exec bootTerminals tr := System.exec_of_trace (fun _ _ _ => id) htr
  exact ⟨_, fun _ => rfl, ex.snoc hs, fun hin => hin.at_last.fits _ _ hop hfull⟩

end OldLinux.Tty
