import OldLinux.Buffer.Getblk

/-!
# Null links

Where `remove_from_queues` and `insert_into_queues` of `fs/buffer.c` follow a pointer. Here they fault when
it is null (`removeFollowing`, `insertFollowing`), and a call of the cache follows no null pointer if it
comes to the same with these two (`FollowsNoNull`).

All links that may be null are tested before they are followed, but one: `bh->b_next->b_prev = bh` for a
buffer that is put into an empty hash queue. After `buffer_init` all queues are empty, so the first block of
a device that is asked for meets one (`follows_no_null_iff`).
-/

namespace OldLinux.Buffer
open Lib Function

variable {n : Nat} {κ : Type}

namespace Cache

/-- A pointer is followed. -/
def follow (p : Option (Fin n)) : Prog (Cache n κ) Unit := if p = none then Prog.fault else pure ()

/-- A pointer is followed if it is not null. -/
def followTested (p : Option (Fin n)) : Prog (Cache n κ) Unit := if p = none then pure () else follow p

/-- `remove_from_queues(bh)`, with the pointers it follows. -/
def removeFollowing (bh : Fin n) : Prog (Cache n κ) Unit := do
  let s ← Prog.get
  followTested (s.bNext bh)
  followTested (s.bPrev bh)
  Prog.modify fun s => s.unhash bh
  let s ← Prog.get
  if s.bPrevFree bh = none ∨ s.bNextFree bh = none then Prog.panic "Free block list corrupted"
  else
    follow (s.bPrevFree bh)
    follow (s.bNextFree bh)
    Prog.modify fun s => s.unfree bh

/-- `insert_into_queues(bh)`, with the pointers it follows; `bh->b_next` is what was the head of the queue. -/
def insertFollowing (bh : Fin n) : Prog (Cache n κ) Unit := do
  let s ← Prog.get
  match s.freeList with
  | none => Prog.fault
  | some f =>
    match s.bPrevFree f with
    | none => Prog.fault
    | some l =>
      Prog.modify fun s => s.enfree bh f l
      let s ← Prog.get
      if s.bDev bh = 0 then Prog.modify fun s => s.enhash bh
      else
        follow (s.hashTable (hashfn (s.key bh)))
        Prog.modify fun s => s.enhash bh

section
variable (remove insert : Fin n → Prog (Cache n κ) Unit) (sv : Services n κ) (turns : Nat)

/-- `detach` with one `remove_from_queues` or the other. -/
def detachWith (k : Key) (tmp : Fin n) : Turns (Cache n κ) Unit := do
  Turns.modify fun s => s.setCount tmp (s.bCount tmp + 1)
  Turns.lift (remove tmp)
  let s ← Turns.get
  Turns.when (s.drive.flags tmp).bDirt (syncDev sv turns (s.bDev tmp))
  Turns.modify fun s => s.setKey tmp k

/-- `reuse` with one pair of functions on the queues or the other. -/
def reuseWith (k : Key) (tmp : Fin n) : Turns (Cache n κ) (Fin n ⊕ Unit) := do
  detachWith remove sv turns k tmp
  match ← findBuffer turns k with
  | some _ =>
    Turns.modify fun s => s.giveUp tmp
    Turns.lift (insert tmp)
    return .inr ()
  | none =>
    Turns.lift (insert tmp)
    return .inl tmp

/-- A turn of `getblk(dev,block)` with one pair or the other. -/
def getblkTurn (k : Key) : Turns (Cache n κ) (Fin n ⊕ Unit) := do
  match ← getHashTable sv turns k with
  | some tmp => return .inl tmp
  | none =>
    match ← freeBuffer sv turns with
    | none =>
      service sv.bufferWait
      return .inr ()
    | some tmp => reuseWith remove insert sv turns k tmp

/-- `getblk(dev,block)` with one pair or the other. -/
def getblkWith (k : Key) : Turns (Cache n κ) (Fin n) :=
  Turns.loop (fun _ => getblkTurn remove insert sv turns k) turns ()

/-- `bread(dev,block)` with one pair or the other. -/
def breadWith (k : Key) : Turns (Cache n κ) (Option (Fin n)) := do
  let bh ← getblkWith remove insert sv turns k
  let s ← Turns.get
  if (s.drive.flags bh).bUptodate then return some bh
  service (sv.llRwBlock .read bh (s.key bh))
  let s ← Turns.get
  if (s.drive.flags bh).bUptodate then return some bh
  brelse sv turns (some bh)
  return none

/-- `getblk` is `getblkWith` at the queue functions that the source has in it. -/
lemma getblk_eq (k : Key) : getblk sv turns k = getblkWith removeFromQueues insertIntoQueues sv turns k := rfl

/-- `bread` is `breadWith` at the queue functions that the source has. -/
lemma bread_eq (k : Key) : bread sv turns k = breadWith removeFromQueues insertIntoQueues sv turns k := rfl

end

/-! ## A cache of no device -/

/-- No buffer has a device, and all hash queues are empty. -/
structure Blank (s : Cache n κ) : Prop where
  dev : ∀ b, s.bDev b = 0
  next : ∀ b, s.bNext b = none
  prev : ∀ b, s.bPrev b = none
  table : ∀ h, s.hashTable h = none
  ring : ∃ l, Ring s l

/-- The same, with buffer `bh` off the free list. -/
structure BlankBut (s : Cache n κ) (bh : Fin n) : Prop where
  dev : ∀ b, b ≠ bh → s.bDev b = 0
  next : ∀ b, s.bNext b = none
  prev : ∀ b, s.bPrev b = none
  table : ∀ h, s.hashTable h = none
  ring : RingWithout s bh

variable {sv : Services n κ} {turns : Nat} {s s' : Cache n κ} {k : Key} {bh : Fin n}

/-- In a blank cache all hash queues are empty. -/
lemma Blank.hashed (h : Blank s) : Hashed s none fun _ => [] where
  nodup _ := List.nodup_nil
  linked i := ⟨none, doubly_nil.2 ⟨h.table i, rfl⟩⟩
  mem _ b := ⟨nofun, fun hb => absurd (h.dev b) hb.2.1⟩
  loose b _ _ := ⟨h.next b, h.prev b⟩

/-- The queues of a blank cache are in order. -/
lemma Blank.queues (h : Blank s) : Queues s where
  hash := ⟨_, h.hashed⟩
  ring := h.ring
  unique a _ ha := absurd (h.dev a) ha

/-- It stays blank as long as the queues are left. -/
lemma Blank.same (h : Blank s) (e : SameQueues s s') : Blank s' where
  dev b := by rw [e.dev, h.dev]
  next b := by rw [e.next, h.next]
  prev b := by rw [e.prev, h.prev]
  table i := by rw [e.hashTable, h.table]
  ring := (e.queues h.queues).ring

/-- A cache that is blank but for one buffer stays so as long as the queues are left. -/
lemma BlankBut.same (h : BlankBut s bh) (e : SameQueues s s') : BlankBut s' bh where
  dev b hb := by rw [e.dev, h.dev b hb]
  next b := by rw [e.next, h.next]
  prev b := by rw [e.prev, h.prev]
  table i := by rw [e.hashTable, h.table]
  ring := by
    rw [RingWithout, e.nextFree, e.prevFree, e.freeList]
    exact h.ring

/-- Following a pointer that is not null. -/
lemma follow_some {p : Option (Fin n)} (h : p ≠ none) : follow p s = .ret ((), s) := by
  rw [follow, if_neg h]
  rfl

/-- Taking a buffer off the queues follows no null pointer. -/
lemma Blank.remove (h : Blank s) : removeFollowing bh s = removeFromQueues bh s ∧
    Prog.returns (removeFromQueues bh) (fun _ s' => BlankBut s' bh) s := by
  obtain ⟨l, hl⟩ := h.ring
  have hun : s.unhash bh = s := unhash_loose h.hashed (h.dev bh)
  obtain ⟨hprev, hnext, hring⟩ := ring_unfree bh hl
  have hno : ¬ (s.bPrevFree bh = none ∨ s.bNextFree bh = none) := not_or.2 ⟨hprev, hnext⟩
  have hrun : removeFromQueues bh s = .ret ((), s.unfree bh) := by
    rw [removeFromQueues, Prog.bind_of_ret (a := ()) (t := s) (congrArg (fun x => Result.ret ((), x)) hun),
      Prog.bind_of_ret (a := s) (t := s) rfl, if_neg hno]
    rfl
  refine ⟨?_, (), _, hrun, ⟨fun b _ => h.dev b, h.next, h.prev, h.table, hring⟩⟩
  have htest : ∀ {p : Option (Fin n)}, p = none → followTested p s = .ret ((), s) := by
    rintro p rfl
    rfl
  rw [hrun, removeFollowing, Prog.bind_of_ret (a := s) (t := s) rfl, Prog.bind_of_ret (htest (h.next bh)),
    Prog.bind_of_ret (htest (h.prev bh)),
    Prog.bind_of_ret (a := ()) (t := s) (congrArg (fun x => Result.ret ((), x)) hun),
    Prog.bind_of_ret (a := s) (t := s) rfl, if_neg hno, Prog.bind_of_ret (follow_some hprev),
    Prog.bind_of_ret (follow_some hnext)]
  rfl

/-- A buffer without a device is put back without a null pointer being followed. -/
lemma BlankBut.insert (h : BlankBut s bh) (hdev : s.bDev bh = 0) :
    insertFollowing bh s = insertIntoQueues bh s ∧ Prog.returns (insertIntoQueues bh) (fun _ => Blank) s := by
  obtain ⟨f, l, r, hf, hl, hr⟩ := ring_enfree h.ring
  have hen : (s.enfree bh f l).enhash bh =
      { s.enfree bh f l with bPrev := update s.bPrev bh none, bNext := update s.bNext bh none } := if_pos hdev
  have hrun : insertIntoQueues bh s = .ret ((), (s.enfree bh f l).enhash bh) := by
    rw [insertIntoQueues, Prog.bind_of_ret (a := s) (t := s) rfl]
    simp only [hf, hl]
    rfl
  constructor
  · rw [hrun, insertFollowing, Prog.bind_of_ret (a := s) (t := s) rfl]
    simp only [hf, hl]
    rw [Prog.bind_of_ret (a := ()) (t := s.enfree bh f l) rfl, Prog.bind_of_ret (a := _) (t := _) rfl,
      if_pos (show (s.enfree bh f l).bDev bh = 0 from hdev)]
    rfl
  · refine ⟨(), _, hrun, ?_⟩
    rw [hen]
    have hclear : ∀ g : Fin n → Option (Fin n), (∀ b, g b = none) → ∀ b, update g bh none b = none := by
      intro g hg b
      rw [update_apply]
      split
      · rfl
      · exact hg b
    refine ⟨fun b => ?_, hclear _ h.next, hclear _ h.prev, h.table, r, hr.nodup, hr.linked, hr.mem⟩
    obtain rfl | hne := eq_or_ne b bh
    · exact hdev
    · exact h.dev b hne

/-- A buffer with a device is put at the head of an empty queue. -/
lemma BlankBut.insert_faults (h : BlankBut s bh) (hdev : s.bDev bh ≠ 0) :
    insertFollowing bh s = .fault := by
  obtain ⟨f, l, r, hf, hl, -⟩ := ring_enfree h.ring
  rw [insertFollowing, Prog.bind_of_ret (a := s) (t := s) rfl]
  simp only [hf, hl]
  rw [Prog.bind_of_ret (a := ()) (t := s.enfree bh f l) rfl, Prog.bind_of_ret (a := _) (t := _) rfl,
    if_neg (show ¬ (s.enfree bh f l).bDev bh = 0 from hdev)]
  refine Prog.bind_of_fault ?_
  rw [follow, if_pos]
  · rfl
  · exact h.table _

/-! ## The calls on a cache of no device -/

/-- The empty queues hold nothing. -/
lemma findBuffer_blank (h : ∀ i, s.hashTable i = none) :
    (findBuffer turns k).wp (fun r s' => r = none ∧ s' = s) s := by
  refine Turns.wp_bind (Turns.wp_get ?_)
  rw [h]
  refine Turns.wp_loop (I := fun tmp s' => tmp = none ∧ s' = s) ?_ ⟨rfl, rfl⟩
  rintro _ s' ⟨rfl, rfl⟩
  exact Turns.wp_pure ⟨rfl, rfl⟩

/-- No block is found in a blank cache. -/
lemma Blank.getHashTable (h : Blank s) :
    (getHashTable sv turns k).wp (fun r s' => r = none ∧ Blank s') s := by
  refine (getHashTable_spec h.queues).mono ?_
  rintro r s' ⟨hsame, hr⟩
  cases r with
  | none => exact ⟨rfl, h.same hsame⟩
  | some b => exact absurd (h.dev b) hr.1

/-- The search for a free buffer leaves it blank. -/
lemma Blank.freeBuffer (h : Blank s) : (freeBuffer sv turns).wp (fun _ => Blank) s :=
  (freeBuffer_spec h.queues).mono fun _ _ hr => h.same hr.1.1

/-- The buffer that is taken off the queues gets the device that is asked for. -/
lemma Blank.detach (h : Blank s) :
    Turns.agree (detachWith removeFromQueues sv turns k bh) (detachWith removeFollowing sv turns k bh) s ∧
      (detachWith removeFromQueues sv turns k bh).wp
        (fun _ s' => BlankBut s' bh ∧ s'.bDev bh = k.dev.setWidth 16) s := by
  have hcount : Blank (s.setCount bh (s.bCount bh + 1)) := h.same setCount_same
  have hremove := @Blank.remove _ _ (s.setCount bh (s.bCount bh + 1)) bh hcount
  constructor
  · refine Turns.agree_bind (P := fun _ s' => s' = s.setCount bh (s.bCount bh + 1)) Turns.agree_refl
      (Turns.wp_modify rfl) ?_
    rintro _ s₁ rfl
    refine Turns.agree_bind (P := fun _ _ => True) (Turns.agree_lift hremove.1) (fun _ _ _ _ _ => trivial) ?_
    intro _ s₂ _
    exact Turns.agree_refl
  · refine Turns.wp_bind (Turns.wp_modify (Turns.wp_bind (Turns.wp_lift (hremove.2.wp.mono ?_))))
    intro _ s₁ h₁
    refine Turns.wp_bind (Turns.wp_get ?_)
    have hset : ∀ s₂ : Cache n κ, BlankBut s₂ bh →
        BlankBut (s₂.setKey bh k) bh ∧ (s₂.setKey bh k).bDev bh = k.dev.setWidth 16 := by
      intro s₂ h₂
      refine ⟨⟨fun b hb => ?_, h₂.next, h₂.prev, h₂.table, h₂.ring⟩, update_self ..⟩
      exact (update_of_ne hb _ _).trans (h₂.dev b hb)
    refine Turns.wp_bind (Turns.wp_when (fun _ => ?_) fun _ => Turns.wp_modify (hset s₁ h₁))
    exact syncDev_spec.mono fun _ s₂ h₂ => Turns.wp_modify (hset s₂ (h₁.same h₂.1))

/-- Without a device, a buffer is reused without a null pointer being followed. -/
lemma Blank.reuse (h : Blank s) (hk : k.dev.setWidth 16 = (0 : BitVec 16)) :
    Turns.agree (reuseWith removeFromQueues insertIntoQueues sv turns k bh)
        (reuseWith removeFollowing insertFollowing sv turns k bh) s ∧
      (reuseWith removeFromQueues insertIntoQueues sv turns k bh).wp (fun _ => Blank) s := by
  obtain ⟨hagree, hdetach⟩ := h.detach (k := k)
  constructor
  · refine Turns.agree_bind hagree hdetach ?_
    rintro _ s₁ ⟨h₁, hdev⟩
    refine Turns.agree_bind Turns.agree_refl (findBuffer_blank h₁.table) ?_
    rintro _ s₂ ⟨rfl, rfl⟩
    refine Turns.agree_bind (P := fun _ _ => True) (Turns.agree_lift (h₁.insert (hdev.trans hk)).1)
      (fun _ _ _ _ _ => trivial) ?_
    intro _ s₃ _
    exact Turns.agree_refl
  · refine Turns.wp_bind (hdetach.mono ?_)
    rintro _ s₁ ⟨h₁, hdev⟩
    refine Turns.wp_bind ((findBuffer_blank h₁.table).mono ?_)
    rintro _ s₂ ⟨rfl, rfl⟩
    exact Turns.wp_bind (Turns.wp_lift ((h₁.insert (hdev.trans hk)).2.wp.mono fun _ _ h₃ => Turns.wp_pure h₃))

/-- With a device, the empty queue is met. -/
lemma Blank.reuse_faults (h : Blank s) (hk : k.dev.setWidth 16 ≠ (0 : BitVec 16)) :
    (reuseWith removeFollowing insertFollowing sv turns k bh).wp (fun _ _ => False) s := by
  obtain ⟨hagree, hdetach⟩ := h.detach (k := k)
  refine Turns.wp_bind ((hagree.wp hdetach).mono ?_)
  rintro _ s₁ ⟨h₁, hdev⟩
  refine Turns.wp_bind ((findBuffer_blank h₁.table).mono ?_)
  rintro _ s₂ ⟨rfl, rfl⟩
  refine Turns.wp_bind (Turns.wp_lift ?_)
  intro _ s₃ hrun
  rw [h₁.insert_faults (hdev ▸ hk)] at hrun
  cases hrun

/-- A turn of `getblk` for no device. -/
lemma Blank.turn (h : Blank s) (hk : k.dev.setWidth 16 = (0 : BitVec 16)) :
    Turns.agree (getblkTurn removeFromQueues insertIntoQueues sv turns k)
        (getblkTurn removeFollowing insertFollowing sv turns k) s ∧
      (getblkTurn removeFromQueues insertIntoQueues sv turns k).wp (fun _ => Blank) s := by
  constructor
  · refine Turns.agree_bind Turns.agree_refl h.getHashTable ?_
    rintro _ s₁ ⟨rfl, h₁⟩
    refine Turns.agree_bind Turns.agree_refl h₁.freeBuffer ?_
    intro r s₂ h₂
    cases r with
    | none => exact Turns.agree_refl
    | some tmp => exact (h₂.reuse hk).1
  · refine Turns.wp_bind (h.getHashTable.mono ?_)
    rintro _ s₁ ⟨rfl, h₁⟩
    refine Turns.wp_bind (h₁.freeBuffer.mono ?_)
    intro r s₂ h₂
    cases r with
    | none => exact Turns.wp_bind (service_spec.mono fun _ s₃ h₃ => Turns.wp_pure (h₂.same h₃.1))
    | some tmp => exact (h₂.reuse hk).2

/-- `getblk` for no device. -/
lemma Blank.getblk (h : Blank s) (hk : k.dev.setWidth 16 = (0 : BitVec 16)) :
    Turns.agree (getblkWith removeFromQueues insertIntoQueues sv turns k)
        (getblkWith removeFollowing insertFollowing sv turns k) s ∧
      (getblkWith removeFromQueues insertIntoQueues sv turns k).wp (fun _ => Blank) s := by
  constructor
  · refine Turns.agree_loop (I := fun _ => Blank) (fun _ s₁ h₁ => (h₁.turn hk).1) ?_ h
    intro _ s₁ h₁
    refine (h₁.turn hk).2.mono ?_
    intro r s₂ h₂
    cases r with
    | inl b => exact trivial
    | inr _ => exact h₂
  · refine Turns.wp_loop (I := fun _ => Blank) ?_ h
    intro _ s₁ h₁
    refine (h₁.turn hk).2.mono ?_
    intro r s₂ h₂
    cases r with
    | inl b => exact h₂
    | inr _ => exact h₂

/-- `getblk` for a device does not return without having followed a null pointer. -/
lemma Blank.getblk_faults (h : Blank s) (hk : k.dev.setWidth 16 ≠ (0 : BitVec 16)) :
    (getblkWith removeFollowing insertFollowing sv turns k).wp (fun _ _ => False) s := by
  refine Turns.wp_loop (I := fun _ => Blank) ?_ h
  intro _ s₁ h₁
  refine Turns.wp_bind (h₁.getHashTable.mono ?_)
  rintro _ s₂ ⟨rfl, h₂⟩
  refine Turns.wp_bind (h₂.freeBuffer.mono ?_)
  intro r s₃ h₃
  cases r with
  | none => exact Turns.wp_bind (service_spec.mono fun _ s₄ h₄ => Turns.wp_pure (h₃.same h₄.1))
  | some tmp => exact (h₃.reuse_faults hk).mono fun _ _ hf => hf.elim

end Cache

/-! ## Runs -/

namespace Op

/-- Runs a call with the pointers it follows. -/
def runFollowing (sv : Services n κ) (turns : Nat) : Op n → Turns (Cache n κ) (Option (Fin n))
  | getblk k => do return some (← Cache.getblkWith Cache.removeFollowing Cache.insertFollowing sv turns k)
  | bread k => Cache.breadWith Cache.removeFollowing Cache.insertFollowing sv turns k
  | op => op.run sv turns

/-- The call asks for no block of a device: the device that the buffer would get is 0. -/
def Deviceless : Op n → Prop
  | getblk k | bread k => k.dev.setWidth 16 = (0 : BitVec 16)
  | getHashTable _ | brelse _ => True

end Op

/-- The calls of one process on the cache, from `buffer_init` on, with changes of the flags by interrupts. -/
def linkCalls (sv : Services (n + 1) κ) : System (Cache (n + 1) κ) (Action (n + 1)) where
  init s := ∃ m, s = bufferInit m
  step s l s' :=
    match l with
    | .call op r => ∃ turns, (op.run sv turns).run s = .ret (some r, s')
    | .flags => ∃ d, s' = { s with drive := d }

/-- The call comes to the same when null pointers fault. -/
def FollowsNoNull (sv : Services n κ) (s : Cache n κ) (l : Action n) (s' : Cache n κ) : Prop :=
  match l with
  | .call op r => ∃ turns, (op.runFollowing sv turns).run s = .ret (some r, s')
  | .flags => True

/-- No block of a device is asked for. -/
def AsksNoDevice (_ : Cache n κ) (l : Action n) (_ : Cache n κ) : Prop :=
  match l with
  | .call op _ => op.Deviceless
  | .flags => True

section
variable {sv : Services n κ} {turns : Nat} {s : Cache n κ} {op : Op n}

open Cache in
/-- A call without a device. -/
lemma Op.run_blank (h : Blank s) (hop : op.Deviceless) :
    Turns.agree (op.run sv turns) (op.runFollowing sv turns) s ∧ (op.run sv turns).wp (fun _ => Blank) s := by
  cases op with
  | getblk k =>
    obtain ⟨hagree, hw⟩ := h.getblk hop
    exact ⟨Turns.agree_bind hagree hw fun _ _ _ => Turns.agree_refl,
      Turns.wp_bind (hw.mono fun _ _ h₁ => Turns.wp_pure h₁)⟩
  | bread k =>
    obtain ⟨hagree, hw⟩ := h.getblk hop
    refine ⟨Turns.agree_bind hagree hw fun _ _ _ => Turns.agree_refl, Turns.wp_bind (hw.mono ?_)⟩
    intro b s₁ h₁
    refine Turns.wp_bind (Turns.wp_get ?_)
    split
    · exact Turns.wp_pure h₁
    · refine Turns.wp_bind (service_spec.mono fun _ s₂ h₂ => ?_)
      refine Turns.wp_bind (Turns.wp_get ?_)
      split
      · exact Turns.wp_pure (h₁.same h₂.1)
      · refine Turns.wp_bind (brelse_spec.mono ?_)
        rintro _ s₃ ⟨hsame, -⟩
        exact Turns.wp_pure ((h₁.same h₂.1).same hsame)
  | getHashTable k => exact ⟨Turns.agree_refl, h.getHashTable.mono fun _ _ hr => hr.2⟩
  | brelse buf =>
    refine ⟨Turns.agree_refl, ?_⟩
    cases buf with
    | none => exact Turns.wp_bind (Turns.wp_pure (Turns.wp_pure h))
    | some b =>
      refine Turns.wp_bind (brelse_spec.mono ?_)
      rintro _ s₁ ⟨hsame, -⟩
      exact Turns.wp_pure (h.same hsame)

open Cache in
/-- A call that returns without having followed a null pointer is one without a device. -/
lemma Op.deviceless_of_returns {r : Option (Fin n)} {s' : Cache n κ} (h : Blank s)
    (hrun : (op.runFollowing sv turns).run s = .ret (some r, s')) : op.Deviceless := by
  by_contra hop
  have hfalse : (op.runFollowing sv turns).wp (fun _ _ => False) s := by
    cases op with
    | getblk k => exact Turns.wp_bind ((h.getblk_faults hop).mono fun _ _ hf => hf.elim)
    | bread k => exact Turns.wp_bind ((h.getblk_faults hop).mono fun _ _ hf => hf.elim)
    | getHashTable k => exact absurd trivial hop
    | brelse buf => exact absurd trivial hop
  exact hfalse _ _ hrun r rfl

end

/-- `buffer_init` leaves the cache blank. -/
lemma Cache.blank_init (m : Cache (n + 1) κ) : Cache.Blank (bufferInit m) where
  dev _ := rfl
  next _ := rfl
  prev _ := rfl
  table _ := rfl
  ring := ⟨_, ring_init m⟩

/-- From `buffer_init` on, exactly the runs in which no block of a device is asked for follow no null
    pointer. -/
theorem follows_no_null_iff {sv : Services (n + 1) κ} {s : Cache (n + 1) κ}
    {tr : List (Action (n + 1) × Cache (n + 1) κ)} (h0 : (linkCalls sv).init s)
    (ex : (linkCalls sv).Exec s tr) : Along (FollowsNoNull sv) s tr ↔ Along AsksNoDevice s tr := by
  obtain ⟨m, rfl⟩ := h0
  refine ex.along_iff (I := Cache.Blank) ?_ ?_ (Cache.blank_init m)
  · intro s l s' h st hc
    cases l with
    | call op r =>
      obtain ⟨turns, hrun⟩ := st
      obtain ⟨hagree, hw⟩ := Op.run_blank h hc
      exact ⟨hw _ _ hrun r rfl, turns, hagree.trans hrun⟩
    | flags =>
      obtain ⟨d, rfl⟩ := st
      exact ⟨h.same Cache.drive_same, trivial⟩
  · intro s l s' h _ hq
    cases l with
    | call op r =>
      obtain ⟨turns, hrun⟩ := hq
      exact Op.deviceless_of_returns h hrun
    | flags => exact trivial

/-- The call of `getblk(0,5)` after `buffer_init`. -/
def looseCall : Prog (Cache 2 Unit) (Option (Option (Fin 2))) :=
  ((Op.getblk ⟨0, 5⟩).run quickDrive 4).run

/-- After `buffer_init`, `getblk(0,5)` finds the empty queue and leaves it empty. -/
theorem follows_no_null_loose : Along (FollowsNoNull quickDrive) booted.cache
    [(.call (.getblk ⟨0, 5⟩) (some 0), Prog.after looseCall booted.cache)] := by
  have st : (linkCalls quickDrive).step booted.cache (.call (.getblk ⟨0, 5⟩) (some 0))
      (Prog.after looseCall booted.cache) := ⟨4, rfl⟩
  exact (follows_no_null_iff ⟨_, rfl⟩ (.cons st .nil)).2 ⟨rfl, trivial⟩

/-- The first block of a disk that is asked for is put at the head of an empty queue. -/
theorem first_block_follows_null : ∃ tr, (linkCalls quickDrive).init booted.cache ∧
    (linkCalls quickDrive).Exec booted.cache tr ∧ ¬ Along (FollowsNoNull quickDrive) booted.cache tr := by
  have hk : Cache.InRange ⟨0x301#32, 1#32⟩ := ⟨by decide, by decide, by decide⟩
  obtain ⟨b, c, hrun⟩ : ∃ b c, (Cache.getblk quickDrive 4 ⟨0x301#32, 1#32⟩).run booted.cache =
      .ret (some b, c) :=
    Cache.getblk_ends quickDrive_serves (queues_init _) hk (by decide) (by decide) ⟨0, .inr rfl⟩
  have hcall : ((Op.getblk ⟨0x301#32, 1#32⟩ : Op 2).run quickDrive 4).run booted.cache =
      .ret (some (some b), c) := by
    rw [Op.run]
    exact (Prog.bind_of_ret (f := fun r => OptionT.run (match r with
      | some b => (pure (some b) : Turns (Cache 2 Unit) (Option (Fin 2)))
      | none => failure)) hrun).trans rfl
  refine ⟨[(.call (.getblk ⟨0x301#32, 1#32⟩) (some b), c)], ⟨_, rfl⟩, .cons ⟨4, hcall⟩ .nil, ?_⟩
  rintro ⟨⟨turns, hfollow⟩, -⟩
  have hdev : (Op.getblk ⟨0x301#32, 1#32⟩ : Op 2).Deviceless :=
    Op.deviceless_of_returns (Cache.blank_init _) hfollow
  cases hdev

end OldLinux.Buffer
