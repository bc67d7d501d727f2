import Mathlib.Data.List.Chain
import OldLinux.Lib.System
import OldLinux.Buffer.Queues

/-!
# The buffer cache under one process

`find_buffer`, `get_hash_table`, `getblk`, `brelse` and `bread` of `fs/buffer.c` over the queues of
`Buffer/Queues`, as one process calls them. Sleeping and the block device are `Services` on the flags of
the buffers; a loop is run for a number of turns. The ring and the hash queues are in order whenever a
call has returned (`cache_structure`).
-/

namespace OldLinux.Buffer
open Lib Function
open Hd (Rw)

variable {n : Nat} {κ : Type} {α : Type}

/-- What a process waits for: a sleep in `wait_on_buffer`, a sleep on `buffer_wait`, and
`ll_rw_block(rw, bh)` for the block that `bh` stands for. -/
structure Services (n : Nat) (κ : Type) where
  sleepOn : Fin n → Prog (Drive n κ) Unit
  bufferWait : Prog (Drive n κ) Unit
  llRwBlock : Rw → Fin n → Key → Prog (Drive n κ) Unit

namespace Cache

/-- A service changes the flags only. -/
def service (m : Prog (Drive n κ) α) : Turns (Cache n κ) α :=
  Turns.lift (Prog.zoom (fun s => s.drive) (fun s d => { s with drive := d }) m)

/-- Buffer `bh` gets count `c`. -/
def setCount (s : Cache n κ) (bh : Fin n) (c : BitVec 8) : Cache n κ :=
  { s with bCount := update s.bCount bh c }

/-- `tmp->b_dev=dev` and the three assignments after it. -/
def setKey (s : Cache n κ) (tmp : Fin n) (k : Key) : Cache n κ :=
  { s with
    bDev := update s.bDev tmp (k.dev.setWidth 16)
    bBlocknr := update s.bBlocknr tmp (k.block.setWidth 16)
    drive := { s.drive with
      flags := update s.drive.flags tmp
        { s.drive.flags tmp with bDirt := false, bUptodate := false } } }

/-- `tmp->b_dev=0` and the two assignments after it. -/
def giveUp (s : Cache n κ) (tmp : Fin n) : Cache n κ :=
  { s with
    bDev := update s.bDev tmp 0
    bBlocknr := update s.bBlocknr tmp 0
    bCount := update s.bCount tmp 0 }

variable (sv : Services n κ) (turns : Nat)

/-- `wait_on_buffer(bh)`. -/
def waitOnBuffer (bh : Fin n) : Turns (Cache n κ) Unit :=
  Turns.loop (fun _ => do
    let s ← Turns.get
    if (s.drive.flags bh).bLock then
      service (sv.sleepOn bh)
      return .inr ()
    else return .inl ()) turns ()

/-- `sync_dev(dev)`. -/
def syncDev (dev : BitVec 16) : Turns (Cache n κ) Unit :=
  forM (List.finRange n) fun bh => do
    let s ← Turns.get
    Turns.when (s.bDev bh = dev) do
      waitOnBuffer sv turns bh
      let s ← Turns.get
      Turns.when (s.drive.flags bh).bDirt (service (sv.llRwBlock .write bh (s.key bh)))

/-- `find_buffer(dev,block)`. -/
def findBuffer (k : Key) : Turns (Cache n κ) (Option (Fin n)) := do
  let s ← Turns.get
  Turns.loop (fun tmp : Option (Fin n) => do
    match tmp with
    | none => return .inl none
    | some tmp =>
      let s ← Turns.get
      if s.key tmp = k then return .inl (some tmp) else return .inr (s.bNext tmp))
    turns (s.hashTable (hashfn k))

/-- `brelse(buf)`. -/
def brelse (buf : Option (Fin n)) : Turns (Cache n κ) Unit := do
  match buf with
  | none => pure ()
  | some buf =>
    waitOnBuffer sv turns buf
    let s ← Turns.get
    if s.bCount buf = 0 then Turns.panic "Trying to free free buffer"
    else Turns.modify fun s => s.setCount buf (s.bCount buf - 1)

/-- `get_hash_table(dev,block)`. -/
def getHashTable (k : Key) : Turns (Cache n κ) (Option (Fin n)) :=
  Turns.loop (fun _ => do
    match ← findBuffer turns k with
    | none => return .inl none
    | some bh =>
      Turns.modify fun s => s.setCount bh (s.bCount bh + 1)
      waitOnBuffer sv turns bh
      let s ← Turns.get
      if s.key bh ≠ k then
        brelse sv turns (some bh)
        return .inr ()
      else return .inl (some bh)) turns ()

/-- The loop of `getblk` over the free list; `none` is `tmp=NULL`. -/
def freeBuffer : Turns (Cache n κ) (Option (Fin n)) := do
  let s ← Turns.get
  Turns.loop (fun tmp : Option (Fin n) => do
    match tmp with
    | none => Turns.fault
    | some tmp =>
      let s ← Turns.get
      -- a free buffer is waited for, and may have been taken by then
      Turns.when (s.bCount tmp = 0) (waitOnBuffer sv turns tmp)
      let s ← Turns.get
      if s.bCount tmp = 0 then return .inl (some tmp)
      else if s.bNextFree tmp ≠ s.freeList then return .inr (s.bNextFree tmp)
      else return .inl none) turns s.freeList

/-- `getblk` from `tmp->b_count++` to `tmp->b_uptodate=0`: buffer `tmp` of the free list is taken off the
queues, saved and given to the block. -/
def detach (k : Key) (tmp : Fin n) : Turns (Cache n κ) Unit := do
  Turns.modify fun s => s.setCount tmp (s.bCount tmp + 1)
  Turns.lift (removeFromQueues tmp)
  let s ← Turns.get
  Turns.when (s.drive.flags tmp).bDirt (syncDev sv turns (s.bDev tmp))
  Turns.modify fun s => s.setKey tmp k

/-- `getblk` from `tmp->b_count++` on. -/
def reuse (k : Key) (tmp : Fin n) : Turns (Cache n κ) (Fin n ⊕ Unit) := do
  detach sv turns k tmp
  match ← findBuffer turns k with
  | some _ =>
    Turns.modify fun s => s.giveUp tmp
    Turns.lift (insertIntoQueues tmp)
    return .inr ()
  | none =>
    Turns.lift (insertIntoQueues tmp)
    return .inl tmp

/-- `getblk(dev,block)`. -/
def getblk (k : Key) : Turns (Cache n κ) (Fin n) :=
  Turns.loop (fun _ => do
    match ← getHashTable sv turns k with
    | some tmp => return .inl tmp
    | none =>
      match ← freeBuffer sv turns with
      | none =>
        service sv.bufferWait
        return .inr ()
      | some tmp => reuse sv turns k tmp) turns ()

/-- `bread(dev,block)`. -/
def bread (k : Key) : Turns (Cache n κ) (Option (Fin n)) := do
  let bh ← getblk sv turns k
  let s ← Turns.get
  if (s.drive.flags bh).bUptodate then return some bh
  service (sv.llRwBlock .read bh (s.key bh))
  let s ← Turns.get
  if (s.drive.flags bh).bUptodate then return some bh
  brelse sv turns (some bh)
  return none

/-! ### What the functions do to the queues -/

/-- The counts and the flags may have changed. -/
structure SameQueues (s s' : Cache n κ) : Prop where
  dev : s'.bDev = s.bDev
  blocknr : s'.bBlocknr = s.bBlocknr
  prev : s'.bPrev = s.bPrev
  next : s'.bNext = s.bNext
  prevFree : s'.bPrevFree = s.bPrevFree
  nextFree : s'.bNextFree = s.bNextFree
  hashTable : s'.hashTable = s.hashTable
  freeList : s'.freeList = s.freeList

/-- Only the flags may have changed. -/
def Waited (s s' : Cache n κ) : Prop := SameQueues s s' ∧ s'.bCount = s.bCount

variable {sv turns} {s s' s'' : Cache n κ} {k : Key} {bh : Fin n} {out : Option (Fin n)}
  {q : Fin 307 → List (Fin n)}

/-- Nothing done leaves the queues. -/
lemma SameQueues.refl (s : Cache n κ) : SameQueues s s := ⟨rfl, rfl, rfl, rfl, rfl, rfl, rfl, rfl⟩

/-- Two steps that leave the queues leave them together. -/
lemma SameQueues.trans (h : SameQueues s s') (h' : SameQueues s' s'') : SameQueues s s'' :=
  ⟨h'.1.trans h.1, h'.2.trans h.2, h'.3.trans h.3, h'.4.trans h.4, h'.5.trans h.5, h'.6.trans h.6,
    h'.7.trans h.7, h'.8.trans h.8⟩

/-- A count is in no queue. -/
lemma setCount_same {c : BitVec 8} : SameQueues s (s.setCount bh c) :=
  ⟨rfl, rfl, rfl, rfl, rfl, rfl, rfl, rfl⟩

/-- Nor is the drive. -/
lemma drive_same {d : Drive n κ} : SameQueues s { s with drive := d } :=
  ⟨rfl, rfl, rfl, rfl, rfl, rfl, rfl, rfl⟩

/-- The keys are the same. -/
lemma SameQueues.key (h : SameQueues s s') : s'.key = s.key := by
  funext b
  rw [Cache.key, Cache.key, h.dev, h.blocknr]

/-- The hash queues are the same. -/
lemma SameQueues.hashed (e : SameQueues s s') (h : Hashed s out q) : Hashed s' out q where
  nodup := h.nodup
  linked i := by
    rw [e.next, e.prev, e.hashTable]
    exact h.linked i
  mem i b := by
    rw [e.dev, e.key]
    exact h.mem i b
  loose b := by
    rw [e.dev, e.next, e.prev]
    exact h.loose b

/-- All queues are the same. -/
lemma SameQueues.queues (e : SameQueues s s') (h : Queues s) : Queues s' where
  hash := h.hash.imp fun _ hq => e.hashed hq
  ring := h.ring.imp fun _ hl => ⟨hl.nodup, by rw [e.nextFree, e.prevFree, e.freeList]; exact hl.linked,
    hl.mem⟩
  unique a b := by
    rw [e.dev, e.key]
    exact h.unique a b

/-- The queues without a buffer are the same. -/
lemma SameQueues.without (e : SameQueues s s') (h : Without s bh) : Without s' bh where
  hash := h.hash.imp fun _ hq => e.hashed hq
  ring := by
    rw [RingWithout, e.nextFree, e.prevFree, e.freeList]
    exact h.ring
  unique a b := by
    rw [e.dev, e.key]
    exact h.unique a b

/-- Not waiting at all. -/
lemma Waited.refl (s : Cache n κ) : Waited s s := ⟨.refl s, rfl⟩

/-- Waiting twice is waiting. -/
lemma Waited.trans (h : Waited s s') (h' : Waited s' s'') : Waited s s'' :=
  ⟨h.1.trans h'.1, h'.2.trans h.2⟩

/-- The driver changes neither queues nor counts. -/
lemma service_spec {m : Prog (Drive n κ) α} : (service m).wp (fun _ s' => Waited s s') s :=
  Turns.wp_lift (Prog.wp_zoom.2 fun _ _ _ => ⟨drive_same, rfl⟩)

/-- `wait_on_buffer` waits. -/
lemma waitOnBuffer_spec : (waitOnBuffer sv turns bh).wp (fun _ s' => Waited s s') s := by
  refine Turns.wp_loop (I := fun _ s' => Waited s s') ?_ (.refl s)
  intro _ s₁ h₁
  refine Turns.wp_bind (Turns.wp_get ?_)
  split
  · refine Turns.wp_bind (service_spec.mono fun _ s₂ h₂ => ?_)
    exact Turns.wp_pure (h₁.trans h₂)
  · exact Turns.wp_pure h₁

/-- `sync_dev` waits. -/
lemma syncDev_spec {dev : BitVec 16} : (syncDev sv turns dev).wp (fun _ s' => Waited s s') s := by
  refine Turns.wp_forM ?_ (.refl s)
  intro b s₁ h₁
  refine Turns.wp_bind (Turns.wp_get (Turns.wp_when (fun _ => ?_) fun _ => h₁))
  refine Turns.wp_bind (waitOnBuffer_spec.mono fun _ s₂ h₂ => ?_)
  refine Turns.wp_bind (Turns.wp_get (Turns.wp_when (fun _ => ?_) fun _ => h₁.trans h₂))
  exact service_spec.mono fun _ s₃ h₃ => (h₁.trans h₂).trans h₃

/-- What `find_buffer` comes to: a buffer that stands for the block, or there is none on the queues. -/
def Found (s : Cache n κ) (out : Option (Fin n)) (k : Key) : Option (Fin n) → Prop
  | some b => out ≠ some b ∧ s.bDev b ≠ 0 ∧ s.key b = k
  | none => ∀ b, out ≠ some b → s.bDev b ≠ 0 → s.key b ≠ k

/-- `find_buffer` finds a buffer of the block if there is one. -/
lemma findBuffer_spec (hq : Hashed s out q) :
    (findBuffer turns k).wp (fun r s' => s' = s ∧ Found s out k r) s := by
  refine Turns.wp_bind (Turns.wp_get ?_)
  -- what is still to come holds every buffer of the queue that stands for the block
  refine Turns.wp_loop
    (I := fun tmp s' => s' = s ∧ ∃ v, Threaded s.bNext tmp v none ∧ (∀ b ∈ v, b ∈ q (hashfn k)) ∧
      ∀ b ∈ q (hashfn k), s.key b = k → b ∈ v) ?_ ?_
  · rintro tmp s₁ ⟨rfl, v, hv, hsub, hall⟩
    cases tmp with
    | none =>
      refine Turns.wp_pure ⟨rfl, fun b hb hdev hk => ?_⟩
      have hmem := hall b ((hq.mem _ _).2 ⟨hb, hdev, hk ▸ rfl⟩) hk
      cases v with
      | nil => cases hmem
      | cons c v => cases hv.1
    | some tmp =>
      refine Turns.wp_bind (Turns.wp_get ?_)
      cases v with
      | nil => cases hv
      | cons c v =>
        obtain ⟨he, hv⟩ := hv
        cases he
        obtain ⟨hout, hdev, -⟩ := (hq.mem _ _).1 (hsub _ List.mem_cons_self)
        split
        next hk => exact Turns.wp_pure ⟨rfl, hout, hdev, hk⟩
        next hk =>
          refine Turns.wp_pure ⟨rfl, v, hv, fun b hb => hsub b (List.mem_cons_of_mem _ hb), ?_⟩
          intro b hb hbk
          refine (List.mem_cons.1 (hall b hb hbk)).resolve_left ?_
          rintro rfl
          exact hk hbk
  · obtain ⟨l, hl⟩ := hq.linked (hashfn k)
    exact ⟨rfl, q (hashfn k), hl.1, fun _ h => h, fun _ h _ => h⟩

/-- `brelse` takes one from the count of a buffer that has one. -/
lemma brelse_spec : (brelse sv turns (some bh)).wp (fun _ s' => SameQueues s s' ∧ s.bCount bh ≠ 0 ∧
    s'.bCount = update s.bCount bh (s.bCount bh - 1)) s := by
  refine Turns.wp_bind (waitOnBuffer_spec.mono fun _ s₁ h₁ => ?_)
  refine Turns.wp_bind (Turns.wp_get ?_)
  split
  · exact Turns.wp_panic
  · next hc =>
    rw [h₁.2] at hc
    refine Turns.wp_modify ⟨h₁.1.trans setCount_same, hc, ?_⟩
    rw [setCount, h₁.2]

/-- What `get_hash_table` comes to. -/
def Gotten (s : Cache n κ) (k : Key) (s' : Cache n κ) : Option (Fin n) → Prop
  | some b => s.bDev b ≠ 0 ∧ s.key b = k ∧ s'.bCount = update s.bCount b (s.bCount b + 1)
  | none => (∀ b, s.bDev b ≠ 0 → s.key b ≠ k) ∧ s'.bCount = s.bCount

/-- `get_hash_table` gives a buffer of the block with one more user, or there is none. -/
lemma getHashTable_spec (h : Queues s) :
    (getHashTable sv turns k).wp (fun r s' => SameQueues s s' ∧ Gotten s k s' r) s := by
  obtain ⟨q, hq⟩ := h.hash
  refine Turns.wp_loop (I := fun _ s' => s' = s) ?_ rfl
  rintro _ s₁ rfl
  refine Turns.wp_bind ((findBuffer_spec hq).mono ?_)
  rintro r s₂ ⟨rfl, hr⟩
  cases r with
  | none => exact Turns.wp_pure ⟨.refl _, fun b => hr b nofun, rfl⟩
  | some b =>
    refine Turns.wp_bind (Turns.wp_modify ?_)
    refine Turns.wp_bind (waitOnBuffer_spec.mono fun _ s₃ h₃ => ?_)
    have hsame : SameQueues s₂ s₃ := setCount_same.trans h₃.1
    refine Turns.wp_bind (Turns.wp_get ?_)
    -- nobody else could have given the buffer to another block
    rw [hsame.key, if_neg (not_not.2 hr.2.2)]
    exact Turns.wp_pure ⟨hsame, hr.2.1, hr.2.2, h₃.2⟩

/-- The search is at `tmp`; the buffers `u` before it on the free list are in use. -/
structure Searching (s : Cache n κ) (u v : List (Fin n)) (tmp : Fin n) : Prop where
  nodup : (u ++ tmp :: v).Nodup
  all : ∀ b, b ∈ u ++ tmp :: v
  busy : ∀ b ∈ u, s.bCount b ≠ 0
  linked : Threaded s.bNextFree s.freeList (u ++ tmp :: v) s.freeList

/-- The search through the free list begins at its head. -/
lemma searching_start {f : Fin n} (h : Queues s) (hf : s.freeList = some f) :
    ∃ v, Searching s [] v f := by
  obtain ⟨l, hl⟩ := h.ring
  obtain ⟨p, hp⟩ := hl.linked
  cases l with
  | nil => cases hl.mem f
  | cons a v =>
    cases hf.symm.trans hp.1.1
    exact ⟨v, hl.nodup, hl.mem, nofun, hp.1⟩

/-- The search goes on to the next buffer. -/
lemma Searching.next {u v : List (Fin n)} {tmp : Fin n} (h : Searching s u v tmp)
    (hc : s.bCount tmp ≠ 0) (hn : s.bNextFree tmp ≠ s.freeList) :
    ∃ b v', v = b :: v' ∧ s.bNextFree tmp = some b ∧ Searching s (u ++ [tmp]) v' b := by
  have hv := (threaded_split.1 h.linked).2
  cases v with
  | nil => exact absurd hv hn
  | cons b v =>
    refine ⟨b, v, rfl, hv.1, by simpa using h.nodup, by simpa using h.all, fun c hcu => ?_,
      by simpa using h.linked⟩
    obtain hcu | hcu := List.mem_append.1 hcu
    · exact h.busy c hcu
    · exact List.mem_singleton.1 hcu ▸ hc

/-- Once it is round, all buffers are in use. -/
lemma Searching.round {u v : List (Fin n)} {tmp : Fin n} (h : Searching s u v tmp)
    (hc : s.bCount tmp ≠ 0) (hn : s.bNextFree tmp = s.freeList) (b : Fin n) : s.bCount b ≠ 0 := by
  obtain ⟨hu, hv⟩ := threaded_split.1 h.linked
  cases v with
  | nil =>
    obtain hb | hb := List.mem_append.1 (h.all b)
    · exact h.busy b hb
    · exact List.mem_singleton.1 hb ▸ hc
  | cons d v =>
    -- the next buffer would be the first one again
    have hd : d ∉ u ++ [tmp] := by
      have hnodup := h.nodup
      rw [← List.singleton_append, ← List.append_assoc] at hnodup
      exact fun hmem => (List.nodup_append.1 hnodup).2.2 d hmem d List.mem_cons_self rfl
    have hfirst : s.freeList = some d := hn ▸ hv.1
    cases u with
    | nil => cases hfirst.symm.trans hu; simp at hd
    | cons a u => cases hfirst.symm.trans hu.1; simp at hd

/-- The search over the free list ends with a buffer that is free, or with none if there is none. -/
lemma freeBuffer_spec (h : Queues s) : (freeBuffer sv turns).wp (fun r s' => Waited s s' ∧
    r.elim (∀ b, s.bCount b ≠ 0) (fun b => s.bCount b = 0)) s := by
  refine Turns.wp_bind (Turns.wp_get ?_)
  refine Turns.wp_loop
    (I := fun tmp s' => Waited s s' ∧ ∀ t, tmp = some t → ∃ u v, Searching s u v t) ?_
    ⟨.refl s, fun t ht => ⟨[], searching_start h ht⟩⟩
  rintro tmp s₁ ⟨h₁, hs⟩
  cases tmp with
  | none => exact Turns.wp_fault
  | some tmp =>
    obtain ⟨u, v, hs⟩ := hs tmp rfl
    refine Turns.wp_bind (Turns.wp_get ?_)
    have hwait : (Turns.when (s₁.bCount tmp = 0) (waitOnBuffer sv turns tmp)).wp
        (fun _ s' => Waited s s') s₁ :=
      Turns.wp_when (fun _ => waitOnBuffer_spec.mono fun _ s₂ h₂ => h₁.trans h₂) fun _ => h₁
    refine Turns.wp_bind (hwait.mono fun _ s₂ h₂ => ?_)
    refine Turns.wp_bind (Turns.wp_get ?_)
    rw [h₂.2, h₂.1.nextFree, h₂.1.freeList]
    split
    next hc => exact Turns.wp_pure ⟨h₂, hc⟩
    next hc =>
      split
      next hn =>
        refine Turns.wp_pure ⟨h₂, fun t ht => ?_⟩
        obtain ⟨b, v', -, hb, hs'⟩ := hs.next hc hn
        cases ht.symm.trans hb
        exact ⟨_, _, hs'⟩
      next hn => exact Turns.wp_pure ⟨h₂, hs.round hc (not_not.1 hn)⟩

/-- The device and block numbers that occur: they fit the members of a buffer head. -/
def InRange (k : Key) : Prop := 0 < k.dev.toNat ∧ k.dev.toNat < 65536 ∧ k.block.toNat < 65536

/-- The buffer gets the key. -/
lemma setKey_self (s : Cache n κ) (bh : Fin n) (hk : InRange k) :
    (s.setKey bh k).bDev bh ≠ 0 ∧ (s.setKey bh k).key bh = k := by
  obtain ⟨h0, hdev, hblock⟩ := hk
  have hwidth : ∀ x : BitVec 32, x.toNat < 65536 → (x.setWidth 16).zeroExtend 32 = x := by
    intro x hx
    apply BitVec.eq_of_toNat_eq
    simp only [BitVec.toNat_setWidth]
    omega
  constructor
  · simp only [setKey, update_self]
    intro he
    have hzero := congrArg BitVec.toNat he
    rw [BitVec.toNat_setWidth, Nat.mod_eq_of_lt hdev] at hzero
    exact Nat.ne_of_gt h0 hzero
  · simp only [key, setKey, update_self, hwidth _ hdev, hwidth _ hblock]

/-- The other buffers keep their keys. -/
lemma setKey_other {b : Fin n} (hb : b ≠ bh) :
    (s.setKey bh k).bDev b = s.bDev b ∧ (s.setKey bh k).key b = s.key b := by
  simp only [key, setKey, update_of_ne hb, and_self]

/-- A buffer that is on no queue can be given to another block. -/
lemma without_setKey (h : Without s bh) : Without (s.setKey bh k) bh where
  hash := by
    obtain ⟨q, hq⟩ := h.hash
    refine ⟨q, hq.nodup, hq.linked, fun i b => ?_, fun b hb => ?_⟩
    · rw [hq.mem]
      refine and_congr_right fun hb => ?_
      obtain ⟨hdev, hkey⟩ := setKey_other (s := s) (k := k) fun e => hb (congrArg some e.symm)
      rw [hdev, hkey]
    · rw [(setKey_other (s := s) (k := k) fun e => hb (congrArg some e.symm)).1]
      exact hq.loose b hb
  ring := h.ring
  unique a b ha hb := by
    rw [(setKey_other ha).1, (setKey_other ha).2, (setKey_other hb).2]
    exact h.unique a b ha hb

/-- What `getblk` comes to: a buffer for the block, with one more user. Buffers in use keep their
blocks. -/
structure GotBlock (s : Cache n κ) (k : Key) (b : Fin n) (s' : Cache n κ) : Prop where
  queues : Queues s'
  key : s'.key b = k
  keeps : ∀ c, s.bCount c ≠ 0 → s'.key c = s.key c
  count : s'.bCount = update s.bCount b (s.bCount b + 1)

/-- Buffer `bh` is off the queues and stands for the block. -/
structure Detached (s : Cache n κ) (k : Key) (bh : Fin n) (s' : Cache n κ) : Prop where
  without : Without s' bh
  dev : s'.bDev bh ≠ 0
  key : s'.key bh = k
  other : ∀ b, b ≠ bh → s'.bDev b = s.bDev b ∧ s'.key b = s.key b
  count : s'.bCount = update s.bCount bh (s.bCount bh + 1)

/-- The buffer that was chosen is taken out of its queues and gets its key. -/
lemma detach_spec (h : Queues s) (hk : InRange k) :
    (detach sv turns k bh).wp (fun _ s' => Detached s k bh s') s := by
  refine Turns.wp_bind (Turns.wp_modify ?_)
  have hcount : SameQueues s (s.setCount bh (s.bCount bh + 1)) := setCount_same
  refine Turns.wp_bind (Turns.wp_lift ((removeFromQueues_spec (hcount.queues h)).wp.mono ?_))
  rintro _ s₁ ⟨hw₁, hr₁⟩
  have hsync : (Turns.when (s₁.drive.flags bh).bDirt (syncDev sv turns (s₁.bDev bh))).wp
      (fun _ s' => Waited s₁ s') s₁ :=
    Turns.wp_when (fun _ => syncDev_spec) fun _ => .refl _
  refine Turns.wp_bind (Turns.wp_get (Turns.wp_bind (hsync.mono fun _ s₂ h₂ => Turns.wp_modify ?_)))
  obtain ⟨hdev, hself⟩ := setKey_self s₂ bh hk
  refine ⟨without_setKey (h₂.1.without hw₁), hdev, hself, fun b hb => ?_, ?_⟩
  · rw [(setKey_other hb).1, (setKey_other hb).2, h₂.1.key, h₂.1.dev, hr₁.dev]
    exact ⟨rfl, by rw [Cache.key, hr₁.dev, hr₁.blocknr]; rfl⟩
  · rw [show (s₂.setKey bh k).bCount = s₂.bCount from rfl, h₂.2, hr₁.count]
    rfl

/-- Nobody else could have added the block while the buffer was saved. -/
lemma Detached.notFound {r : Option (Fin n)} (h : Detached s k bh s')
    (hnew : ∀ b, s.bDev b ≠ 0 → s.key b ≠ k) (hr : Found s' (some bh) k r) : r = none := by
  cases r with
  | none => rfl
  | some b =>
    obtain ⟨hb, hdev, hbk⟩ := hr
    obtain ⟨hdev', hkey'⟩ := h.other b fun e => hb (congrArg some e.symm)
    exact absurd (hkey' ▸ hbk) (hnew b (hdev' ▸ hdev))

/-- The buffer can be put on the queues. -/
lemma Detached.insert (h : Detached s k bh s') (hr : Found s' (some bh) k none) :
    Prog.returns (insertIntoQueues bh) (fun _ s'' => Queues s'' ∧ Relinked s' s'') s' := by
  refine insertIntoQueues_spec h.without fun b hb _ he => ?_
  exact hr b (fun e => hb (Option.some.inj e).symm) (dev_eq_of_key he ▸ h.dev) (he.trans h.key)

/-- A free buffer is taken for a block that no buffer stands for. -/
lemma reuse_spec (h : Queues s) (hk : InRange k) (hnew : ∀ b, s.bDev b ≠ 0 → s.key b ≠ k)
    (hfree : s.bCount bh = 0) :
    (reuse sv turns k bh).wp (fun r s' => r = .inl bh ∧ GotBlock s k bh s') s := by
  refine Turns.wp_bind ((detach_spec h hk).mono fun _ s₁ h₁ => ?_)
  obtain ⟨q, hq⟩ := h₁.without.hash
  refine Turns.wp_bind ((findBuffer_spec hq).mono ?_)
  rintro r s₂ ⟨rfl, hr⟩
  cases h₁.notFound hnew hr
  refine Turns.wp_bind (Turns.wp_lift ((h₁.insert hr).wp.mono ?_))
  rintro _ s₃ ⟨hq₃, hr₃⟩
  have hkey : s₃.key = s₂.key := by
    funext b
    rw [Cache.key, Cache.key, hr₃.dev, hr₃.blocknr]
  refine Turns.wp_pure ⟨rfl, hq₃, hkey ▸ h₁.key, fun c hc => ?_, hr₃.count.trans h₁.count⟩
  rw [hkey]
  exact (h₁.other c fun e => hc (e ▸ hfree)).2

/-- `getblk` gives a buffer of the block and keeps the queues. -/
lemma getblk_spec (h : Queues s) (hk : InRange k) :
    (getblk sv turns k).wp (fun b s' => GotBlock s k b s') s := by
  refine Turns.wp_loop (I := fun _ s' => Waited s s') ?_ (.refl s)
  intro _ s₁ h₁
  refine Turns.wp_bind ((getHashTable_spec (h₁.1.queues h)).mono ?_)
  rintro r s₂ ⟨hsame, hr⟩
  cases r with
  | some b =>
    obtain ⟨-, hbk, hc⟩ := hr
    have hall := h₁.1.trans hsame
    refine Turns.wp_pure ⟨hall.queues h, ?_, fun c _ => congrFun hall.key c, ?_⟩
    · rw [hsame.key, hbk]
    · rw [hc, h₁.2]
  | none =>
    obtain ⟨hnew, hc⟩ := hr
    have h₂ : Waited s s₂ := h₁.trans ⟨hsame, hc⟩
    refine Turns.wp_bind ((freeBuffer_spec (h₂.1.queues h)).mono ?_)
    rintro r s₃ ⟨hwait, hfree⟩
    have h₃ := h₂.trans hwait
    cases r with
    | none => exact Turns.wp_bind (service_spec.mono fun _ s₄ h₄ => Turns.wp_pure (h₃.trans h₄))
    | some tmp =>
      have hzero : s₃.bCount tmp = 0 := by
        rw [hwait.2]
        exact hfree
      have hnew₃ : ∀ b, s₃.bDev b ≠ 0 → s₃.key b ≠ k := by
        rw [hwait.1.dev, hwait.1.key, hsame.dev, hsame.key]
        exact hnew
      refine (reuse_spec (h₃.1.queues h) hk hnew₃ hzero).mono ?_
      rintro _ s₄ ⟨rfl, h₄⟩
      refine ⟨h₄.queues, h₄.key, fun c hc => ?_, ?_⟩
      · rw [h₄.keeps c (h₃.2 ▸ hc), h₃.1.key]
      · rw [h₄.count, h₃.2]

/-! ### That `getblk` returns -/

/-- Sleeping in `wait_on_buffer` ends with the buffer unlocked, and `ll_rw_block` returns. -/
structure Serves (sv : Services n κ) : Prop where
  sleepOn : ∀ bh d, Prog.returns (sv.sleepOn bh) (fun _ d' => (d'.flags bh).bLock = false) d
  llRwBlock : ∀ rw bh k d, Prog.returns (sv.llRwBlock rw bh k) (fun _ _ => True) d

/-- A service of the drive ends. -/
lemma service_ends {m : Prog (Drive n κ) α} {Q : α → Drive n κ → Prop}
    (h : Prog.returns m Q s.drive) : (service m).ends s :=
  Turns.ends_lift (Prog.returns_zoom (Q := fun a s' => Q a s'.drive) h)

/-- `wait_on_buffer` ends. -/
lemma waitOnBuffer_ends (hs : Serves sv) (ht : 2 ≤ turns) : (waitOnBuffer sv turns bh).ends s := by
  -- one sleep at most
  refine Turns.ends_loop (I := fun k _ s => k = if (s.drive.flags bh).bLock then 1 else 0) ?_ ?_ rfl ?_
  · intro k _ s₁ _
    refine Turns.ends_get ?_
    split
    · exact Turns.ends_then (service_ends (hs.sleepOn bh _)) fun _ _ => Turns.ends_pure
    · exact Turns.ends_pure
  · rintro k _ s₁ rfl
    refine Turns.wp_bind (Turns.wp_get ?_)
    split
    next hl =>
      refine Turns.wp_bind (Turns.wp_lift (Prog.wp_zoom.2 ((hs.sleepOn bh _).wp.mono fun _ d hd => ?_)))
      exact Turns.wp_pure ⟨0, Nat.one_pos, by simp [hd]⟩
    next => exact Turns.wp_pure trivial
  · split <;> omega

/-- `sync_dev` ends. -/
lemma syncDev_ends (hs : Serves sv) (ht : 2 ≤ turns) {dev : BitVec 16} : (syncDev sv turns dev).ends s := by
  refine Turns.ends_forM fun b s₁ => Turns.ends_get (Turns.ends_when fun _ => ?_)
  refine Turns.ends_then (waitOnBuffer_ends hs ht) fun _ s₂ => Turns.ends_get ?_
  exact Turns.ends_when fun _ => service_ends (hs.llRwBlock _ _ _ _)

/-- `find_buffer` ends. -/
lemma findBuffer_ends (hq : Hashed s out q) (ht : n < turns) : (findBuffer turns k).ends s := by
  obtain ⟨l, hl⟩ := hq.linked (hashfn k)
  have hlen : (q (hashfn k)).length ≤ n := by
    simpa using (hq.nodup (hashfn k)).length_le_card
  refine Turns.ends_get (Turns.ends_loop
    (I := fun m tmp s' => s' = s ∧ ∃ v : List (Fin n), v.length = m ∧ Threaded s.bNext tmp v none)
    ?_ ?_ ⟨rfl, q (hashfn k), rfl, hl.1⟩ (Nat.lt_of_le_of_lt hlen ht))
  · intro m tmp s₁ _
    cases tmp with
    | none => exact Turns.ends_pure
    | some tmp =>
      refine Turns.ends_get ?_
      split <;> exact Turns.ends_pure
  · rintro m tmp s₁ ⟨rfl, v, rfl, hv⟩
    cases tmp with
    | none => exact Turns.wp_pure trivial
    | some tmp =>
      refine Turns.wp_bind (Turns.wp_get ?_)
      split
      next => exact Turns.wp_pure trivial
      next =>
        cases v with
        | nil => cases hv
        | cons c v =>
          obtain ⟨he, hv⟩ := hv
          cases he
          exact Turns.wp_pure ⟨v.length, Nat.lt_succ_self _, rfl, v, rfl, hv⟩

/-- `get_hash_table` ends. -/
lemma getHashTable_ends (hs : Serves sv) (h : Queues s) (ht : 2 ≤ turns) (ht' : n < turns) :
    (getHashTable sv turns k).ends s := by
  obtain ⟨q, hq⟩ := h.hash
  have hkeep : ∀ {s : Cache n κ} {b s₃}, s.key b = k → Waited (s.setCount b (s.bCount b + 1)) s₃ →
      s₃.key b = k := fun hk h₃ => (congrFun h₃.1.key _).trans hk
  -- there is no second turn
  refine Turns.ends_loop (I := fun m _ s' => m = 0 ∧ s' = s) ?_ ?_ ⟨rfl, rfl⟩ (by omega)
  · rintro _ _ _ ⟨-, rfl⟩
    refine Turns.ends_bind (findBuffer_ends hq ht') (findBuffer_spec hq) ?_
    rintro r s₂ ⟨rfl, hr⟩
    cases r with
    | none => exact Turns.ends_pure
    | some b =>
      refine Turns.ends_modify ?_
      refine Turns.ends_bind (waitOnBuffer_ends hs ht) waitOnBuffer_spec fun _ s₃ h₃ => Turns.ends_get ?_
      rw [if_neg (not_not.2 (hkeep hr.2.2 h₃))]
      exact Turns.ends_pure
  · rintro _ _ _ ⟨-, rfl⟩
    refine Turns.wp_bind ((findBuffer_spec hq).mono ?_)
    rintro r s₂ ⟨rfl, hr⟩
    cases r with
    | none => exact Turns.wp_pure trivial
    | some b =>
      refine Turns.wp_bind (Turns.wp_modify ?_)
      refine Turns.wp_bind (waitOnBuffer_spec.mono fun _ s₃ h₃ => ?_)
      refine Turns.wp_bind (Turns.wp_get ?_)
      rw [if_neg (not_not.2 (hkeep hr.2.2 h₃))]
      exact Turns.wp_pure trivial

/-- The search for a free buffer ends. -/
lemma freeBuffer_ends (hs : Serves sv) (h : Queues s) (ht : 2 ≤ turns) (ht' : n < turns)
    (hfree : s.freeList ≠ none) : (freeBuffer sv turns).ends s := by
  obtain ⟨f, hf⟩ := Option.ne_none_iff_exists'.1 hfree
  obtain ⟨v, hv⟩ := searching_start h hf
  have hlen : v.length ≤ n := by
    have hle := hv.nodup.length_le_card
    simp only [List.nil_append, List.length_cons, Fintype.card_fin] at hle
    omega
  refine Turns.ends_get (Turns.ends_loop
    (I := fun m tmp s' => Waited s s' ∧ ∃ t u v, tmp = some t ∧ v.length = m ∧ Searching s u v t)
    ?_ ?_ ⟨.refl s, f, [], v, hf, rfl, hv⟩ (Nat.lt_of_le_of_lt hlen ht'))
  · rintro m _ s₁ ⟨-, tmp, u, v, rfl, -, -⟩
    refine Turns.ends_get (Turns.ends_then (Turns.ends_when fun _ => waitOnBuffer_ends hs ht) fun _ s₂ => ?_)
    refine Turns.ends_get ?_
    split
    · exact Turns.ends_pure
    · split <;> exact Turns.ends_pure
  · rintro m _ s₁ ⟨h₁, tmp, u, v, rfl, rfl, hs'⟩
    refine Turns.wp_bind (Turns.wp_get ?_)
    have hwait : (Turns.when (s₁.bCount tmp = 0) (waitOnBuffer sv turns tmp)).wp
        (fun _ s' => Waited s s') s₁ :=
      Turns.wp_when (fun _ => waitOnBuffer_spec.mono fun _ s₂ h₂ => h₁.trans h₂) fun _ => h₁
    refine Turns.wp_bind (hwait.mono fun _ s₂ h₂ => ?_)
    refine Turns.wp_bind (Turns.wp_get ?_)
    rw [h₂.2, h₂.1.nextFree, h₂.1.freeList]
    split
    next => exact Turns.wp_pure trivial
    next hc =>
      split
      next hn =>
        obtain ⟨b, v', rfl, hb, hs''⟩ := hs'.next hc hn
        exact Turns.wp_pure ⟨v'.length, Nat.lt_succ_self _, h₂, b, _, v', hb, rfl, hs''⟩
      next => exact Turns.wp_pure trivial

/-- Taking the buffer out ends. -/
lemma detach_ends (hs : Serves sv) (h : Queues s) (ht : 2 ≤ turns) :
    (detach sv turns k bh).ends s := by
  have hcount : SameQueues s (s.setCount bh (s.bCount bh + 1)) := setCount_same
  refine Turns.ends_modify (Turns.ends_then (Turns.ends_lift (removeFromQueues_spec (hcount.queues h)))
    fun _ s₁ => Turns.ends_get ?_)
  refine Turns.ends_then (Turns.ends_when fun _ => syncDev_ends hs ht) fun _ s₂ => ?_
  exact ⟨(), _, rfl⟩

/-- Using it for the block ends, as nobody else has one for it. -/
lemma reuse_ends (hs : Serves sv) (h : Queues s) (hk : InRange k)
    (hnew : ∀ b, s.bDev b ≠ 0 → s.key b ≠ k) (ht : 2 ≤ turns) (ht' : n < turns) :
    (reuse sv turns k bh).ends s := by
  refine Turns.ends_bind (detach_ends hs h ht) (detach_spec h hk) fun _ s₁ h₁ => ?_
  obtain ⟨q, hq⟩ := h₁.without.hash
  refine Turns.ends_bind (findBuffer_ends hq ht') (findBuffer_spec hq) ?_
  rintro r s₂ ⟨rfl, hr⟩
  cases h₁.notFound hnew hr
  exact Turns.ends_then (Turns.ends_lift (h₁.insert hr)) fun _ _ => Turns.ends_pure

/-- `getblk` returns when there is a buffer for the block or a free one. -/
lemma getblk_ends (hs : Serves sv) (h : Queues s) (hk : InRange k) (ht : 2 ≤ turns) (ht' : n < turns)
    (hb : ∃ b, s.bDev b ≠ 0 ∧ s.key b = k ∨ s.bCount b = 0) : (getblk sv turns k).ends s := by
  -- the search finds a buffer if `get_hash_table` does not
  have hfound : ∀ {s₁ r}, Gotten s k s₁ none →
      r.elim (∀ b, s₁.bCount b ≠ 0) (fun b => s₁.bCount b = 0) → r ≠ none := by
    rintro s₁ r ⟨hnew, hc⟩ hr rfl
    obtain ⟨b, ⟨hdev, hbk⟩ | hzero⟩ := hb
    · exact hnew b hdev hbk
    · exact hr b (hc ▸ hzero)
  refine Turns.ends_loop (I := fun m _ s' => m = 0 ∧ s' = s) ?_ ?_ ⟨rfl, rfl⟩ (by omega)
  · rintro _ _ s₁ ⟨-, rfl⟩
    refine Turns.ends_bind (getHashTable_ends hs h ht ht') (getHashTable_spec h) ?_
    rintro r s₂ ⟨hsame, hr⟩
    cases r with
    | some b => exact Turns.ends_pure
    | none =>
      have hfree : s₂.freeList ≠ none := by
        obtain ⟨b, -⟩ := hb
        obtain ⟨l, hl⟩ := h.ring
        obtain ⟨p, hp⟩ := hl.linked
        obtain ⟨c, -, hc⟩ := hp.first (List.ne_nil_of_mem (hl.mem b))
        rw [hsame.freeList, hc]
        nofun
      refine Turns.ends_bind (freeBuffer_ends hs (hsame.queues h) ht ht' hfree)
        (freeBuffer_spec (hsame.queues h)) ?_
      rintro r s₃ ⟨hwait, hr'⟩
      cases r with
      | none => exact absurd rfl (hfound hr hr')
      | some tmp =>
        refine reuse_ends hs (hwait.1.queues (hsame.queues h)) hk ?_ ht ht'
        rw [hwait.1.dev, hwait.1.key, hsame.dev, hsame.key]
        exact hr.1
  · rintro _ _ s₁ ⟨-, rfl⟩
    refine Turns.wp_bind ((getHashTable_spec h).mono ?_)
    rintro r s₂ ⟨hsame, hr⟩
    cases r with
    | some b => exact Turns.wp_pure trivial
    | none =>
      refine Turns.wp_bind ((freeBuffer_spec (hsame.queues h)).mono ?_)
      rintro r s₃ ⟨hwait, hr'⟩
      cases r with
      | none => exact absurd rfl (hfound hr hr')
      | some tmp =>
        have hzero : s₃.bCount tmp = 0 := by
          rw [hwait.2]
          exact hr'
        have hnew : ∀ b, s₃.bDev b ≠ 0 → s₃.key b ≠ k := by
          rw [hwait.1.dev, hwait.1.key, hsame.dev, hsame.key]
          exact hr.1
        refine (reuse_spec (hwait.1.queues (hsame.queues h)) hk hnew hzero).mono ?_
        rintro _ s₄ ⟨rfl, -⟩
        trivial

/-- What `bread` comes to: a buffer with one more user, or none when the block cannot be read. -/
def Read (s : Cache n κ) (k : Key) (s' : Cache n κ) : Option (Fin n) → Prop
  | some b => s'.key b = k ∧ s'.bCount = update s.bCount b (s.bCount b + 1)
  | none => s'.bCount = s.bCount

/-- `bread` gives the block, up to date, or nothing. -/
lemma bread_spec (h : Queues s) (hk : InRange k) :
    (bread sv turns k).wp (fun r s' => Queues s' ∧ (∀ c, s.bCount c ≠ 0 → s'.key c = s.key c) ∧
      Read s k s' r) s := by
  refine Turns.wp_bind ((getblk_spec h hk).mono fun b s₁ h₁ => ?_)
  refine Turns.wp_bind (Turns.wp_get ?_)
  split
  · exact Turns.wp_pure ⟨h₁.queues, h₁.keeps, h₁.key, h₁.count⟩
  · refine Turns.wp_bind (service_spec.mono fun _ s₂ h₂ => ?_)
    have hkeeps : ∀ c, s.bCount c ≠ 0 → s₂.key c = s.key c := fun c hc => by
      rw [h₂.1.key, h₁.keeps c hc]
    refine Turns.wp_bind (Turns.wp_get ?_)
    split
    · refine Turns.wp_pure ⟨h₂.1.queues h₁.queues, hkeeps, ?_, ?_⟩
      · rw [h₂.1.key, h₁.key]
      · rw [h₂.2, h₁.count]
    · refine Turns.wp_bind (brelse_spec.mono ?_)
      rintro _ s₃ ⟨hsame, -, hc⟩
      refine Turns.wp_pure ⟨hsame.queues (h₂.1.queues h₁.queues), fun c hc => ?_, ?_⟩
      · rw [hsame.key, hkeeps c hc]
      · rw [Read, hc, h₂.2, h₁.count, update_self, update_idem, BitVec.add_sub_cancel, update_eq_self]

end Cache

/-! ### Runs -/

/-- The calls of the process. -/
inductive Op (n : Nat) where
  | getblk (k : Key)
  | bread (k : Key)
  | getHashTable (k : Key)
  | brelse (buf : Option (Fin n))

namespace Op

/-- The device and block numbers of a call are in range. -/
def InRange : Op n → Prop
  | getblk k | bread k | getHashTable k => Cache.InRange k
  | brelse _ => True

/-- Runs a call. -/
def run (sv : Services n κ) (turns : Nat) : Op n → Turns (Cache n κ) (Option (Fin n))
  | getblk k => do return some (← Cache.getblk sv turns k)
  | bread k => Cache.bread sv turns k
  | getHashTable k => Cache.getHashTable sv turns k
  | brelse buf => do
    Cache.brelse sv turns buf
    return none

/-- How many times the process holds each buffer after a call that returned `r`. -/
def hold (holders : Fin n → Nat) : Op n → Option (Fin n) → Fin n → Nat
  | brelse (some b), _ => update holders b (holders b - 1)
  | brelse none, _ => holders
  | _, some b => update holders b (holders b + 1)
  | _, none => holders

end Op

/-- The cache, with how many times the process holds each buffer. -/
structure Session (n : Nat) (κ : Type) where
  cache : Cache n κ
  holders : Fin n → Nat

/-- A call that returns `r`, or a change of the flags by an interrupt or by the process. -/
inductive Action (n : Nat) where
  | call (op : Op n) (r : Option (Fin n))
  | flags

/-- `buffer_init()` for `n + 1` buffers, on what is in memory. The pointers `h-1` and `h+1` are closed to a
ring. -/
def bufferInit (m : Cache (n + 1) κ) : Cache (n + 1) κ :=
  { m with
    bDev := fun _ => 0
    bCount := fun _ => 0
    bPrev := fun _ => none
    bNext := fun _ => none
    bPrevFree := fun h => some (h - 1)
    bNextFree := fun h => some (h + 1)
    hashTable := fun _ => none
    freeList := some 0
    drive := { m.drive with flags := fun _ => ⟨false, false, false⟩ } }

/-- One process and the buffer cache. -/
def cacheCalls (sv : Services (n + 1) κ) : System (Session (n + 1) κ) (Action (n + 1)) where
  init s := (∃ m, s.cache = bufferInit m) ∧ s.holders = fun _ => 0
  step s l s' :=
    match l with
    | .call op r => op.InRange ∧ s'.holders = op.hold s.holders r ∧
        ∃ turns, (op.run sv turns).run s.cache = .ret (some r, s'.cache)
    | .flags => s'.holders = s.holders ∧ ∃ d, s'.cache = { s.cache with drive := d }

/-- What holds between the calls. -/
structure Session.Ok (s : Session n κ) : Prop where
  queues : Queues s.cache
  count : ∀ b, (s.cache.bCount b).toNat = s.holders b

/-- What a step does: buffers in use keep their blocks, and `getblk` returns a buffer for its block. -/
def Respects (s : Session n κ) (l : Action n) (s' : Session n κ) : Prop :=
  (∀ b, s.cache.bCount b ≠ 0 → s'.cache.key b = s.cache.key b) ∧
    ∀ k r, l = .call (.getblk k) r → ∃ b, r = some b ∧ s'.cache.key b = k

/-- `buffer_init` makes a ring of all buffers. -/
lemma ring_init (m : Cache (n + 1) κ) : Ring (bufferInit m) (List.finRange (n + 1)) where
  nodup := List.nodup_finRange _
  mem b := List.mem_finRange b
  linked := by
    have hne : List.finRange (n + 1) ≠ [] := by simp [List.finRange_succ]
    have hlast : (List.finRange (n + 1)).getLast? = some (Fin.last n) := by
      rw [List.finRange_succ_last, List.getLast?_concat]
    have hhead : (List.finRange (n + 1)).head? = some 0 := by
      rw [List.finRange_succ, List.head?_cons]
    have hchain : (List.finRange (n + 1)).IsChain fun a b => b = a + 1 := by
      rw [List.isChain_iff_getElem]
      intro i hi
      rw [List.length_finRange] at hi
      rw [List.getElem_finRange, List.getElem_finRange]
      apply Fin.ext
      simp [Fin.val_add, Nat.mod_eq_of_lt hi]
    refine ⟨some (Fin.last n), threaded_of_isChain ?_ hhead.symm ?_ hne,
      threaded_of_isChain (List.isChain_reverse.2 ?_) ?_ ?_ (by simp)⟩
    · exact hchain.imp fun a b h => congrArg some h.symm
    · intro c hc
      rw [hlast] at hc
      cases hc
      exact congrArg some (Fin.last_add_one n)
    · refine hchain.imp fun a b h => congrArg some ?_
      rw [h, add_sub_cancel_right]
    · rw [List.head?_reverse, hlast]
    · intro c hc
      rw [List.getLast?_reverse, hhead] at hc
      cases hc
      refine congrArg some ?_
      rw [← Fin.last_add_one n, add_sub_cancel_right]

/-- `buffer_init` makes empty hash queues. -/
lemma queues_init (m : Cache (n + 1) κ) : Queues (bufferInit m) where
  hash := by
    refine ⟨fun _ => [], fun _ => List.nodup_nil, fun _ => ⟨none, doubly_nil.2 ⟨rfl, rfl⟩⟩, ?_, ?_⟩
    · exact fun _ _ => ⟨nofun, fun h => absurd rfl h.2.1⟩
    · exact fun _ _ _ => ⟨rfl, rfl⟩
  ring := ⟨_, ring_init m⟩
  unique _ _ h := absurd rfl h

/-- What a call does to the counts. -/
def Op.Counts (s s' : Cache n κ) : Op n → Option (Fin n) → Prop
  | brelse (some b), _ => s.bCount b ≠ 0 ∧ s'.bCount = update s.bCount b (s.bCount b - 1)
  | brelse none, _ => s'.bCount = s.bCount
  | _, some b => s'.bCount = update s.bCount b (s.bCount b + 1)
  | _, none => s'.bCount = s.bCount

/-- One call, whatever it is. -/
lemma Op.run_spec {sv : Services n κ} {turns : Nat} {op : Op n} {s : Cache n κ} (h : Queues s)
    (hop : op.InRange) : (op.run sv turns).wp (fun r s' => Queues s' ∧
      (∀ b, s.bCount b ≠ 0 → s'.key b = s.key b) ∧ op.Counts s s' r ∧
      ∀ k, op = .getblk k → ∃ b, r = some b ∧ s'.key b = k) s := by
  cases op with
  | getblk k =>
    refine Turns.wp_bind ((Cache.getblk_spec h hop).mono fun b s' hb => Turns.wp_pure ?_)
    exact ⟨hb.queues, hb.keeps, hb.count, fun _ e => ⟨b, rfl, by cases e; exact hb.key⟩⟩
  | bread k =>
    refine (Cache.bread_spec h hop).mono fun r s' hr => ⟨hr.1, hr.2.1, ?_, nofun⟩
    cases r with
    | none => exact hr.2.2
    | some b => exact hr.2.2.2
  | getHashTable k =>
    refine (Cache.getHashTable_spec h).mono fun r s' hr =>
      ⟨hr.1.queues h, fun b _ => congrFun hr.1.key b, ?_, nofun⟩
    cases r with
    | none => exact hr.2.2
    | some b => exact hr.2.2.2
  | brelse buf =>
    cases buf with
    | none => exact Turns.wp_bind (Turns.wp_pure (Turns.wp_pure ⟨h, fun _ _ => rfl, rfl, nofun⟩))
    | some b =>
      refine Turns.wp_bind (Cache.brelse_spec.mono fun _ s' hs => Turns.wp_pure ?_)
      exact ⟨hs.1.queues h, fun c _ => congrFun hs.1.key c, hs.2, nofun⟩

/-- The counts stay the numbers of users, as long as these fit into them. -/
lemma count_ok {op : Op n} {s s' : Cache n κ} {holders : Fin n → Nat} {r : Option (Fin n)}
    (h : ∀ b, (s.bCount b).toNat = holders b) (hc : op.Counts s s' r)
    (hlt : ∀ b, op.hold holders r b < 256) (b : Fin n) :
    (s'.bCount b).toNat = op.hold holders r b := by
  have hgive : ∀ c, update holders c (holders c + 1) c < 256 →
      (update s.bCount c (s.bCount c + 1) b).toNat = update holders c (holders c + 1) b := by
    intro c hc
    rw [update_self] at hc
    obtain rfl | hne := eq_or_ne b c
    · rw [update_self, update_self, BitVec.toNat_add, h b]
      exact Nat.mod_eq_of_lt hc
    · rw [update_of_ne hne, update_of_ne hne, h b]
  cases op with
  | brelse buf =>
    cases buf with
    | none =>
      rw [show s'.bCount = s.bCount from hc]
      exact h b
    | some c =>
      obtain ⟨hpos, hc⟩ := hc
      rw [hc, Op.hold]
      obtain rfl | hne := eq_or_ne b c
      · have hone : 1 ≤ s.bCount b := by
          rw [BitVec.le_def]
          exact Nat.pos_of_ne_zero fun e => hpos (BitVec.eq_of_toNat_eq e)
        rw [update_self, update_self, BitVec.toNat_sub_of_le hone, h b]
        rfl
      · rw [update_of_ne hne, update_of_ne hne, h b]
  | _ =>
    cases r with
    | none =>
      rw [show s'.bCount = s.bCount from hc]
      exact h b
    | some c =>
      rw [show s'.bCount = update s.bCount c (s.bCount c + 1) from hc]
      exact hgive c (hlt c)

/-- A call of the process keeps the queues and the counts. -/
lemma call_ok {sv : Services n κ} {turns : Nat} {op : Op n} {s : Session n κ} {r : Option (Fin n)}
    {c : Cache n κ} (h : s.Ok) (hop : op.InRange)
    (hrun : (op.run sv turns).run s.cache = .ret (some r, c))
    (hlt : ∀ b, op.hold s.holders r b < 256) :
    (⟨c, op.hold s.holders r⟩ : Session n κ).Ok ∧ Respects s (.call op r) ⟨c, op.hold s.holders r⟩ := by
  obtain ⟨hq, hkeeps, hc, hget⟩ := Op.run_spec h.queues hop (some r) c hrun r rfl
  refine ⟨⟨hq, count_ok h.count hc hlt⟩, hkeeps, fun k r' e => ?_⟩
  cases e
  exact hget k rfl

/-- In every run the queues are in order between the calls: the free list is a ring of all buffers, and
every buffer with a device is in the queue of its device and block and in no other. A buffer in use keeps
its block, and `getblk` returns a buffer for the block asked for; it does return unless all buffers are in
use. -/
theorem cache_structure {sv : Services (n + 1) κ} {s : Session (n + 1) κ}
    {tr : List (Action (n + 1) × Session (n + 1) κ)} (h0 : (cacheCalls sv).init s)
    (ex : (cacheCalls sv).Exec s tr) (hlt : Always (fun s => ∀ b, s.holders b < 256) s tr) :
    Always (fun s => Queues s.cache ∧ ∀ k, Cache.InRange k → Cache.Serves sv →
        (∃ b, s.cache.bDev b ≠ 0 ∧ s.cache.key b = k ∨ s.cache.bCount b = 0) →
        ∃ turns b c, (Cache.getblk sv turns k).run s.cache = .ret (some b, c)) s tr ∧
      Along Respects s tr := by
  have hinit : s.Ok := by
    obtain ⟨⟨m, hm⟩, hz⟩ := h0
    refine ⟨hm ▸ queues_init m, fun b => ?_⟩
    rw [hm, hz]
    rfl
  have hrun := ex.along_of_inv (I := Session.Ok) (C := fun _ _ s' => ∀ b, s'.holders b < 256)
    (Q := Respects) ?_ hinit hlt.2
  · refine ⟨hrun.1.mono fun s h => ⟨h.queues, fun k hk hs hb => ?_⟩, hrun.2⟩
    exact ⟨n + 3, Cache.getblk_ends hs h.queues hk (by omega) (by omega) hb⟩
  · rintro s l ⟨c, holders⟩ hok st hlt
    cases l with
    | call op r =>
      obtain ⟨hop, rfl, turns, hrun⟩ := st
      exact call_ok hok hop hrun hlt
    | flags =>
      obtain ⟨rfl, d, rfl⟩ := st
      have hsame : Cache.SameQueues s.cache { s.cache with drive := d } := Cache.drive_same
      exact ⟨⟨hsame.queues hok.queues, hok.count⟩, fun b _ => congrFun hsame.key b, nofun⟩

/-- A drive that is done at once. -/
def quickDrive : Services 2 Unit where
  sleepOn bh := Prog.modify fun d => { d with flags := update d.flags bh { d.flags bh with bLock := false } }
  bufferWait := pure ()
  llRwBlock _ bh _ := Prog.modify fun d =>
    { d with flags := update d.flags bh { bUptodate := true, bDirt := false, bLock := false } }

/-- The quick drive serves its requests. -/
lemma quickDrive_serves : Cache.Serves quickDrive where
  sleepOn bh d := Prog.returns_modify (by simp)
  llRwBlock _ _ _ d := Prog.returns_modify trivial

/-- Two buffers, after `buffer_init`. -/
def booted : Session 2 Unit where
  cache := bufferInit
    { bDev := fun _ => 0
      bBlocknr := fun _ => 0
      bCount := fun _ => 0
      bPrev := fun _ => none
      bNext := fun _ => none
      bPrevFree := fun _ => none
      bNextFree := fun _ => none
      hashTable := fun _ => none
      freeList := none
      drive := ⟨fun _ => ⟨false, false, false⟩, ()⟩ }
  holders := fun _ => 0

/-- The first block is asked for after booting. -/
theorem cache_structure_booted : ∃ b c,
    (Cache.getblk quickDrive 4 ⟨0x301#32, 5#32⟩).run booted.cache = .ret (some b, c) ∧ Queues c ∧
      c.key b = ⟨0x301#32, 5#32⟩ := by
  have h0 : (cacheCalls quickDrive).init booted := ⟨⟨_, rfl⟩, rfl⟩
  have hk : Cache.InRange ⟨0x301#32, 5#32⟩ := ⟨by decide, by decide, by decide⟩
  obtain ⟨b, c, hrun⟩ : ∃ b c, (Cache.getblk quickDrive 4 ⟨0x301#32, 5#32⟩).run booted.cache =
      .ret (some b, c) :=
    Cache.getblk_ends quickDrive_serves (queues_init _) hk (by decide) (by decide) ⟨0, .inr rfl⟩
  have ex : (cacheCalls quickDrive).Exec booted [(.call (.getblk ⟨0x301#32, 5#32⟩) (some b),
      ⟨c, Op.hold booted.holders (.getblk ⟨0x301#32, 5#32⟩) (some b)⟩)] := by
    refine .cons ⟨hk, rfl, 4, ?_⟩ .nil
    exact (Prog.bind_of_ret (f := fun r => OptionT.run (match r with
      | some b => pure (some b)
      | none => failure)) hrun).trans rfl
  have hlt : ∀ i, Op.hold booted.holders (.getblk ⟨0x301#32, 5#32⟩) (some b) i < 256 := by
    intro i
    simp only [Op.hold, booted, update_apply]
    split <;> decide
  obtain ⟨hq, hr⟩ := cache_structure h0 ex ⟨fun _ => Nat.zero_lt_succ 255, hlt, trivial⟩
  obtain ⟨b', hb', hkey⟩ := hr.1.2 _ _ rfl
  cases hb'
  exact ⟨b, c, hrun, hq.2.1.1, hkey⟩

end OldLinux.Buffer
