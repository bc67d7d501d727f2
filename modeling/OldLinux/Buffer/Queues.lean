import OldLinux.Buffer.Cache
import OldLinux.Lib.Threaded
import OldLinux.Lib.Turns

/-!
# The queues of the buffer cache

The pointers of `fs/buffer.c`, one by one: the hash queues through `b_next` and `b_prev` from
`hash_table`, and the ring through `b_next_free` and `b_prev_free` at `free_list`. Each member of
`struct buffer_head` is a table by buffer head; `NULL` is `none`. `Queues` says that the pointers are
what the comments of the source call them, and the operations on the queues keep it: a buffer is off
all of them between `remove_from_queues` and `insert_into_queues` (`Queues s (some bh)`).

The store `bh->b_next->b_prev = bh` of `insert_into_queues` has no effect when `b_next` is null.
-/

namespace OldLinux.Buffer
open Lib Function

/-- The flags of a buffer head, which interrupts and the users of the buffer change as well. -/
structure Flags where
  bUptodate : Bool
  bDirt : Bool
  bLock : Bool

/-- The flags of all buffers, with the state `rest` of the drive and everything else that goes on. -/
structure Drive (n : Nat) (κ : Type) where
  flags : Fin n → Flags
  rest : κ

/-- The buffer heads with their queues. -/
structure Cache (n : Nat) (κ : Type) where
  bDev : Fin n → BitVec 16
  bBlocknr : Fin n → BitVec 16
  bCount : Fin n → BitVec 8
  bPrev : Fin n → Option (Fin n)
  bNext : Fin n → Option (Fin n)
  bPrevFree : Fin n → Option (Fin n)
  bNextFree : Fin n → Option (Fin n)
  hashTable : Fin 307 → Option (Fin n)
  freeList : Option (Fin n)
  drive : Drive n κ

namespace Cache
variable {n : Nat} {κ : Type}

/-- `b_dev` and `b_blocknr` as they compare with `int`s. -/
def key (s : Cache n κ) (bh : Fin n) : Key := ⟨(s.bDev bh).zeroExtend 32, (s.bBlocknr bh).zeroExtend 32⟩

/-- The short members of a buffer are told apart by the `int`s they compare as. -/
lemma dev_eq_of_key {s : Cache n κ} {a b : Fin n} (h : s.key a = s.key b) : s.bDev a = s.bDev b := by
  have hdev := congrArg (BitVec.setWidth 16) (congrArg Key.dev h)
  simpa [key] using hdev

/-- `remove_from_queues(bh)`, "remove from hash-queue". -/
def unhash (s : Cache n κ) (bh : Fin n) : Cache n κ :=
  let h := hashfn (s.key bh)
  { s with
    bPrev := storeThrough s.bPrev (s.bNext bh) (s.bPrev bh)
    bNext := storeThrough s.bNext (s.bPrev bh) (s.bNext bh)
    hashTable := if s.hashTable h = some bh then update s.hashTable h (s.bNext bh) else s.hashTable }

/-- `remove_from_queues(bh)`, "remove from free list". -/
def unfree (s : Cache n κ) (bh : Fin n) : Cache n κ :=
  { s with
    bNextFree := storeThrough s.bNextFree (s.bPrevFree bh) (s.bNextFree bh)
    bPrevFree := storeThrough s.bPrevFree (s.bNextFree bh) (s.bPrevFree bh)
    freeList := if s.freeList = some bh then s.bNextFree bh else s.freeList }

/-- `remove_from_queues(bh)`. -/
def removeFromQueues (bh : Fin n) : Prog (Cache n κ) Unit := do
  Prog.modify fun s => s.unhash bh
  let s ← Prog.get
  if s.bPrevFree bh = none ∨ s.bNextFree bh = none then Prog.panic "Free block list corrupted"
  else Prog.modify fun s => s.unfree bh

/-- `insert_into_queues(bh)`, "put at end of free list", where `f` is `free_list` and `l` is
`free_list->b_prev_free`. -/
def enfree (s : Cache n κ) (bh f l : Fin n) : Cache n κ :=
  { s with
    bNextFree := update (update s.bNextFree bh (some f)) l (some bh)
    bPrevFree := update (update s.bPrevFree bh (some l)) f (some bh) }

/-- `insert_into_queues(bh)`, the hash queue. -/
def enhash (s : Cache n κ) (bh : Fin n) : Cache n κ :=
  let h := hashfn (s.key bh)
  let s := { s with bPrev := update s.bPrev bh none, bNext := update s.bNext bh none }
  if s.bDev bh = 0 then s
  else { s with
    bNext := update s.bNext bh (s.hashTable h)
    hashTable := update s.hashTable h (some bh)
    bPrev := storeThrough s.bPrev (s.hashTable h) (some bh) }

/-- `insert_into_queues(bh)`; following a null pointer faults. -/
def insertIntoQueues (bh : Fin n) : Prog (Cache n κ) Unit := do
  let s ← Prog.get
  match s.freeList with
  | none => Prog.fault
  | some f =>
    match s.bPrevFree f with
    | none => Prog.fault
    | some l =>
      Prog.modify fun s => s.enfree bh f l
      Prog.modify fun s => s.enhash bh

end Cache

variable {n : Nat} {κ : Type}

/-- The hash queues: doubly linked lists of the buffers that have a device, each in the queue of its
device and block. -/
structure Hashed (s : Cache n κ) (out : Option (Fin n)) (q : Fin 307 → List (Fin n)) : Prop where
  nodup : ∀ h, (q h).Nodup
  linked : ∀ h, ∃ l, Doubly s.bNext s.bPrev none (s.hashTable h) (q h) l none
  mem : ∀ h b, b ∈ q h ↔ out ≠ some b ∧ s.bDev b ≠ 0 ∧ hashfn (s.key b) = h
  loose : ∀ b, out ≠ some b → s.bDev b = 0 → s.bNext b = none ∧ s.bPrev b = none

/-- The free list: a ring of all buffers. -/
structure Ring (s : Cache n κ) (l : List (Fin n)) : Prop where
  nodup : l.Nodup
  linked : ∃ p, Doubly s.bNextFree s.bPrevFree p s.freeList l p s.freeList
  mem : ∀ b, b ∈ l

/-- The queues are in order, all buffers on them. -/
structure Queues (s : Cache n κ) : Prop where
  hash : ∃ q, Hashed s none q
  ring : ∃ l, Ring s l
  unique : ∀ a b, s.bDev a ≠ 0 → s.key a = s.key b → a = b

/-- What is left of the free list without buffer `bh`; if there is no other, `bh` points to itself. -/
def RingWithout (s : Cache n κ) (bh : Fin n) : Prop :=
  (∃ l p, l ≠ [] ∧ l.Nodup ∧ (∀ b, b ∈ l ↔ b ≠ bh) ∧
    Doubly s.bNextFree s.bPrevFree p s.freeList l p s.freeList) ∨
  (∀ b, b = bh) ∧ s.freeList = some bh ∧ s.bNextFree bh = some bh ∧ s.bPrevFree bh = some bh

/-- The queues are in order, buffer `bh` on none of them. -/
structure Without (s : Cache n κ) (bh : Fin n) : Prop where
  hash : ∃ q, Hashed s (some bh) q
  ring : RingWithout s bh
  unique : ∀ a b, a ≠ bh → b ≠ bh → s.bDev a ≠ 0 → s.key a = s.key b → a = b

namespace Cache
variable {s : Cache n κ} {bh : Fin n}

/-! ### Taking a buffer off the queues -/

/-- The queue of a hash value begins at its first buffer. -/
lemma mem_of_head {out : Option (Fin n)} {q : Fin 307 → List (Fin n)} {h : Fin 307}
    (hq : Hashed s out q) (he : s.hashTable h = some bh) : bh ∈ q h := by
  obtain ⟨l, hl⟩ := hq.linked h
  obtain hnil | hne := eq_or_ne (q h) []
  · rw [hnil] at hl
    cases he.symm.trans (doubly_nil.1 hl).1
  · obtain ⟨b, hb, hb'⟩ := hl.first hne
    cases he.symm.trans hb'
    exact hb

/-- A buffer without a device is on no hash queue, so nothing is done. -/
lemma unhash_loose {q : Fin 307 → List (Fin n)} (hq : Hashed s none q) (hdev : s.bDev bh = 0) :
    s.unhash bh = s := by
  obtain ⟨hnext, hprev⟩ := hq.loose bh nofun hdev
  have hhead : s.hashTable (hashfn (s.key bh)) ≠ some bh := by
    intro he
    exact ((hq.mem _ _).1 (mem_of_head hq he)).2.1 hdev
  simp only [unhash, hnext, hprev, storeThrough, if_neg hhead]

/-- A buffer with a device is taken out of its hash queue. -/
lemma hashed_unhash_mem {q : Fin 307 → List (Fin n)} (hq : Hashed s none q) (hdev : s.bDev bh ≠ 0) :
    ∃ q', Hashed (s.unhash bh) (some bh) q' := by
  have hmem : bh ∈ q (hashfn (s.key bh)) := (hq.mem _ _).2 ⟨nofun, hdev, rfl⟩
  obtain ⟨u, v, huv⟩ := List.append_of_mem hmem
  obtain ⟨l, hl⟩ := hq.linked (hashfn (s.key bh))
  have hn := hq.nodup (hashfn (s.key bh))
  rw [huv] at hl hn
  -- the neighbours are on the same queue
  have hnext : ∀ b, s.bNext bh = some b → b ∈ q (hashfn (s.key bh)) := by
    intro b hb
    rw [huv]
    exact List.mem_append_right _ (List.mem_cons_of_mem _ (hl.next_mem hb))
  have hprev : ∀ b, s.bPrev bh = some b → b ∈ q (hashfn (s.key bh)) := by
    intro b hb
    rw [huv]
    exact List.mem_append_left _ (hl.prev_mem hb)
  have hout : ∀ b, b ∈ u ++ v ↔ b ≠ bh ∧ b ∈ q (hashfn (s.key bh)) := by
    intro b
    rw [huv, List.mem_append, List.mem_append, List.mem_cons]
    have hbh : bh ∉ u ++ v := (List.nodup_cons.1 (List.nodup_middle.1 hn)).1
    grind
  refine ⟨update q (hashfn (s.key bh)) (u ++ v),
    { nodup := ?nodup, linked := ?linked, mem := ?mem, loose := ?loose }⟩
  case nodup =>
    intro h
    obtain rfl | hh := eq_or_ne h (hashfn (s.key bh))
    · rw [update_self]
      exact (List.nodup_cons.1 (List.nodup_middle.1 hn)).2
    · rw [update_of_ne hh]
      exact hq.nodup h
  case linked =>
    intro h
    obtain rfl | hh := eq_or_ne h (hashfn (s.key bh))
    · obtain ⟨l', hl'⟩ := hl.unlink_chain hn
      refine ⟨l', ?_⟩
      rw [update_self]
      have hhead : (s.unhash bh).hashTable (hashfn (s.key bh))
          = if s.hashTable (hashfn (s.key bh)) = some bh then s.bNext bh
            else s.hashTable (hashfn (s.key bh)) := by
        rw [unhash]
        split
        · exact update_self ..
        · rfl
      rw [hhead]
      exact hl'
    · obtain ⟨l', hl'⟩ := hq.linked h
      have hhead : (s.unhash bh).hashTable h = s.hashTable h := by
        rw [unhash]
        split
        · exact update_of_ne hh _ _
        · rfl
      have hother : ∀ b, b ∈ q (hashfn (s.key bh)) → b ∉ q h := fun b hb hb' =>
        hh (((hq.mem _ _).1 hb').2.2.symm.trans ((hq.mem _ _).1 hb).2.2)
      refine ⟨l', ?_⟩
      rw [update_of_ne hh, hhead]
      exact (hl'.store_next fun b hb => hother b (hprev b hb)).store_prev fun b hb =>
        hother b (hnext b hb)
  case mem =>
    intro h b
    obtain rfl | hh := eq_or_ne h (hashfn (s.key bh))
    · rw [update_self, hout, hq.mem]
      simp [ne_comm, unhash, key]
    · rw [update_of_ne hh, hq.mem]
      refine and_congr_left fun hb => ⟨fun _ he => ?_, fun _ => nofun⟩
      cases he
      exact hh hb.2.symm
  case loose =>
    intro b _ hb
    obtain ⟨hbn, hbp⟩ := hq.loose b nofun hb
    have hn : s.bNext bh ≠ some b := fun he => ((hq.mem _ _).1 (hnext b he)).2.1 hb
    have hp : s.bPrev bh ≠ some b := fun he => ((hq.mem _ _).1 (hprev b he)).2.1 hb
    exact ⟨(storeThrough_of_ne hp).trans hbn, (storeThrough_of_ne hn).trans hbp⟩

/-- A buffer without one is in none. -/
lemma hashed_unhash (bh : Fin n) {q : Fin 307 → List (Fin n)} (hq : Hashed s none q) :
    ∃ q', Hashed (s.unhash bh) (some bh) q' := by
  obtain hdev | hdev := eq_or_ne (s.bDev bh) 0
  · refine ⟨q, ?_⟩
    rw [unhash_loose hq hdev]
    refine ⟨hq.nodup, hq.linked, fun h b => ?_, fun b _ => hq.loose b nofun⟩
    rw [hq.mem]
    refine and_congr_left fun hb => ⟨fun _ he => ?_, fun _ => nofun⟩
    cases he
    exact hb.1 hdev
  · exact hashed_unhash_mem hq hdev

/-- A buffer is taken out of the ring of free buffers. -/
lemma ring_unfree (bh : Fin n) {l : List (Fin n)} (h : Ring s l) :
    s.bPrevFree bh ≠ none ∧ s.bNextFree bh ≠ none ∧ RingWithout (s.unfree bh) bh := by
  obtain ⟨u, v, huv⟩ := List.append_of_mem (h.mem bh)
  obtain ⟨p, hp⟩ := h.linked
  have hn := h.nodup
  rw [huv] at hp hn
  obtain ⟨hl, hr⟩ := doubly_split.1 hp
  obtain ⟨f, -, hf⟩ := hp.first (by simp)
  obtain ⟨c, -, hc⟩ := hp.last (by simp)
  have hprev : s.bPrevFree bh ≠ none := by
    obtain rfl | hu := eq_or_ne u []
    · rw [(doubly_nil.1 hl).2, hc]
      nofun
    · obtain ⟨b, -, hb⟩ := hl.last hu
      rw [hb]
      nofun
  have hnext : s.bNextFree bh ≠ none := by
    obtain rfl | hv := eq_or_ne v []
    · rw [(doubly_nil.1 hr).1, hf]
      nofun
    · obtain ⟨b, -, hb⟩ := hr.first hv
      rw [hb]
      nofun
  refine ⟨hprev, hnext, ?_⟩
  obtain hne | hne := eq_or_ne (u ++ v) []
  · -- the buffer is the only one: it stays linked to itself
    obtain ⟨rfl, rfl⟩ := List.append_eq_nil_iff.1 hne
    obtain ⟨ho, hp', hnext', hprev'⟩ := doubly_singleton.1 hp
    rw [ho] at hnext'
    rw [hp'] at hprev'
    refine .inr ⟨fun b => ?_, ?_, ?_, ?_⟩
    · have hb := h.mem b
      rw [huv] at hb
      exact List.mem_singleton.1 hb
    · simp [unfree, ho, hnext']
    · simp [unfree, hprev', hnext', storeThrough]
    · simp [unfree, hprev', hnext', storeThrough]
  · obtain ⟨q, hq⟩ := hp.unlink_ring hn hne
    have hn' := List.nodup_cons.1 (List.nodup_middle.1 hn)
    refine .inl ⟨u ++ v, q, hne, hn'.2, fun b => ?_, hq⟩
    have hb := h.mem b
    rw [huv, List.mem_append, List.mem_cons] at hb
    rw [List.mem_append]
    grind

/-! ### Putting a buffer on the queues -/

/-- It is put at the end of the ring. -/
lemma ring_enfree (h : RingWithout s bh) :
    ∃ f l r, s.freeList = some f ∧ s.bPrevFree f = some l ∧ Ring (s.enfree bh f l) r := by
  obtain ⟨l, p, hne, hn, hmem, hp⟩ | ⟨hall, hf, hnext, hprev⟩ := h
  · have hbh : bh ∉ l := fun hb => (hmem bh).1 hb rfl
    obtain ⟨f, -, hf⟩ := hp.first hne
    obtain ⟨c, -, hc⟩ := hp.last hne
    rw [hf, hc] at hp
    refine ⟨f, c, l ++ [bh], hf, ?_, ?_⟩
    · obtain ⟨a, l, rfl⟩ := List.exists_cons_of_ne_nil hne
      obtain ⟨ha, hprev, -⟩ := doubly_cons.1 hp
      cases ha
      exact hprev
    · refine ⟨?_, ⟨some bh, ?_⟩, fun b => ?_⟩
      · exact List.nodup_append.2 ⟨hn, List.nodup_singleton _, fun a ha b hb e =>
          hbh (List.mem_singleton.1 hb ▸ e ▸ ha)⟩
      · rw [show (s.enfree bh f c).freeList = some f from hf]
        exact hp.insert_ring hne hbh hn
      · rw [List.mem_append, hmem, List.mem_singleton]
        exact (eq_or_ne b bh).symm
  · refine ⟨bh, bh, [bh], hf, hprev, List.nodup_singleton _, ⟨some bh, ?_⟩, fun b => ?_⟩
    · rw [show (s.enfree bh bh bh).freeList = some bh from hf, doubly_singleton]
      exact ⟨rfl, rfl, update_self .., update_self ..⟩
    · rw [hall b]
      exact List.mem_singleton_self bh

/-- A buffer without a device goes into no queue. -/
lemma hashed_enhash_none {q : Fin 307 → List (Fin n)} (hq : Hashed s (some bh) q) (hdev : s.bDev bh = 0) :
    ∃ q', Hashed (s.enhash bh) none q' := by
  have hbh : ∀ h, bh ∉ q h := fun h hb => ((hq.mem h bh).1 hb).1 rfl
  have he : s.enhash bh
      = { s with bPrev := update s.bPrev bh none, bNext := update s.bNext bh none } := if_pos hdev
  rw [he]
  refine ⟨q, { nodup := hq.nodup, linked := ?linked, mem := ?mem, loose := ?loose }⟩
  case linked =>
    intro h
    obtain ⟨l, hl⟩ := hq.linked h
    exact ⟨l, (hl.update_next (hbh h) none).update_prev (hbh h) none⟩
  case mem =>
    intro h b
    rw [hq.mem]
    refine and_congr_left fun hb => ⟨fun _ => nofun, fun _ he => ?_⟩
    cases he
    exact hb.1 hdev
  case loose =>
    intro b _ hb
    obtain rfl | hne := eq_or_ne b bh
    · exact ⟨update_self .., update_self ..⟩
    · obtain ⟨hbn, hbp⟩ := hq.loose b (fun e => hne (Option.some.inj e).symm) hb
      exact ⟨(update_of_ne hne ..).trans hbn, (update_of_ne hne ..).trans hbp⟩

/-- A buffer with a device goes to the head of its queue. -/
lemma hashed_enhash_dev {q : Fin 307 → List (Fin n)} (hq : Hashed s (some bh) q) (hdev : s.bDev bh ≠ 0) :
    ∃ q', Hashed (s.enhash bh) none q' := by
  have hbh : ∀ h, bh ∉ q h := fun h hb => ((hq.mem h bh).1 hb).1 rfl
  have he : s.enhash bh = { s with
      bNext := update s.bNext bh (s.hashTable (hashfn (s.key bh)))
      hashTable := update s.hashTable (hashfn (s.key bh)) (some bh)
      bPrev := storeThrough (update s.bPrev bh none) (s.hashTable (hashfn (s.key bh))) (some bh) } := by
    rw [enhash, if_neg hdev, update_idem]
  have hhead : ∀ b, s.hashTable (hashfn (s.key bh)) = some b → b ∈ q (hashfn (s.key bh)) :=
    fun b hb => mem_of_head hq hb
  rw [he]
  refine ⟨update q (hashfn (s.key bh)) (bh :: q (hashfn (s.key bh))),
    { nodup := ?nodup, linked := ?linked, mem := ?mem, loose := ?loose }⟩
  case nodup =>
    intro h
    obtain rfl | hh := eq_or_ne h (hashfn (s.key bh))
    · rw [update_self]
      exact List.nodup_cons.2 ⟨hbh _, hq.nodup _⟩
    · rw [update_of_ne hh]
      exact hq.nodup h
  case linked =>
    intro h
    obtain ⟨l, hl⟩ := hq.linked h
    obtain rfl | hh := eq_or_ne h (hashfn (s.key bh))
    · dsimp only
      rw [update_self, update_self]
      exact hl.push (hbh _) (hq.nodup _)
    · dsimp only
      rw [update_of_ne hh, update_of_ne hh]
      -- the old head is in the queue of its own key only
      refine ⟨l, ((hl.update_next (hbh h) _).update_prev (hbh h) none).store_prev fun b hb hb' => ?_⟩
      exact hh (((hq.mem _ _).1 hb').2.2.symm.trans ((hq.mem _ _).1 (hhead b hb)).2.2)
  case mem =>
    intro h b
    obtain rfl | hh := eq_or_ne h (hashfn (s.key bh))
    · rw [update_self, List.mem_cons, hq.mem]
      constructor
      · rintro (rfl | ⟨-, hb⟩)
        · exact ⟨nofun, hdev, rfl⟩
        · exact ⟨nofun, hb⟩
      · rintro ⟨-, hb⟩
        obtain rfl | hne := eq_or_ne b bh
        · exact .inl rfl
        · exact .inr ⟨fun e => hne (Option.some.inj e).symm, hb⟩
    · rw [update_of_ne hh, hq.mem]
      refine and_congr_left fun hb => ⟨fun _ => nofun, fun _ he => ?_⟩
      cases he
      exact hh hb.2.symm
  case loose =>
    intro b _ hb
    have hne : b ≠ bh := fun e => hdev (e ▸ hb)
    obtain ⟨hbn, hbp⟩ := hq.loose b (fun e => hne (Option.some.inj e).symm) hb
    refine ⟨(update_of_ne hne ..).trans hbn, ?_⟩
    dsimp only
    rw [storeThrough_of_ne, update_of_ne hne]
    · exact hbp
    · intro hb'
      exact ((hq.mem _ _).1 (hhead b hb')).2.1 hb

/-- It is put at the head of its hash queue. -/
lemma hashed_enhash {q : Fin 307 → List (Fin n)} (hq : Hashed s (some bh) q) :
    ∃ q', Hashed (s.enhash bh) none q' := by
  obtain hdev | hdev := eq_or_ne (s.bDev bh) 0
  · exact hashed_enhash_none hq hdev
  · exact hashed_enhash_dev hq hdev

/-! ### The operations -/

/-- Only the pointers of the queues have changed. -/
structure Relinked (s s' : Cache n κ) : Prop where
  dev : s'.bDev = s.bDev
  blocknr : s'.bBlocknr = s.bBlocknr
  count : s'.bCount = s.bCount
  drive : s'.drive = s.drive

/-- `remove_from_queues` takes a buffer off the queues; the free list is not corrupted. -/
lemma removeFromQueues_spec (h : Queues s) :
    Prog.returns (removeFromQueues bh) (fun _ s' => Without s' bh ∧ Relinked s s') s := by
  obtain ⟨q, hq⟩ := h.hash
  obtain ⟨l, hl⟩ := h.ring
  obtain ⟨q', hq'⟩ := hashed_unhash bh hq
  have hring : Ring (s.unhash bh) l := ⟨hl.nodup, hl.linked, hl.mem⟩
  obtain ⟨hprev, hnext, hwithout⟩ := ring_unfree bh hring
  refine Prog.returns_bind (Prog.returns_modify (Prog.returns_bind (Prog.returns_get ?_)))
  rw [if_neg (not_or.2 ⟨hprev, hnext⟩)]
  refine Prog.returns_modify ⟨⟨⟨q', ?_⟩, hwithout, fun a b _ _ => h.unique a b⟩, rfl, rfl, rfl, rfl⟩
  exact ⟨hq'.nodup, hq'.linked, hq'.mem, hq'.loose⟩

/-- `insert_into_queues` puts a buffer on the queues. -/
lemma insertIntoQueues_spec (h : Without s bh)
    (hnew : ∀ b, b ≠ bh → s.bDev bh ≠ 0 → s.key b ≠ s.key bh) :
    Prog.returns (insertIntoQueues bh) (fun _ s' => Queues s' ∧ Relinked s s') s := by
  obtain ⟨f, l, r, hf, hprev, hr⟩ := ring_enfree h.ring
  obtain ⟨q, hq⟩ := h.hash
  have hq' : Hashed (s.enfree bh f l) (some bh) q := ⟨hq.nodup, hq.linked, hq.mem, hq.loose⟩
  obtain ⟨q'', hq''⟩ := hashed_enhash hq'
  have hsame : Relinked s ((s.enfree bh f l).enhash bh) ∧
      ((s.enfree bh f l).enhash bh).bNextFree = (s.enfree bh f l).bNextFree ∧
      ((s.enfree bh f l).enhash bh).bPrevFree = (s.enfree bh f l).bPrevFree ∧
      ((s.enfree bh f l).enhash bh).freeList = (s.enfree bh f l).freeList := by
    rw [enhash]
    split <;> exact ⟨⟨rfl, rfl, rfl, rfl⟩, rfl, rfl, rfl⟩
  obtain ⟨hsame, hnext', hprev', hfree'⟩ := hsame
  refine Prog.returns_bind (Prog.returns_get ?_)
  simp only [hf, hprev]
  refine Prog.returns_bind (Prog.returns_modify (Prog.returns_modify ⟨⟨⟨q'', hq''⟩, ⟨r, ?_⟩, ?_⟩, hsame⟩))
  · exact ⟨hr.nodup, by rw [hnext', hprev', hfree']; exact hr.linked, hr.mem⟩
  · have hkey : ∀ b, ((s.enfree bh f l).enhash bh).key b = s.key b := fun b => by
      rw [key, key, hsame.dev, hsame.blocknr]
    intro a b ha hab
    rw [hsame.dev] at ha
    rw [hkey, hkey] at hab
    obtain rfl | hna := eq_or_ne a bh
    · obtain rfl | hnb := eq_or_ne b a
      · rfl
      · exact absurd hab.symm (hnew b hnb ha)
    · obtain rfl | hnb := eq_or_ne b bh
      · refine absurd hab (hnew a hna ?_)
        rw [← dev_eq_of_key hab]
        exact ha
      · exact h.unique a b hna hnb ha hab

end Cache

end OldLinux.Buffer
