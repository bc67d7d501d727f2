import OldLinux.Buffer.Cache
import OldLinux.Lib.WriteBack

/-!
# The buffers as a write-back cache

The buffers are the copies of a write-back cache (`State.view`): a buffer is valid once its data have
come from the disk, and unsaved while it is dirty and its data have not gone there. A victim of
`getblk` is detached while `sync_dev` runs for it. `CacheOk` is the invariant of the buffers, the
hash queues and the disk: this cache is sound, and the queues hold the buffers that are not detached.

Of all the steps only five are steps of the abstract cache: the transfers (`load`, `save`), the
modification, and the two ends of `getblk` (`detach`, `reuse`). Locks, completions and counts leave
the copies as they are.
-/

namespace OldLinux.Buffer
open Lib Function

variable {n : Nat} {π δ : Type*}

/-- The block is on the hard disk. -/
def Key.Live (inRange : Key → Bool) (k : Key) : Prop := major k.dev = 3 ∧ inRange k = true

/-- A buffer as a copy of its block. -/
def BufferHead.copy (x : BufferHead δ) : Copy Key δ where
  key := x.key
  data := x.bData
  valid := x.bUptodate = true ∨ x.bLock = some ⟨.read, true⟩
  unsaved := x.bDirt = true ∧ x.bLock ≠ some ⟨.write, true⟩

/-- The buffers as a write-back cache; `off` are the ones off the queues. -/
def State.view (s : State n π δ) (off : Set (Fin n)) : WriteBack (Fin n) Key δ where
  copies b := (s.bufs b).copy
  detached := off
  store := s.disk
  latest := s.latest

/-- What the lock says about the other fields. -/
structure BufferHead.Ok (inRange : Key → Bool) (x : BufferHead δ) : Prop where
  reading : ∀ m, x.bLock = some ⟨.read, m⟩ → x.bDirt = false ∧ x.bUptodate = false
  writing : ∀ m, x.bLock = some ⟨.write, m⟩ → x.bDirt = true
  dirt : x.bDirt = true → x.bUptodate = true
  live : x.bLock.isSome → x.key.Live inRange

/-- The invariant of the buffers, the hash queues and the disk. -/
structure CacheOk (inRange : Key → Bool) (s : State n π δ) (off : Set (Fin n)) : Prop where
  sound : (s.view off).Sound (Key.Live inRange)
  heads : ∀ b, (s.bufs b).Ok inRange
  reading : ∀ b m, (s.bufs b).bLock = some ⟨.read, m⟩ → b ∉ off
  hashed : ∀ h b, b ∈ s.hashTable h ↔ (s.bufs b).key.dev ≠ 0 ∧ hashfn (s.bufs b).key = h ∧ b ∉ off
  nodup : ∀ h, (s.hashTable h).Nodup

/-! ## Steps of the cache -/

variable {inRange : Key → Bool} {s s' : State n π δ} {off : Set (Fin n)} {b : Fin n} {k : Key}

/-- A key without device is that of an unused buffer. -/
lemma key_dev_eq_zero (x : BufferHead δ) : x.key.dev = 0 ↔ x.bDev = 0 := by
  constructor
  · intro e
    have e' := congrArg BitVec.toNat e
    apply BitVec.eq_of_toNat_eq
    simp only [BufferHead.key, BitVec.toNat_setWidth] at e'
    simp at e' ⊢
    omega
  · intro e
    simp [BufferHead.key, e]

/-- A block that is live has a device. -/
lemma Key.Live.dev_ne_zero (h : k.Live inRange) : k.dev ≠ 0 := by
  intro e
  have hm := h.1
  rw [e] at hm
  exact absurd hm (by decide)

/-- The view after a buffer head has been set. -/
lemma view_setBuf (s : State n π δ) (b : Fin n) (x : BufferHead δ) (off : Set (Fin n)) :
    (s.setBuf b x).view off = (s.view off).set b x.copy :=
  congrArg (fun c => (⟨c, off, s.disk, s.latest⟩ : WriteBack (Fin n) Key δ))
    (comp_update BufferHead.copy s.bufs b x)

/-- A change of a buffer that leaves its copy as it is. -/
lemma view_setBuf_self {x : BufferHead δ} (h : x.copy = (s.bufs b).copy) :
    (s.setBuf b x).view off = s.view off := by
  have hset : update (s.view off).copies b x.copy = (s.view off).copies :=
    h ▸ update_eq_self b (s.view off).copies
  rw [view_setBuf, WriteBack.set, hset]

/-- The users do not matter to the cache. -/
lemma CacheOk.setUsers (h : CacheOk inRange s off) (users : π → Phase n) :
    CacheOk inRange { s with users := users } off :=
  ⟨h.sound, h.heads, h.reading, h.hashed, h.nodup⟩

/-- A buffer changes, but not its block. -/
lemma CacheOk.change (h : CacheOk inRange s off) {x : BufferHead δ} (hb : s'.bufs = update s.bufs b x)
    (hh : s'.hashTable = s.hashTable) (hkey : x.key = (s.bufs b).key)
    (hs : (s'.view off).Sound (Key.Live inRange)) (hx : x.Ok inRange)
    (hr : ∀ m, x.bLock = some ⟨.read, m⟩ → b ∉ off) : CacheOk inRange s' off where
  sound := hs
  heads b' := by
    rcases eq_or_ne b' b with rfl | hne
    · rwa [hb, update_self]
    · rw [hb, update_of_ne hne]
      exact h.heads b'
  reading b' m hm := by
    rcases eq_or_ne b' b with rfl | hne
    · rw [hb, update_self] at hm
      exact hr m hm
    · rw [hb, update_of_ne hne] at hm
      exact h.reading b' m hm
  hashed h' b' := by
    rw [hh, h.hashed h' b']
    rcases eq_or_ne b' b with rfl | hne
    · rw [hb, update_self, hkey]
    · rw [hb, update_of_ne hne]
  nodup := hh ▸ h.nodup

/-- The same, when the buffer stays the same copy. -/
lemma CacheOk.change_self (h : CacheOk inRange s off) {x : BufferHead δ}
    (hc : x.copy = (s.bufs b).copy) (hx : x.Ok inRange)
    (hr : ∀ m, x.bLock = some ⟨.read, m⟩ → b ∉ off) : CacheOk inRange (s.setBuf b x) off := by
  refine h.change rfl rfl (congrArg Copy.key hc) ?_ hx hr
  rw [view_setBuf_self hc]
  exact h.sound

/-- The counts do not matter. -/
lemma CacheOk.recount (h : CacheOk inRange s off) (b : Fin n) (c : BitVec 8) :
    CacheOk inRange (s.setBuf b { s.bufs b with bCount := c }) off :=
  have hx := h.heads b
  h.change_self rfl ⟨hx.reading, hx.writing, hx.dirt, hx.live⟩ (h.reading b)

/-- A dirty buffer is on the disk's device, so a write of it does start. -/
lemma CacheOk.live_of_dirt (h : CacheOk inRange s off) (hd : (s.bufs b).bDirt = true) :
    (s.bufs b).key.Live inRange :=
  h.sound.valid_live b (.inl ((h.heads b).dirt hd))

/-- `ll_rw_block` locks a buffer of a live block. -/
lemma llRwBlock_live {rw : Hd.Rw} (hl : (s.bufs b).key.Live inRange)
    (hs : s.llRwBlock inRange rw b = some s') :
    s' = s.setBuf b { s.bufs b with bLock := some ⟨rw, false⟩ } := by
  rw [State.llRwBlock, if_neg (not_not.2 hl.1), if_pos hl.2] at hs
  exact (Option.some.inj hs).symm

/-- It does nothing for any other one. -/
lemma llRwBlock_cases {rw : Hd.Rw} (hs : s.llRwBlock inRange rw b = some s') :
    s' = s ∨ (s.bufs b).key.Live inRange ∧
      s' = s.setBuf b { s.bufs b with bLock := some ⟨rw, false⟩ } := by
  by_cases hl : (s.bufs b).key.Live inRange
  · exact .inr ⟨hl, llRwBlock_live hl hs⟩
  · rw [State.llRwBlock] at hs
    split at hs
    · cases hs
    · split at hs
      case isTrue hm hr => exact absurd ⟨not_not.1 hm, hr⟩ hl
      case isFalse => exact .inl (Option.some.inj hs).symm

/-- A dirty buffer is locked to be written. -/
lemma CacheOk.lock_write (h : CacheOk inRange s off) (hlock : (s.bufs b).bLock = none)
    (hd : (s.bufs b).bDirt = true) :
    CacheOk inRange (s.setBuf b { s.bufs b with bLock := some ⟨.write, false⟩ }) off := by
  refine h.change_self ?_ ⟨nofun, fun _ _ => hd, (h.heads b).dirt, fun _ => h.live_of_dirt hd⟩ nofun
  simp [BufferHead.copy, BufferHead.key, hlock]

/-- A buffer that is not up to date is clean. -/
lemma BufferHead.Ok.clean {x : BufferHead δ} (h : x.Ok inRange) (hu : x.bUptodate = false) :
    x.bDirt = false := by
  cases hd : x.bDirt with
  | false => rfl
  | true =>
    rw [h.dirt hd] at hu
    cases hu

/-- A buffer that is not up to date is locked to be read. -/
lemma CacheOk.lock_read (h : CacheOk inRange s off) (hb : b ∉ off) (hlock : (s.bufs b).bLock = none)
    (hu : (s.bufs b).bUptodate = false) (hl : (s.bufs b).key.Live inRange) :
    CacheOk inRange (s.setBuf b { s.bufs b with bLock := some ⟨.read, false⟩ }) off := by
  have hx := h.heads b
  refine h.change_self ?_ ⟨fun _ _ => ⟨hx.clean hu, hu⟩, nofun, hx.dirt, fun _ => hl⟩ fun _ _ => hb
  simp [BufferHead.copy, BufferHead.key, hlock]

/-- A request whose data are copied does not change the copy when it completes. -/
lemma CacheOk.complete (h : CacheOk inRange s off) (hs : s.complete b = some s') :
    CacheOk inRange s' off := by
  have hx := h.heads b
  rw [State.complete] at hs
  split at hs
  case h_2 => cases hs
  case h_1 rw hlock =>
    obtain rfl := Option.some.inj hs
    refine h.change_self ?_ ⟨nofun, nofun, fun _ => rfl, nofun⟩ nofun
    cases rw with
    | read => simp [BufferHead.copy, BufferHead.key, hlock, (hx.reading _ hlock).1]
    | write => simp [BufferHead.copy, BufferHead.key, hlock, hx.dirt (hx.writing _ hlock)]

/-- A buffer off the queues has data of block `k` that are not on the disk yet. -/
def Unsaved (s : State n π δ) (off : Set (Fin n)) (k : Key) : Prop :=
  ∃ b ∈ off, (s.bufs b).bDirt = true ∧ (s.bufs b).bLock ≠ some ⟨.write, true⟩ ∧ (s.bufs b).key = k

/-- The driver fills a buffer from the disk. -/
lemma CacheOk.transfer_read (h : CacheOk inRange s off) (hlock : (s.bufs b).bLock = some ⟨.read, false⟩)
    (hu : ¬Unsaved s off (s.bufs b).key) :
    CacheOk inRange
      (s.setBuf b { s.bufs b with
        bData := s.disk (s.bufs b).key, bLock := some ⟨.read, true⟩ }) off := by
  have hx := h.heads b
  obtain ⟨hd, hut⟩ := hx.reading _ hlock
  have hb := h.reading b _ hlock
  have hl : (s.bufs b).key.Live inRange := hx.live (by simp [hlock])
  refine h.change rfl rfl rfl ?_ ⟨fun _ _ => ⟨hd, hut⟩, nofun, hx.dirt, fun _ => hl⟩ fun _ _ => hb
  have hload := h.sound.load hb hl (fun hun => by simp [State.view, BufferHead.copy, hd] at hun)
    fun b' hb' hun e => hu ⟨b', hb', hun.1, hun.2, e⟩
  have hview : (s.setBuf b { s.bufs b with
      bData := s.disk (s.bufs b).key, bLock := some ⟨.read, true⟩ }).view off = (s.view off).load b := by
    rw [view_setBuf, WriteBack.load]
    simp [BufferHead.copy, BufferHead.key, State.view, hd]
  rwa [hview]

/-- The driver writes a buffer to the disk. -/
lemma CacheOk.transfer_write (h : CacheOk inRange s off)
    (hlock : (s.bufs b).bLock = some ⟨.write, false⟩) :
    CacheOk inRange { s.setBuf b { s.bufs b with bLock := some ⟨.write, true⟩ } with
      disk := update s.disk (s.bufs b).key (s.bufs b).bData } off := by
  have hx := h.heads b
  have hd := hx.writing _ hlock
  refine h.change rfl rfl rfl ?_ ⟨nofun, fun _ _ => hd, hx.dirt, fun _ => h.live_of_dirt hd⟩ nofun
  have hsave := h.sound.save (b := b) ⟨hd, by simp [hlock]⟩
  have hview : ({ s.setBuf b { s.bufs b with bLock := some ⟨.write, true⟩ } with
      disk := update s.disk (s.bufs b).key (s.bufs b).bData } : State n π δ).view off =
      (s.view off).save b := by
    have hset := view_setBuf s b { s.bufs b with bLock := some ⟨.write, true⟩ } off
    have hcopies := congrArg WriteBack.copies hset
    simp only [State.view, WriteBack.save, WriteBack.set] at hcopies ⊢
    rw [hcopies]
    simp [BufferHead.copy, BufferHead.key, hlock]
  rwa [hview]

/-- A user writes to its buffer. -/
lemma CacheOk.modify (h : CacheOk inRange s off) (hb : b ∉ off) (hu : (s.bufs b).bUptodate = true)
    (hlock : (s.bufs b).bLock ≠ some ⟨.write, true⟩) (v : δ) :
    CacheOk inRange { s.setBuf b { s.bufs b with bData := v, bDirt := true } with
      latest := update s.latest (s.bufs b).key v } off := by
  have hx := h.heads b
  refine h.change rfl rfl rfl ?_ ⟨fun m hm => ?_, fun _ _ => rfl, fun _ => hu, hx.live⟩ (h.reading b)
  · have hmod := h.sound.modify hb (.inl hu) v
    have hview : ({ s.setBuf b { s.bufs b with bData := v, bDirt := true } with
        latest := update s.latest (s.bufs b).key v } : State n π δ).view off =
        (s.view off).modify b v := by
      have hset := view_setBuf s b { s.bufs b with bData := v, bDirt := true } off
      have hcopies := congrArg WriteBack.copies hset
      simp only [State.view, WriteBack.modify, WriteBack.set] at hcopies ⊢
      rw [hcopies]
      simp [BufferHead.copy, BufferHead.key, hu, hlock]
    rwa [hview]
  · have hf := (hx.reading m hm).2
    rw [hu] at hf
    cases hf

/-! ## The queues -/

/-- A buffer `find_buffer` returns is on the queues with the block it was asked for. -/
lemma CacheOk.findBuffer_some (h : CacheOk inRange s off) (hf : s.findBuffer k = some b) :
    (s.bufs b).key = k ∧ b ∉ off := by
  have hkey : (s.bufs b).key = k := by simpa using List.find?_some hf
  exact ⟨hkey, ((h.hashed _ b).1 (List.mem_of_find?_eq_some hf)).2.2⟩

/-- If `find_buffer` returns none there is no such buffer, whatever `b` off the queues has become. -/
lemma CacheOk.findBuffer_none (h : CacheOk inRange s off) (hb : b ∈ off) {x : BufferHead δ}
    (hf : (s.setBuf b x).findBuffer k = none) (hk : k.Live inRange) :
    ∀ b' ∉ off, (s.bufs b').key ≠ k := by
  intro b' hb' e
  have hne : b' ≠ b := fun e' => hb' (e' ▸ hb)
  have hmem : b' ∈ s.hashTable (hashfn k) := (h.hashed _ b').2 ⟨e ▸ hk.dev_ne_zero, e ▸ rfl, hb'⟩
  have hkey := List.find?_eq_none.1 hf b' hmem
  rw [State.setBuf_bufs, update_of_ne hne] at hkey
  exact hkey (decide_eq_true e)

/-- A buffer is taken out of its queues. -/
lemma CacheOk.removeFromQueues (h : CacheOk inRange s off) (hlock : (s.bufs b).bLock = none) :
    CacheOk inRange (s.removeFromQueues b) (insert b off) where
  sound := h.sound.detach b
  heads := h.heads
  reading b' m hm := by
    rintro (rfl | hb')
    · exact absurd (hlock.symm.trans hm) nofun
    · exact h.reading b' m hm hb'
  hashed h' b' := by
    show b' ∈ update s.hashTable _ _ h' ↔ _ ∧ _ ∧ ¬(b' = b ∨ b' ∈ off)
    rcases eq_or_ne h' (hashfn (s.bufs b).key) with rfl | hne
    · rw [update_self, (h.nodup _).mem_erase_iff, h.hashed, not_or]
      exact ⟨fun ⟨hb, hd, hh, ho⟩ => ⟨hd, hh, hb, ho⟩, fun ⟨hd, hh, hb, ho⟩ => ⟨hb, hd, hh, ho⟩⟩
    · rw [update_of_ne hne, h.hashed, not_or]
      refine and_congr_right fun _ => and_congr_right fun hh => ⟨fun ho => ⟨?_, ho⟩, And.right⟩
      rintro rfl
      exact hne hh.symm
  nodup h' := by
    show (update s.hashTable _ _ h').Nodup
    rcases eq_or_ne h' (hashfn (s.bufs b).key) with rfl | hne
    · rw [update_self]
      exact (h.nodup _).erase b
    · rw [update_of_ne hne]
      exact h.nodup h'

/-- A clean buffer off the queues is not locked. -/
lemma CacheOk.unlocked (h : CacheOk inRange s off) (hb : b ∈ off) (hd : (s.bufs b).bDirt = false) :
    (s.bufs b).bLock = none := by
  cases hlock : (s.bufs b).bLock with
  | none => rfl
  | some c =>
    obtain ⟨rw, m⟩ := c
    cases rw with
    | read => exact absurd hb (h.reading b m hlock)
    | write =>
      rw [(h.heads b).writing m hlock] at hd
      cases hd

/-- Who is in the hash queues after a buffer was put in. -/
lemma mem_insertIntoQueues {x : BufferHead δ} {h : Fin 307} {b' : Fin n} :
    b' ∈ ((s.setBuf b x).insertIntoQueues b).hashTable h ↔
      b' ∈ s.hashTable h ∨ b' = b ∧ x.bDev ≠ 0 ∧ h = hashfn x.key := by
  simp only [State.insertIntoQueues, State.setBuf_bufs, State.setBuf_hashTable, update_self]
  split
  case isTrue hd => simp [hd]
  case isFalse hd =>
    rcases eq_or_ne h (hashfn x.key) with rfl | hne
    · rw [update_self, List.mem_cons, or_comm]
      exact or_congr_right ⟨fun e => ⟨e, hd, rfl⟩, And.left⟩
    · simp [hne]

/-- A clean buffer off the queues goes back, as `x`, for a block no buffer on them has. -/
lemma CacheOk.insertIntoQueues (h : CacheOk inRange s off) (hb : b ∈ off)
    (hd : (s.bufs b).bDirt = false) {x : BufferHead δ} (hxd : x.bDirt = false)
    (hxu : x.bUptodate = false) (hxl : x.bLock = none) (hx : x.bData = (s.bufs b).bData)
    (hk : x.key.Live inRange → ∀ b' ∉ off, (s.bufs b').key ≠ x.key) :
    CacheOk inRange ((s.setBuf b x).insertIntoQueues b) (off \ {b}) where
  sound := by
    have hreuse := h.sound.reuse (b := b) (fun hun => by simp [State.view, BufferHead.copy, hd] at hun)
      (k := x.key) fun hl b' _ hb' => hk hl b' hb'
    have hview : ((s.setBuf b x).insertIntoQueues b).view (off \ {b}) = (s.view off).reuse b x.key := by
      have hset := view_setBuf s b x off
      have hcopies := congrArg WriteBack.copies hset
      simp only [State.view, WriteBack.reuse, WriteBack.set, State.insertIntoQueues] at hcopies ⊢
      rw [hcopies]
      simp [BufferHead.copy, hxd, hxu, hxl, hx]
    rwa [hview]
  heads b' := by
    show (update s.bufs b x b').Ok inRange
    rcases eq_or_ne b' b with rfl | hne
    · rw [update_self]
      exact ⟨by simp [hxl], by simp [hxl], by simp [hxd], by simp [hxl]⟩
    · rw [update_of_ne hne]
      exact h.heads b'
  reading b' m hm := by
    change (update s.bufs b x b').bLock = _ at hm
    rcases eq_or_ne b' b with rfl | hne
    · rw [update_self, hxl] at hm
      cases hm
    · rw [update_of_ne hne] at hm
      exact fun ho => h.reading b' m hm ho.1
  hashed h' b' := by
    have hnot : b ∉ s.hashTable h' := fun hm => ((h.hashed h' b).1 hm).2.2 hb
    show b' ∈ _ ↔ (update s.bufs b x b').key.dev ≠ 0 ∧ hashfn (update s.bufs b x b').key = h' ∧ _
    rw [mem_insertIntoQueues]
    rcases eq_or_ne b' b with rfl | hne
    · rw [update_self, ne_eq x.key.dev, key_dev_eq_zero]
      constructor
      · rintro (hm | ⟨-, hdev, rfl⟩)
        · exact absurd hm hnot
        · exact ⟨hdev, rfl, fun ho => ho.2 rfl⟩
      · rintro ⟨hdev, rfl, -⟩
        exact .inr ⟨rfl, hdev, rfl⟩
    · rw [update_of_ne hne, h.hashed]
      simp [hne]
  nodup h' := by
    have hnot : ∀ h', b ∉ s.hashTable h' := fun h' hm => ((h.hashed h' b).1 hm).2.2 hb
    simp only [State.insertIntoQueues, State.setBuf_bufs, State.setBuf_hashTable, update_self]
    split
    · exact h.nodup h'
    · rcases eq_or_ne h' (hashfn x.key) with rfl | hne
      · rw [update_self]
        exact List.nodup_cons.2 ⟨hnot _, h.nodup _⟩
      · rw [update_of_ne hne]
        exact h.nodup h'

end OldLinux.Buffer
