import OldLinux.Buffer.Users
import OldLinux.Buffer.View

/-!
# Coherence of the buffer cache

The abstract cache is sound as long as nothing is loaded that a detached copy still has to save, and
that is what `getblk` does not see to: the victim is off the hash queue before its data are on the
disk, so another call for its block reads the old contents (`evicted_block_read_back`). `Timely` says
which steps avoid this and the three other ways to go wrong: a number that does not fit in its field,
a count that overflows, and a modification between the transfer and the completion of a write, which
clears `b_dirt`. The headline is `bread_coherent`.
-/

namespace OldLinux.Buffer
open Lib Function

variable {n : Nat} {π δ : Type*}

/-- The invariant of the cache with its users. -/
structure Inv [Fintype π] (inRange : Key → Bool) (s : State n π δ) : Prop where
  cache : CacheOk inRange s (evicted s.users)
  users : UsersOk s.bufs s.users

/-- What the coherence of the cache needs of a step. -/
def Timely (s : State n π δ) : Event n π δ → Prop
  | .bread _ k => k.Fits
  | .advance u => ∀ k b, s.users u = .getblk k → s.findBuffer k = some b → (s.bufs b).bCount ≠ 255
  | .modify u _ => ∀ k b, s.users u = .held k b → (s.bufs b).bLock ≠ some ⟨.write, true⟩
  | .transfer b => (s.bufs b).bLock = some ⟨.read, false⟩ →
      ¬Unsaved s (evicted s.users) (s.bufs b).key
  | _ => True

section
variable [Fintype π] {inRange : Key → Bool} {s s' : State n π δ} {u : π} {p : Phase n} {b : Fin n}
  {k : Key}

/-- The buffer a call holds has its block, and counts. -/
lemma Inv.trusted (h : Inv inRange s) (hu : s.users u = .held k b) :
    (s.bufs b).key = k ∧ (s.view (evicted s.users)).Trusted b := by
  have hph : (s.bufs b).key = k ∧ (s.bufs b).bUptodate = true := by
    simpa [hu, PhaseOk] using h.users.phases u
  exact ⟨hph.1, .inr ⟨h.users.attached (by rw [hu]; rfl) (by rw [hu]; rfl), .inl hph.2⟩⟩

/-- The three things that coherence is: a call that has returned a buffer has the latest contents of
    the block, there is no second buffer of it, and the latest contents of every block are on the disk
    or in a dirty buffer that has yet to be written. -/
structure Coherent (s : State n π δ) : Prop where
  latest : ∀ {u k b}, s.users u = .held k b → (s.bufs b).bData = s.latest k
  single : ∀ {u u' k b b'}, s.users u = .held k b → s.users u' = .held k b' → b = b'
  kept : ∀ k, s.disk k = s.latest k ∨ ∃ b, (s.bufs b).bDirt = true ∧
    (s.bufs b).bLock ≠ some ⟨.write, true⟩ ∧ (s.bufs b).key = k ∧ (s.bufs b).bData = s.latest k

/-- The invariant gives coherence. -/
lemma Inv.coherent (h : Inv inRange s) : Coherent s where
  latest {u k b} hu := by
    obtain ⟨hkey, ht⟩ := h.trusted hu
    exact hkey ▸ h.cache.sound.trusted b ht
  single {u u' k b b'} hu hu' := by
    obtain ⟨hkey, ht⟩ := h.trusted hu
    obtain ⟨hkey', ht'⟩ := h.trusted hu'
    exact h.cache.sound.unique b b' ht ht' (hkey.trans hkey'.symm)
  kept k := (h.cache.sound.saved_or_unsaved k).imp_right fun ⟨b, hu, e, hd⟩ => ⟨b, hu.1, hu.2, e, hd⟩

/-- The invariant holds at first. -/
lemma Inv.init (h : s.Initial) : Inv inRange s where
  cache := by
    have hkey : ∀ b, ¬(s.bufs b).key.Live inRange := fun b hl =>
      hl.dev_ne_zero ((key_dev_eq_zero _).2 (h.dev b))
    have hvalid : ∀ {off} b, ¬((s.view off).copies b).valid := by
      intro off b
      simp [State.view, BufferHead.copy, h.uptodate b, h.lock b]
    have hunsaved : ∀ {off} b, ¬((s.view off).copies b).unsaved := by
      intro off b
      simp [State.view, BufferHead.copy, h.dirt b]
    constructor
    case sound =>
      constructor
      case valid_live => exact fun b hv => absurd hv (hvalid b)
      case unsaved_valid => exact fun b hu => absurd hu (hunsaved b)
      case trusted => exact fun b ht => (ht.elim (hunsaved b) fun hv => hvalid b hv.2).elim
      case unique => exact fun b _ ht => (ht.elim (hunsaved b) fun hv => hvalid b hv.2).elim
      case single => exact fun b _ _ _ hl => absurd hl (hkey b)
      case stored => exact fun k _ => congrFun h.latest.symm k
    case heads =>
      exact fun b => ⟨by simp [h.lock b], by simp [h.lock b], by simp [h.dirt b], by simp [h.lock b]⟩
    case reading => simp [h.lock]
    case hashed =>
      intro h' b
      constructor
      · simp [h.hash]
      · exact fun hb => absurd ((key_dev_eq_zero _).2 (h.dev b)) hb.1
    case nodup => simp [h.hash]
  users := by
    constructor
    case counts =>
      intro b
      have htally : tally (fun _ : π => (none : Option (Fin n))) b = 0 := congrFun tally_none b
      have hnone : (fun u => (s.users u).buffer) = fun _ => none := by
        funext u
        rw [h.users u]
        rfl
      rw [h.count b, hnone, htally]
      rfl
    case sole =>
      intro u u' b hu
      rw [h.users u] at hu
      cases hu
    case phases =>
      intro u
      rw [h.users u]
      trivial

/-! ## Steps of the driver and of the holder of a buffer -/

/-- A buffer is locked for writing, by `sync_dev` or `sys_sync`. -/
lemma Inv.lock_write (h : Inv inRange s) (hlock : (s.bufs b).bLock = none)
    (hd : (s.bufs b).bDirt = true) (hs : s.llRwBlock inRange .write b = some s') :
    Inv inRange s' ∧ s' = s.setBuf b { s.bufs b with bLock := some ⟨.write, false⟩ } := by
  obtain rfl := llRwBlock_live (h.cache.live_of_dirt hd) hs
  exact ⟨⟨h.cache.lock_write hlock hd, h.users.change rfl ⟨rfl, id, fun _ => id, nofun⟩⟩, rfl⟩

/-- Users change their buffers when they are not being written. -/
lemma Inv.modify {v : δ} (h : Inv inRange s) (ht : Timely s (.modify u v : Event n π δ))
    (hs : s.modify u v = some s') : Inv inRange s' := by
  cases hu : s.users u with
  | held k b =>
    rw [State.modify, hu] at hs
    obtain rfl := Option.some.inj hs
    have hph : (s.bufs b).key = k ∧ (s.bufs b).bUptodate = true := by
      simpa [hu, PhaseOk] using h.users.phases u
    obtain ⟨rfl, hut⟩ := hph
    have hb : b ∉ evicted s.users := h.users.attached (by rw [hu]; rfl) (by rw [hu]; rfl)
    exact ⟨h.cache.modify hb hut (ht _ b hu) v, h.users.change rfl
      ⟨rfl, id, fun ho => absurd ho hb, fun ho => absurd ho hb⟩⟩
  | _ =>
    rw [State.modify, hu] at hs
    cases hs

/-- The driver moves data. -/
lemma Inv.transfer (h : Inv inRange s) (ht : Timely s (.transfer b : Event n π δ))
    (hs : s.transfer b = some s') : Inv inRange s' := by
  simp only [State.transfer] at hs
  split at hs
  case h_1 hlock =>
    obtain rfl := Option.some.inj hs
    exact ⟨h.cache.transfer_read hlock (ht hlock), h.users.change rfl ⟨rfl, id, fun _ => id, nofun⟩⟩
  case h_2 hlock =>
    obtain rfl := Option.some.inj hs
    exact ⟨h.cache.transfer_write hlock, h.users.change rfl ⟨rfl, id, fun _ => id, nofun⟩⟩
  case h_3 => cases hs

/-- The driver completes a request. -/
lemma Inv.complete (h : Inv inRange s) (hs : s.complete b = some s') : Inv inRange s' := by
  have hcache := h.cache.complete hs
  simp only [State.complete] at hs
  split at hs
  case h_1 =>
    obtain rfl := Option.some.inj hs
    exact ⟨hcache, h.users.change rfl ⟨rfl, fun _ => rfl, fun _ _ => rfl, fun _ _ _ => rfl⟩⟩
  case h_2 => cases hs

/-- A dirty buffer is written. -/
lemma Inv.flush (h : Inv inRange s) (hs : s.flush inRange b = some s') : Inv inRange s' := by
  rw [State.flush] at hs
  split at hs
  case isTrue => cases hs
  case isFalse hno =>
    obtain ⟨hlock, hd⟩ := not_or.1 hno
    exact (h.lock_write (Option.not_isSome_iff_eq_none.1 hlock) (eq_true_of_ne_false hd) hs).1

/-! ## `bread` after `getblk` -/

variable [DecidableEq π]

/-- A user goes on with the buffers it has. -/
lemma Inv.move (h : Inv inRange s) (hb : p.buffer = (s.users u).buffer)
    (hv : p.victim = (s.users u).victim) (hp : PhaseOk s.bufs p) : Inv inRange (s.setUser u p) where
  cache := by
    rw [State.setUser_users, evicted_move hv]
    exact h.cache.setUsers _
  users := h.users.move hb hv hp

/-- The end of `bread`, after `getblk`. -/
lemma Inv.breadTail (h : Inv inRange s) (hb : (s.users u).buffer = some b)
    (hv : (s.users u).victim = none) (hk : k.Fits) (hkey : (s.bufs b).key = k)
    (hlock : (s.bufs b).bLock = none) (hs : s.breadTail inRange u k b = some s') : Inv inRange s' := by
  rw [State.breadTail] at hs
  split at hs
  case isTrue hut =>
    obtain rfl := Option.some.inj hs
    exact h.move hb.symm hv.symm ⟨hkey, hut⟩
  case isFalse hut =>
    obtain ⟨s₁, hs₁, rfl⟩ := Option.map_eq_some_iff.1 hs
    have hut' : (s.bufs b).bUptodate = false := eq_false_of_ne_true hut
    obtain rfl | ⟨hl, rfl⟩ := llRwBlock_cases hs₁
    · exact h.move hb.symm hv.symm ⟨hk, hkey⟩
    · have hoff := h.users.attached hb hv
      have hlocked : Inv inRange (s.setBuf b { s.bufs b with bLock := some ⟨.read, false⟩ }) :=
        { cache := h.cache.lock_read hoff hlock hut' hl
          users := h.users.change rfl ⟨rfl, id, fun ho => absurd ho hoff, fun ho => absurd ho hoff⟩ }
      refine hlocked.move hb.symm hv.symm ⟨hk, ?_⟩
      rw [State.setBuf_bufs, update_self]
      exact hkey

/-! ## `getblk` -/

/-- The end of `getblk` with a saved victim: it gets the block, unless that has a buffer by now. -/
lemma Inv.install (h : Inv inRange s) (hu : (s.users u).victim = some b) (hk : k.Fits)
    (hd : (s.bufs b).bDirt = false) (hs : s.install inRange u k b = some s') : Inv inRange s' := by
  have hb : b ∈ evicted s.users := ⟨u, hu⟩
  have hlock := h.cache.unlocked hb hd
  simp only [State.install] at hs
  split at hs
  case h_1 c hf =>
    obtain rfl := Option.some.inj hs
    have hidem : ∀ x y, (s.setBuf b x).setBuf b y = s.setBuf b y := by simp [State.setBuf]
    rw [hidem]
    constructor
    case cache =>
      have hev := h.users.evicted_reuse hu (p := Phase.getblk k) rfl
      simp only [State.setUser_users, State.insertIntoQueues_users, State.setBuf_users, hev]
      refine CacheOk.setUsers (h.cache.insertIntoQueues hb hd ?_ ?_ ?_ ?_ fun hl => ?_) _
      · rfl
      · rfl
      · exact hlock
      · rfl
      · exact absurd rfl hl.dev_ne_zero
    case users => exact h.users.reuse hu rfl (.inr ⟨rfl, rfl⟩) hk
  case h_2 hf =>
    rw [← State.breadTail_setUser inRange _ u (.waitOnBuffer k b)] at hs
    refine Inv.breadTail ⟨?_, ?_⟩ ?_ ?_ hk ?_ ?_ hs
    · have hev := h.users.evicted_reuse hu (p := Phase.waitOnBuffer k b) rfl
      simp only [State.setUser_users, State.insertIntoQueues_users, State.setBuf_users, hev]
      refine CacheOk.setUsers (h.cache.insertIntoQueues hb hd ?_ ?_ ?_ ?_ fun hl => ?_) _
      · rfl
      · rfl
      · exact hlock
      · rfl
      · have hkey := hk.stored
        change (⟨_, _⟩ : Key).Live inRange at hl
        change ∀ b' ∉ _, _ ≠ (⟨_, _⟩ : Key)
        rw [hkey] at hl ⊢
        exact h.cache.findBuffer_none hb hf hl
    · refine h.users.reuse hu rfl (.inl ⟨rfl, rfl⟩) ⟨hk, ?_⟩
      rw [update_self]
      exact hk.stored
    · rw [State.setUser_users, update_self]
      rfl
    · rw [State.setUser_users, update_self]
      rfl
    · simp only [State.setUser_bufs, State.insertIntoQueues_bufs, State.setBuf_bufs, update_self]
      exact hk.stored
    · simp only [State.setUser_bufs, State.insertIntoQueues_bufs, State.setBuf_bufs, update_self]
      exact hlock

/-- The victim is taken off the queues. If it is dirty `sync_dev` starts, if not the block is put in. -/
lemma Inv.take (h : Inv inRange s) (hu : s.users u = .search k b) (h0 : (s.bufs b).bCount = 0)
    (hlock : (s.bufs b).bLock = none) (hs : s.take inRange u k b = some s') : Inv inRange s' := by
  have hk : k.Fits := by simpa [hu, PhaseOk] using h.users.phases u
  have htaken : ∀ i, (b.val < i → (s.bufs b).bDirt = false) →
      Inv inRange (((s.setBuf b { s.bufs b with bCount := (s.bufs b).bCount + 1 }).removeFromQueues
        b).setUser u (.syncDev k b (s.bufs b).key.dev i)) := by
    intro i hi
    have hb : b ∉ evicted s.users :=
      fun ⟨u', hu'⟩ => h.users.not_counted h0 u' (Phase.buffer_of_victim hu')
    constructor
    case cache =>
      have hev : evicted (update s.users u (.syncDev k b (s.bufs b).key.dev i)) =
          insert b (evicted s.users) := evicted_take (by rw [hu]; rfl) rfl
      simp only [State.setUser_users, State.removeFromQueues_users, State.setBuf_users, hev]
      refine ((h.cache.recount b _).removeFromQueues ?_).setUsers _
      rw [State.setBuf_bufs, update_self]
      exact hlock
    case users =>
      exact h.users.acquire (by rw [hu]; rfl) rfl hb (by rw [h0]; decide) (.inr h0) ⟨hk, rfl, hi⟩
  rw [State.take] at hs
  split at hs
  case isTrue hd =>
    obtain rfl := Option.some.inj hs
    exact htaken 0 nofun
  case isFalse hd =>
    have hd' : (s.bufs b).bDirt = false := eq_false_of_ne_true hd
    rw [← State.install_setUser inRange _ u (.syncDev k b (s.bufs b).key.dev (b + 1))] at hs
    refine (htaken (b + 1) fun _ => hd').install ?_ hk ?_ hs
    · rw [State.setUser_users, update_self]
      rfl
    · simpa using hd'

/-- A buffer is released. -/
lemma Inv.brelse (h : Inv inRange s) (hb : (s.users u).buffer = some b)
    (hv : (s.users u).victim = none) (hpb : p.buffer = none) (hpv : p.victim = none)
    (hp : PhaseOk s.bufs p) (hs : s.brelse b = some s') : Inv inRange (s'.setUser u p) := by
  rw [State.brelse] at hs
  split at hs
  case isTrue => cases hs
  case isFalse =>
    obtain rfl := Option.some.inj hs
    constructor
    case cache =>
      rw [State.setUser_users, State.setBuf_users, evicted_move (hpv.trans hv.symm)]
      exact (h.cache.recount b _).setUsers _
    case users => exact h.users.drop hb hpb hp

/-! ## The steps -/

/-- The first part of `getblk`. -/
lemma Inv.getblk (h : Inv inRange s) (hu : s.users u = .getblk k)
    (ht : ∀ b, s.findBuffer k = some b → (s.bufs b).bCount ≠ 255)
    (hs : s.advance inRange u = some s') : Inv inRange s' := by
  have hk : k.Fits := by simpa [hu, PhaseOk] using h.users.phases u
  simp only [State.advance, hu] at hs
  split at hs
  case h_1 b hf =>
    obtain rfl := Option.some.inj hs
    obtain ⟨hkey, hb⟩ := h.cache.findBuffer_some hf
    constructor
    case cache =>
      rw [State.setUser_users, State.setBuf_users, evicted_move (by rw [hu]; rfl)]
      exact (h.cache.recount b _).setUsers _
    case users => exact h.users.acquire (by rw [hu]; rfl) rfl hb (ht b hf) (.inl rfl) ⟨hk, hkey⟩
  case h_2 =>
    obtain rfl := Option.some.inj hs
    exact h.move (by rw [hu]; rfl) (by rw [hu]; rfl) hk

/-- A turn of `sync_dev` within `getblk`. -/
lemma Inv.syncDev {dev : BitVec 32} {i : Nat} (h : Inv inRange s) (hu : s.users u = .syncDev k b dev i)
    (hs : s.advance inRange u = some s') : Inv inRange s' := by
  have hph : k.Fits ∧ (s.bufs b).key.dev = dev ∧ (b.val < i → (s.bufs b).bDirt = false) := by
    simpa [hu, PhaseOk] using h.users.phases u
  obtain ⟨hk, hdev, hclean⟩ := hph
  simp only [State.advance, hu] at hs
  split at hs
  case isTrue hi =>
    split at hs
    case isTrue hne =>
      obtain rfl := Option.some.inj hs
      refine h.move (by rw [hu]; rfl) (by rw [hu]; rfl) ⟨hk, hdev, fun hlt => hclean ?_⟩
      -- the loop does not pass over the victim, which is on this device
      have hbi : b.val ≠ i := fun e => hne (e ▸ hdev)
      omega
    case isFalse =>
      obtain rfl := Option.some.inj hs
      exact h.move (by rw [hu]; rfl) (by rw [hu]; rfl) ⟨hk, hdev, hclean⟩
  case isFalse hi => exact h.install (by rw [hu]; rfl) hk (hclean (by omega)) hs

/-- It has waited for a buffer. -/
lemma Inv.syncWait {dev : BitVec 32} {i : Fin n} (h : Inv inRange s)
    (hu : s.users u = .syncWait k b dev i) (hs : s.advance inRange u = some s') : Inv inRange s' := by
  have hph : k.Fits ∧ (s.bufs b).key.dev = dev ∧ (b < i → (s.bufs b).bDirt = false) := by
    simpa [hu, PhaseOk] using h.users.phases u
  simp only [State.advance, hu] at hs
  split at hs
  case isTrue => cases hs
  case isFalse hlock =>
    split at hs
    case isTrue hd =>
      obtain ⟨s₁, hs₁, rfl⟩ := Option.map_eq_some_iff.1 hs
      obtain ⟨h₁, rfl⟩ := h.lock_write (Option.not_isSome_iff_eq_none.1 hlock) hd hs₁
      have hph₁ := h₁.users.phases u
      rw [State.setBuf_users, hu] at hph₁
      refine h₁.move (by rw [State.setBuf_users, hu]; rfl) (by rw [State.setBuf_users, hu]; rfl)
        ⟨hph₁.1, hph₁.2.1, hph₁.2.2, ?_⟩
      rintro rfl hl
      rw [State.setBuf_bufs, update_self] at hl
      cases hl
    case isFalse hd =>
      obtain rfl := Option.some.inj hs
      refine h.move (by rw [hu]; rfl) (by rw [hu]; rfl) ⟨hph.1, hph.2.1, fun hlt => ?_⟩
      rcases eq_or_ne b i with rfl | hne
      · exact eq_false_of_ne_true hd
      · exact hph.2.2 (by omega)

/-- It writes a dirty buffer. -/
lemma Inv.syncWrite {dev : BitVec 32} {i : Fin n} (h : Inv inRange s)
    (hu : s.users u = .syncWrite k b dev i) (hs : s.advance inRange u = some s') : Inv inRange s' := by
  have hph : k.Fits ∧ (s.bufs b).key.dev = dev ∧ (b < i → (s.bufs b).bDirt = false) ∧
      (b = i → (s.bufs b).bLock = none → (s.bufs b).bDirt = false) := by
    simpa [hu, PhaseOk] using h.users.phases u
  simp only [State.advance, hu] at hs
  split at hs
  case isTrue => cases hs
  case isFalse hlock =>
    obtain rfl := Option.some.inj hs
    refine h.move (by rw [hu]; rfl) (by rw [hu]; rfl) ⟨hph.1, hph.2.1, fun hlt => ?_⟩
    rcases eq_or_ne b i with rfl | hne
    · exact hph.2.2.2 rfl (Option.not_isSome_iff_eq_none.1 hlock)
    · exact hph.2.2.1 (by omega)

/-- A user goes on in its call. -/
lemma Inv.advance (h : Inv inRange s) (ht : Timely s (.advance u : Event n π δ))
    (hs : s.advance inRange u = some s') : Inv inRange s' := by
  have hph := h.users.phases u
  cases hu : s.users u with
  | getblk k => exact h.getblk hu (ht k · hu) hs
  | syncDev k tmp dev i => exact h.syncDev hu hs
  | syncWait k tmp dev i => exact h.syncWait hu hs
  | syncWrite k tmp dev i => exact h.syncWrite hu hs
  | idle | held =>
    rw [State.advance, hu] at hs
    cases hs
  | waitOnBuffer k b =>
    rw [hu] at hph
    simp only [State.advance, hu, hph.2, ne_eq, not_true_eq_false, if_false] at hs
    split at hs
    case isTrue => cases hs
    case isFalse hlock =>
      exact h.breadTail (by rw [hu]; rfl) (by rw [hu]; rfl) hph.1 hph.2
        (Option.not_isSome_iff_eq_none.1 hlock) hs
  | search k tmp =>
    rw [hu] at hph
    simp only [State.advance, hu] at hs
    split at hs
    case isTrue h0 =>
      split at hs
      case isTrue => cases hs
      case isFalse hlock => exact h.take hu h0 (Option.not_isSome_iff_eq_none.1 hlock) hs
    case isFalse =>
      split at hs <;> obtain rfl := Option.some.inj hs <;>
        exact h.move (by rw [hu]; rfl) (by rw [hu]; rfl) hph
  | bufferWait k =>
    rw [hu] at hph
    simp only [State.advance, hu] at hs
    obtain rfl := Option.some.inj hs
    exact h.move (by rw [hu]; rfl) (by rw [hu]; rfl) hph
  | reading k b =>
    rw [hu] at hph
    simp only [State.advance, hu] at hs
    split at hs
    case isTrue => cases hs
    case isFalse =>
      split at hs
      case isTrue hut =>
        obtain rfl := Option.some.inj hs
        exact h.move (by rw [hu]; rfl) (by rw [hu]; rfl) ⟨hph.2, hut⟩
      case isFalse =>
        obtain ⟨s₁, hs₁, rfl⟩ := Option.map_eq_some_iff.1 hs
        exact h.brelse (by rw [hu]; rfl) (by rw [hu]; rfl) rfl rfl trivial hs₁

/-- A user gives its buffer back. -/
lemma Inv.release (h : Inv inRange s) (hs : s.release u = some s') : Inv inRange s' := by
  cases hu : s.users u with
  | held k b =>
    rw [State.release, hu] at hs
    obtain ⟨s₁, hs₁, rfl⟩ := Option.map_eq_some_iff.1 hs
    exact h.brelse (by rw [hu]; rfl) (by rw [hu]; rfl) rfl rfl trivial hs₁
  | _ =>
    rw [State.release, hu] at hs
    cases hs

/-- The invariant is kept by every step. -/
lemma Inv.step {e : Event n π δ} (h : Inv inRange s) (ht : Timely s e)
    (hs : s.step inRange e = some s') : Inv inRange s' := by
  cases e with
  | bread u k =>
    rw [State.step] at hs
    split at hs
    case isTrue hu =>
      obtain rfl := Option.some.inj hs
      exact h.move (by rw [hu]; rfl) (by rw [hu]; rfl) ht
    case isFalse => cases hs
  | advance u => exact h.advance ht hs
  | modify u v => exact h.modify ht hs
  | release u => exact h.release hs
  | transfer b => exact h.transfer ht hs
  | complete b => exact h.complete hs
  | flush b => exact h.flush hs

/-- In every run whose steps are all timely the cache is coherent throughout. -/
theorem bread_coherent {tr : List (Event n π δ × State n π δ)} (hi : s.Initial)
    (ex : (cacheSystem inRange).Exec s tr) (ht : Along (fun s e _ => Timely s e) s tr) :
    Always Coherent s tr := by
  have hinv := ex.along_of_inv (I := Inv inRange) (C := fun s e _ => Timely s e)
    (Q := fun _ _ _ => True) (fun s e s' h hs ht => ⟨h.step ht hs, trivial⟩) (.init hi) ht
  exact hinv.1.mono fun _ h => h.coherent

end

/-- Block `i` of the first disk. -/
def diskBlock (i : BitVec 32) : Key := ⟨0x300, i⟩

/-- Three buffers as `buffer_init` leaves them. -/
def sampleCache : State 3 (Fin 3) Bool where
  bufs _ := ⟨false, 0, 0, false, false, 0, none⟩
  hashTable _ := []
  prevFree b := b + 2
  nextFree b := b + 1
  freeList := 0
  disk _ := false
  users _ := .idle
  latest _ := false

/-- The sample cache is initial. -/
lemma sampleCache_initial : sampleCache.Initial := by
  refine ⟨fun _ => rfl, fun _ => rfl, fun _ => rfl, fun _ => rfl, fun _ => rfl, ?_, ?_, rfl,
    fun _ => rfl, fun _ => rfl, rfl⟩ <;> decide

/-- A block is read into the first buffer and modified there. -/
theorem bread_coherent_modified :
    ∃ tr : List (Event 3 (Fin 3) Bool × State 3 (Fin 3) Bool), tr.length = 7 ∧
      (cacheSystem fun _ => true).Exec sampleCache tr ∧ Always Coherent sampleCache tr := by
  have st : ∀ {s s' : State 3 (Fin 3) Bool} (e), s.step (fun _ => true) e = some s' →
      (cacheSystem fun _ => true).step s e s' := fun _ => id
  have ex : (cacheSystem fun _ => true).Exec sampleCache [_, _, _, _, _, _, _] :=
    .cons (st (.bread 0 (diskBlock 0)) rfl) <|
    .cons (st (.advance 0) rfl) <|
    .cons (st (.advance 0) rfl) <|
    .cons (st (.transfer 0) rfl) <|
    .cons (st (.complete 0) rfl) <|
    .cons (st (.advance 0) rfl) <|
    .cons (st (.modify 0 true) rfl) .nil
  refine ⟨_, rfl, ex, bread_coherent sampleCache_initial ex
    ⟨⟨by decide, by decide⟩, ?_, ?_, ?_, trivial, ?_, ?_, trivial⟩⟩
  · intro k b hu hf
    cases hu
    cases hf
  · intro k b hu hf
    cases hu
  · rintro - ⟨b, -, hd, -⟩
    revert hd
    revert b
    decide
  · intro k b hu hf
    cases hu
  · intro k b hu
    cases hu
    decide

/-- What call `u` does to read a block into buffer `b`. -/
def readInto (u b : Fin 3) (i : BitVec 32) : List (Event 3 (Fin 3) Bool) :=
  [.bread u (diskBlock i), .advance u, .advance u, .transfer b, .complete b, .advance u]

/-- Blocks 0, 1 and 2 are read, and 0 and 1 modified; 0 stays in use. Call 2 wants block 3: it takes the
    buffer of block 1 and sleeps in `sync_dev`, which writes block 0 first. Call 1 wants block 1 again:
    it is not found, so it is read from the disk, into the buffer of block 2. Each block is the first one in its
    hash queue here, where the store through the null `b_next` has no effect. -/
def evictionRace : List (Event 3 (Fin 3) Bool) :=
  List.flatten [
    readInto 0 0 0, [.modify 0 true],
    readInto 1 1 1, [.modify 1 true, .release 1],
    readInto 2 2 2, [.release 2],
    [.bread 2 (diskBlock 3), .advance 2, .advance 2, .advance 2, .advance 2, .advance 2],
    [.bread 1 (diskBlock 1), .advance 1, .advance 1, .advance 1, .transfer 2, .complete 2, .advance 1]]

/-- A block is read back from the disk while its dirty buffer waits in `sync_dev`: the modification is
    not seen. -/
theorem evicted_block_read_back : sampleCache.Initial ∧
    ∃ tr : List (Event 3 (Fin 3) Bool × State 3 (Fin 3) Bool),
      (cacheSystem fun _ => true).Exec sampleCache tr ∧ ¬Always Coherent sampleCache tr := by
  have hrun : (trace (State.step fun _ => true) sampleCache evictionRace).map
      (fun tr => ((last sampleCache tr).users 1, ((last sampleCache tr).bufs 2).bData,
        (last sampleCache tr).latest (diskBlock 1))) = some (.held (diskBlock 1) 2, false, true) := by
    decide +kernel
  obtain ⟨tr, htr, hlast⟩ := Option.map_eq_some_iff.1 hrun
  simp only [Prod.mk.injEq] at hlast
  obtain ⟨hu, hdata, hlatest⟩ := hlast
  refine ⟨sampleCache_initial, tr, System.exec_of_trace (fun _ _ _ => id) htr, fun hc => ?_⟩
  have hcoh := hc.at_last.latest hu
  rw [hdata, hlatest] at hcoh
  cases hcoh

end OldLinux.Buffer
