import OldLinux.Buffer.Cache
import OldLinux.Lib.Tally

/-!
# The users of the buffer cache

What a call of `bread` may rely on between two of its steps (`PhaseOk`), and what holds between the
calls and the counts (`UsersOk`): `b_count` is the number of calls that refer to the buffer, and a
victim that `getblk` has taken off the queues is referred to by that call only. There is one lemma
for each way in which a step changes users and counts: `move`, `change`, `acquire`, `drop` and
`reuse`.
-/

namespace OldLinux.Buffer
open Lib Function

variable {n : Nat} {π δ : Type*}

/-- The buffer a call has counted. -/
def Phase.buffer : Phase n → Option (Fin n)
  | waitOnBuffer _ bh | reading _ bh | held _ bh => some bh
  | syncDev _ tmp _ _ | syncWait _ tmp _ _ | syncWrite _ tmp _ _ => some tmp
  | _ => none

/-- The buffer a call has taken off the queues. -/
def Phase.victim : Phase n → Option (Fin n)
  | syncDev _ tmp _ _ | syncWait _ tmp _ _ | syncWrite _ tmp _ _ => some tmp
  | _ => none

/-- The victim of a user is its buffer. -/
lemma Phase.buffer_of_victim {p : Phase n} {b : Fin n} (h : p.victim = some b) : p.buffer = some b := by
  cases p with
  | syncDev | syncWait | syncWrite => exact h
  | _ => cases h

/-- The buffers off the queues. -/
def evicted (users : π → Phase n) : Set (Fin n) := {b | ∃ u, (users u).victim = some b}

/-- The numbers fit in `b_dev` and `b_blocknr`. -/
def Key.Fits (k : Key) : Prop := k.dev.toNat < 2 ^ 16 ∧ k.block.toNat < 2 ^ 16

/-- Such numbers come back from the fields as they were. -/
lemma Key.Fits.stored {k : Key} (h : k.Fits) :
    (⟨(k.dev.setWidth 16).zeroExtend 32, (k.block.setWidth 16).zeroExtend 32⟩ : Key) = k := by
  have hw : ∀ a : BitVec 32, a.toNat < 2 ^ 16 → (a.setWidth 16).zeroExtend 32 = a := by
    intro a ha
    apply BitVec.eq_of_toNat_eq
    simp only [BitVec.toNat_setWidth]
    omega
  rw [hw _ h.1, hw _ h.2]

/-- What a call relies on. In `sync_dev` the victim is clean once the loop is past it, and once its own
    write is over. -/
def PhaseOk (bufs : Fin n → BufferHead δ) : Phase n → Prop
  | .idle => True
  | .getblk k | .search k _ | .bufferWait k => k.Fits
  | .waitOnBuffer k bh | .reading k bh => k.Fits ∧ (bufs bh).key = k
  | .held k bh => (bufs bh).key = k ∧ (bufs bh).bUptodate = true
  | .syncDev k tmp dev i => k.Fits ∧ (bufs tmp).key.dev = dev ∧ (tmp.val < i → (bufs tmp).bDirt = false)
  | .syncWait k tmp dev i => k.Fits ∧ (bufs tmp).key.dev = dev ∧ (tmp < i → (bufs tmp).bDirt = false)
  | .syncWrite k tmp dev i => k.Fits ∧ (bufs tmp).key.dev = dev ∧
      (tmp < i → (bufs tmp).bDirt = false) ∧
      (tmp = i → (bufs tmp).bLock = none → (bufs tmp).bDirt = false)

/-- A change of a buffer that nobody who has counted it minds; `off` says that it is off the queues. -/
structure Keeps (off : Prop) (x x' : BufferHead δ) : Prop where
  key : x'.key = x.key
  uptodate : x.bUptodate = true → x'.bUptodate = true
  clean : off → x.bDirt = false → x'.bDirt = false
  written : off → (x.bLock = none → x.bDirt = false) → x'.bLock = none → x'.bDirt = false

/-- A buffer that nobody touched is kept. -/
lemma Keeps.refl (off : Prop) (x : BufferHead δ) : Keeps off x x :=
  ⟨rfl, id, fun _ => id, fun _ => id⟩

/-- A phase only depends on what its user's buffer keeps. -/
lemma PhaseOk.congr {bufs bufs' : Fin n → BufferHead δ} {p : Phase n} (h : PhaseOk bufs p)
    (hk : ∀ b, p.buffer = some b → Keeps (p.victim = some b) (bufs b) (bufs' b)) : PhaseOk bufs' p := by
  cases p with
  | idle | getblk | search | bufferWait => exact h
  | waitOnBuffer k bh | reading k bh => exact ⟨h.1, (hk bh rfl).key.trans h.2⟩
  | held k bh => exact ⟨(hk bh rfl).key.trans h.1, (hk bh rfl).uptodate h.2⟩
  | syncDev k tmp dev i | syncWait k tmp dev i =>
    have hb := hk tmp rfl
    exact ⟨h.1, hb.key ▸ h.2.1, fun hi => hb.clean rfl (h.2.2 hi)⟩
  | syncWrite k tmp dev i =>
    have hb := hk tmp rfl
    exact ⟨h.1, hb.key ▸ h.2.1, fun hi => hb.clean rfl (h.2.2.1 hi),
      fun hi => hb.written rfl (h.2.2.2 hi)⟩

/-- A call does not rely on the count. -/
lemma PhaseOk.recount {bufs : Fin n → BufferHead δ} {p : Phase n} {b : Fin n} (h : PhaseOk bufs p)
    (c : BitVec 8) : PhaseOk (update bufs b { bufs b with bCount := c }) p := by
  refine h.congr fun b' _ => ?_
  rcases eq_or_ne b' b with rfl | hne
  · rw [update_self]
    exact ⟨rfl, id, fun _ => id, fun _ => id⟩
  · rw [update_of_ne hne]
    exact .refl ..

/-- The users and the counts fit together. -/
structure UsersOk [Fintype π] (bufs : Fin n → BufferHead δ) (users : π → Phase n) : Prop where
  counts : ∀ b, (bufs b).bCount.toNat = tally (fun u => (users u).buffer) b
  sole : ∀ u u' b, (users u).victim = some b → (users u').buffer = some b → u' = u
  phases : ∀ u, PhaseOk bufs (users u)

variable {bufs : Fin n → BufferHead δ} {users : π → Phase n} {u : π} {p : Phase n} {b : Fin n}

/-- A call with a buffer has counted it. -/
lemma UsersOk.count_ne_zero [Fintype π] (h : UsersOk bufs users) (hu : (users u).buffer = some b) :
    (bufs b).bCount ≠ 0 := by
  intro e
  have hpos : 0 < tally (fun u => (users u).buffer) b := tally_pos hu
  rw [← h.counts b, e] at hpos
  exact absurd hpos (by decide)

/-- A buffer without users is nobody's. -/
lemma UsersOk.not_counted [Fintype π] (h : UsersOk bufs users) (hb : (bufs b).bCount = 0) (u : π) :
    (users u).buffer ≠ some b :=
  fun hu => h.count_ne_zero hu hb

/-- A call that has counted a buffer but not taken it off the queues can rely on its being on them. -/
lemma UsersOk.attached [Fintype π] (h : UsersOk bufs users) (hu : (users u).buffer = some b)
    (hv : (users u).victim = none) : b ∉ evicted users := by
  rintro ⟨u', hu'⟩
  have e := h.sole u' u b hu' hu
  subst e
  rw [hv] at hu'
  cases hu'

section
variable [DecidableEq π]

/-- The buffers of the users when one of them goes on. -/
lemma buffer_update (users : π → Phase n) (u : π) (p : Phase n) :
    (fun v => (update users u p v).buffer) = update (fun v => (users v).buffer) u p.buffer :=
  comp_update Phase.buffer users u p

/-- The buffers on their way out stay when it keeps its victim. -/
lemma evicted_move (hv : p.victim = (users u).victim) : evicted (update users u p) = evicted users := by
  ext b
  refine exists_congr fun u' => ?_
  rcases eq_or_ne u' u with rfl | hne
  · rw [update_self, hv]
  · rw [update_of_ne hne]

/-- There is one more when it has chosen a victim. -/
lemma evicted_take (hu : (users u).victim = none) (hp : p.victim = some b) :
    evicted (update users u p) = insert b (evicted users) := by
  ext b'
  constructor
  · rintro ⟨u', hu'⟩
    rcases eq_or_ne u' u with rfl | hne
    · rw [update_self, hp] at hu'
      exact .inl (Option.some.inj hu').symm
    · rw [update_of_ne hne] at hu'
      exact .inr ⟨u', hu'⟩
  · rintro (rfl | ⟨u', hu'⟩)
    · exact ⟨u, by rwa [update_self]⟩
    · have hne : u' ≠ u := by
        rintro rfl
        rw [hu] at hu'
        cases hu'
      exact ⟨u', by rwa [update_of_ne hne]⟩

variable [Fintype π]

/-- There is one less when the victim has got its new key. -/
lemma UsersOk.evicted_reuse (h : UsersOk bufs users) (hu : (users u).victim = some b)
    (hp : p.victim = none) : evicted (update users u p) = evicted users \ {b} := by
  ext b'
  constructor
  · rintro ⟨u', hu'⟩
    rcases eq_or_ne u' u with rfl | hne
    · rw [update_self, hp] at hu'
      cases hu'
    · rw [update_of_ne hne] at hu'
      refine ⟨⟨u', hu'⟩, ?_⟩
      rintro rfl
      exact hne (h.sole u u' b' hu (Phase.buffer_of_victim hu'))
  · rintro ⟨⟨u', hu'⟩, hb'⟩
    have hne : u' ≠ u := by
      rintro rfl
      rw [hu] at hu'
      exact hb' (Option.some.inj hu').symm
    exact ⟨u', by rwa [update_of_ne hne]⟩

/-- A call goes on with the same buffer. -/
lemma UsersOk.move (h : UsersOk bufs users) (hb : p.buffer = (users u).buffer)
    (hv : p.victim = (users u).victim) (hp : PhaseOk bufs p) : UsersOk bufs (update users u p) where
  counts b := by
    rw [h.counts b, buffer_update, hb]
    exact congrArg (tally · b) (update_eq_self u (fun v => (users v).buffer)).symm
  sole u₁ u₂ b h₁ h₂ := by
    refine h.sole u₁ u₂ b ?_ ?_
    · rcases eq_or_ne u₁ u with rfl | hne
      · rwa [update_self, hv] at h₁
      · rwa [update_of_ne hne] at h₁
    · rcases eq_or_ne u₂ u with rfl | hne
      · rwa [update_self, hb] at h₂
      · rwa [update_of_ne hne] at h₂
  phases u' := by
    rcases eq_or_ne u' u with rfl | hne
    · rwa [update_self]
    · rw [update_of_ne hne]
      exact h.phases u'

omit [DecidableEq π] in
/-- A buffer changes, but not its count. -/
lemma UsersOk.change (h : UsersOk bufs users) {x : BufferHead δ} (hc : x.bCount = (bufs b).bCount)
    (hk : Keeps (b ∈ evicted users) (bufs b) x) : UsersOk (update bufs b x) users where
  counts b' := by
    rw [← h.counts b']
    rcases eq_or_ne b' b with rfl | hne
    · rw [update_self, hc]
    · rw [update_of_ne hne]
  sole := h.sole
  phases u := by
    refine (h.phases u).congr fun b' hb' => ?_
    rcases eq_or_ne b' b with rfl | hne
    · rw [update_self]
      exact ⟨hk.key, hk.uptodate, fun hv => hk.clean ⟨u, hv⟩, fun hv => hk.written ⟨u, hv⟩⟩
    · rw [update_of_ne hne]
      exact .refl ..

/-- A call counts a buffer on the queues. If it takes it off at once, nobody else had counted it. -/
lemma UsersOk.acquire (h : UsersOk bufs users) (hu : (users u).buffer = none) (hp : p.buffer = some b)
    (hb : b ∉ evicted users) (h255 : (bufs b).bCount ≠ 255)
    (hv : p.victim = none ∨ (bufs b).bCount = 0) (hph : PhaseOk bufs p) :
    UsersOk (update bufs b { bufs b with bCount := (bufs b).bCount + 1 }) (update users u p) where
  counts b' := by
    have htally := tally_set_some (g := fun v => (users v).buffer) hu b
    rw [buffer_update, hp, htally]
    rcases eq_or_ne b' b with rfl | hne
    · rw [update_self, update_self, ← h.counts b']
      simp only
      bv_omega
    · rw [update_of_ne hne, update_of_ne hne]
      exact h.counts b'
  sole u₁ u₂ b' h₁ h₂ := by
    rcases eq_or_ne u₁ u with rfl | hne₁
    · rw [update_self] at h₁
      have e : b' = b := Option.some.inj ((Phase.buffer_of_victim h₁).symm.trans hp)
      subst e
      rcases eq_or_ne u₂ u₁ with rfl | hne₂
      · rfl
      · rw [update_of_ne hne₂] at h₂
        cases hv with
        | inl hv =>
          rw [hv] at h₁
          cases h₁
        | inr hv => exact absurd h₂ (h.not_counted hv u₂)
    · rw [update_of_ne hne₁] at h₁
      rcases eq_or_ne u₂ u with rfl | hne₂
      · rw [update_self, hp] at h₂
        exact absurd ⟨u₁, Option.some.inj h₂ ▸ h₁⟩ hb
      · rw [update_of_ne hne₂] at h₂
        exact h.sole u₁ u₂ b' h₁ h₂
  phases u' := by
    rcases eq_or_ne u' u with rfl | hne
    · rw [update_self]
      exact hph.recount _
    · rw [update_of_ne hne]
      exact (h.phases u').recount _

/-- A call gives its buffer back. -/
lemma UsersOk.drop (h : UsersOk bufs users) (hu : (users u).buffer = some b) (hp : p.buffer = none)
    (hph : PhaseOk bufs p) :
    UsersOk (update bufs b { bufs b with bCount := (bufs b).bCount - 1 }) (update users u p) where
  counts b' := by
    have htally := tally_clear_some (g := fun v => (users v).buffer) hu
    have hne0 := h.count_ne_zero hu
    rw [buffer_update, hp, htally]
    rcases eq_or_ne b' b with rfl | hne
    · rw [update_self, update_self, ← h.counts b']
      simp only
      bv_omega
    · rw [update_of_ne hne, update_of_ne hne]
      exact h.counts b'
  sole u₁ u₂ b' h₁ h₂ := by
    have hne₁ : u₁ ≠ u := by
      rintro rfl
      rw [update_self] at h₁
      exact absurd (Phase.buffer_of_victim h₁) (by simp [hp])
    have hne₂ : u₂ ≠ u := by
      rintro rfl
      rw [update_self, hp] at h₂
      cases h₂
    rw [update_of_ne hne₁] at h₁
    rw [update_of_ne hne₂] at h₂
    exact h.sole u₁ u₂ b' h₁ h₂
  phases u' := by
    rcases eq_or_ne u' u with rfl | hne
    · rw [update_self]
      exact hph.recount _
    · rw [update_of_ne hne]
      exact (h.phases u').recount _

/-- A victim has been counted once. -/
lemma UsersOk.count_victim (h : UsersOk bufs users) (hu : (users u).victim = some b) :
    (bufs b).bCount = 1 := by
  have htally := congrFun (tally_clear_some (g := fun v => (users v).buffer)
    (Phase.buffer_of_victim hu)) b
  have hnone : tally (update (fun v => (users v).buffer) u none) b = 0 := by
    refine Finset.card_eq_zero.2 (Finset.filter_eq_empty_iff.2 fun u' _ hu' => ?_)
    rcases eq_or_ne u' u with rfl | hne
    · rw [update_self] at hu'
      cases hu'
    · rw [update_of_ne hne] at hu'
      exact hne (h.sole u u' b hu hu')
  have hpos := h.count_ne_zero (Phase.buffer_of_victim hu)
  rw [hnone, update_self, ← h.counts b] at htally
  bv_omega

/-- A victim is reused, or given back unused. -/
lemma UsersOk.reuse (h : UsersOk bufs users) (hu : (users u).victim = some b) (hv : p.victim = none)
    {x : BufferHead δ} (hp : p.buffer = some b ∧ x.bCount = (bufs b).bCount ∨
      p.buffer = none ∧ x.bCount = 0)
    (hph : PhaseOk (update bufs b x) p) : UsersOk (update bufs b x) (update users u p) where
  counts b' := by
    have hbuf := Phase.buffer_of_victim hu
    have h1 := h.count_victim hu
    rw [buffer_update]
    obtain ⟨hp, hx⟩ | ⟨hp, hx⟩ := hp
    · rw [hp, ← hbuf, update_eq_self u (fun v => (users v).buffer), ← h.counts b']
      rcases eq_or_ne b' b with rfl | hne
      · rw [update_self, hx]
      · rw [update_of_ne hne]
    · have htally := tally_clear_some (g := fun v => (users v).buffer) hbuf
      rw [hp, htally]
      rcases eq_or_ne b' b with rfl | hne
      · rw [update_self, update_self, ← h.counts b', h1, hx]
        rfl
      · rw [update_of_ne hne, update_of_ne hne]
        exact h.counts b'
  sole u₁ u₂ b' h₁ h₂ := by
    have hne₁ : u₁ ≠ u := by
      rintro rfl
      rw [update_self, hv] at h₁
      cases h₁
    rw [update_of_ne hne₁] at h₁
    rcases eq_or_ne u₂ u with rfl | hne₂
    · have hb : b' = b := by
        rw [update_self] at h₂
        obtain ⟨hp, -⟩ | ⟨hp, -⟩ := hp
        · exact Option.some.inj (h₂.symm.trans hp)
        · rw [hp] at h₂
          cases h₂
      subst hb
      exact absurd (h.sole u₂ u₁ b' hu (Phase.buffer_of_victim h₁)) hne₁
    · rw [update_of_ne hne₂] at h₂
      exact h.sole u₁ u₂ b' h₁ h₂
  phases u' := by
    rcases eq_or_ne u' u with rfl | hne
    · rwa [update_self]
    · rw [update_of_ne hne]
      refine (h.phases u').congr fun b' hb' => ?_
      have hne' : b' ≠ b := by
        rintro rfl
        exact hne (h.sole u u' b' hu hb')
      rw [update_of_ne hne']
      exact .refl ..

end

end OldLinux.Buffer
