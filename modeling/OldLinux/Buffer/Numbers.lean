import OldLinux.Buffer.Cache

/-!
# Block numbers

The width of a block number on its way: an `int` in `getblk` (`fs/buffer.c`), 16 bits in the buffer head,
and the `unsigned int` that `rw_hd` (`kernel/hd.c`) makes of these. Whatever the state of the cache and the
other users, the buffer that `getblk` returns has the low 16 bits of the number, so that it stands for the
block that was asked for exactly if these are all of it: `getblk_stands_iff`.
-/

namespace OldLinux.Hd
open Lib

/-- The tables of `kernel/hd.c`: `NR_HD`, the geometry of the disk that `hd_init` puts into `hd_info[0]`,
    and `hd[]` by minor number. There is at most one disk. -/
structure HdTable where
  nrHd : Nat
  nrHd_le : nrHd ≤ 1
  head : BitVec 8
  sect : BitVec 8
  head_ne : head ≠ 0
  sect_ne : sect ≠ 0
  startSect : BitVec 32 → BitVec 64
  nrSects : BitVec 32 → BitVec 64

/-- `MINOR(a)`. -/
def minor (a : BitVec 32) : BitVec 32 := a &&& 0xff

/-- The first sector of a block of a minor device, as an `unsigned int`. -/
def HdTable.sectorOf (t : HdTable) (dev block : BitVec 32) : BitVec 32 :=
  block <<< 1 + (t.startSect dev).setWidth 32

/-- `rw_hd(rw, bh)`: the call of `rw_abs_hd`, if there is one. -/
def rwHd {β : Type*} (t : HdTable) (rw : Rw) (bDev bBlocknr : BitVec 16) (bh : β) : Option (RwCall β) :=
  let block := bBlocknr.zeroExtend 32 <<< 1
  let dev := minor (bDev.zeroExtend 32)
  if dev.toNat ≥ 5 * t.nrHd ∨ (t.nrSects dev).slt ((block + 2).zeroExtend 64) then none
  else
    let block := block + (t.startSect dev).setWidth 32
    let dev := dev / 5
    let sec := block % t.sect.zeroExtend 32
    let block := block / t.sect.zeroExtend 32
    let head := block % t.head.zeroExtend 32
    let cyl := block / t.head.zeroExtend 32
    some ⟨rw, dev, sec + 1, head, cyl, bh⟩

/-- The sector that `hd_out` asks the disk for. -/
def HdTable.sector {β : Type*} (t : HdTable) (c : RwCall β) : BitVec 64 :=
  hdSector t.head t.sect c.sec c.head c.cyl

variable {β : Type*} {t : HdTable} {rw : Rw} {bDev bBlocknr : BitVec 16} {bh : β} {c : RwCall β}

/-- A sector number taken apart by the geometry is put together again. -/
lemma sector_parts (b s h : BitVec 32) : s * (b / s / h * h + b / s % h) + (b % s + 1) - 1 = b := by
  have split : ∀ x y : BitVec 32, x / y * y + x % y = x := by
    intro x y
    apply BitVec.eq_of_toNat_eq
    rw [BitVec.toNat_add, BitVec.toNat_mul, BitVec.toNat_udiv, BitVec.toNat_umod, Nat.mod_add_mod,
      Nat.div_add_mod']
    exact Nat.mod_eq_of_lt x.isLt
  rw [split, ← add_assoc, add_sub_cancel_right, mul_comm, split]

/-- The sectors transferred for a buffer are those of the block in its head. -/
lemma rwHd_sector (h : rwHd t rw bDev bBlocknr bh = some c) :
    t.sector c = (t.sectorOf (minor (bDev.zeroExtend 32)) (bBlocknr.zeroExtend 32)).zeroExtend 64 := by
  dsimp only [rwHd] at h
  split at h
  · cases h
  · cases h
    exact congrArg (BitVec.zeroExtend 64) (sector_parts _ _ _)

end OldLinux.Hd

namespace OldLinux.Buffer
open Lib Function
open Hd (Rw HdTable rwHd)

/-- The requests in question: a device that fits into 16 bits, and a block that is not negative. -/
structure Key.Asked (k : Key) : Prop where
  dev_pos : 0 < k.dev.toNat
  dev_lt : k.dev.toNat < 65536
  block_lt : k.block.toNat < 2 ^ 31

/-- A request as the head of a buffer has it. -/
def Key.stored (k : Key) : Key :=
  ⟨(k.dev.setWidth 16).zeroExtend 32, (k.block.setWidth 16).zeroExtend 32⟩

/-- The user is in `getblk`. -/
def Phase.inGetblk {n : Nat} : Phase n → Bool
  | .idle | .reading _ _ | .held _ _ => false
  | _ => true

/-- The request that `getblk` has served, with the buffer. -/
def Phase.got {n : Nat} : Phase n → Option (Key × Fin n)
  | .reading k bh | .held k bh => some (k, bh)
  | _ => none

namespace State
variable {n : Nat} {π δ : Type*} [DecidableEq π] {inRange : Key → Bool} {s s' : State n π δ} {u : π}
  {k k' : Key} {b b' : Fin n}

/-- In this step of user `u`, `getblk` returns buffer `b` for the request `k`. -/
structure GetblkReturns (inRange : Key → Bool) (s : State n π δ) (u : π) (k : Key) (b : Fin n)
    (s' : State n π δ) : Prop where
  before : (s.users u).inGetblk = true
  step : s.advance inRange u = some s'
  after : (s'.users u).got = some (k, b)

/-- The buffer stands for the block: by its head, and by the sectors that are transferred for it. -/
structure StandsFor (t : HdTable) (s : State n π δ) (b : Fin n) (k : Key) : Prop where
  key : (s.bufs b).key = k
  sectors : ∀ rw c, rwHd t rw (s.bufs b).bDev (s.bufs b).bBlocknr b = some c →
    t.sector c = (t.sectorOf (Hd.minor k.dev) k.block).zeroExtend 64

/-! ## What `getblk` returns -/

/-- What a user has got is in its phase. -/
lemma got_of_setUser {p : Phase n} (h : ((s.setUser u p).users u).got = some (k, b)) : p.got = some (k, b) := by
  rwa [setUser_users, update_self] at h

/-- `bread` goes on with the buffer that `getblk` has returned, and leaves its head alone. -/
lemma breadTail_got (h : s.breadTail inRange u k b = some s') (ha : (s'.users u).got = some (k', b')) :
    k' = k ∧ b' = b ∧ (s'.bufs b).key = (s.bufs b).key := by
  rw [breadTail] at h
  split at h
  · cases h
    cases got_of_setUser ha
    exact ⟨rfl, rfl, rfl⟩
  · obtain ⟨s₁, h₁, rfl⟩ := Option.map_eq_some_iff.1 h
    cases got_of_setUser ha
    refine ⟨rfl, rfl, ?_⟩
    dsimp only [llRwBlock] at h₁
    split at h₁
    · cases h₁
    · split at h₁
      · cases h₁
        rw [setUser_bufs, setBuf_bufs, update_self]
        rfl
      · cases h₁
        rfl

/-- The end of `getblk` stores the request in the head. -/
lemma install_got (h : s.install inRange u k b = some s') (ha : (s'.users u).got = some (k', b')) :
    k' = k ∧ b' = b ∧ (s'.bufs b).key = k.stored := by
  dsimp only [install] at h
  split at h
  · cases h
    cases got_of_setUser ha
  · obtain ⟨hk, hb, hkey⟩ := breadTail_got h ha
    refine ⟨hk, hb, hkey.trans ?_⟩
    rw [insertIntoQueues_bufs, setBuf_bufs, update_self]
    rfl

/-- The buffer that `getblk` returns was in the cache for the request, or it has been given to it. -/
lemma GetblkReturns.key (h : GetblkReturns inRange s u k b s') :
    (s'.bufs b).key = k ∨ (s'.bufs b).key = k.stored := by
  obtain ⟨hbefore, hstep, hafter⟩ := h
  rw [advance] at hstep
  cases hu : s.users u with
  | idle =>
    rw [hu] at hbefore
    cases hbefore
  | reading k₀ b₀ =>
    rw [hu] at hbefore
    cases hbefore
  | held k₀ b₀ =>
    rw [hu] at hbefore
    cases hbefore
  | getblk k₀ =>
    simp only [hu] at hstep
    split at hstep
    · cases hstep
      cases got_of_setUser hafter
    · cases hstep
      cases got_of_setUser hafter
  | waitOnBuffer k₀ b₀ =>
    simp only [hu] at hstep
    split at hstep
    · cases hstep
    · split at hstep
      · obtain ⟨s₁, -, rfl⟩ := Option.map_eq_some_iff.1 hstep
        cases got_of_setUser hafter
      · -- the head has been compared once more
        next hkey =>
        obtain ⟨rfl, rfl, e⟩ := breadTail_got hstep hafter
        exact .inl (e.trans (not_not.1 hkey))
  | search k₀ tmp =>
    simp only [hu] at hstep
    split at hstep
    · split at hstep
      · cases hstep
      · dsimp only [take] at hstep
        split at hstep
        · cases hstep
          cases got_of_setUser hafter
        · obtain ⟨rfl, rfl, e⟩ := install_got hstep hafter
          exact .inr e
    · split at hstep
      · cases hstep
        cases got_of_setUser hafter
      · cases hstep
        cases got_of_setUser hafter
  | bufferWait k₀ =>
    simp only [hu] at hstep
    cases hstep
    cases got_of_setUser hafter
  | syncDev k₀ tmp dev i =>
    simp only [hu] at hstep
    split at hstep
    · split at hstep
      · cases hstep
        cases got_of_setUser hafter
      · cases hstep
        cases got_of_setUser hafter
    · obtain ⟨rfl, rfl, e⟩ := install_got hstep hafter
      exact .inr e
  | syncWait k₀ tmp dev i =>
    simp only [hu] at hstep
    split at hstep
    · cases hstep
    · split at hstep
      · obtain ⟨s₁, -, rfl⟩ := Option.map_eq_some_iff.1 hstep
        cases got_of_setUser hafter
      · cases hstep
        cases got_of_setUser hafter
  | syncWrite k₀ tmp dev i =>
    simp only [hu] at hstep
    split at hstep
    · cases hstep
    · cases hstep
      cases got_of_setUser hafter

/-! ## Which blocks are served -/

/-- A key is stored as it is exactly if the block has 16 bits. -/
lemma stored_eq_iff (h : k.Asked) : k.stored = k ↔ k.block.toNat < 65536 := by
  have hdev : (k.dev.setWidth 16).zeroExtend 32 = k.dev := by
    apply BitVec.eq_of_toNat_eq
    have hlt := h.dev_lt
    simp only [BitVec.zeroExtend, BitVec.toNat_setWidth]
    omega
  rw [Key.stored, hdev]
  constructor
  · intro e
    have hb := congrArg (fun k => k.block.toNat) e
    simp only [BitVec.zeroExtend, BitVec.toNat_setWidth] at hb
    omega
  · intro hlt
    have hb : (k.block.setWidth 16).zeroExtend 32 = k.block := by
      apply BitVec.eq_of_toNat_eq
      simp only [BitVec.zeroExtend, BitVec.toNat_setWidth]
      omega
    rw [hb]

omit [DecidableEq π] in
/-- The head of a buffer has no other keys than those that fit. -/
lemma key_block_lt : (s.bufs b).key.block.toNat < 65536 := by
  show (((s.bufs b).bBlocknr.zeroExtend 32).toNat < 65536)
  have hlt := (s.bufs b).bBlocknr.isLt
  simp only [BitVec.zeroExtend, BitVec.toNat_setWidth]
  omega

/-- The buffer stands for the block asked for exactly if the number of the block fits into the head. -/
lemma GetblkReturns.standsFor_iff (t : HdTable) (h : GetblkReturns inRange s u k b s') (hk : k.Asked) :
    StandsFor t s' b k ↔ k.block.toNat < 65536 := by
  constructor
  · intro hs
    have hlt := key_block_lt (s := s') (b := b)
    rwa [hs.key] at hlt
  · intro hlt
    have hkey : (s'.bufs b).key = k := h.key.elim id fun e => e.trans ((stored_eq_iff hk).2 hlt)
    refine ⟨hkey, fun rw c hc => ?_⟩
    rw [Hd.rwHd_sector hc, ← hkey]
    rfl

end State

/-- For any two requests for different blocks, in any states of the cache: the buffers that
    `getblk` returns stand for these blocks, by their heads and by the sectors transferred, and are told
    apart, if and only if both numbers fit into 16 bits. -/
theorem getblk_stands_iff {n : Nat} {π δ : Type*} [DecidableEq π] {inRange : Key → Bool} (t : HdTable)
    {s₁ s₁' s₂ s₂' : State n π δ} {u₁ u₂ : π} {k₁ k₂ : Key} {b₁ b₂ : Fin n}
    (h₁ : State.GetblkReturns inRange s₁ u₁ k₁ b₁ s₁') (h₂ : State.GetblkReturns inRange s₂ u₂ k₂ b₂ s₂')
    (hk₁ : k₁.Asked) (hk₂ : k₂.Asked) (hne : k₁ ≠ k₂) :
    (s₁'.StandsFor t b₁ k₁ ∧ s₂'.StandsFor t b₂ k₂ ∧ (s₁'.bufs b₁).key ≠ (s₂'.bufs b₂).key) ↔
      k₁.block.toNat < 65536 ∧ k₂.block.toNat < 65536 := by
  constructor
  · rintro ⟨hs₁, hs₂, -⟩
    exact ⟨(h₁.standsFor_iff t hk₁).1 hs₁, (h₂.standsFor_iff t hk₂).1 hs₂⟩
  · rintro ⟨hlt₁, hlt₂⟩
    have hs₁ := (h₁.standsFor_iff t hk₁).2 hlt₁
    have hs₂ := (h₂.standsFor_iff t hk₂).2 hlt₂
    refine ⟨hs₁, hs₂, ?_⟩
    rw [hs₁.key, hs₂.key]
    exact hne

/-- A cache of one buffer after `buffer_init`. -/
def oneBuffer : State 1 Unit Unit where
  bufs _ := ⟨(), 0, 0, false, false, 0, none⟩
  hashTable _ := []
  prevFree := id
  nextFree := id
  freeList := 0
  disk _ := ()
  users _ := .idle
  latest _ := ()

/-- The user has looked for a block of device 0x301 in the queues and is at the free buffer. -/
def searching (block : BitVec 32) : State 1 Unit Unit :=
  oneBuffer.setUser () (.search ⟨0x301, block⟩ 0)

/-- A disk of 2^20 sectors without partitions. -/
def oneDisk : HdTable where
  nrHd := 1
  nrHd_le := le_rfl
  head := 16
  sect := 63
  head_ne := by decide
  sect_ne := by decide
  startSect _ := 0
  nrSects _ := 0x100000

/-- Two blocks below 65536. -/
theorem getblk_stands_small : ∃ s₁ s₂ : State 1 Unit Unit, s₁.StandsFor oneDisk 0 ⟨0x301, 5⟩ ∧
    s₂.StandsFor oneDisk 0 ⟨0x301, 6⟩ ∧ (s₁.bufs 0).key ≠ (s₂.bufs 0).key := by
  have h₁ : State.GetblkReturns (fun _ => true) (searching 5) () ⟨0x301, 5⟩ 0 _ := ⟨rfl, rfl, rfl⟩
  have h₂ : State.GetblkReturns (fun _ => true) (searching 6) () ⟨0x301, 6⟩ 0 _ := ⟨rfl, rfl, rfl⟩
  refine ⟨_, _, (getblk_stands_iff oneDisk h₁ h₂ ?_ ?_ (by decide)).2 (by decide)⟩
  · exact ⟨by decide, by decide, by decide⟩
  · exact ⟨by decide, by decide, by decide⟩

/-- From `buffer_init` on, the request for block 65536 gets the buffer of block 0, where the store through the null
    `b_next` of the first buffer in a queue has no effect. -/
theorem getblk_stands_big : oneBuffer.Initial ∧ ∃ s s' s₀,
    oneBuffer.step (fun _ => true) (.bread () ⟨0x301, 0x10000⟩) = some s ∧
    s.advance (fun _ => true) () = some (searching 0x10000) ∧
    State.GetblkReturns (fun _ => true) (searching 0x10000) () ⟨0x301, 0x10000⟩ 0 s' ∧
    State.GetblkReturns (fun _ => true) (searching 0) () ⟨0x301, 0⟩ 0 s₀ ∧
    (s'.bufs 0).key = (s₀.bufs 0).key ∧ ¬ s'.StandsFor oneDisk 0 ⟨0x301, 0x10000⟩ := by
  refine ⟨⟨fun _ => rfl, fun _ => rfl, fun _ => rfl, fun _ => rfl, fun _ => rfl, by decide, by decide,
    rfl, fun _ => rfl, fun _ => rfl, rfl⟩, _, _, _, rfl, ?_, ⟨rfl, rfl, rfl⟩, ⟨rfl, rfl, rfl⟩, rfl, ?_⟩
  · exact congrArg some (State.setUser_setUser ..)
  · exact fun h => absurd h.key (by decide)

end OldLinux.Buffer
