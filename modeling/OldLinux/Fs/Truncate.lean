import OldLinux.Bitmap.Exact
import OldLinux.Fs.FileDev
import OldLinux.Files.Inode
import Mathlib.Data.List.Perm.Basic
import Mathlib.Algebra.Order.Group.Multiset
import Mathlib.Tactic.Abel

/-!
# What truncate frees

Model of `fs/truncate.c` on the mounted device with its bitmaps. The state records the calls of `free_block`
(`State.freed`); for each of them, `found` is the `b_count` of the buffer that `get_hash_table` returns. The
flags that `free_block` clears in this buffer cost it the data that are not on the disk yet, so that the
block is read from there again.

The slots of a file that have a zone are those that `bmap` finds and the index blocks, and `truncate`
comes to `free_block` with the zone of each once. It gets through the call only for a zone whose bit is
clear, since `free_block` tests the result of `clear_bit` the wrong way round, or for a buffer that somebody
else holds, which it leaves alone (`truncate_frees_iff`).
-/

namespace OldLinux.Fs.Truncate
open Lib Function Files FileSys Bitmap

/-- The mounted device, the inodes, the blocks as `bread` gives them and as they are on the disk, and the calls
    of `free_block` in order. -/
structure State (ι : Type) where
  super : SuperBlock
  inode : ι → MInode
  blocks : Nat × Nat → Bytes
  onDisk : Nat × Nat → Bytes
  freed : List (Nat × Nat)

/-- The files, for the functions that only read. -/
def State.fs {ι : Type} (s : State ι) : FileSys ι := ⟨⟨s.blocks, fun _ => false⟩, s.inode⟩

section
variable {ι : Type} (readable : Nat × Nat → Bool) (found : Nat → Option Nat) (now : Nat)

/-- `bread(dev, block)`: the data of the buffer. -/
def bread (dev block : Nat) : Prog (State ι) (Option Bytes) := do
  let s ← Prog.get
  pure (if readable (dev, block) then some (s.blocks (dev, block)) else none)

/-- `free_block(dev, block)`. A buffer that nobody else holds is not uptodate any more. -/
def callFreeBlock (dev block : Nat) : Prog (State ι) Unit := fun s =>
  let bh := found s.freed.length
  match Bitmap.freeBlock s.super dev block bh with
  | .ret sb =>
    .ret ((), { s with
      super := sb
      blocks := if bh.any (· ≠ 1) then s.blocks else update s.blocks (dev, block) (s.onDisk (dev, block))
      freed := s.freed ++ [(dev, block)] })
  | .panic msg => .panic msg
  | .fault => .fault

/-- `for (i=0;i<512;i++,p++) if (*p) ..` -/
def forEntries (data : Bytes) (body : Nat → Prog (State ι) Unit) : Prog (State ι) Unit :=
  forM (List.range 512) fun i => if entry data i ≠ 0 then body (entry data i).toNat else pure ()

/-- `free_ind(dev, block)`. -/
def freeInd (dev block : Nat) : Prog (State ι) Unit := do
  if block = 0 then pure ()
  else
    match ← bread readable dev block with
    | some data => forEntries data (callFreeBlock found dev)
    | none => pure ()
    callFreeBlock found dev block

/-- `free_dind(dev, block)`. -/
def freeDind (dev block : Nat) : Prog (State ι) Unit := do
  if block = 0 then pure ()
  else
    match ← bread readable dev block with
    | some data => forEntries data (freeInd readable found dev)
    | none => pure ()
    callFreeBlock found dev block

/-- `*inode`. -/
def inodeAt (k : ι) : Prog (State ι) MInode := do
  let s ← Prog.get
  pure (s.inode k)

variable [DecidableEq ι]

/-- Sets fields of the inode. -/
def setInode (k : ι) (f : MInode → MInode) : Prog (State ι) Unit :=
  Prog.modify fun s => { s with inode := update s.inode k (f (s.inode k)) }

/-- `if (inode->i_zone[i]) { free_block(inode->i_dev,inode->i_zone[i]); inode->i_zone[i]=0; }` -/
def freeZone (k : ι) (i : Nat) : Prog (State ι) Unit := do
  let inode ← inodeAt k
  if inode.iZone i ≠ 0 then
    callFreeBlock found inode.iDev (inode.iZone i).toNat
    setInode k fun inode => { inode with iZone := update inode.iZone i 0 }
  else pure ()

/-- The last assignments of `truncate`. -/
def emptied (inode : MInode) : MInode :=
  { inode with
    iZone := update (update inode.iZone 8 0) 7 0, iSize := 0, iDirt := true
    iMtime := now, iCtime := now }

/-- `truncate(inode)`. -/
def truncate (k : ι) : Prog (State ι) Unit := do
  let inode ← inodeAt k
  if isReg inode.iMode || isDir inode.iMode then
    forM (List.range 7) (freeZone found k)
    let inode ← inodeAt k
    freeInd readable found inode.iDev (inode.iZone 7).toNat
    let inode ← inodeAt k
    freeDind readable found inode.iDev (inode.iZone 8).toNat
    setInode k (emptied now)
  else pure ()

/-- `bmap(inode, block)`, for which `new_block` makes no difference. -/
def bmapValue (fs : FileSys ι) (k : ι) (block : Nat) : Nat :=
  match fs.bmap (fun d _ => (0, d)) 0 k block with
  | .ret (z, _) => z
  | _ => 0

end

/-- The entries that are not 0. -/
def nonzero (l : List Nat) : List Nat := l.filter (· ≠ 0)

/-- What the block map of a file reaches: the blocks of the file, the single-indirect and the
    double-indirect block, and the index blocks that the latter names. -/
def reached {ι : Type} [DecidableEq ι] (fs : FileSys ι) (k : ι) : List Nat :=
  nonzero ((List.range maxBlocks).map (bmapValue fs k)) ++
    nonzero [((fs.inode k).iZone 7).toNat, ((fs.inode k).iZone 8).toNat] ++
    nonzero ((List.range 512).map fun e => fs.zone k (.sub (.top 8) e))

/-- `free_block` gets through the zone: it is one of the mounted device, and somebody else holds its buffer or
    its bit, the one that `clear_bit` looks at, is clear. -/
def Accepts {ι : Type} (found : Nat → Option Nat) (s : State ι) (n : Nat) (a : Nat × Nat) : Prop :=
  s.super.sDev.toNat = a.1 ∧ s.super.sFirstdatazone.toNat ≤ a.2 ∧ a.2 < s.super.sNzones.toNat ∧
    ((found n).any (· ≠ 1) = true ∨ ∃ bh, s.super.sZmap (zoneBit s.super a.2 / 8192) = some bh ∧
      bh.bData.bit (zoneBit s.super a.2 % 8192 % 64) = false)

/-- The zones of a list one after the other, where `n` have been freed before. -/
def AcceptsAll {ι : Type} (found : Nat → Option Nat) (s : State ι) (n : Nat) (l : List (Nat × Nat)) : Prop :=
  ∀ i a, l[i]? = some a → Accepts found s (n + i) a

section
variable {ι : Type} {readable : Nat × Nat → Bool} {found : Nat → Option Nat}
  {s s₀ : State ι} {fs : FileSys ι} {k : ι} {dev n z : Nat} {data : Bytes} {l l' pre : List (Nat × Nat)}
  {f f' f'' : ι → MInode} {m : Prog (State ι) Unit}

/-! ## Freeing zones -/

/-- No zones. -/
lemma acceptsAll_nil : AcceptsAll found s n [] := nofun

/-- One zone. -/
lemma acceptsAll_singleton {a : Nat × Nat} : AcceptsAll found s n [a] ↔ Accepts found s n a := by
  constructor
  · intro h
    exact h 0 a rfl
  · intro h i b hb
    cases i with
    | zero =>
      cases hb
      exact h
    | succ i => cases hb

/-- Zones one behind the other. -/
lemma acceptsAll_append : AcceptsAll found s n (l ++ l') ↔
    AcceptsAll found s n l ∧ AcceptsAll found s (n + l.length) l' := by
  constructor
  · intro h
    refine ⟨fun i a ha => h i a ?_, fun i a ha => ?_⟩
    · rw [List.getElem?_append_left (List.getElem?_eq_some_iff.1 ha).1, ha]
    · rw [Nat.add_assoc]
      refine h (l.length + i) a ?_
      rw [List.getElem?_append_right (Nat.le_add_right ..), Nat.add_sub_cancel_left, ha]
  · rintro ⟨h, h'⟩ i a ha
    by_cases hi : i < l.length
    · rw [List.getElem?_append_left hi] at ha
      exact h i a ha
    · rw [List.getElem?_append_right (Nat.le_of_not_lt hi)] at ha
      have hi' : n + l.length + (i - l.length) = n + i := by omega
      exact hi' ▸ h' _ a ha

/-- The state `s` after the zones `pre` have been freed from `s₀` on, and with the inodes `f`. No bit has
    changed, and a block has changed only if its zone is one of them. -/
structure At (s₀ : State ι) (f : ι → MInode) (pre : List (Nat × Nat)) (s : State ι) : Prop where
  freed : s.freed = s₀.freed ++ pre
  inode : s.inode = f
  dev : s.super.sDev = s₀.super.sDev
  first : s.super.sFirstdatazone = s₀.super.sFirstdatazone
  nzones : s.super.sNzones = s₀.super.sNzones
  bits : ∀ q, (s.super.sZmap q).map (fun bh => bh.bData.bit) = (s₀.super.sZmap q).map fun bh => bh.bData.bit
  onDisk : s.onDisk = s₀.onDisk
  blocks : ∀ a, s.blocks a = s₀.blocks a ∨ a ∈ pre ∧ s.blocks a = s₀.onDisk a

/-- Nothing has been freed. -/
lemma At.start : At s s.inode [] s where
  freed := (List.append_nil _).symm
  inode := rfl
  dev := rfl
  first := rfl
  nzones := rfl
  bits _ := rfl
  onDisk := rfl
  blocks _ := .inl rfl

/-- What `free_block` accepts stays the same. -/
lemma At.accepts_iff {a : Nat × Nat} (h : At s₀ f pre s) : Accepts found s n a ↔ Accepts found s₀ n a := by
  have hbit : zoneBit s.super a.2 = zoneBit s₀.super a.2 := by rw [zoneBit, zoneBit, h.first]
  have hmap : ∀ q j, (∃ bh, s.super.sZmap q = some bh ∧ bh.bData.bit j = false) ↔
      ∃ bh, s₀.super.sZmap q = some bh ∧ bh.bData.bit j = false := by
    intro q j
    have hiff : ∀ maps : Nat → Option MapBuffer, (∃ bh, maps q = some bh ∧ bh.bData.bit j = false) ↔
        ∃ g, (maps q).map (fun bh => bh.bData.bit) = some g ∧ g j = false := by
      intro maps
      cases maps q with
      | none => simp
      | some bh => simp
    rw [hiff, hiff, h.bits]
  rw [Accepts, Accepts, h.dev, h.first, h.nzones, hbit, hmap]

/-- A block that has not been freed, or whose data are on the disk, is as it was. -/
lemma At.kept {a : Nat × Nat} (h : At s₀ f pre s) (ha : a ∉ pre ∨ s₀.blocks a = s₀.onDisk a) :
    s.blocks a = s₀.blocks a := by
  obtain he | ⟨hmem, he⟩ := h.blocks a
  · exact he
  · rw [he, ha.resolve_left (not_not.2 hmem)]

/-- Where `pre` have been freed, `m` frees the zones `l`: it returns exactly if `free_block` accepts them. -/
structure Frees (found : Nat → Option Nat) (s₀ : State ι) (m : Prog (State ι) Unit) (f f' : ι → MInode)
    (pre l : List (Nat × Nat)) : Prop where
  returns : ∀ s, At s₀ f pre s → AcceptsAll found s₀ (s₀.freed.length + pre.length) l →
    ∃ s', m s = .ret ((), s') ∧ At s₀ f' (pre ++ l) s'
  accepts : ∀ s s', At s₀ f pre s → m s = .ret ((), s') →
    AcceptsAll found s₀ (s₀.freed.length + pre.length) l

/-- Freeing nothing. -/
lemma frees_pure : Frees found s₀ (pure ()) f f pre [] :=
  ⟨fun s h _ => ⟨s, rfl, by rwa [List.append_nil]⟩, fun _ _ _ _ => acceptsAll_nil⟩

/-- Freeing zones and then others. -/
lemma Frees.bind {g : Unit → Prog (State ι) Unit} (h : Frees found s₀ m f f' pre l)
    (h' : Frees found s₀ (g ()) f' f'' (pre ++ l) l') : Frees found s₀ (m >>= g) f f'' pre (l ++ l') := by
  constructor
  · intro s hs ha
    rw [acceptsAll_append] at ha
    obtain ⟨s₁, e₁, h₁⟩ := h.returns s hs ha.1
    have ha' := ha.2
    rw [Nat.add_assoc, ← List.length_append] at ha'
    obtain ⟨s₂, e₂, h₂⟩ := h'.returns s₁ h₁ ha'
    rw [List.append_assoc] at h₂
    exact ⟨s₂, (Prog.bind_of_ret e₁).trans e₂, h₂⟩
  · intro s s₂ hs e
    obtain ⟨_, s₁, e₁, e₂⟩ := Prog.bind_ret_iff.1 e
    have ha := h.accepts s s₁ hs e₁
    obtain ⟨s₁', e₁', h₁⟩ := h.returns s hs ha
    obtain ⟨_, rfl⟩ := Prod.mk.inj (Result.ret.inj (e₁.symm.trans e₁'))
    have ha' := h'.accepts s₁ s₂ h₁ e₂
    rw [List.length_append, ← Nat.add_assoc] at ha'
    exact acceptsAll_append.2 ⟨ha, ha'⟩

/-- A program that does the same from the states in question. -/
lemma Frees.congr {m' : Prog (State ι) Unit} (h : Frees found s₀ m' f f' pre l)
    (e : ∀ s, At s₀ f pre s → m s = m' s) : Frees found s₀ m f f' pre l := by
  constructor
  · intro s hs ha
    rw [e s hs]
    exact h.returns s hs ha
  · intro s s' hs e'
    rw [e s hs] at e'
    exact h.accepts s s' hs e'

/-- A `free_block` that gets through changes no bit. -/
lemma freeBlock_returns {a : Nat × Nat} (ha : Accepts found s n a) :
    ∃ sb, Bitmap.freeBlock s.super a.1 a.2 (found n) = .ret sb ∧ sb.sDev = s.super.sDev ∧
      sb.sFirstdatazone = s.super.sFirstdatazone ∧ sb.sNzones = s.super.sNzones ∧
      ∀ q, (sb.sZmap q).map (fun bh => bh.bData.bit) = (s.super.sZmap q).map fun bh => bh.bData.bit := by
  obtain ⟨hd, h1, h2, hcnt⟩ := ha
  have hdev : (s.super.sDev.toNat : Int) = a.1 := by rw [hd]
  have hrange : ¬ ((a.2 : Int) < s.super.sFirstdatazone.toNat ∨ (a.2 : Int) ≥ s.super.sNzones.toNat) := by
    omega
  by_cases hany : (found n).any (· ≠ 1) = true
  · refine ⟨s.super, ?_, rfl, rfl, rfl, fun _ => rfl⟩
    simp only [Bitmap.freeBlock, getSuper, hdev, if_true, hrange, if_false, hany]
  · obtain ⟨bh, hm, hbit⟩ := hcnt.resolve_left hany
    have hres : (clearBit (zoneBit s.super a.2 % 8192) bh.bData).1 = false := by rw [clearBit_fst, hbit]
    refine ⟨{ s.super with
      sZmap := update s.super.sZmap (zoneBit s.super a.2 / 8192)
        (some ⟨(clearBit (zoneBit s.super a.2 % 8192) bh.bData).2, true⟩) }, ?_, rfl, rfl, rfl, ?_⟩
    · rw [zoneBit] at hm hres
      simp only [Bitmap.freeBlock, getSuper, hdev, if_true, hrange, if_false, hany, hm, hres, zoneBit]
      rfl
    · intro q
      by_cases hq : q = zoneBit s.super a.2 / 8192
      · subst hq
        simp only [update_self, hm, Option.map_some, Option.some.injEq]
        funext j
        rw [bit_clearBit, decide_not, Bool.and_eq_left_iff_imp]
        intro hj
        rw [Bool.not_eq_true', decide_eq_false_iff_not]
        rintro rfl
        rw [hbit] at hj
        cases hj
      · simp only [update_of_ne hq]

/-- A zone that `free_block` gets through for is one that it accepts. -/
lemma accepts_of_freeBlock {a : Nat × Nat} {sb : SuperBlock}
    (h : Bitmap.freeBlock s.super a.1 a.2 (found n) = .ret sb) : Accepts found s n a := by
  by_cases hdev : (s.super.sDev.toNat : Int) = a.1
  swap
  · simp only [Bitmap.freeBlock, getSuper, hdev, if_false] at h
    cases h
  by_cases hrange : (a.2 : Int) < s.super.sFirstdatazone.toNat ∨ (a.2 : Int) ≥ s.super.sNzones.toNat
  · simp only [Bitmap.freeBlock, getSuper, hdev, if_true, hrange] at h
    cases h
  refine ⟨by omega, by omega, by omega, ?_⟩
  by_cases hany : (found n).any (· ≠ 1) = true
  · exact .inl hany
  simp only [Bitmap.freeBlock, getSuper, hdev, if_true, hrange, if_false, hany] at h
  cases hm : s.super.sZmap (zoneBit s.super a.2 / 8192) with
  | none =>
    rw [zoneBit] at hm
    rw [hm] at h
    cases h
  | some bh =>
    refine .inr ⟨bh, rfl, ?_⟩
    rw [Bool.eq_false_iff]
    intro hbit
    have hres : (clearBit (zoneBit s.super a.2 % 8192) bh.bData).1 = true := by rw [clearBit_fst, hbit]
    rw [zoneBit] at hm hres
    rw [hm] at h
    simp only [hres] at h
    cases h

/-- One call of `free_block`. -/
lemma frees_call : Frees found s₀ (callFreeBlock found dev z) f f pre [(dev, z)] := by
  have hn : ∀ {s}, At s₀ f pre s → s.freed.length = s₀.freed.length + pre.length := by
    intro s hs
    rw [hs.freed, List.length_append]
  constructor
  · intro s hs ha
    have hacc := hs.accepts_iff.2 (acceptsAll_singleton.1 ha)
    obtain ⟨sb, e, hdev, hfirst, hnz, hbits⟩ := freeBlock_returns hacc
    refine ⟨_, by rw [callFreeBlock, hn hs, e], ?_⟩
    exact
      { freed := by rw [hs.freed, List.append_assoc]
        inode := hs.inode
        dev := hdev.trans hs.dev
        first := hfirst.trans hs.first
        nzones := hnz.trans hs.nzones
        bits := fun q => (hbits q).trans (hs.bits q)
        onDisk := hs.onDisk
        blocks := by
          intro a
          have hold : s.blocks a = s₀.blocks a ∨ a ∈ pre ++ [(dev, z)] ∧ s.blocks a = s₀.onDisk a :=
            (hs.blocks a).imp_right fun h => ⟨List.mem_append_left _ h.1, h.2⟩
          dsimp only
          split
          · exact hold
          · by_cases hne : a = (dev, z)
            · subst hne
              rw [update_self, hs.onDisk]
              exact .inr ⟨List.mem_append_right _ List.mem_cons_self, rfl⟩
            · rw [update_of_ne hne]
              exact hold }
  · intro s s' hs e
    rw [acceptsAll_singleton, ← hs.accepts_iff, ← hn hs]
    rw [callFreeBlock] at e
    cases e' : Bitmap.freeBlock s.super dev z (found s.freed.length) with
    | ret sb => exact accepts_of_freeBlock e'
    | panic msg =>
      rw [e'] at e
      cases e
    | fault =>
      rw [e'] at e
      cases e

/-- A loop, each turn of which frees zones. -/
lemma frees_forM {α : Type} {body : α → Prog (State ι) Unit} {g : α → List (Nat × Nat)} {l : List α}
    (hb : ∀ l₁ a l₂, l = l₁ ++ a :: l₂ → Frees found s₀ (body a) f f (pre ++ l₁.flatMap g) (g a)) :
    Frees found s₀ (forM l body) f f pre (l.flatMap g) := by
  induction l generalizing pre with
  | nil => exact frees_pure
  | cons a l ih =>
    rw [List.forM_cons, List.flatMap_cons]
    refine Frees.bind ?_ (ih fun l₁ b l₂ e => ?_)
    · have h := hb [] a l rfl
      rwa [List.flatMap_nil, List.append_nil] at h
    · have h := hb (a :: l₁) b l₂ (by rw [e, List.cons_append])
      rwa [List.flatMap_cons, ← List.append_assoc] at h

/-- The entries of a block. -/
def entries (data : Bytes) : List Nat := (List.range 512).map fun e => (entry data e).toNat

/-- The loop over the entries of an index block. -/
lemma frees_forEntries {body : Nat → Prog (State ι) Unit} {g : Nat → List (Nat × Nat)} (h0 : g 0 = [])
    (hb : ∀ l₁ z l₂, entries data = l₁ ++ z :: l₂ → z ≠ 0 →
      Frees found s₀ (body z) f f (pre ++ l₁.flatMap g) (g z)) :
    Frees found s₀ (forEntries data body) f f pre ((entries data).flatMap g) := by
  rw [entries, List.flatMap_map]
  refine frees_forM fun l₁ e l₂ he => ?_
  split
  · next hne =>
    have h := hb (l₁.map fun e => (entry data e).toNat) (entry data e).toNat
      (l₂.map fun e => (entry data e).toNat) (by rw [entries, he, List.map_append, List.map_cons])
      fun h => hne (BitVec.eq_of_toNat_eq h)
    rwa [List.flatMap_map] at h
  · next hz =>
    rw [not_not] at hz
    rw [hz, show (0 : BitVec 16).toNat = 0 from rfl, h0]
    exact frees_pure

/-- `bread` of a block that can be read and is as it was. -/
lemma Frees.bread {g : Option Bytes → Prog (State ι) Unit} (hr : readable (dev, z) = true)
    (hk : (dev, z) ∉ pre ∨ s₀.blocks (dev, z) = s₀.onDisk (dev, z))
    (h : Frees found s₀ (g (some (s₀.blocks (dev, z)))) f f' pre l) :
    Frees found s₀ (Truncate.bread readable dev z >>= g) f f' pre l := by
  refine h.congr fun s hs => ?_
  rw [Truncate.bread, Prog.bind_of_ret (a := some (s₀.blocks (dev, z))) (t := s)]
  rw [Prog.bind_of_ret (t := s) rfl, if_pos hr, hs.kept hk]
  rfl

/-- The zones that `free_ind` frees. -/
def indZones (blocks : Nat × Nat → Bytes) (dev z : Nat) : List Nat :=
  if z = 0 then [] else nonzero (entries (blocks (dev, z))) ++ [z]

/-- The zones that `free_dind` frees. -/
def dindZones (blocks : Nat × Nat → Bytes) (dev z : Nat) : List Nat :=
  if z = 0 then [] else (entries (blocks (dev, z))).flatMap (indZones blocks dev) ++ [z]

/-- The entries that are not 0, one by one. -/
lemma flatMap_nonzero (l : List Nat) :
    l.flatMap (fun z => if z = 0 then [] else [(dev, z)]) = (nonzero l).map (dev, ·) := by
  induction l with
  | nil => rfl
  | cons z l ih =>
    rw [List.flatMap_cons, ih]
    by_cases hz : z = 0
    · rw [if_pos hz, nonzero, nonzero, List.filter_cons_of_neg (by simpa using hz)]
      rfl
    · rw [if_neg hz, nonzero, nonzero, List.filter_cons_of_pos (by simpa using hz)]
      rfl

/-- `free_ind` of a block whose data have not been lost. -/
lemma frees_freeInd (hr : z ≠ 0 → readable (dev, z) = true)
    (hk : z ≠ 0 → (dev, z) ∉ pre ∨ s₀.blocks (dev, z) = s₀.onDisk (dev, z)) :
    Frees found s₀ (freeInd readable found dev z) f f pre ((indZones s₀.blocks dev z).map (dev, ·)) := by
  rw [freeInd, indZones]
  split
  · exact frees_pure
  · next hz =>
    refine Frees.bread (hr hz) (hk hz) ?_
    rw [List.map_append, ← flatMap_nonzero]
    refine Frees.bind (frees_forEntries (if_pos rfl) fun l₁ i l₂ _ hne => ?_) frees_call
    rw [if_neg hne]
    exact frees_call

/-- `free_dind`, where this holds of each of its index blocks as well when it comes to it. -/
lemma frees_freeDind (hr : z ≠ 0 → readable (dev, z) = true)
    (hk : z ≠ 0 → (dev, z) ∉ pre ∨ s₀.blocks (dev, z) = s₀.onDisk (dev, z))
    (hsub : z ≠ 0 → ∀ l₁ i l₂, entries (s₀.blocks (dev, z)) = l₁ ++ i :: l₂ → i ≠ 0 →
      readable (dev, i) = true ∧ ((dev, i) ∉ pre ++ (l₁.flatMap (indZones s₀.blocks dev)).map (dev, ·) ∨
        s₀.blocks (dev, i) = s₀.onDisk (dev, i))) :
    Frees found s₀ (freeDind readable found dev z) f f pre ((dindZones s₀.blocks dev z).map (dev, ·)) := by
  rw [freeDind, dindZones]
  split
  · exact frees_pure
  · next hz =>
    refine Frees.bread (hr hz) (hk hz) ?_
    rw [List.map_append, List.map_flatMap]
    refine Frees.bind (frees_forEntries rfl fun l₁ i l₂ he hne => ?_) frees_call
    obtain ⟨hri, hki⟩ := hsub hz l₁ i l₂ he hne
    rw [List.map_flatMap] at hki
    exact frees_freeInd (fun _ => hri) fun _ => hki

end

section
variable {ι : Type} [DecidableEq ι] {readable : Nat × Nat → Bool} {found : Nat → Option Nat} {now : Nat}
  {s s₀ : State ι} {fs : FileSys ι} {k : ι} {l : List Nat} {pre : List (Nat × Nat)} {f : ι → MInode}

/-! ## The first seven zones -/

/-- The inode once the `i_zone` of the list `l` are 0. -/
def zeroZones (l : List Nat) (inode : MInode) : MInode :=
  { inode with iZone := fun j => if j ∈ l then 0 else inode.iZone j }

/-- None. -/
lemma zeroZones_nil (inode : MInode) : zeroZones [] inode = inode := by
  simp only [zeroZones, List.not_mem_nil, if_false]

/-- One more. -/
lemma zeroZones_cons (i : Nat) (l : List Nat) (inode : MInode) :
    zeroZones l (zeroZones [i] inode) = zeroZones (i :: l) inode := by
  have hzone : (fun j => if j ∈ l then 0 else if j ∈ [i] then 0 else inode.iZone j) =
      fun j => if j ∈ i :: l then 0 else inode.iZone j := by
    funext j
    by_cases hji : j = i
    · simp [hji]
    · simp [hji]
  simp only [zeroZones, hzone]

/-- One. -/
lemma zeroZones_singleton (i : Nat) (inode : MInode) :
    zeroZones [i] inode = { inode with iZone := update inode.iZone i 0 } := by
  have hzone : (fun j => if j ∈ [i] then 0 else inode.iZone j) = update inode.iZone i 0 := by
    funext j
    rw [update_apply]
    simp only [List.mem_singleton]
  simp only [zeroZones, hzone]

/-- An entry that is not 0 stays. -/
lemma nonzero_cons_of_ne {z : Nat} (hz : z ≠ 0) (l : List Nat) : nonzero (z :: l) = z :: nonzero l :=
  List.filter_cons_of_pos (by simpa using hz)

/-- The entries of two lists. -/
lemma nonzero_append (l l' : List Nat) : nonzero (l ++ l') = nonzero l ++ nonzero l' :=
  List.filter_append ..

omit [DecidableEq ι] in
/-- The inode as it is now. -/
lemma frees_inodeAt {f' : ι → MInode} {g : MInode → Prog (State ι) Unit} {l : List (Nat × Nat)}
    (h : Frees found s₀ (g (f k)) f f' pre l) : Frees found s₀ (inodeAt k >>= g) f f' pre l := by
  refine h.congr fun s hs => ?_
  rw [← hs.inode]
  rfl

/-- Fields of the inode are set. -/
lemma frees_setInode {g : MInode → MInode} :
    Frees found s₀ (setInode k g) f (update f k (g (f k))) pre [] := by
  refine ⟨fun s hs _ => ⟨_, rfl, ?_⟩, fun _ _ _ _ => acceptsAll_nil⟩
  rw [List.append_nil]
  exact { hs with inode := by rw [← hs.inode] }

/-- One of the first zones. -/
lemma frees_freeZone (i : Nat) :
    Frees found s₀ (freeZone found k i) f (update f k (zeroZones [i] (f k))) pre
      ((nonzero [((f k).iZone i).toNat]).map ((f k).iDev, ·)) := by
  rw [freeZone]
  refine frees_inodeAt ?_
  split
  · next hne =>
    have hz : ((f k).iZone i).toNat ≠ 0 := fun h => hne (BitVec.eq_of_toNat_eq h)
    rw [nonzero_cons_of_ne hz, zeroZones_singleton]
    exact frees_call.bind frees_setInode
  · next hz =>
    rw [not_not] at hz
    have hsame : update f k (zeroZones [i] (f k)) = f := by
      rw [zeroZones_singleton, ← hz, update_eq_self, update_eq_self]
    rw [hsame, hz]
    exact frees_pure

/-- Those of a list without repetitions. -/
lemma frees_freeZones (hl : l.Nodup) :
    Frees found s₀ (forM l (freeZone found k)) f (update f k (zeroZones l (f k))) pre
      ((nonzero (l.map fun i => ((f k).iZone i).toNat)).map ((f k).iDev, ·)) := by
  induction l generalizing f pre with
  | nil =>
    rw [zeroZones_nil, update_eq_self]
    exact frees_pure
  | cons i l ih =>
    rw [List.nodup_cons] at hl
    rw [List.forM_cons, List.map_cons, ← List.singleton_append (l := l.map _), nonzero_append, List.map_append]
    refine (frees_freeZone i).bind ?_
    have hrest : (l.map fun j => ((zeroZones [i] (f k)).iZone j).toNat) = l.map fun j => ((f k).iZone j).toNat := by
      refine List.map_congr_left fun j hj => ?_
      have hji : j ∉ [i] := fun hji => hl.1 (List.mem_singleton.1 hji ▸ hj)
      exact congrArg BitVec.toNat (if_neg hji)
    have h : Frees found s₀ (forM l (freeZone found k)) (update f k (zeroZones [i] (f k))) _
      (pre ++ (nonzero [((f k).iZone i).toNat]).map ((f k).iDev, ·)) _ := ih hl.2
    rw [update_self, update_idem, zeroZones_cons, hrest] at h
    exact h

/-! ## The zones that the map reaches -/

/-- `bmap` finds the zone of the slot of a block. -/
lemma bmapValue_eq {b : Nat} (hb : b < maxBlocks) : bmapValue fs k b = fs.zone k (slotOf b) := by
  rw [bmapValue, bmap_eq hb]

/-- The numbers below a product, row by row. -/
lemma range_mul (m n : Nat) :
    List.range (m * n) = (List.range m).flatMap fun i => (List.range n).map (n * i + ·) := by
  induction m with
  | zero => rw [Nat.zero_mul, List.range_zero, List.flatMap_nil]
  | succ m ih =>
    rw [Nat.succ_mul, List.range_add, ih, List.range_succ, List.flatMap_append, List.flatMap_singleton,
      Nat.mul_comm m n]

/-- The blocks of a file by the regime that they are addressed in. -/
lemma mapped_eq : (List.range maxBlocks).map (bmapValue fs k) =
    (List.range 7).map (fun i => fs.zone k (.top i)) ++
      ((List.range 512).map (fun e => fs.zone k (.sub (.top 7) e)) ++
        (List.range 512).flatMap fun e =>
          (List.range 512).map fun e' => fs.zone k (.sub (.sub (.top 8) e) e')) := by
  have h7 : (List.range 7).map (bmapValue fs k) = (List.range 7).map fun i => fs.zone k (.top i) := by
    refine List.map_congr_left fun i hi => ?_
    have hlt := List.mem_range.1 hi
    rw [bmapValue_eq (by rw [maxBlocks]; omega), slotOf, if_pos hlt]
  have hind : (List.range 512).map (fun e => bmapValue fs k (7 + e)) =
      (List.range 512).map fun e => fs.zone k (.sub (.top 7) e) := by
    refine List.map_congr_left fun e he => ?_
    have hlt := List.mem_range.1 he
    rw [bmapValue_eq (by rw [maxBlocks]; omega), slotOf, if_neg (by omega), if_pos (by omega),
      Nat.add_sub_cancel_left]
  have hdind : ∀ e ∈ List.range 512, (List.range 512).map (fun e' => bmapValue fs k (519 + (512 * e + e'))) =
      (List.range 512).map fun e' => fs.zone k (.sub (.sub (.top 8) e) e') := by
    intro e he
    refine List.map_congr_left fun e' he' => ?_
    have hlt := List.mem_range.1 he
    have hlt' := List.mem_range.1 he'
    have hdiv : (519 + (512 * e + e') - 519) / 512 = e := by omega
    have hmod : (519 + (512 * e + e') - 519) % 512 = e' := by omega
    rw [bmapValue_eq (by rw [maxBlocks]; omega), slotOf, if_neg (by omega), if_neg (by omega), hdiv, hmod]
  rw [maxBlocks, Nat.add_assoc, List.range_add, List.range_add, range_mul, List.map_append,
    List.map_map, List.map_append, List.map_map, List.map_flatMap, h7]
  refine congrArg _ (congrArg₂ _ hind (List.flatMap_congr fun e he => ?_))
  rw [List.map_map, ← hdind e he]
  refine List.map_congr_left fun e' _ => congrArg (bmapValue fs k) ?_
  show 7 + (512 + (512 * e + e')) = 519 + (512 * e + e')
  omega

omit [DecidableEq ι] in
/-- The entries of an index block are the zones of the slots below it. -/
lemma entries_zone {p : Slot} (hz : fs.zone k p ≠ 0) :
    entries (fs.disk.blocks (fs.dev k, fs.zone k p)) =
      (List.range 512).map fun e => fs.zone k (.sub p e) := by
  refine List.map_congr_left fun e _ => ?_
  rw [zone_sub_of_ne hz]
  rfl

/-- A list of zeros. -/
lemma nonzero_eq_nil (h : ∀ z ∈ l, z = 0) : nonzero l = [] := by
  rw [nonzero, List.filter_eq_nil_iff]
  intro z hz
  simpa using h z hz

omit [DecidableEq ι] in
/-- What `free_ind` frees of an index slot: the zones of its entries, and its own. -/
lemma indZones_eq (p : Slot) : indZones fs.disk.blocks (fs.dev k) (fs.zone k p) =
    nonzero ((List.range 512).map fun e => fs.zone k (.sub p e)) ++ nonzero [fs.zone k p] := by
  by_cases hz : fs.zone k p = 0
  · rw [indZones, if_pos hz, hz, nonzero_eq_nil, nonzero_eq_nil]
    · rfl
    · exact fun z h => List.mem_singleton.1 h
    · intro z h
      obtain ⟨e, _, rfl⟩ := List.mem_map.1 h
      exact zone_sub_of_zero hz
  · rw [indZones, if_neg hz, entries_zone hz, nonzero_cons_of_ne hz]
    rfl

omit [DecidableEq ι] in
/-- What `free_dind` frees of an index slot. -/
lemma dindZones_eq (p : Slot) : dindZones fs.disk.blocks (fs.dev k) (fs.zone k p) =
    (List.range 512).flatMap (fun e => indZones fs.disk.blocks (fs.dev k) (fs.zone k (.sub p e))) ++
      nonzero [fs.zone k p] := by
  by_cases hz : fs.zone k p = 0
  · rw [dindZones, if_pos hz, hz, nonzero_eq_nil fun z h => List.mem_singleton.1 h, List.append_nil]
    refine (List.flatMap_eq_nil_iff.2 fun e _ => ?_).symm
    rw [zone_sub_of_zero hz]
    rfl
  · rw [dindZones, if_neg hz, entries_zone hz, List.flatMap_map, nonzero_cons_of_ne hz]
    rfl

/-- The entries of many lists. -/
lemma nonzero_flatMap {α : Type} (l : List α) (f : α → List Nat) :
    nonzero (l.flatMap f) = l.flatMap fun a => nonzero (f a) := by
  induction l with
  | nil => rfl
  | cons a l ih => rw [List.flatMap_cons, List.flatMap_cons, nonzero_append, ih]

/-- The zones that `truncate` frees, in its order. -/
def freedZones (fs : FileSys ι) (k : ι) : List Nat :=
  nonzero ((List.range 7).map fun i => fs.zone k (.top i)) ++
    (indZones fs.disk.blocks (fs.dev k) (fs.zone k (.top 7)) ++
      dindZones fs.disk.blocks (fs.dev k) (fs.zone k (.top 8)))

/-- They are those that the map reaches, each as often. -/
lemma freedZones_perm : (freedZones fs k).Perm (reached fs k) := by
  -- the doubly indirect part: the blocks and the index blocks come in turns
  have hd : ((List.range 512).flatMap fun e =>
        indZones fs.disk.blocks (fs.dev k) (fs.zone k (.sub (.top 8) e))).Perm
      (nonzero ((List.range 512).flatMap fun e =>
          (List.range 512).map fun e' => fs.zone k (.sub (.sub (.top 8) e) e')) ++
        nonzero ((List.range 512).map fun e => fs.zone k (.sub (.top 8) e))) := by
    have hidx : nonzero ((List.range 512).map fun e => fs.zone k (.sub (.top 8) e)) =
        (List.range 512).flatMap fun e => nonzero [fs.zone k (.sub (.top 8) e)] := by
      rw [List.map_eq_flatMap, nonzero_flatMap]
    rw [hidx, nonzero_flatMap]
    simp only [indZones_eq]
    exact (List.flatMap_append_perm _ _ _).symm
  have hpair : nonzero [((fs.inode k).iZone 7).toNat, ((fs.inode k).iZone 8).toNat] =
      nonzero [fs.zone k (.top 7)] ++ nonzero [fs.zone k (.top 8)] := nonzero_append [_] [_]
  rw [freedZones, reached, mapped_eq, indZones_eq, dindZones_eq, hpair, nonzero_append, nonzero_append,
    ← Multiset.coe_eq_coe]
  rw [← Multiset.coe_eq_coe] at hd
  simp only [← Multiset.coe_add] at hd ⊢
  rw [hd]
  abel

/-! ## The whole file -/

/-- What `truncate` leaves of a regular file or a directory. -/
structure Truncated (s : State ι) (k : ι) (s' : State ι) : Prop where
  freed : ∃ l : List Nat, s'.freed = s.freed ++ l.map ((s.inode k).iDev, ·) ∧ l.Perm (reached s.fs k)
  zones : ∀ i < 9, (s'.inode k).iZone i = 0
  size : (s'.inode k).iSize = 0
  others : ∀ k', k' ≠ k → s'.inode k' = s.inode k'

/-- All index blocks of the file can be read. -/
def IndexReadable (readable : Nat × Nat → Bool) (fs : FileSys ι) (k : ι) : Prop :=
  ∀ p : Slot, p.Index → fs.zone k p ≠ 0 → readable (fs.addr k p) = true

/-- No index block whose data are not on the disk yet is in the map of the file once more. -/
def Unshared (s : State ι) (k : ι) : Prop :=
  ∀ p : Slot, p.Index → s.fs.zone k p ≠ 0 →
    (reached s.fs k).count (s.fs.zone k p) ≤ 1 ∨ s.blocks (s.fs.addr k p) = s.onDisk (s.fs.addr k p)

/-- What occurs once is not in front of the place where it occurs. -/
lemma not_mem_of_count {z : Nat} {l₁ l₂ : List Nat} (h : (l₁ ++ l₂).count z ≤ 1) (hz : z ∈ l₂) :
    z ∉ l₁ := by
  intro hz₁
  have h₁ := List.count_pos_iff.2 hz₁
  have h₂ := List.count_pos_iff.2 hz
  rw [List.count_append] at h
  omega

/-- Such an index block has its data when `truncate` comes to it. -/
lemma Unshared.kept {p : Slot} {l₁ l₂ : List Nat} (h : Unshared s k) (hp : p.Index) (hz : s.fs.zone k p ≠ 0)
    (e : freedZones s.fs k = l₁ ++ l₂) (hmem : s.fs.zone k p ∈ l₂) :
    s.fs.addr k p ∉ l₁.map (s.fs.dev k, ·) ∨ s.blocks (s.fs.addr k p) = s.onDisk (s.fs.addr k p) := by
  refine (h p hp hz).imp_left fun hcount hin => ?_
  rw [← freedZones_perm.count_eq, e] at hcount
  obtain ⟨z, hz₁, e'⟩ := List.mem_map.1 hin
  have hzone : z = s.fs.zone k p := congrArg Prod.snd e'
  exact not_mem_of_count hcount hmem (hzone ▸ hz₁)

omit [DecidableEq ι] in
/-- An index block is among the zones that `free_ind` frees. -/
lemma self_mem_indZones {blocks : Nat × Nat → Bytes} {dev z : Nat} (hz : z ≠ 0) : z ∈ indZones blocks dev z := by
  rw [indZones, if_neg hz]
  exact List.mem_append_right _ (List.mem_singleton_self z)

omit [DecidableEq ι] in
/-- The double-indirect block is among those that `free_dind` frees. -/
lemma self_mem_dindZones {blocks : Nat × Nat → Bytes} {dev z : Nat} (hz : z ≠ 0) :
    z ∈ dindZones blocks dev z := by
  rw [dindZones, if_neg hz]
  exact List.mem_append_right _ (List.mem_singleton_self z)

/-- No zone is left. -/
lemma emptied_iZone {inode : MInode} {i : Nat} (hi : i < 9) :
    (emptied now (zeroZones (List.range 7) inode)).iZone i = 0 := by
  rw [emptied]
  dsimp only
  -- the first seven have been cleared one by one
  by_cases h7 : i = 7
  · rw [h7, update_self]
  rw [update_of_ne h7]
  by_cases h8 : i = 8
  · rw [h8, update_self]
  · rw [update_of_ne h8]
    exact if_pos (List.mem_range.2 (by omega))

/-- `truncate` of a regular file or a directory frees the zones of `freedZones`. -/
lemma frees_truncate (hr : IndexReadable readable s.fs k) (hu : Unshared s k)
    (hm : (isReg (s.inode k).iMode || isDir (s.inode k).iMode) = true) :
    Frees found s (truncate readable found now k) s.inode
      (update s.inode k (emptied now (zeroZones (List.range 7) (s.inode k)))) []
      ((freedZones s.fs k).map (s.fs.dev k, ·)) := by
  have hall : freedZones s.fs k = nonzero ((List.range 7).map fun i => s.fs.zone k (.top i)) ++
      (indZones s.blocks (s.fs.dev k) (s.fs.zone k (.top 7)) ++
        dindZones s.blocks (s.fs.dev k) (s.fs.zone k (.top 8))) := rfl
  let f := update s.inode k (zeroZones (List.range 7) (s.inode k))
  have hf : f k = zeroZones (List.range 7) (s.inode k) := update_self ..
  have hdev : (f k).iDev = s.fs.dev k := by
    rw [hf]
    rfl
  have hzone : ∀ i, 7 ≤ i → ((f k).iZone i).toNat = s.fs.zone k (.top i) := by
    intro i hi
    rw [hf]
    exact congrArg BitVec.toNat (if_neg fun h => Nat.not_lt.2 hi (List.mem_range.1 h))
  have hset : Frees found s (setInode k (emptied now)) f
      (update s.inode k (emptied now (zeroZones (List.range 7) (s.inode k))))
      ((freedZones s.fs k).map (s.fs.dev k, ·)) [] := by
    have h : Frees found s (setInode k (emptied now)) f (update f k (emptied now (f k)))
      ((freedZones s.fs k).map (s.fs.dev k, ·)) [] := frees_setInode
    rwa [hf, update_idem] at h
  rw [hall, List.map_append, List.map_append, ← List.append_assoc] at hset
  rw [hall, List.map_append, List.map_append, truncate]
  refine frees_inodeAt ?_
  rw [if_pos hm]
  refine (frees_freeZones List.nodup_range).bind (frees_inodeAt ?_)
  show Frees found s (freeInd readable found (f k).iDev ((f k).iZone 7).toNat >>= _) f _ _ _
  rw [hdev, hzone 7 le_rfl]
  refine (frees_freeInd (hr (.top 7) (.inl rfl)) fun hz => ?_).bind (frees_inodeAt ?_)
  · exact hu.kept (.inl rfl) hz hall (List.mem_append_left _ (self_mem_indZones hz))
  show Frees found s (freeDind readable found (f k).iDev ((f k).iZone 8).toNat >>= _) f _ _ _
  rw [hdev, hzone 8 (by decide), ← List.append_nil ((dindZones ..).map _)]
  refine (frees_freeDind (hr (.top 8) (.inr rfl)) (fun hz => ?_) fun hz l₁ i l₂ he hne => ?_).bind hset
  · have h := hu.kept (p := .top 8) (.inr rfl) hz (hall.trans (List.append_assoc ..).symm) (self_mem_dindZones hz)
    rwa [List.map_append] at h
  · -- an index block below it is freed after those in front of it
    have hmem : i ∈ entries (s.blocks (s.fs.dev k, s.fs.zone k (.top 8))) := by
      rw [he]
      exact List.mem_append_right _ List.mem_cons_self
    have hent : entries (s.fs.disk.blocks (s.fs.dev k, s.fs.zone k (.top 8))) = _ := entries_zone hz
    rw [show s.blocks = s.fs.disk.blocks from rfl, hent] at hmem
    obtain ⟨e, hlt, rfl⟩ := List.mem_map.1 hmem
    have hp : Slot.Index (.sub (.top 8) e) := ⟨rfl, List.mem_range.1 hlt⟩
    refine ⟨hr _ hp hne, ?_⟩
    have hsplit : freedZones s.fs k =
        (nonzero ((List.range 7).map fun i => s.fs.zone k (.top i)) ++
          indZones s.blocks (s.fs.dev k) (s.fs.zone k (.top 7)) ++ l₁.flatMap (indZones s.blocks (s.fs.dev k))) ++
        (indZones s.blocks (s.fs.dev k) (s.fs.zone k (.sub (.top 8) e)) ++
          (l₂.flatMap (indZones s.blocks (s.fs.dev k)) ++ [s.fs.zone k (.top 8)])) := by
      rw [hall, dindZones, if_neg hz, he, List.flatMap_append, List.flatMap_cons]
      simp only [List.append_assoc]
    have h := hu.kept hp hne hsplit (List.mem_append_left _ (self_mem_indZones hne))
    rwa [List.map_append, List.map_append] at h

/-- Of a regular file or a directory whose index blocks can be read, and are not lost before `truncate` comes
    to them, `truncate` frees what the block map reaches, each zone as often as it occurs, and leaves an inode
    without zones, exactly if `free_block` accepts these zones; of another file it changes nothing. -/
theorem truncate_frees_iff (hr : IndexReadable readable s.fs k) (hu : Unshared s k) :
    ((isReg (s.inode k).iMode || isDir (s.inode k).iMode) = true →
      ((∃ s', truncate readable found now k s = .ret ((), s') ∧ Truncated s k s') ↔
        AcceptsAll found s s.freed.length ((freedZones s.fs k).map (s.fs.dev k, ·)))) ∧
    ((isReg (s.inode k).iMode || isDir (s.inode k).iMode) = false →
      truncate readable found now k s = .ret ((), s)) := by
  constructor
  · intro hm
    have h : Frees found s (truncate readable found now k) _ _ _ _ := frees_truncate hr hu hm
    constructor
    · rintro ⟨s', e, _⟩
      exact h.accepts s s' .start e
    · intro ha
      obtain ⟨s', e, hs'⟩ := h.returns s .start ha
      have hin : s'.inode k = emptied now (zeroZones (List.range 7) (s.inode k)) := by
        rw [hs'.inode, update_self]
      refine ⟨s', e, ⟨freedZones s.fs k, hs'.freed, freedZones_perm⟩, fun i hi => ?_, ?_, fun k' hne => ?_⟩
      · rw [hin]
        exact emptied_iZone hi
      · rw [hin]
        rfl
      · rw [hs'.inode, update_of_ne hne]
  · intro hm
    rw [truncate, Prog.bind_of_ret (a := s.inode k) (t := s) rfl, hm]
    rfl

/-- A device with the data zones 3 to 99, whose bits are all the same. -/
def device (used : Bool) : SuperBlock where
  sDev := 1
  sNinodes := 8
  sNzones := 100
  sFirstdatazone := 3
  sImap _ := none
  sZmap i := if i = 0 then some ⟨fun _ => if used then 0xff else 0, false⟩ else none

/-- A regular file with a direct block and an index block, which names one block. -/
def oneIndirect (used : Bool) : State (Fin 2) where
  super := device used
  inode := fun _ =>
    { MInode.zero with
      iMode := 0o100644, iDev := 1, iSize := 11000
      iZone := fun i => if i = 0 then 5 else if i = 7 then 6 else 0 }
  blocks := update (fun _ _ => 0) (1, 6) (setEntry (fun _ => 0) 3 9)
  onDisk := update (fun _ _ => 0) (1, 6) (setEntry (fun _ => 0) 3 9)
  freed := []

/-- No zone of the file is marked: `truncate` does its work. -/
theorem truncate_frees_unmarked :
    ∃ s', truncate (fun _ => true) (fun _ => none) 0 0 (oneIndirect false) = .ret ((), s') ∧
      Truncated (oneIndirect false) 0 s' := by
  refine ((truncate_frees_iff (fun _ _ _ => rfl) fun _ _ _ => .inr rfl).1 rfl).2 ?_
  have hzones : freedZones (oneIndirect false).fs 0 = [5, 9, 6] := by decide +kernel
  rw [hzones]
  intro i a ha
  have hmem := List.mem_of_getElem? ha
  rw [List.map_cons, List.map_cons, List.map_cons, List.map_nil, List.mem_cons, List.mem_cons,
    List.mem_singleton] at hmem
  rcases hmem with rfl | rfl | rfl <;> exact ⟨rfl, by decide, by decide, .inr ⟨_, rfl, rfl⟩⟩

/-- All of them are marked: the kernel stops at the first one. -/
theorem truncate_panics :
    IndexReadable (fun _ => true) (oneIndirect true).fs 0 ∧
    truncate (fun _ => true) (fun _ => none) 0 0 (oneIndirect true) = .panic "free_block: bit already cleared" ∧
    ¬ ∃ s', truncate (fun _ => true) (fun _ => none) 0 0 (oneIndirect true) = .ret ((), s') ∧
      Truncated (oneIndirect true) 0 s' := by
  have hpanic : truncate (fun _ => true) (fun _ => none) 0 0 (oneIndirect true) =
      .panic "free_block: bit already cleared" := rfl
  refine ⟨fun _ _ _ => rfl, hpanic, ?_⟩
  rintro ⟨s', e, _⟩
  cases hpanic.symm.trans e

end

end OldLinux.Fs.Truncate
