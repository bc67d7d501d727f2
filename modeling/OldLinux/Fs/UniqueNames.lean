import OldLinux.Fs.Directory
import OldLinux.Lib.System
import Mathlib.Tactic.IntervalCases

/-!
# Creators and removers of names

Any number of processes in `open` with `O_CREAT`, `mkdir`, `link`, `unlink` and `rmdir`
(`fs/namei.c`). The system has a step for each piece of code that runs without sleeping: a process
sleeps in `bread` before every block that `find_entry` and `add_entry` look at, in `new_inode` and
`new_block`, and in `iget` (and `empty_dir`) before it clears an entry.

`find_entry` and `add_entry` run one after the other with nothing that keeps others out, and
`add_entry` does not look for the name. `unique_names` says what has to hold of a run for the names
to stay unique.
-/

namespace OldLinux.Fs
open Lib Function

/-- The device and the number of an inode. -/
structure InodeId where
  dev : BitVec 16
  num : BitVec 16
  deriving DecidableEq

/-- The system calls; `link` with the number of the inode of the old name, which is on the device of the
    directory. -/
inductive NameOp where
  | open
  | mkdir
  | link (oldinode : BitVec 16)
  | unlink
  | rmdir

/-- The calls that make an entry when they do not find the name. -/
def NameOp.creates : NameOp → Bool
  | .open | .mkdir | .link _ => true
  | .unlink | .rmdir => false

/-- What a process is about to do when it wakes up: nothing, look for the name in the block of entry
    `i` of the `entries` that there were, get an inode, look for a free entry in the block of entry
    `i`, or clear the entry `k`. A process that has followed the null pointer of a block that could
    not be read is gone. -/
inductive NameTask where
  | idle
  | lookup (op : NameOp) (dir : InodeId) (name : Name) (entries i : Nat)
  | create (op : NameOp) (dir : InodeId) (name : Name)
  | add (dir : InodeId) (name : Name) (inode : BitVec 16) (i : Nat)
  | remove (dir : InodeId) (k : Nat)
  | gone

/-- The directories and the processes. -/
structure NameState (π : Type) where
  dirs : InodeId → Dir
  tasks : π → NameTask

/-- The directory that a process uses. -/
def NameTask.dir : NameTask → Option InodeId
  | .lookup _ dir _ _ _ => some dir
  | .create _ dir _ => some dir
  | .add dir _ _ _ => some dir
  | .remove dir _ => some dir
  | _ => none

/-- The beginning of `add_entry` up to its first `bread`. -/
def startAdd (d : Dir) (dir : InodeId) (name : Name) (inode : BitVec 16) : NameTask :=
  if d.iZone0 = 0 then .idle else .add dir name inode 0

/-- What follows when `find_entry` returns null. -/
def notFound (d : Dir) (op : NameOp) (dir : InodeId) (name : Name) : NameTask :=
  match op with
  | .open => .create op dir name
  | .mkdir => .create op dir name
  | .link oldinode => startAdd d dir name oldinode
  | .unlink => .idle
  | .rmdir => .idle

/-- What follows when `find_entry` finds the entry `k`. -/
def found (op : NameOp) (dir : InodeId) (k : Nat) : NameTask :=
  if op.creates then .idle else .remove dir k

/-- The beginning of `find_entry` up to its first `bread`. -/
def startFind (d : Dir) (op : NameOp) (dir : InodeId) (name : Name) : NameTask :=
  if d.iZone0 = 0 then notFound d op dir name else .lookup op dir name d.entries 0

/-- `find_entry` goes on behind a block: the next one, or the end. -/
def nextFind (d : Dir) (op : NameOp) (dir : InodeId) (name : Name) (entries i : Nat) : NameTask :=
  if i + dirEntriesPerBlock < entries then .lookup op dir name entries (i + dirEntriesPerBlock)
  else notFound d op dir name

/-- A block of the directory has been read. -/
def findBlock (d : Dir) (op : NameOp) (dir : InodeId) (name : Name) (entries i : Nat) : NameTask :=
  match d.findIn name entries i dirEntriesPerBlock with
  | some k => found op dir k
  | none => nextFind d op dir name entries i

/-- A block of the directory could not be read. For the first one `find_entry` returns; a later one
    is left out, and if there is one more `bh->b_data` is read through the null pointer. -/
def skipBlock (d : Dir) (op : NameOp) (dir : InodeId) (name : Name) (entries i : Nat) : NameTask :=
  if i = 0 then notFound d op dir name
  else if i + dirEntriesPerBlock < entries then .gone
  else notFound d op dir name

variable {π : Type} [DecidableEq π]

/-- A process begins a call, reads a block or fails to, gets an inode (and a block for a new
    directory), uses an entry or fails to, clears an entry, or returns with an error. -/
inductive NameEvent (π : Type) where
  | start (p : π)
  | find (p : π)
  | findFails (p : π)
  | newInode (p : π)
  | newDir (p : π)
  | add (p : π)
  | addFails (p : π)
  | clear (p : π)
  | error (p : π)

/-- The process `p` goes on as `t`. -/
def NameState.become (s : NameState π) (p : π) (t : NameTask) : NameState π :=
  { s with tasks := update s.tasks p t }

/-- A directory is changed. -/
def NameState.setDir (s : NameState π) (dir : InodeId) (d : Dir) : NameState π :=
  { s with dirs := update s.dirs dir d }

/-- The steps. `new_inode` returns an inode that nobody uses. -/
inductive NameStep : NameState π → NameEvent π → NameState π → Prop where
  | start {s p op dir name} : s.tasks p = .idle →
    NameStep s (.start p) (s.become p (startFind (s.dirs dir) op dir name))
  | find {s p op dir name entries i} : s.tasks p = .lookup op dir name entries i →
    NameStep s (.find p) (s.become p (findBlock (s.dirs dir) op dir name entries i))
  | findFails {s p op dir name entries i} : s.tasks p = .lookup op dir name entries i →
    NameStep s (.findFails p) (s.become p (skipBlock (s.dirs dir) op dir name entries i))
  | newInode {s p dir name} {inode : BitVec 16} : s.tasks p = .create .open dir name →
    NameStep s (.newInode p) (s.become p (startAdd (s.dirs dir) dir name inode))
  | newDir {s p dir name} {inode zone : BitVec 16} : s.tasks p = .create .mkdir dir name →
    zone ≠ 0 → (∀ q, (s.tasks q).dir ≠ some ⟨dir.dev, inode⟩) →
    NameStep s (.newDir p) ((s.setDir ⟨dir.dev, inode⟩ (Dir.newDir zone inode dir.num)).become p
      (startAdd (s.dirs dir) dir name inode))
  | add {s p dir name inode i k} : s.tasks p = .add dir name inode i →
    (s.dirs dir).freeIn i dirEntriesPerBlock = some k →
    NameStep s (.add p) ((s.setDir dir ((s.dirs dir).addAt k name inode)).become p .idle)
  | addNext {s p dir name inode i} : s.tasks p = .add dir name inode i →
    (s.dirs dir).freeIn i dirEntriesPerBlock = none →
    NameStep s (.add p) (s.become p (.add dir name inode (i + dirEntriesPerBlock)))
  | addFails {s p dir name inode i} : s.tasks p = .add dir name inode i →
    NameStep s (.addFails p) (s.become p .idle)
  | addGone {s p dir name inode i} : s.tasks p = .add dir name inode i → i ≠ 0 →
    NameStep s (.addFails p) (s.become p .gone)
  | clear {s p dir k} : s.tasks p = .remove dir k →
    NameStep s (.clear p) ((s.setDir dir ((s.dirs dir).clear k)).become p .idle)
  | createError {s p op dir name} : s.tasks p = .create op dir name →
    NameStep s (.error p) (s.become p .idle)
  | removeError {s p dir k} : s.tasks p = .remove dir k →
    NameStep s (.error p) (s.become p .idle)

/-- Nobody is in a call, and the directories are as they should be. -/
def nameSystem : System (NameState π) (NameEvent π) where
  init s := (∀ p, s.tasks p = .idle) ∧ ∀ dir, (s.dirs dir).Aligned ∧ (s.dirs dir).UniqueNames
  step := NameStep

/-- No directory has two live entries with the same name. -/
def NameState.Unique (s : NameState π) : Prop := ∀ dir, (s.dirs dir).UniqueNames

/-- A process that creates the name in the directory will not look at the entry `k` any more. -/
def NameTask.Past (dir : InodeId) (name : Name) (k : Nat) : NameTask → Prop
  | .lookup op dir' name' entries i =>
    op.creates = true ∧ dir' = dir ∧ name'.key = name.key ∧ (k < i ∨ entries ≤ k)
  | .create _ dir' name' => dir' = dir ∧ name'.key = name.key
  | .add dir' name' _ _ => dir' = dir ∧ name'.key = name.key
  | _ => False

/-- The entries that `find_entry` leaves out when the block of entry `i` cannot be read. -/
def Skips (i k : Nat) : Prop := i = 0 ∨ i ≤ k ∧ k < i + dirEntriesPerBlock

/-- A process does not use an entry that another one that creates the same name has gone past, and a
    block that a process cannot read does not hold the name that it creates. -/
def InTurn (s : NameState π) : NameEvent π → Prop
  | .add p => ∀ dir name inode i k, s.tasks p = .add dir name inode i →
      (s.dirs dir).freeIn i dirEntriesPerBlock = some k → ∀ q, q ≠ p → ¬ (s.tasks q).Past dir name k
  | .findFails p => ∀ op dir name entries i, s.tasks p = .lookup op dir name entries i →
      op.creates = true → ∀ k, Skips i k → (s.dirs dir).Live k → ((s.dirs dir).slot k).str ≠ name.key
  | _ => True

/-! ## The invariant -/

/-- The name is in no live entry. -/
def Dir.Lacks (d : Dir) (name : Name) : Prop := ∀ k, d.Live k → (d.slot k).str ≠ name.key

/-- What a process that creates a name knows: the entries that it has gone past do not hold the name. -/
def NameTask.Safe (dirs : InodeId → Dir) : NameTask → Prop
  | .lookup op dir name entries i =>
    op.creates = true → ∀ k, (dirs dir).Live k → ((dirs dir).slot k).str = name.key → i ≤ k ∧ k < entries
  | .create _ dir name => (dirs dir).iZone0 ≠ 0 → (dirs dir).Lacks name
  | .add dir name _ i => i ≤ (dirs dir).entries ∧ (dirs dir).Lacks name
  | _ => True

structure NameState.Inv (s : NameState π) : Prop where
  aligned : ∀ dir, (s.dirs dir).Aligned
  unique : s.Unique
  safe : ∀ p, (s.tasks p).Safe s.dirs

variable {s s' : NameState π} {p q : π} {dirs dirs' : InodeId → Dir} {op : NameOp} {dir : InodeId}
  {name : Name} {entries i j k : Nat} {inode : BitVec 16} {t : NameTask} {d : Dir}

/-- `add_entry` may start where the name is not in use. -/
lemma startAdd_safe (h : (dirs dir).iZone0 ≠ 0 → (dirs dir).Lacks name) :
    (startAdd (dirs dir) dir name inode).Safe dirs := by
  rw [startAdd]
  split
  · trivial
  · next hz => exact ⟨Nat.zero_le _, h hz⟩

/-- After a lookup that has not found the name. -/
lemma notFound_safe (h : op.creates = true → (dirs dir).iZone0 ≠ 0 → (dirs dir).Lacks name) :
    (notFound (dirs dir) op dir name).Safe dirs := by
  cases op with
  | «open» => exact h rfl
  | mkdir => exact h rfl
  | link oldinode => exact startAdd_safe (h rfl)
  | unlink => trivial
  | rmdir => trivial

/-- An entry that was found is safe. -/
lemma found_safe : (found op dir k).Safe dirs := by
  rw [found]
  split <;> trivial

/-- `find_entry` may start. -/
lemma startFind_safe : (startFind (dirs dir) op dir name).Safe dirs := by
  rw [startFind]
  split
  · next hz => exact notFound_safe fun _ h => absurd hz h
  · exact fun _ k hk _ => ⟨Nat.zero_le k, hk.1⟩

/-- Behind a block that does not hold the name. -/
lemma nextFind_safe (hs : (NameTask.lookup op dir name entries i).Safe dirs)
    (h : op.creates = true → ∀ k, i ≤ k → k < i + dirEntriesPerBlock → (dirs dir).Live k →
      ((dirs dir).slot k).str ≠ name.key) :
    (nextFind (dirs dir) op dir name entries i).Safe dirs := by
  rw [nextFind]
  split
  · intro hc k hk hstr
    obtain ⟨hik, hke⟩ := hs hc k hk hstr
    refine ⟨?_, hke⟩
    by_contra hlt
    exact h hc k hik (Nat.lt_of_not_le hlt) hk hstr
  · apply notFound_safe
    intro hc _ k hk hstr
    obtain ⟨hik, hke⟩ := hs hc k hk hstr
    exact h hc k hik (by omega) hk hstr

/-- It may go on in the next block. -/
lemma findBlock_safe (hs : (NameTask.lookup op dir name entries i).Safe dirs) :
    (findBlock (dirs dir) op dir name entries i).Safe dirs := by
  rw [findBlock]
  split
  · exact found_safe
  · next hf =>
    apply nextFind_safe hs
    intro hc k hik hlt hk hstr
    exact Dir.findIn_none hf hik hlt (hs hc k hk hstr).2 hk.2 hstr

/-- A lookup may go on behind a block without the name. -/
lemma skipBlock_safe (hs : (NameTask.lookup op dir name entries i).Safe dirs)
    (h : op.creates = true → ∀ k, Skips i k → (dirs dir).Live k → ((dirs dir).slot k).str ≠ name.key) :
    (skipBlock (dirs dir) op dir name entries i).Safe dirs := by
  rw [skipBlock]
  split
  · next hi => exact notFound_safe fun hc _ k => h hc k (.inl hi)
  split
  · trivial
  · next hend =>
    have hn := nextFind_safe hs fun hc k h1 h2 => h hc k (.inr ⟨h1, h2⟩)
    rwa [nextFind, if_neg hend] at hn

/-- A process knows about its own directory only. -/
lemma NameTask.Safe.congr (hs : t.Safe dirs) (h : ∀ dir, t.dir = some dir → dirs' dir = dirs dir) :
    t.Safe dirs' := by
  cases t with
  | idle => trivial
  | lookup op dir name entries i =>
    rw [Safe, h dir rfl]
    exact hs
  | create op dir name =>
    rw [Safe, h dir rfl]
    exact hs
  | add dir name inode i =>
    rw [Safe, h dir rfl]
    exact hs
  | remove dir k => trivial
  | gone => trivial

/-- A directory has changed so that its entries are still there and the entries with the name of a
    process that creates one in it were there before, or lie ahead. -/
lemma NameTask.Safe.change (hs : t.Safe dirs) (he : (dirs dir).entries ≤ d.entries)
    (hz : d.iZone0 = (dirs dir).iZone0)
    (h : ∀ j, d.Live j → (dirs dir).Live j ∧ (d.slot j).str = ((dirs dir).slot j).str ∨
      ∃ name, (d.slot j).str = name.key ∧ ¬ t.Past dir name j) :
    t.Safe (update dirs dir d) := by
  by_cases hd : t.dir = some dir
  · -- an entry with the name of the process is old or lies ahead
    cases t with
    | idle => trivial
    | lookup op dir' name' entries i =>
      cases hd
      intro hc j
      rw [update_self]
      intro hj hstr
      rcases h j hj with ⟨hold, he'⟩ | ⟨name, hname, hpast⟩
      · exact hs hc j hold (he' ▸ hstr)
      · have := not_or.1 (fun hor => hpast ⟨hc, rfl, hstr.symm.trans hname, hor⟩)
        omega
    | create op dir' name' =>
      cases hd
      show (update dirs dir d dir).iZone0 ≠ 0 → (update dirs dir d dir).Lacks name'
      rw [update_self, hz]
      intro hz' j hj hstr
      rcases h j hj with ⟨hold, he'⟩ | ⟨name, hname, hpast⟩
      · exact hs hz' j hold (he' ▸ hstr)
      · exact hpast ⟨rfl, hstr.symm.trans hname⟩
    | add dir' name' inode i =>
      cases hd
      show i ≤ (update dirs dir d dir).entries ∧ (update dirs dir d dir).Lacks name'
      rw [update_self]
      refine ⟨hs.1.trans he, ?_⟩
      intro j hj hstr
      rcases h j hj with ⟨hold, he'⟩ | ⟨name, hname, hpast⟩
      · exact hs.2 j hold (he' ▸ hstr)
      · exact hpast ⟨rfl, hstr.symm.trans hname⟩
    | remove dir' k => trivial
    | gone => trivial
  · apply hs.congr
    intro dir' hdir'
    apply update_of_ne
    rintro rfl
    exact hd hdir'

/-! ## The steps keep the invariant -/

/-- A task that is safe then. -/
lemma NameState.Inv.become (h : s.Inv) (ht : t.Safe s.dirs) : (s.become p t).Inv := by
  refine ⟨h.aligned, h.unique, ?_⟩
  exact (forall_update_iff s.tasks fun _ t => t.Safe s.dirs).2 ⟨ht, fun q _ => h.safe q⟩

/-- A directory is changed by a process that is done with it. -/
lemma NameState.Inv.setDir (h : s.Inv) (ha : d.Aligned) (hu : d.UniqueNames)
    (hs : ∀ q, q ≠ p → (s.tasks q).Safe (update s.dirs dir d)) (ht : t.Safe (update s.dirs dir d)) :
    ((s.setDir dir d).become p t).Inv := by
  refine ⟨?_, ?_, ?_⟩
  · exact (forall_update_iff s.dirs fun _ d => d.Aligned).2 ⟨ha, fun dir' _ => h.aligned dir'⟩
  · exact (forall_update_iff s.dirs fun _ d => d.UniqueNames).2 ⟨hu, fun dir' _ => h.unique dir'⟩
  · exact (forall_update_iff s.tasks fun _ t => t.Safe (update s.dirs dir d)).2 ⟨ht, hs⟩

/-- A new directory has no name twice. -/
lemma newDir_unique {zone parent : BitVec 16} : (Dir.newDir zone inode parent).UniqueNames := by
  intro k k' hk hk' hstr
  have he : (Dir.newDir zone inode parent).entries = 2 := by simp [Dir.entries, Dir.newDir, dirEntrySize]
  have h2 : k < 2 := he ▸ hk.1
  have h2' : k' < 2 := he ▸ hk'.1
  have h0 : ((Dir.newDir zone inode parent).slot 0).str = [46] := rfl
  have h1 : ((Dir.newDir zone inode parent).slot 1).str = [46, 46] := rfl
  interval_cases k <;> interval_cases k'
  · rfl
  · rw [h0, h1] at hstr
    cases hstr
  · rw [h0, h1] at hstr
    cases hstr
  · rfl

/-- Nor has one with a new name. -/
lemma addAt_unique (hd : d.Aligned) (hu : d.UniqueNames) (hk : k ≤ d.entries) (hn : d.Lacks name) :
    (d.addAt k name inode).UniqueNames := by
  -- the new entry is the only one with its name
  have old : ∀ j, j ≠ k → (d.addAt k name inode).Live j → d.Live j ∧
      ((d.addAt k name inode).slot j).str = (d.slot j).str := by
    intro j hj hl
    rcases (hd.live_addAt hk).1 hl with ⟨_, hl⟩ | ⟨e, _⟩
    · exact ⟨hl, by rw [Dir.slot_addAt hj]⟩
    · exact absurd e hj
  have new : ((d.addAt k name inode).slot k).str = name.key := by
    rw [Dir.slot_addAt_self, Dir.str_newEntry]
  intro j j' hl hl' hstr
  by_cases hj : j = k
  · subst hj
    by_contra hne
    obtain ⟨hlo, hso⟩ := old j' (Ne.symm hne) hl'
    exact hn j' hlo (hso.symm.trans (hstr.symm.trans new))
  · obtain ⟨hlo, hso⟩ := old j hj hl
    by_cases hj' : j' = k
    · subst hj'
      exact absurd (hso.symm.trans (hstr.trans new)) (hn j hlo)
    · obtain ⟨hlo', hso'⟩ := old j' hj' hl'
      exact hu j j' hlo hlo' (hso.symm.trans (hstr.trans hso'))

/-- A directory with a name less has no name twice. -/
lemma clear_unique (hu : d.UniqueNames) : (d.clear k).UniqueNames := by
  intro j j' hl hl' hstr
  rw [Dir.str_clear, Dir.str_clear] at hstr
  exact hu j j' (Dir.live_clear.1 hl).1 (Dir.live_clear.1 hl').1 hstr

/-- `add_entry` uses the entry `k` for a name that its process knows not to be there. -/
lemma NameState.Inv.add (h : s.Inv) (ht : s.tasks p = .add dir name inode i)
    (hf : (s.dirs dir).freeIn i dirEntriesPerBlock = some k)
    (hturn : ∀ q, q ≠ p → ¬ (s.tasks q).Past dir name k) :
    ((s.setDir dir ((s.dirs dir).addAt k name inode)).become p .idle).Inv := by
  have hal := h.aligned dir
  obtain ⟨hi, hn⟩ : i ≤ (s.dirs dir).entries ∧ (s.dirs dir).Lacks name := by
    have := h.safe p
    rwa [ht] at this
  obtain ⟨hk, _⟩ := hal.freeIn_some hi hf
  refine h.setDir (Dir.aligned_addAt hal) (addAt_unique hal (h.unique dir) hk hn) ?_ trivial
  intro q hq
  apply (h.safe q).change
  · rw [hal.entries_addAt hk]
    exact Nat.le_max_left _ _
  · rfl
  · intro j hj
    rcases (hal.live_addAt hk).1 hj with ⟨hne, hold⟩ | ⟨rfl, _⟩
    · exact .inl ⟨hold, by rw [Dir.slot_addAt hne]⟩
    · refine .inr ⟨name, ?_, hturn q hq⟩
      rw [Dir.slot_addAt_self, Dir.str_newEntry]

/-- Clearing an entry keeps the invariant. -/
lemma NameState.Inv.clear (h : s.Inv) :
    ((s.setDir dir ((s.dirs dir).clear k)).become p .idle).Inv := by
  refine h.setDir (h.aligned dir) (clear_unique (h.unique dir)) ?_ trivial
  intro q _
  refine (h.safe q).change le_rfl rfl ?_
  exact fun j hj => .inl ⟨(Dir.live_clear.1 hj).1, Dir.str_clear⟩

/-- The invariant is kept by every step in turn. -/
lemma NameState.Inv.step {e : NameEvent π} (h : s.Inv) (st : NameStep s e s') (ht : InTurn s e) :
    s'.Inv := by
  have safe : ∀ {p t}, s.tasks p = t → t.Safe s.dirs := fun e => e ▸ h.safe _
  cases st with
  | start _ => exact h.become startFind_safe
  | find e => exact h.become (findBlock_safe (safe e))
  | findFails e => exact h.become (skipBlock_safe (safe e) (ht _ _ _ _ _ e))
  | newInode e => exact h.become (startAdd_safe (safe e))
  | @newDir p dir name inode zone e hz hfree =>
    have keep : ∀ t : NameTask, t.dir ≠ some ⟨dir.dev, inode⟩ → t.Safe s.dirs →
        t.Safe (update s.dirs ⟨dir.dev, inode⟩ (Dir.newDir zone inode dir.num)) := by
      intro t hne hs
      apply hs.congr
      intro dir' hdir'
      apply update_of_ne
      rintro rfl
      exact hne hdir'
    refine h.setDir Dir.newDir_aligned newDir_unique (fun q _ => keep _ (hfree q) (h.safe q)) ?_
    apply keep _ _ (startAdd_safe (safe e))
    rw [startAdd]
    split
    · exact nofun
    · have := hfree p
      rwa [e] at this
  | add e hf => exact h.add e hf (ht _ _ _ _ _ e hf)
  | addNext e hf =>
    obtain ⟨_, hn⟩ := safe e
    exact h.become ⟨(h.aligned _).freeIn_none (by decide) hf, hn⟩
  | addFails _ => exact h.become trivial
  | addGone _ _ => exact h.become trivial
  | clear _ => exact h.clear
  | createError _ => exact h.become trivial
  | removeError _ => exact h.become trivial

/-- It holds at first. -/
lemma NameState.Inv.init (h : nameSystem.init s) : s.Inv := by
  refine ⟨fun dir => (h.2 dir).1, fun dir => (h.2 dir).2, ?_⟩
  intro p
  rw [h.1 p]
  trivial

/-- The names of every directory stay unique in every run in which no process uses an entry that
    another one that creates the same name has gone past in its search, and no process is kept from
    seeing the name that it creates by a block that cannot be read. -/
theorem unique_names {tr : List (NameEvent π × NameState π)} (h0 : nameSystem.init s)
    (ex : nameSystem.Exec s tr) (ht : Along (fun s e _ => InTurn s e) s tr) :
    Always NameState.Unique s tr := by
  have hinv : Always NameState.Inv s tr ∧ Along (fun _ _ _ => True) s tr :=
    ex.along_of_inv (fun _ _ _ h st ht => ⟨h.step st ht, trivial⟩) (.init h0) ht
  exact hinv.1.mono fun _ h => h.unique

/-- The name is not empty. -/
lemma nameA_ne_nil : ([97] : List (BitVec 8)) ≠ [] := by decide

/-- The name has no NUL. -/
lemma nameA_noNul : 0 ∉ ([97] : List (BitVec 8)) := by decide

/-- The name `a`. -/
def nameA : Name := ⟨[97], nameA_ne_nil, nameA_noNul⟩

def rootDir : InodeId := ⟨1, 1⟩

/-- Two processes, and directories with the entries `.` and `..` only. -/
def freshNames : NameState Bool where
  dirs _ := .newDir 7 1 1
  tasks _ := .idle

/-- The sample is initial. -/
lemma freshNames_init : nameSystem.init freshNames :=
  ⟨fun _ => rfl, fun _ => ⟨Dir.newDir_aligned, newDir_unique⟩⟩

/-- One process creates the name, and then the other one finds it. -/
theorem unique_names_two_creators :
    ∃ tr : List (NameEvent Bool × NameState Bool), tr.length = 6 ∧ nameSystem.init freshNames ∧
      nameSystem.Exec freshNames tr ∧ Always NameState.Unique freshNames tr := by
  have ex : nameSystem.Exec freshNames [_, _, _, _, _, _] :=
    .cons (@NameStep.start _ _ _ false .open rootDir nameA rfl) <|
    .cons (.find (p := false) rfl) <|
    .cons (@NameStep.newInode _ _ _ false _ _ 2 rfl) <|
    .cons (.add (p := false) (k := 2) rfl rfl) <|
    .cons (@NameStep.start _ _ _ true .open rootDir nameA rfl) <|
    .cons (.find (p := true) rfl) .nil
  refine ⟨_, rfl, freshNames_init, ex, unique_names freshNames_init ex ?_⟩
  refine ⟨trivial, trivial, trivial, ?_, trivial, trivial, trivial⟩
  intro dir name inode i k _ _ q hq
  obtain rfl : q = true := by simpa using hq
  exact id

/-- Two processes create the name at the same time: both do not find it, and both add it. -/
theorem unique_names_race : ∃ s : NameState Bool, nameSystem.Reach s ∧ ¬ s.Unique := by
  have hr : nameSystem.Reach _ :=
    .step (.step (.step (.step (.step (.step (.step (.step (.init freshNames_init)
      (@NameStep.start _ _ _ false .open rootDir nameA rfl))
      (@NameStep.start _ _ _ true .open rootDir nameA rfl))
      (.find (p := false) rfl)) (.find (p := true) rfl))
      (@NameStep.newInode _ _ _ false _ _ 2 rfl)) (.add (p := false) (k := 2) rfl rfl))
      (@NameStep.newInode _ _ _ true _ _ 3 rfl)) (.add (p := true) (k := 3) rfl rfl)
  refine ⟨_, hr, ?_⟩
  intro h
  have hsame := h rootDir 2 3 ⟨by decide, by decide⟩ ⟨by decide, by decide⟩ rfl
  cases hsame

end OldLinux.Fs
