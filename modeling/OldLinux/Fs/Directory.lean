import OldLinux.Lib.Numerals
import Mathlib.Data.List.TakeWhile
import Mathlib.Logic.Function.Basic
import Mathlib.Tactic.Common

/-!
# Directory entries

Model of `match` and of what `find_entry` and `add_entry` (`fs/namei.c`) do inside one block of a
directory. Between two blocks these functions sleep, so that the part of their loops that lies in a
block is what runs without interruption.

A directory is the sequence of its entries, of which the first `i_size / 16` are in use; an entry is
live if its inode number is not 0. The name of an entry is what comes before its first null byte, and
the key of a name is its first 14 bytes: `matchEntry_iff` says that `match` compares the two.
-/

namespace OldLinux.Fs
open Function

/-- `NAME_LEN`. -/
def nameLen : Nat := 14

/-- `sizeof (struct dir_entry)`. -/
def dirEntrySize : Nat := 16

/-- `DIR_ENTRIES_PER_BLOCK`. -/
def dirEntriesPerBlock : Nat := 64

/-- `struct dir_entry`. -/
structure DirEntry where
  inode : BitVec 16
  name : List (BitVec 8)
  length_name : name.length = nameLen
  deriving DecidableEq

/-- What `dir_namei` cuts out of a path when `namelen` is not 0. -/
structure Name where
  chars : List (BitVec 8)
  ne_nil : chars ≠ []
  noNul : 0 ∉ chars

namespace Name

/-- `namelen` after `if (namelen > NAME_LEN) namelen = NAME_LEN`. -/
def len (n : Name) : Nat := min n.chars.length nameLen

/-- The part of the name that counts. -/
def key (n : Name) : List (BitVec 8) := n.chars.take nameLen

/-- The key of a name has its length. -/
lemma length_key (n : Name) : n.key.length = n.len := by
  rw [key, List.length_take, len, Nat.min_comm]

/-- The key of a name has no NUL. -/
lemma zero_notMem_key (n : Name) : 0 ∉ n.key :=
  fun h => n.noNul (List.mem_of_mem_take h)

end Name

/-- What entries and names are compared by: the bytes before the first null byte. -/
def DirEntry.str (de : DirEntry) : List (BitVec 8) := de.name.takeWhile (· ≠ 0)

/-- `strncmp(s, t, n) == 0`. -/
def strncmpEq : Nat → List (BitVec 8) → List (BitVec 8) → Bool
  | 0, _, _ => true
  | n + 1, s, t =>
    if s.headD 0 ≠ t.headD 0 then false
    else if s.headD 0 = 0 then true
    else strncmpEq n s.tail t.tail

/-- `match(len, name, de)`. -/
def matchEntry (len : Nat) (name : List (BitVec 8)) (de : DirEntry) : Bool :=
  if de.inode = 0 ∨ len > nameLen then false
  else if len < nameLen ∧ de.name.getD len 0 ≠ 0 then false
  else strncmpEq len name de.name

/-- A directory: `i_size`, `i_zone[0]`, and the entries in its blocks. -/
structure Dir where
  iSize : Nat
  iZone0 : BitVec 16
  slot : Nat → DirEntry

namespace Dir

/-- `dir->i_size / (sizeof (struct dir_entry))`. -/
def entries (d : Dir) : Nat := d.iSize / dirEntrySize

/-- The loop of `find_entry` inside a block, at entry `i` with `n` entries of the block to go. -/
def findIn (d : Dir) (name : Name) (entries : Nat) : Nat → Nat → Option Nat
  | _, 0 => none
  | i, n + 1 =>
    if i < entries then
      if matchEntry name.len name.chars (d.slot i) then some i else findIn d name entries (i + 1) n
    else none

/-- The loop of `add_entry` inside a block: the entry that is used. -/
def freeIn (d : Dir) : Nat → Nat → Option Nat
  | _, 0 => none
  | i, n + 1 =>
    if i * dirEntrySize ≥ d.iSize ∨ (d.slot i).inode = 0 then some i else freeIn d (i + 1) n

/-- The name with null bytes up to `NAME_LEN`, and the inode number that the caller puts in. -/
def newEntry (name : Name) (inode : BitVec 16) : DirEntry where
  inode := inode
  name := name.key ++ List.replicate (nameLen - name.len) 0
  length_name := by
    have hle : name.len ≤ nameLen := Nat.min_le_right _ _
    rw [List.length_append, Name.length_key, List.length_replicate]
    omega

/-- The directory after `add_entry` has used the entry `k`. -/
def addAt (d : Dir) (k : Nat) (name : Name) (inode : BitVec 16) : Dir where
  iSize := if k * dirEntrySize ≥ d.iSize then (k + 1) * dirEntrySize else d.iSize
  iZone0 := d.iZone0
  slot := update d.slot k (newEntry name inode)

/-- `de->inode = 0`. -/
def clear (d : Dir) (k : Nat) : Dir :=
  { d with slot := update d.slot k { d.slot k with inode := 0 } }

/-- The name `.` has 14 bytes. -/
lemma length_dot : ((46 : BitVec 8) :: List.replicate 13 0).length = nameLen := rfl

/-- So has `..`. -/
lemma length_dotDot : ((46 : BitVec 8) :: 46 :: List.replicate 12 0).length = nameLen := rfl

/-- No name at all has that length, too. -/
lemma length_noName : (List.replicate 14 (0 : BitVec 8)).length = nameLen := rfl

/-- The block of a new directory. -/
def newDir (zone : BitVec 16) (inode parent : BitVec 16) : Dir where
  iSize := 32
  iZone0 := zone
  slot k :=
    if k = 0 then ⟨inode, 46 :: List.replicate 13 0, length_dot⟩
    else if k = 1 then ⟨parent, 46 :: 46 :: List.replicate 12 0, length_dotDot⟩
    else ⟨0, List.replicate 14 0, length_noName⟩

/-- The entry `k` is live. -/
def Live (d : Dir) (k : Nat) : Prop := k < d.entries ∧ (d.slot k).inode ≠ 0

/-- No two live entries have the same name. -/
def UniqueNames (d : Dir) : Prop :=
  ∀ k k', d.Live k → d.Live k' → (d.slot k).str = (d.slot k').str → k = k'

end Dir

variable {d : Dir} {name : Name} {de : DirEntry} {i j k n entries : Nat} {inode : BitVec 16}

/-! ## Names -/

/-- For a string without null bytes `strncmp` compares with the beginning of the other one. -/
lemma strncmpEq_iff {key rest t : List (BitVec 8)} (h0 : 0 ∉ key) :
    strncmpEq key.length (key ++ rest) t = true ↔ key <+: t := by
  induction key generalizing t with
  | nil => simp [strncmpEq]
  | cons c key ih =>
    obtain ⟨hc, hkey⟩ := not_or.1 (mt List.mem_cons.2 h0)
    have hc : c ≠ 0#8 := Ne.symm hc
    cases t with
    | nil => simp [strncmpEq, hc]
    | cons b t =>
      rw [List.cons_prefix_cons]
      simp [strncmpEq, hc, ih hkey]

/-- A prefix without null bytes, followed by a null byte or the end, is the part before the first
    one. -/
lemma takeWhile_eq_iff {key t : List (BitVec 8)} (h0 : 0 ∉ key) :
    t.takeWhile (· ≠ 0) = key ↔ key <+: t ∧ t.getD key.length 0 = 0 := by
  induction key generalizing t with
  | nil =>
    cases t with
    | nil => simp
    | cons b t => simp [List.takeWhile_cons]
  | cons c key ih =>
    obtain ⟨hc, hkey⟩ := not_or.1 (mt List.mem_cons.2 h0)
    have hc : c ≠ 0#8 := Ne.symm hc
    cases t with
    | nil => simp
    | cons b t =>
      rw [List.cons_prefix_cons, List.takeWhile_cons, List.length_cons, List.getD_cons_succ, and_assoc,
        ← ih hkey]
      by_cases hb : b = 0
      · subst hb
        simp [hc]
      · rw [if_pos (by simpa using hb), List.cons.injEq, eq_comm]

/-- `match` finds the live entries with the name. -/
lemma matchEntry_iff :
    matchEntry name.len name.chars de = true ↔ de.inode ≠ 0 ∧ de.str = name.key := by
  have hlen : ¬ name.len > nameLen := Nat.not_lt.2 (Nat.min_le_right _ _)
  have hcmp : strncmpEq name.len name.chars de.name = true ↔ name.key <+: de.name := by
    have h := @strncmpEq_iff _ (name.chars.drop nameLen) de.name name.zero_notMem_key
    rwa [name.length_key, Name.key, List.take_append_drop] at h
  rw [DirEntry.str, takeWhile_eq_iff name.zero_notMem_key, name.length_key, matchEntry]
  by_cases hi : de.inode = 0
  · rw [if_pos (.inl hi)]
    exact iff_of_false nofun fun h => h.1 hi
  rw [if_neg (not_or.2 ⟨hi, hlen⟩)]
  by_cases hd : de.name.getD name.len 0 = 0
  · rw [if_neg (fun h => h.2 hd), hcmp]
    exact ⟨fun h => ⟨hi, h, hd⟩, fun h => h.2.1⟩
  · -- the name is shorter than the entry, which goes on
    have hl : name.len < nameLen := by
      by_contra hl
      refine hd ?_
      rw [List.getD_eq_getElem?_getD, List.getElem?_eq_none, Option.getD_none]
      rw [de.length_name]
      exact Nat.le_of_not_lt hl
    rw [if_pos ⟨hl, hd⟩]
    exact iff_of_false nofun fun h => hd h.2.2

/-- The entry that `add_entry` makes has the name. -/
lemma Dir.str_newEntry : (newEntry name inode).str = name.key := by
  have hkey : ∀ c ∈ name.key, decide (c ≠ 0) = true := by
    intro c hc
    rw [decide_eq_true_eq]
    rintro rfl
    exact name.zero_notMem_key hc
  show (name.key ++ List.replicate _ 0).takeWhile (· ≠ 0) = name.key
  rw [List.takeWhile_append_of_pos hkey, List.takeWhile_replicate]
  simp

/-! ## Searching in a block -/

namespace Dir

/-- The search in a block finds a used entry with the name. -/
lemma findIn_some (h : d.findIn name entries i n = some k) :
    i ≤ k ∧ k < entries ∧ (d.slot k).inode ≠ 0 ∧ (d.slot k).str = name.key := by
  induction n generalizing i with
  | zero => cases h
  | succ n ih =>
    rw [findIn] at h
    split at h
    · next hi =>
      split at h
      · next hm =>
        cases h
        exact ⟨le_rfl, hi, matchEntry_iff.1 hm⟩
      · obtain ⟨hk, h'⟩ := ih h
        exact ⟨by omega, h'⟩
    · cases h

/-- The name is in none of the entries that have been looked at. -/
lemma findIn_none (h : d.findIn name entries i n = none) (hi : i ≤ k) (hn : k < i + n) (he : k < entries)
    (hk : (d.slot k).inode ≠ 0) : (d.slot k).str ≠ name.key := by
  induction n generalizing i with
  | zero => omega
  | succ n ih =>
    rw [findIn] at h
    split at h
    · split at h
      · cases h
      · next hm =>
        by_cases e : k = i
        · subst e
          exact fun hs => hm (matchEntry_iff.2 ⟨hk, hs⟩)
        · exact ih h (by omega) (by omega)
    · omega

/-- The entry that `add_entry` uses is behind the last one or free, and those before it are in use. -/
lemma freeIn_some (h : d.freeIn i n = some k) :
    i ≤ k ∧ (k * dirEntrySize ≥ d.iSize ∨ (d.slot k).inode = 0) ∧
    ∀ j, i ≤ j → j < k → j * dirEntrySize < d.iSize := by
  induction n generalizing i with
  | zero => cases h
  | succ n ih =>
    rw [freeIn] at h
    split at h
    · next hi =>
      cases h
      exact ⟨le_rfl, hi, fun j h1 h2 => by omega⟩
    · next hi =>
      obtain ⟨hk, hf, hb⟩ := ih h
      refine ⟨by omega, hf, ?_⟩
      intro j h1 h2
      by_cases e : j = i
      · subst e
        exact Nat.lt_of_not_le (not_or.1 hi).1
      · exact hb j (by omega) h2

/-- Without a free entry all are used. -/
lemma freeIn_none (h : d.freeIn i n = none) (hi : i ≤ j) (hn : j < i + n) :
    j * dirEntrySize < d.iSize ∧ (d.slot j).inode ≠ 0 := by
  induction n generalizing i with
  | zero => omega
  | succ n ih =>
    rw [freeIn] at h
    split at h
    · cases h
    · next hf =>
      obtain ⟨hs, h0⟩ := not_or.1 hf
      by_cases e : j = i
      · subst e
        exact ⟨Nat.lt_of_not_le hs, h0⟩
      · exact ih h (by omega) (by omega)

/-! ## Changing an entry -/

/-- Clearing an entry makes it unused. -/
lemma live_clear : (d.clear k).Live j ↔ d.Live j ∧ j ≠ k := by
  by_cases hj : j = k
  · subst hj
    simp [Live, clear]
  · simp [Live, clear, hj, entries]

/-- The name stays. -/
lemma str_clear : ((d.clear k).slot j).str = (d.slot j).str := by
  by_cases hj : j = k
  · subst hj
    simp [clear, DirEntry.str]
  · simp [clear, hj]

/-- The entry that was added. -/
lemma slot_addAt_self : (d.addAt k name inode).slot k = newEntry name inode :=
  update_self _ _ _

/-- Adding an entry leaves the others. -/
lemma slot_addAt (h : j ≠ k) : (d.addAt k name inode).slot j = d.slot j :=
  update_of_ne h _ _

/-- A directory whose size is a number of entries. -/
def Aligned (d : Dir) : Prop := dirEntrySize ∣ d.iSize

/-- An entry that there is is below the size. -/
lemma Aligned.lt_entries (h : d.Aligned) : k < d.entries ↔ k * dirEntrySize < d.iSize := by
  obtain ⟨m, hm⟩ := h
  rw [entries, hm, Nat.mul_div_cancel_left _ (by decide), Nat.mul_comm,
    Nat.mul_lt_mul_left (by decide)]

/-- A directory stays aligned. -/
lemma aligned_addAt (h : d.Aligned) : (d.addAt k name inode).Aligned := by
  show dirEntrySize ∣ if _ then _ else _
  split
  · exact Nat.dvd_mul_left _ _
  · exact h

/-- A new directory is aligned. -/
lemma newDir_aligned {zone parent : BitVec 16} : (newDir zone inode parent).Aligned :=
  ⟨2, rfl⟩

/-- `add_entry`, started at an entry that exists or behind the last one, uses one that is not live and
    leaves no gap. -/
lemma Aligned.freeIn_some (h : d.Aligned) (hi : i ≤ d.entries) (hf : d.freeIn i n = some k) :
    k ≤ d.entries ∧ ¬ d.Live k := by
  obtain ⟨hik, hfree, hbefore⟩ := Dir.freeIn_some hf
  constructor
  · by_contra hk
    have hlt := hbefore d.entries hi (by omega)
    exact absurd (h.lt_entries.2 hlt) (lt_irrefl _)
  · intro hl
    rcases hfree with hs | h0
    · exact absurd (h.lt_entries.1 hl.1) (by omega)
    · exact hl.2 h0

/-- Without a free entry the search goes to the end of its block. -/
lemma Aligned.freeIn_none (h : d.Aligned) (hn : 0 < n) (hf : d.freeIn i n = none) :
    i + n ≤ d.entries := by
  have hlast := (Dir.freeIn_none hf (j := i + n - 1) (by omega) (by omega)).1
  have := h.lt_entries.2 hlast
  omega

/-- There is one more entry, or as many as before. -/
lemma Aligned.entries_addAt (h : d.Aligned) (hk : k ≤ d.entries) :
    (d.addAt k name inode).entries = max d.entries (k + 1) := by
  by_cases hs : k * dirEntrySize ≥ d.iSize
  · have hk' : ¬ k < d.entries := fun hlt => absurd (h.lt_entries.1 hlt) (by omega)
    rw [Nat.max_eq_right (by omega), entries, addAt, if_pos hs, Nat.mul_div_cancel _ (by decide)]
  · have hk' := h.lt_entries.2 (Nat.lt_of_not_le hs)
    rw [Nat.max_eq_left hk', entries, addAt, if_neg hs, entries]

/-- The live entries are those before and the new one. -/
lemma Aligned.live_addAt (h : d.Aligned) (hk : k ≤ d.entries) :
    (d.addAt k name inode).Live j ↔ j ≠ k ∧ d.Live j ∨ j = k ∧ inode ≠ 0 := by
  rw [Live, h.entries_addAt hk, Live]
  by_cases hj : j = k
  · subst hj
    have hlt : j < max d.entries (j + 1) := by omega
    rw [slot_addAt_self]
    simp [newEntry, hlt]
  · rw [slot_addAt hj]
    constructor
    · rintro ⟨hlt, h0⟩
      exact .inl ⟨hj, by omega, h0⟩
    · rintro (⟨_, hlt, h0⟩ | ⟨e, _⟩)
      · exact ⟨by omega, h0⟩
      · exact absurd e hj

end Dir

end OldLinux.Fs
