import OldLinux.Fs.Directory
import OldLinux.Fs.FileDev

/-!
# Directories on the disk

Model of `find_entry` and `add_entry` (`fs/namei.c`) on the blocks of a directory, run from beginning to
end. Some blocks may be unreadable, always the same ones; a loop that goes on without a buffer follows a
null pointer at the head of its next turn.

The contents of the file, cut into pieces of 16 bytes, are the entries of a `Dir` (`FileSys.dir`). Where
the blocks below `i_size` are there, the loops are the searches of `Directory` over all entries, across
the ends of the blocks: `findEntry_eq` and `addEntry_spec`.
-/

namespace OldLinux.Fs
open Lib Function

/-- `struct dir_entry *`: an entry in the buffer of a block. -/
structure EntryPtr where
  block : Nat × Nat
  index : Nat
  deriving DecidableEq

/-- `de++`. -/
def EntryPtr.next (de : EntryPtr) : EntryPtr := { de with index := de.index + 1 }

/-- The `struct dir_entry` at an offset. -/
def dirEntryAt (data : Bytes) (off : Nat) : DirEntry where
  inode := data.load 2 off
  name := (List.range nameLen).map fun i => data (off + 2 + i)
  length_name := by rw [List.length_map, List.length_range]

/-- `for (i=0; i < NAME_LEN ; i++) de->name[i]=(i<namelen)?*(name+i):0;` with its number of turns. -/
def putName (name : Name) (off : Nat) : Nat → Bytes → Bytes
  | 0, data => data
  | i + 1, data =>
    update (putName name off i data) (off + 2 + i) (if i < name.len then name.chars.getD i 0 else 0)

/-- What a turn of `add_entry` has at its head: the entry `de`, no buffer to go on with, or no block, so
    that null is returned. -/
inductive Fetched where
  | entry (de : EntryPtr)
  | skip
  | null

/-- One entry is replaced. -/
def Dir.setSlot (d : Dir) (i : Nat) (de : DirEntry) : Dir := { d with slot := update d.slot i de }

namespace FileSys

section
variable {ι : Type*} [DecidableEq ι]

/-- `*de`. -/
def deref (fs : FileSys ι) (de : EntryPtr) : DirEntry :=
  dirEntryAt (fs.disk.blocks de.block) (dirEntrySize * de.index)

/-- `de->inode = inode`. -/
def setEntryInode (fs : FileSys ι) (de : EntryPtr) (inode : BitVec 16) : FileSys ι :=
  fs.putBlock de.block ((fs.disk.blocks de.block).store (n := 2) (dirEntrySize * de.index) inode)

/-- The name is copied to `de->name`. -/
def setEntryName (fs : FileSys ι) (de : EntryPtr) (name : Name) : FileSys ι :=
  fs.putBlock de.block (putName name (dirEntrySize * de.index) nameLen (fs.disk.blocks de.block))

/-- Sets fields of an inode. -/
def setFields (fs : FileSys ι) (k : ι) (f : MInode → MInode) : FileSys ι :=
  { fs with inode := update fs.inode k (f (fs.inode k)) }

variable (newBlock : Disk → Nat → Nat × Disk) (now : Nat) (reads : Nat × Nat → Bool)

/-- The head of a turn of `find_entry` at entry `i`: with `de` behind the end of its buffer, that of the
    next block, if it can be had. Without a buffer, `bh->b_data` is read through a null pointer. -/
def fetch (fs : FileSys ι) (k : ι) (de : Option EntryPtr) (i : Nat) : Result (Option EntryPtr) :=
  match de with
  | none => .fault
  | some de =>
    if de.index < dirEntriesPerBlock then .ret (some de)
    else
      match fs.bmapReads newBlock now reads k (i / dirEntriesPerBlock) with
      | .ret (block, _) =>
        let a := ((fs.inode k).iDev, block)
        .ret (if block ≠ 0 ∧ reads a then some ⟨a, 0⟩ else none)
      | .panic msg => .panic msg
      | .fault => .fault

/-- The loop of `find_entry` at entry `i`; the first argument bounds its number of turns. -/
def findFrom (fs : FileSys ι) (k : ι) (name : Name) (entries : Nat) :
    Nat → Option EntryPtr → Nat → Result (Option EntryPtr)
  | 0, _, _ => .ret none
  | n + 1, de, i =>
    if i < entries then
      match fs.fetch newBlock now reads k de i with
      | .ret (some de) =>
        if matchEntry name.len name.chars (fs.deref de) then .ret (some de)
        else findFrom fs k name entries n (some de.next) (i + 1)
      | .ret none => findFrom fs k name entries n none (i + dirEntriesPerBlock)
      | .panic msg => .panic msg
      | .fault => .fault
    else .ret none

/-- `find_entry(dir, name, namelen, &de)`: the entry that it finds. -/
def findEntry (fs : FileSys ι) (k : ι) (name : Name) : Result (Option EntryPtr) :=
  let dir := fs.inode k
  -- an `int`, below which nothing is if it is negative
  let entries := ((dir.iSize / 16).setWidth 32).toInt.toNat
  let a := (dir.iDev, (dir.iZone 0).toNat)
  if dir.iZone 0 = 0 then .ret none
  else if reads a then fs.findFrom newBlock now reads k name entries entries (some ⟨a, 0⟩) 0
  else .ret none

/-- The head of a turn of `add_entry` at entry `i`. -/
def fetchOrCreate (fs : FileSys ι) (k : ι) (de : Option EntryPtr) (i : Nat) :
    Result (Fetched × FileSys ι) :=
  match de with
  | none => .fault
  | some de =>
    if de.index < dirEntriesPerBlock then .ret (.entry de, fs)
    else
      match fs.createBlockReads newBlock now reads k (i / dirEntriesPerBlock) with
      | .ret (block, fs) =>
        let a := ((fs.inode k).iDev, block)
        if block = 0 then .ret (.null, fs)
        else if reads a then .ret (.entry ⟨a, 0⟩, fs)
        else .ret (.skip, fs)
      | .panic msg => .panic msg
      | .fault => .fault

/-- `de->inode=0; dir->i_size = (i+1)*sizeof(struct dir_entry); ..`. -/
def growDir (fs : FileSys ι) (k : ι) (de : EntryPtr) (i : Nat) : FileSys ι :=
  (fs.setEntryInode de 0).setFields k fun dir =>
    { dir with iSize := .ofNat 64 ((i + 1) * dirEntrySize), iDirt := true, iCtime := now }

/-- The rest of the turn: whether the entry is used. Behind the last one, the directory grows. -/
def useEntry (fs : FileSys ι) (k : ι) (name : Name) (de : EntryPtr) (i : Nat) : Bool × FileSys ι :=
  let fs := if i * dirEntrySize ≥ (fs.inode k).iSize.toNat then fs.growDir now k de i else fs
  if (fs.deref de).inode = 0 then
    (true, (fs.setFields k fun dir => { dir with iMtime := now }).setEntryName de name)
  else (false, fs)

/-- The loop of `add_entry` at entry `i`; the first argument bounds its number of turns. -/
def addFrom (k : ι) (name : Name) :
    Nat → Option EntryPtr → Nat → FileSys ι → Result (Option EntryPtr × FileSys ι)
  | 0, _, _, _ => .fault
  | n + 1, de, i, fs =>
    match fs.fetchOrCreate newBlock now reads k de i with
    | .ret (.entry de, fs) =>
      let (used, fs) := fs.useEntry now k name de i
      if used then .ret (some de, fs) else addFrom k name n (some de.next) (i + 1) fs
    | .ret (.skip, fs) => addFrom k name n none (i + dirEntriesPerBlock) fs
    | .ret (.null, fs) => .ret (none, fs)
    | .panic msg => .panic msg
    | .fault => .fault

/-- `add_entry(dir, name, namelen, &de)`: the entry that it uses, whose inode number is left at 0. The
    loop ends when it comes behind the last entry. -/
def addEntry (fs : FileSys ι) (k : ι) (name : Name) : Result (Option EntryPtr × FileSys ι) :=
  let dir := fs.inode k
  let a := (dir.iDev, (dir.iZone 0).toNat)
  if dir.iZone 0 = 0 then .ret (none, fs)
  else if reads a then
    addFrom newBlock now reads k name (dir.iSize.toNat / dirEntrySize + 2) (some ⟨a, 0⟩) 0 fs
  else .ret (none, fs)

end

/-! ## The entries of the file -/

section
variable {ι : Type*}

/-- The directory that a file holds. -/
def dir (fs : FileSys ι) (k : ι) : Dir where
  iSize := (fs.inode k).iSize.toNat
  iZone0 := (fs.inode k).iZone 0
  slot i := dirEntryAt (fs.contents k) (dirEntrySize * i)

/-- Where entry `i` is. -/
def place (fs : FileSys ι) (k : ι) (i : Nat) : EntryPtr :=
  ⟨fs.addr k (slotOf (i / dirEntriesPerBlock)), i % dirEntriesPerBlock⟩

/-- Block `b` of the file has a zone, and it and the blocks on the way to it can be read. -/
structure HasBlock (fs : FileSys ι) (reads : Nat × Nat → Bool) (k : ι) (b : Nat) : Prop where
  lt : b < maxBlocks
  ne : fs.zone k (slotOf b) ≠ 0
  path : fs.ReadsTo reads k (slotOf b)
  read : reads (fs.addr k (slotOf b)) = true

end

end FileSys

/-! ## Entries in a buffer -/

section
variable {data data' : Bytes} {off off' x n : Nat} {name : Name} {inode : BitVec 16}

/-- An entry is its 16 bytes. -/
lemma dirEntryAt_congr (h : ∀ x < dirEntrySize, data (off + x) = data' (off' + x)) :
    dirEntryAt data off = dirEntryAt data' off' := by
  have hsize : dirEntrySize = 16 := rfl
  have hlen : nameLen = 14 := rfl
  have hinode : data.load 2 off = data'.load 2 off' := Bytes.load_congr fun i hi => h i (by omega)
  have hname : ∀ i ∈ List.range nameLen, data (off + 2 + i) = data' (off' + 2 + i) := by
    intro i hi
    have hlt := List.mem_range.1 hi
    have hb := h (2 + i) (by omega)
    rwa [← Nat.add_assoc, ← Nat.add_assoc] at hb
  rw [dirEntryAt, DirEntry.mk.injEq]
  exact ⟨hinode, List.map_congr_left hname⟩

/-- Storing the number of an entry. -/
lemma dirEntryAt_store :
    dirEntryAt (data.store (n := 2) off inode) off = { dirEntryAt data off with inode := inode } := by
  have hname : ∀ i ∈ List.range nameLen,
      data.store (n := 2) off inode (off + 2 + i) = data (off + 2 + i) :=
    fun i _ => Bytes.store_of_not_mem (.inr (by omega))
  rw [dirEntryAt, DirEntry.mk.injEq]
  exact ⟨Bytes.load_store_self, List.map_congr_left hname⟩

/-- The bytes of a name that was stored. -/
lemma putName_apply : putName name off n data x =
    if off + 2 ≤ x ∧ x < off + 2 + n then
      (if x - (off + 2) < name.len then name.chars.getD (x - (off + 2)) 0 else 0)
    else data x := by
  induction n with
  | zero =>
    have hout : ¬ (off + 2 ≤ x ∧ x < off + 2 + 0) := by omega
    rw [putName, if_neg hout]
  | succ i ih =>
    rw [putName]
    by_cases hx : x = off + 2 + i
    · subst hx
      have hin : off + 2 ≤ off + 2 + i ∧ off + 2 + i < off + 2 + (i + 1) := by omega
      rw [update_self, if_pos hin, Nat.add_sub_cancel_left]
    · have hlast : off + 2 ≤ x ∧ x < off + 2 + (i + 1) ↔ off + 2 ≤ x ∧ x < off + 2 + i := by omega
      rw [update_of_ne hx, ih]
      simp only [hlast]

/-- The name with null bytes behind it. -/
lemma dirEntryAt_putName : dirEntryAt (putName name off nameLen data) off =
    Dir.newEntry name (dirEntryAt data off).inode := by
  have hinode : (putName name off nameLen data).load 2 off = data.load 2 off := by
    apply Bytes.load_congr
    intro i hi
    rw [putName_apply, if_neg (by omega)]
  rw [dirEntryAt, Dir.newEntry, DirEntry.mk.injEq]
  refine ⟨hinode, List.ext_getElem ?_ fun i hi _ => ?_⟩
  · rw [List.length_map, List.length_range, List.length_append, name.length_key, List.length_replicate]
    have hle : name.len ≤ nameLen := Nat.min_le_right _ _
    omega
  · rw [List.length_map, List.length_range] at hi
    rw [List.getElem_map, List.getElem_range, putName_apply, if_pos (by omega), Nat.add_sub_cancel_left]
    by_cases hlt : i < name.len
    · have hc : i < name.chars.length := lt_of_lt_of_le hlt (Nat.min_le_left _ _)
      rw [if_pos hlt, List.getElem_append_left (by rwa [name.length_key]),
        List.getD_eq_getElem?_getD, List.getElem?_eq_getElem hc]
      exact List.getElem_take.symm
    · rw [if_neg hlt, List.getElem_append_right (by rw [name.length_key]; omega),
        List.getElem_replicate]

end

namespace FileSys

section
variable {ι : Type*} {fs fs' fs'' : FileSys ι} {reads : Nat × Nat → Bool} {k : ι} {i j b : Nat}
  {d d' : Dir} {name : Name} {inode : BitVec 16}

/-! ## Changes of the directory -/

/-- The bytes of entry `i` lie in one block. -/
lemma entry_div {x : Nat} (hx : x < dirEntrySize) :
    (dirEntrySize * i + x) / 1024 = i / dirEntriesPerBlock := by
  have hx : x < 16 := hx
  show (16 * i + x) / 1024 = i / 64
  omega

/-- Where the bytes of an entry are in its block. -/
lemma entry_mod {x : Nat} (hx : x < dirEntrySize) :
    (dirEntrySize * i + x) % 1024 = dirEntrySize * (i % dirEntriesPerBlock) + x := by
  have hx : x < 16 := hx
  show (16 * i + x) % 1024 = 16 * (i % 64) + x
  omega

/-- Two entries do not overlap. -/
lemma entry_disjoint {x : Nat} (hx : x < dirEntrySize) (hne : j ≠ i)
    (hb : j / dirEntriesPerBlock = i / dirEntriesPerBlock) :
    dirEntrySize * (j % dirEntriesPerBlock) + x < dirEntrySize * (i % dirEntriesPerBlock) ∨
      dirEntrySize * (i % dirEntriesPerBlock) + dirEntrySize ≤
        dirEntrySize * (j % dirEntriesPerBlock) + x := by
  have hx : x < 16 := hx
  have hb : j / 64 = i / 64 := hb
  show 16 * (j % 64) + x < 16 * (i % 64) ∨ 16 * (i % 64) + 16 ≤ 16 * (j % 64) + x
  omega

/-- The entry that `place` points to. -/
lemma deref_place (hb : i / dirEntriesPerBlock < maxBlocks)
    (hz : fs.zone k (slotOf (i / dirEntriesPerBlock)) ≠ 0) :
    fs.deref (fs.place k i) = (fs.dir k).slot i := by
  apply dirEntryAt_congr
  intro x hx
  rw [contents, entry_div hx, entry_mod hx, if_pos ⟨hb, hz⟩]
  rfl

/-- The directory becomes `d`, and the zones that it has stay where they are. -/
structure Edits (fs fs' : FileSys ι) (k : ι) (d : Dir) : Prop where
  wf : fs'.WF
  dir : fs'.dir k = d
  dev : fs'.dev k = fs.dev k
  grows : ∀ s, s.Valid → fs.zone k s ≠ 0 → fs'.zone k s = fs.zone k s

/-- Nothing done is no edit. -/
lemma Edits.refl (h : fs.WF) : Edits fs fs k (fs.dir k) :=
  ⟨h, rfl, rfl, fun _ _ _ => rfl⟩

/-- The last edit counts. -/
lemma Edits.trans (h : Edits fs fs' k d) (h' : Edits fs' fs'' k d') : Edits fs fs'' k d' where
  wf := h'.wf
  dir := h'.dir
  dev := h'.dev.trans h.dev
  grows s hs hz := by
    have hz' := h.grows s hs hz
    exact (h'.grows s hs (hz' ▸ hz)).trans hz'

/-- An edit leaves the places of the blocks. -/
lemma Edits.addr (h : Edits fs fs' k d) {s : Slot} (hs : s.Valid) (hz : fs.zone k s ≠ 0) :
    fs'.addr k s = fs.addr k s := by
  rw [FileSys.addr, h.dev, h.grows s hs hz, FileSys.addr]

/-- An edit leaves the blocks readable. -/
lemma Edits.hasBlock (h : Edits fs fs' k d) (hb : fs.HasBlock reads k b) : fs'.HasBlock reads k b := by
  have hv := slotOf_valid hb.lt
  refine ⟨hb.lt, ?_, hb.path.of_grows h.grows h.dev hv hb.ne, ?_⟩
  · rw [h.grows _ hv hb.ne]
    exact hb.ne
  · rw [h.addr hv hb.ne]
    exact hb.read

/-- An edit leaves the places of the entries. -/
lemma Edits.place (h : Edits fs fs' k d) (hb : fs.HasBlock reads k (i / dirEntriesPerBlock)) :
    fs'.place k i = fs.place k i := by
  rw [FileSys.place, h.addr (slotOf_valid hb.lt) hb.ne, FileSys.place]

variable [DecidableEq ι]

/-- Fields other than `i_zone` and `i_dev` are set. -/
lemma setFields_edits (h : fs.WF) {f : MInode → MInode}
    (hz : (f (fs.inode k)).iZone = (fs.inode k).iZone) (hd : (f (fs.inode k)).iDev = (fs.inode k).iDev) :
    Edits fs (fs.setFields k f) k { fs.dir k with iSize := (f (fs.inode k)).iSize.toNat } := by
  obtain ⟨hwf, hc, hdev, hzone⟩ := setInode_spec (k := k) h hz hd
  have hself : (fs.setFields k f).inode k = f (fs.inode k) := update_self _ _ _
  have hcon : (fs.setFields k f).contents k = fs.contents k := funext fun off => hc k off
  refine ⟨hwf, ?_, hdev k, fun s hs _ => hzone hs⟩
  rw [dir, hself, hz, hcon]
  rfl

/-- The 16 bytes of an entry are written. -/
lemma putBlock_edits (h : fs.WF) (hb : i / dirEntriesPerBlock < maxBlocks)
    (hz : fs.zone k (slotOf (i / dirEntriesPerBlock)) ≠ 0) (data : Bytes)
    (hdata : ∀ x, x < dirEntrySize * (fs.place k i).index ∨
      dirEntrySize * (fs.place k i).index + dirEntrySize ≤ x →
        data x = fs.disk.blocks (fs.place k i).block x) :
    Edits fs (fs.putBlock (fs.place k i).block data) k
      ((fs.dir k).setSlot i (dirEntryAt data (dirEntrySize * (fs.place k i).index))) := by
  obtain ⟨hwf, hcon⟩ := putBlock_spec h hb hz data
  refine ⟨hwf, ?_, rfl, fun s hs _ => zone_putBlock h hb hs⟩
  rw [dir, Dir.setSlot, Dir.mk.injEq]
  refine ⟨rfl, rfl, funext fun j => ?_⟩
  by_cases hj : j = i
  · subst hj
    rw [update_self]
    apply dirEntryAt_congr
    intro x hx
    have e := hcon k (dirEntrySize * j + x)
    rwa [if_pos ⟨rfl, entry_div hx⟩, entry_mod hx] at e
  · rw [update_of_ne hj]
    apply dirEntryAt_congr
    intro x hx
    refine (hcon k (dirEntrySize * j + x)).trans ?_
    by_cases hq : j / dirEntriesPerBlock = i / dirEntriesPerBlock
    · -- another entry of the same block
      rw [if_pos ⟨rfl, (entry_div hx).trans hq⟩, entry_mod hx, hdata _ (entry_disjoint hx hj hq),
        contents, entry_div hx, entry_mod hx, hq, if_pos ⟨hb, hz⟩]
      rfl
    · rw [if_neg fun hc => hq ((entry_div hx).symm.trans hc.2)]

/-- `de->inode = inode` for entry `i`. -/
lemma setEntryInode_edits (inode : BitVec 16) (h : fs.WF) (hb : i / dirEntriesPerBlock < maxBlocks)
    (hz : fs.zone k (slotOf (i / dirEntriesPerBlock)) ≠ 0) :
    Edits fs (fs.setEntryInode (fs.place k i) inode) k
      ((fs.dir k).setSlot i { (fs.dir k).slot i with inode := inode }) := by
  have hold : dirEntryAt (fs.disk.blocks (fs.place k i).block) (dirEntrySize * (fs.place k i).index) =
    (fs.dir k).slot i := deref_place hb hz
  have he := putBlock_edits h hb hz ((fs.disk.blocks (fs.place k i).block).store (n := 2)
    (dirEntrySize * (fs.place k i).index) inode) ?_
  · rwa [dirEntryAt_store, hold] at he
  · intro x hx
    have hsize : dirEntrySize = 16 := rfl
    exact Bytes.store_of_not_mem (by omega)

/-- The name is copied to entry `i`. -/
lemma setEntryName_edits (name : Name) (h : fs.WF) (hb : i / dirEntriesPerBlock < maxBlocks)
    (hz : fs.zone k (slotOf (i / dirEntriesPerBlock)) ≠ 0) :
    Edits fs (fs.setEntryName (fs.place k i) name) k
      ((fs.dir k).setSlot i (Dir.newEntry name ((fs.dir k).slot i).inode)) := by
  have hold : dirEntryAt (fs.disk.blocks (fs.place k i).block) (dirEntrySize * (fs.place k i).index) =
    (fs.dir k).slot i := deref_place hb hz
  have he := putBlock_edits h hb hz (putName name (dirEntrySize * (fs.place k i).index) nameLen
    (fs.disk.blocks (fs.place k i).block)) ?_
  · rwa [dirEntryAt_putName, hold] at he
  · intro x hx
    have hsize : dirEntrySize = 16 := rfl
    have hlen : nameLen = 14 := rfl
    rw [putName_apply, if_neg (by omega)]

/-! ## From entry to entry -/

/-- All blocks below `i_size` are there. -/
def HasBlocks (fs : FileSys ι) (reads : Nat × Nat → Bool) (k : ι) : Prop :=
  ∀ b, b * 1024 < (fs.inode k).iSize.toNat → fs.HasBlock reads k b

/-- `de` is entry `i`, or it is behind the end of a buffer and the block of entry `i` comes next. -/
def At (fs : FileSys ι) (reads : Nat × Nat → Bool) (k : ι) (de : EntryPtr) (i : Nat) : Prop :=
  de = fs.place k i ∧ fs.HasBlock reads k (i / dirEntriesPerBlock) ∨
    de.index = dirEntriesPerBlock ∧ i % dirEntriesPerBlock = 0

variable {newBlock : Disk → Nat → Nat × Disk} {now n entries z : Nat} {de : EntryPtr}

omit [DecidableEq ι] in
/-- The next place. -/
lemma at_next (hb : fs.HasBlock reads k (i / dirEntriesPerBlock)) :
    fs.At reads k (fs.place k i).next (i + 1) := by
  by_cases h0 : (i + 1) % dirEntriesPerBlock = 0
  · refine .inr ⟨?_, h0⟩
    have h0 : (i + 1) % 64 = 0 := h0
    show i % 64 + 1 = 64
    omega
  · have hdiv : (i + 1) / dirEntriesPerBlock = i / dirEntriesPerBlock := by
      have h0 : ¬ (i + 1) % 64 = 0 := h0
      show (i + 1) / 64 = i / 64
      omega
    have hmod : (i + 1) % dirEntriesPerBlock = i % dirEntriesPerBlock + 1 := by
      have h0 : ¬ (i + 1) % 64 = 0 := h0
      show (i + 1) % 64 = i % 64 + 1
      omega
    refine .inl ⟨?_, hdiv ▸ hb⟩
    rw [EntryPtr.next, place, place, hdiv, hmod]

omit [DecidableEq ι] in
/-- The first entry of a block. -/
lemma place_of_mod (h0 : i % dirEntriesPerBlock = 0) :
    fs.place k i = ⟨fs.addr k (slotOf (i / dirEntriesPerBlock)), 0⟩ := by
  rw [place, h0]

omit [DecidableEq ι] in
/-- A place is in its block. -/
lemma index_place_lt : (fs.place k i).index < dirEntriesPerBlock :=
  Nat.mod_lt _ (by decide)

/-- The next entry is found in its block. -/
lemma fetch_at (h : fs.At reads k de i) (hb : fs.HasBlock reads k (i / dirEntriesPerBlock)) :
    fs.fetch newBlock now reads k (some de) i = .ret (some (fs.place k i)) := by
  cases h with
  | inl h =>
    rw [h.1]
    exact if_pos index_place_lt
  | inr h =>
    obtain ⟨z, e, hz⟩ :
        ∃ z, fs.bmapReads newBlock now reads k (i / dirEntriesPerBlock) = .ret (z, fs) ∧ _ :=
      bmapOrCreateReads_keep hb.lt nofun
    obtain ⟨rfl, _⟩ := hz.resolve_left fun hf => hf.2 hb.path
    have hlt : ¬ de.index < dirEntriesPerBlock := by rw [h.1]; exact lt_irrefl _
    have hread : fs.zone k (slotOf (i / dirEntriesPerBlock)) ≠ 0 ∧
      reads ((fs.inode k).iDev, fs.zone k (slotOf (i / dirEntriesPerBlock))) = true := ⟨hb.ne, hb.read⟩
    show (if de.index < dirEntriesPerBlock then _ else _) = _
    rw [if_neg hlt, e, place_of_mod h.2]
    simp only [if_pos hread]
    rfl

/-- The loop of `find_entry` over the blocks is the search over the entries. -/
lemma findFrom_eq (hb : ∀ j < entries, fs.HasBlock reads k (j / dirEntriesPerBlock))
    (h : fs.At reads k de i) : fs.findFrom newBlock now reads k name entries n (some de) i =
      .ret (((fs.dir k).findIn name entries i n).map (fs.place k)) := by
  induction n generalizing de i with
  | zero => rfl
  | succ n ih =>
    rw [findFrom, Dir.findIn]
    by_cases hi : i < entries
    swap
    · rw [if_neg hi, if_neg hi]
      rfl
    have hbi := hb i hi
    rw [if_pos hi, if_pos hi, fetch_at h hbi]
    simp only [deref_place hbi.lt hbi.ne]
    by_cases hm : matchEntry name.len name.chars ((fs.dir k).slot i) = true
    · rw [if_pos hm, if_pos hm]
      rfl
    · rw [if_neg hm, if_neg hm]
      exact ih (at_next hbi)

omit [DecidableEq ι] in
/-- The block of an entry below the size. -/
lemma HasBlocks.entry (h : fs.HasBlocks reads k) (hi : i * dirEntrySize < (fs.inode k).iSize.toNat) :
    fs.HasBlock reads k (i / dirEntriesPerBlock) := by
  apply h
  have hi : i * 16 < (fs.inode k).iSize.toNat := hi
  show i / 64 * 1024 < (fs.inode k).iSize.toNat
  omega

omit [DecidableEq ι] in
/-- An entry that there is is below the size. -/
lemma lt_entries (hi : i < (fs.dir k).entries) : i * dirEntrySize < (fs.inode k).iSize.toNat := by
  have hi : i < (fs.inode k).iSize.toNat / 16 := hi
  show i * 16 < (fs.inode k).iSize.toNat
  omega

omit [DecidableEq ι] in
/-- Without the first block there is no entry. -/
lemma HasBlocks.entries_of_not (h : fs.HasBlocks reads k) (h0 : ¬ fs.HasBlock reads k 0) :
    (fs.dir k).entries = 0 := by
  by_contra hc
  exact h0 (h.entry (lt_entries (Nat.pos_of_ne_zero hc)))

omit [DecidableEq ι] in
/-- There are no more entries than fit. -/
lemma HasBlocks.entries_le (h : fs.HasBlocks reads k) : (fs.dir k).entries ≤ maxBlocks * 64 := by
  by_contra hc
  have hlt : maxBlocks * 64 / 64 < maxBlocks := (h.entry (lt_entries (Nat.lt_of_not_le hc))).lt
  omega

omit [DecidableEq ι] in
/-- A directory that cannot become larger. -/
lemma HasBlocks.size_of_big (h : fs.HasBlocks reads k) (hal : (fs.dir k).Aligned)
    (hb : ¬ (fs.dir k).entries / dirEntriesPerBlock < maxBlocks) :
    (fs.dir k).iSize = maxBlocks * 1024 := by
  have hle := h.entries_le
  have hge : ¬ (fs.dir k).entries / 64 < maxBlocks := hb
  obtain ⟨m, hm⟩ := hal
  have hm : (fs.dir k).iSize = 16 * m := hm
  have he : (fs.dir k).entries = (fs.dir k).iSize / 16 := rfl
  omega

omit [DecidableEq ι] in
/-- The number of entries is an `int` that is not negative. -/
lemma HasBlocks.entries_eq (h : fs.HasBlocks reads k) :
    (((fs.inode k).iSize / 16).setWidth 32).toInt.toNat = (fs.dir k).entries := by
  have hmax : maxBlocks = 7 + 512 + 512 * 512 := rfl
  have hle : (fs.inode k).iSize.toNat / 16 ≤ maxBlocks * 64 := h.entries_le
  have hdiv : ((fs.inode k).iSize / 16).toNat = (fs.inode k).iSize.toNat / 16 := BitVec.toNat_udiv
  have hw : (((fs.inode k).iSize / 16).setWidth 32).toNat = (fs.inode k).iSize.toNat / 16 := by
    rw [BitVec.toNat_setWidth, hdiv]
    omega
  rw [BitVec.toInt_eq_toNat_of_lt (by omega), hw]
  rfl

/-- The first live entry of the name, among all entries. -/
lemma findEntry_eq (h : fs.HasBlocks reads k) : fs.findEntry newBlock now reads k name =
    .ret (((fs.dir k).findIn name (fs.dir k).entries 0 (fs.dir k).entries).map (fs.place k)) := by
  have hentries := h.entries_eq
  simp only [findEntry, hentries]
  by_cases hz : (fs.inode k).iZone 0 = 0
  · have h0 := h.entries_of_not fun hb => hb.ne (congrArg BitVec.toNat hz)
    rw [if_pos hz, h0]
    rfl
  rw [if_neg hz]
  by_cases hr : reads ((fs.inode k).iDev, ((fs.inode k).iZone 0).toNat) = true
  · rw [if_pos hr]
    apply findFrom_eq fun j hj => h.entry (lt_entries hj)
    refine .inl ⟨rfl, by decide, ?_, trivial, hr⟩
    exact fun h0 => hz (BitVec.eq_of_toNat_eq h0)
  · have h0 := h.entries_of_not fun hb => hr hb.read
    rw [if_neg hr, h0]
    rfl

/-! ## The loop of `add_entry` -/

/-- `add_entry` uses the first entry that is free, or the one behind the last. -/
structure FirstFree (d : Dir) (i : Nat) : Prop where
  le : i ≤ d.entries
  free : ¬ d.Live i
  used : ∀ j < i, d.Live j

/-- All entries are in use. -/
def Full (d : Dir) : Prop := ∀ j < d.entries, d.Live j

/-- What `add_entry` comes to: it has used an entry; it returns null, which leaves the directory as it
    is; or all entries are in use and it does not return, since the file cannot become larger or its
    next block cannot be read. -/
inductive Added (newBlock : Disk → Nat → Nat × Disk) (now : Nat) (reads : Nat × Nat → Bool)
    (fs : FileSys ι) (k : ι) (name : Name) : Result (Option EntryPtr × FileSys ι) → Prop where
  | used {i : Nat} {fs' : FileSys ι} : FirstFree (fs.dir k) i →
    Edits fs fs' k ((fs.dir k).addAt i name 0) → fs'.HasBlock reads k (i / dirEntriesPerBlock) →
    Added newBlock now reads fs k name (.ret (some (fs'.place k i), fs'))
  | null {fs' : FileSys ι} : Full (fs.dir k) → Edits fs fs' k (fs.dir k) →
    Added newBlock now reads fs k name (.ret (none, fs'))
  | panic : Full (fs.dir k) → (fs.dir k).iSize = maxBlocks * 1024 →
    Added newBlock now reads fs k name (.panic "_bmap: block>big")
  | fault {z : Nat} {fs' : FileSys ι} : Full (fs.dir k) →
    fs.createBlockReads newBlock now reads k ((fs.dir k).entries / dirEntriesPerBlock) = .ret (z, fs') →
    z ≠ 0 → reads (fs.dev k, z) = false → Added newBlock now reads fs k name .fault

/-- An entry that is there and is not free is passed over. -/
lemma useEntry_of_live (hb : fs.HasBlock reads k (i / dirEntriesPerBlock))
    (hi : i * dirEntrySize < (fs.inode k).iSize.toNat) (hl : ((fs.dir k).slot i).inode ≠ 0) :
    fs.useEntry now k name (fs.place k i) i = (false, fs) := by
  rw [useEntry, if_neg (Nat.not_le.2 hi)]
  have hne : ¬ (fs.deref (fs.place k i)).inode = 0 := by rwa [deref_place hb.lt hb.ne]
  exact if_neg hne

/-- The times of the directory, and then the name of an entry whose inode number is 0. -/
lemma finishEntry (now : Nat) (name : Name) (h : fs.WF)
    (hb : fs.HasBlock reads k (i / dirEntriesPerBlock)) (h0 : ((fs.dir k).slot i).inode = 0) :
    Edits fs ((fs.setFields k fun dir => { dir with iMtime := now }).setEntryName (fs.place k i) name) k
      ((fs.dir k).setSlot i (Dir.newEntry name 0)) := by
  have h₁ := setFields_edits (k := k) (f := fun dir => { dir with iMtime := now }) h rfl rfl
  have hb₁ := h₁.hasBlock hb
  have h₂ := setEntryName_edits name h₁.wf hb₁.lt hb₁.ne
  rw [h₁.place hb, h₁.dir] at h₂
  have h₃ := h₁.trans h₂
  simp only [h0] at h₃
  exact h₃

/-- A free entry is used. -/
lemma useEntry_of_free (now : Nat) (name : Name) (h : fs.WF)
    (hb : fs.HasBlock reads k (i / dirEntriesPerBlock)) (hi : i * dirEntrySize < (fs.inode k).iSize.toNat)
    (h0 : ((fs.dir k).slot i).inode = 0) :
    ∃ fs', fs.useEntry now k name (fs.place k i) i = (true, fs') ∧
      Edits fs fs' k ((fs.dir k).addAt i name 0) := by
  have he : (fs.deref (fs.place k i)).inode = 0 := by rwa [deref_place hb.lt hb.ne]
  have hadd : (fs.dir k).addAt i name 0 = (fs.dir k).setSlot i (Dir.newEntry name 0) := by
    have hlt : ¬ i * dirEntrySize ≥ (fs.dir k).iSize := Nat.not_le.2 hi
    rw [Dir.addAt, if_neg hlt]
    rfl
  rw [useEntry, if_neg (Nat.not_le.2 hi), hadd]
  exact ⟨_, if_pos he, finishEntry now name h hb h0⟩

/-- The directory grows by the entry `i`. -/
lemma growDir_edits (now : Nat) (h : fs.WF) (hb : fs.HasBlock reads k (i / dirEntriesPerBlock)) :
    Edits fs (fs.growDir now k (fs.place k i) i) k
      { (fs.dir k).setSlot i { (fs.dir k).slot i with inode := 0 } with
        iSize := (i + 1) * dirEntrySize } := by
  have hsize : (BitVec.ofNat 64 ((i + 1) * dirEntrySize)).toNat = (i + 1) * dirEntrySize := by
    have hmax : maxBlocks = 7 + 512 + 512 * 512 := rfl
    have hlt : i / 64 < maxBlocks := hb.lt
    show (BitVec.ofNat 64 ((i + 1) * 16)).toNat = (i + 1) * 16
    rw [BitVec.toNat_ofNat]
    omega
  have h₁ := setEntryInode_edits 0 h hb.lt hb.ne
  have h₂ := setFields_edits (k := k) (f := fun dir => { dir with
    iSize := .ofNat 64 ((i + 1) * dirEntrySize), iDirt := true, iCtime := now }) h₁.wf rfl rfl
  have h₁₂ := h₁.trans h₂
  simp only [h₁.dir, hsize] at h₁₂
  exact h₁₂

/-- Behind the last entry a new one is made and used. -/
lemma useEntry_of_end (now : Nat) (name : Name) (h : fs.WF)
    (hb : fs.HasBlock reads k (i / dirEntriesPerBlock)) (hi : ¬ i * dirEntrySize < (fs.inode k).iSize.toNat) :
    ∃ fs', fs.useEntry now k name (fs.place k i) i = (true, fs') ∧
      Edits fs fs' k ((fs.dir k).addAt i name 0) := by
  have hg := growDir_edits now h hb
  have hb' := hg.hasBlock hb
  have h0 : (((fs.growDir now k (fs.place k i) i).dir k).slot i).inode = 0 := by
    rw [hg.dir]
    simp [Dir.setSlot]
  have he := deref_place hb'.lt hb'.ne
  rw [hg.place hb] at he
  have hf := finishEntry now name hg.wf hb' h0
  rw [hg.place hb, hg.dir] at hf
  have hadd : (fs.dir k).addAt i name 0 =
      { (fs.dir k).setSlot i (Dir.newEntry name 0) with iSize := (i + 1) * dirEntrySize } := by
    have hle : i * dirEntrySize ≥ (fs.dir k).iSize := Nat.le_of_not_lt hi
    rw [Dir.addAt, if_pos hle]
    rfl
  rw [useEntry, if_pos (Nat.le_of_not_lt hi), hadd]
  refine ⟨_, if_pos ((congrArg DirEntry.inode he).trans h0), ?_⟩
  have h₂ := hg.trans hf
  simp only [Dir.setSlot, update_idem] at h₂
  exact h₂

omit [DecidableEq ι] in
/-- `create_block` leaves the directory as it is. -/
lemma edits_of_walked {s : Slot} (h : Walked fs fs' k s) (hz : fs.zone k (.top 0) ≠ 0) :
    Edits fs fs' k (fs.dir k) := by
  have hzone : (fs'.inode k).iZone 0 = (fs.inode k).iZone 0 :=
    BitVec.eq_of_toNat_eq (h.grows k (.top 0) (Nat.succ_pos 8) hz)
  have hcon : fs'.contents k = fs.contents k := funext (h.keeps.contents k)
  refine ⟨h.keeps.wf, ?_, h.keeps.dev k, h.grows k⟩
  rw [dir, h.keeps.size, hzone, hcon]
  rfl

/-- Without a buffer the loop does not come far. -/
lemma addFrom_none : fs.addFrom newBlock now reads k name n none i = .fault := by
  cases n with
  | zero => rfl
  | succ n => rfl

/-- A turn at an entry whose block is there. -/
lemma fetchOrCreate_at (h : fs.At reads k de i) (hb : fs.HasBlock reads k (i / dirEntriesPerBlock)) :
    fs.fetchOrCreate newBlock now reads k (some de) i = .ret (.entry (fs.place k i), fs) := by
  cases h with
  | inl h =>
    rw [h.1]
    exact if_pos index_place_lt
  | inr h =>
    obtain ⟨z, e, hz⟩ :
        ∃ z, fs.createBlockReads newBlock now reads k (i / dirEntriesPerBlock) = .ret (z, fs) ∧ _ :=
      bmapOrCreateReads_keep hb.lt fun _ => hb.ne
    obtain ⟨rfl, _⟩ := hz.resolve_left fun hf => hf.2 hb.path
    have hlt : ¬ de.index < dirEntriesPerBlock := by rw [h.1]; exact lt_irrefl _
    have hread : reads ((fs.inode k).iDev, fs.zone k (slotOf (i / dirEntriesPerBlock))) = true := hb.read
    show (if de.index < dirEntriesPerBlock then _ else _) = _
    rw [if_neg hlt, e, place_of_mod h.2]
    simp only [if_neg hb.ne, if_pos hread]
    rfl

/-- A turn that begins with a new block: `create_block` returns `z`. -/
lemma fetchOrCreate_next (ha : Allocates newBlock) (h : fs.WF) (hz : fs.zone k (.top 0) ≠ 0)
    (hindex : de.index = dirEntriesPerBlock) (hmod : i % dirEntriesPerBlock = 0)
    (hb : i / dirEntriesPerBlock < maxBlocks) :
    ∃ z fs₁, fs.createBlockReads newBlock now reads k (i / dirEntriesPerBlock) = .ret (z, fs₁) ∧
      Edits fs fs₁ k (fs.dir k) ∧
      fs.fetchOrCreate newBlock now reads k (some de) i = .ret
        (if z = 0 then .null else if reads (fs.dev k, z) then .entry (fs₁.place k i) else .skip, fs₁) ∧
      (z ≠ 0 → reads (fs.dev k, z) = true → fs₁.HasBlock reads k (i / dirEntriesPerBlock)) := by
  obtain ⟨z, fs₁, e, hw, hres⟩ : ∃ z fs₁,
      fs.createBlockReads newBlock now reads k (i / dirEntriesPerBlock) = .ret (z, fs₁) ∧ _ ∧ _ :=
    createBlockReads_walked ha h hb
  have hed := edits_of_walked hw hz
  have hdev : (fs₁.inode k).iDev = fs.dev k := hed.dev
  have hlt : ¬ de.index < dirEntriesPerBlock := by rw [hindex]; exact lt_irrefl _
  refine ⟨z, fs₁, e, hed, ?_, fun hz0 hr => ?_⟩
  · rw [fetchOrCreate, if_neg hlt, e]
    by_cases hz0 : z = 0
    · simp only [if_pos hz0]
    · obtain ⟨hzone, _⟩ := hres.resolve_left fun hf => hz0 hf.1
      have haddr : fs₁.addr k (slotOf (i / dirEntriesPerBlock)) = (fs.dev k, z) := by
        rw [addr, hed.dev, hzone]
      simp only [if_neg hz0, hdev, place_of_mod hmod, haddr]
      split
      · rfl
      · rfl
  · obtain ⟨hzone, hpath⟩ := hres.resolve_left fun hf => hz0 hf.1
    have haddr : fs₁.addr k (slotOf (i / dirEntriesPerBlock)) = (fs.dev k, z) := by
      rw [addr, hed.dev, hzone]
    exact ⟨hb, hzone ▸ hz0, hpath, haddr ▸ hr⟩

/-- The turn behind the last entry. -/
lemma addFrom_end (ha : Allocates newBlock) (h : fs.WF) (hz : fs.zone k (.top 0) ≠ 0)
    (hbs : fs.HasBlocks reads k) (hal : (fs.dir k).Aligned) (hfull : Full (fs.dir k))
    (hat : fs.At reads k de (fs.dir k).entries) :
    Added newBlock now reads fs k name
      (addFrom newBlock now reads k name (n + 1) (some de) (fs.dir k).entries fs) := by
  have hfirst : FirstFree (fs.dir k) (fs.dir k).entries :=
    ⟨le_rfl, fun hl => lt_irrefl _ hl.1, hfull⟩
  have hend : ¬ (fs.dir k).entries * dirEntrySize < (fs.inode k).iSize.toNat :=
    fun hc => lt_irrefl _ (hal.lt_entries.2 hc)
  rw [addFrom]
  cases hat with
  | inl hin =>
    -- the last block has room
    obtain ⟨fs', e, he⟩ := useEntry_of_end now name h hin.2 hend
    rw [fetchOrCreate_at (.inl hin) hin.2]
    simp only [e, if_true]
    rw [← he.place hin.2]
    exact .used hfirst he (he.hasBlock hin.2)
  | inr hout =>
    by_cases hb : (fs.dir k).entries / dirEntriesPerBlock < maxBlocks
    swap
    · -- the file cannot become larger
      have hlt : ¬ de.index < dirEntriesPerBlock := by rw [hout.1]; exact lt_irrefl _
      have e : fs.createBlockReads newBlock now reads k ((fs.dir k).entries / dirEntriesPerBlock) =
        .panic "_bmap: block>big" := if_pos (Nat.le_of_not_lt hb)
      rw [fetchOrCreate, if_neg hlt, e]
      exact .panic hfull (hbs.size_of_big hal hb)
    obtain ⟨z, fs₁, e, hed, hf, hb₁⟩ :
        ∃ z fs₁, fs.createBlockReads newBlock now reads k _ = .ret (z, fs₁) ∧ _ ∧ _ ∧ _ :=
      fetchOrCreate_next ha h hz hout.1 hout.2 hb
    rw [hf]
    by_cases hz0 : z = 0
    · simp only [if_pos hz0]
      exact .null hfull hed
    by_cases hr : reads (fs.dev k, z) = true
    swap
    · -- the next turn has no buffer
      simp only [if_neg hz0, if_neg hr]
      rw [addFrom_none]
      exact .fault hfull e hz0 (Bool.eq_false_iff.2 hr)
    have hb₁ := hb₁ hz0 hr
    have hsize : (fs₁.inode k).iSize.toNat = (fs.inode k).iSize.toNat := congrArg Dir.iSize hed.dir
    obtain ⟨fs', e', he⟩ := useEntry_of_end now name hed.wf hb₁ (hsize ▸ hend)
    have hed' := hed.trans he
    rw [hed.dir] at hed'
    simp only [if_neg hz0, if_pos hr, e', if_true]
    rw [← he.place hb₁]
    exact .used hfirst hed' (he.hasBlock hb₁)

/-- The loop of `add_entry`, which ends behind the last entry at the latest. -/
lemma addFrom_spec (ha : Allocates newBlock) (h : fs.WF) (hz : fs.zone k (.top 0) ≠ 0)
    (hbs : fs.HasBlocks reads k) (hal : (fs.dir k).Aligned) (hi : i ≤ (fs.dir k).entries)
    (hlive : ∀ j < i, (fs.dir k).Live j) (hn : (fs.dir k).entries - i < n) (hat : fs.At reads k de i) :
    Added newBlock now reads fs k name (addFrom newBlock now reads k name n (some de) i fs) := by
  induction n generalizing de i with
  | zero => exact absurd hn (Nat.not_lt_zero _)
  | succ n ih =>
    by_cases hend : i = (fs.dir k).entries
    · subst hend
      exact addFrom_end ha h hz hbs hal (fun j hj => hlive j hj) hat
    have hlt : i < (fs.dir k).entries := lt_of_le_of_ne hi hend
    have hsize := lt_entries hlt
    have hb := hbs.entry hsize
    rw [addFrom, fetchOrCreate_at hat hb]
    by_cases h0 : ((fs.dir k).slot i).inode = 0
    · obtain ⟨fs', e, he⟩ := useEntry_of_free now name h hb hsize h0
      simp only [e, if_true]
      rw [← he.place hb]
      exact .used ⟨hi, fun hl => hl.2 h0, hlive⟩ he (he.hasBlock hb)
    · simp only [useEntry_of_live hb hsize h0, Bool.false_eq_true, if_false]
      refine ih hlt (fun j hj => ?_) (by omega) (at_next hb)
      cases Nat.lt_succ_iff_lt_or_eq.1 hj with
      | inl hlt' => exact hlive j hlt'
      | inr e => exact e ▸ ⟨hlt, h0⟩

/-- What `add_entry` does to a directory whose blocks are there. -/
lemma addEntry_spec (ha : Allocates newBlock) (h : fs.WF) (hbs : fs.HasBlocks reads k)
    (hal : (fs.dir k).Aligned) :
    Added newBlock now reads fs k name (fs.addEntry newBlock now reads k name) := by
  have hnone : ¬ fs.HasBlock reads k 0 → Full (fs.dir k) := by
    intro h0 j hj
    rw [hbs.entries_of_not h0] at hj
    exact absurd hj (Nat.not_lt_zero j)
  rw [addEntry]
  by_cases hz : (fs.inode k).iZone 0 = 0
  · rw [if_pos hz]
    exact .null (hnone fun hb => hb.ne (congrArg BitVec.toNat hz)) (.refl h)
  by_cases hr : reads ((fs.inode k).iDev, ((fs.inode k).iZone 0).toNat) = true
  swap
  · rw [if_neg hz, if_neg hr]
    exact .null (hnone fun hb => hr hb.read) (.refl h)
  have hz' : fs.zone k (.top 0) ≠ 0 := fun h0 => hz (BitVec.eq_of_toNat_eq h0)
  rw [if_neg hz, if_pos hr]
  have hat : fs.At reads k ⟨((fs.inode k).iDev, ((fs.inode k).iZone 0).toNat), 0⟩ 0 :=
    .inl ⟨rfl, by decide, hz', trivial, hr⟩
  refine addFrom_spec ha h hz' hbs hal (Nat.zero_le _) nofun ?_ hat
  show (fs.inode k).iSize.toNat / 16 - 0 < (fs.inode k).iSize.toNat / 16 + 2
  omega

end

end FileSys

end OldLinux.Fs
