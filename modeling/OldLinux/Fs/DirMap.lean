import OldLinux.Fs.DirFile
import OldLinux.Lib.SlotTable
import OldLinux.Lib.System

/-!
# Directories as finite maps

`find_entry` and `add_entry` (`fs/namei.c`) and the stores to `de->inode` of their callers, on the blocks
of one directory. The entries are a table of slots (`Dir.table`) with the names as keys: the loops look a
key up and fill the first free slot, a store of 0 frees a slot. So the directory is a finite map from
names to inode numbers (`directory_is_map`), over one call and over whole runs (`directory_run`).

This needs that no two blocks of the directory are in one zone: `add_entry` takes the next block that
`create_block` gives it to be unused (`add_entry_overwrites`).
-/

namespace OldLinux.Fs
open Lib Function

/-! ## The table of the names -/

namespace Dir
variable {d : Dir} {name : Name} {key : List (BitVec 8)} {inode : BitVec 16} {i j n entries : Nat}

/-- The live entries. -/
def table (d : Dir) : SlotTable (List (BitVec 8)) (BitVec 16) where
  size := d.entries
  slot i := if (d.slot i).inode = 0 then none else some ((d.slot i).str, (d.slot i).inode)

/-- A used entry in the table. -/
lemma table_slot (h : (d.slot i).inode ≠ 0) : d.table.slot i = some ((d.slot i).str, (d.slot i).inode) :=
  if_neg h

/-- The table holds the live names. -/
lemma holds_table : d.table.Holds i key ↔ d.Live i ∧ (d.slot i).str = key := by
  by_cases h0 : (d.slot i).inode = 0
  · have hnone : d.table.slot i = none := if_pos h0
    rw [SlotTable.Holds, hnone]
    refine iff_of_false ?_ fun h => h.1.2 h0
    rintro ⟨_, _, hv⟩
    cases hv
  · rw [SlotTable.Holds, table_slot h0]
    constructor
    · rintro ⟨hi, v, hv⟩
      exact ⟨⟨hi, h0⟩, congrArg Prod.fst (Option.some.inj hv)⟩
    · rintro ⟨hl, e⟩
      exact ⟨hl.1, _, by rw [e]⟩

/-- The table holds each name once. -/
lemma unique_table : d.table.Unique ↔ d.UniqueNames := by
  constructor
  · intro h i j hi hj e
    exact h _ i j (holds_table.2 ⟨hi, e⟩) (holds_table.2 ⟨hj, rfl⟩)
  · intro h key i j hi hj
    obtain ⟨hi, e⟩ := holds_table.1 hi
    obtain ⟨hj, e'⟩ := holds_table.1 hj
    exact h i j hi hj (e.trans e'.symm)

/-- An entry that `find_entry` has passed does not have the name. -/
lemma findIn_before (h : d.findIn name entries i n = some j) :
    ∀ l, i ≤ l → l < j → (d.slot l).inode ≠ 0 → (d.slot l).str ≠ name.key := by
  induction n generalizing i with
  | zero => cases h
  | succ n ih =>
    rw [findIn] at h
    split at h
    · split at h
      · cases h
        exact fun l h1 h2 => absurd h1 (Nat.not_le.2 h2)
      · next hm =>
        intro l h1 h2 h0
        cases Nat.eq_or_lt_of_le h1 with
        | inl e =>
          subst e
          exact fun hs => hm (matchEntry_iff.2 ⟨h0, hs⟩)
        | inr hlt => exact ih h l hlt h2 h0
    · cases h

/-- The search over the entries is the lookup in the table. -/
lemma findIn_eq_find : d.findIn name d.entries 0 d.entries = d.table.find name.key := by
  cases h : d.findIn name d.entries 0 d.entries with
  | none =>
    refine (SlotTable.find_eq_none.2 fun i hi => ?_).symm
    obtain ⟨hl, e⟩ := holds_table.1 hi
    exact findIn_none h (Nat.zero_le i) (by rw [Nat.zero_add]; exact hl.1) hl.1 hl.2 e
  | some i =>
    obtain ⟨_, hi, h0, e⟩ := findIn_some h
    refine (SlotTable.find_eq_some.2 ⟨holds_table.2 ⟨⟨hi, h0⟩, e⟩, fun j hj hk => ?_⟩).symm
    obtain ⟨hl, e'⟩ := holds_table.1 hk
    exact findIn_before h j (Nat.zero_le j) hj hl.2 e'

/-- A slot without a live entry is free. -/
lemma free_table (h : ¬ d.Live i) : d.table.Free i := by
  by_cases hi : i < d.entries
  · by_cases h0 : (d.slot i).inode = 0
    · exact .inr (if_pos h0)
    · exact absurd ⟨hi, h0⟩ h
  · exact .inl (Nat.le_of_not_lt hi)

/-- A new entry with an inode number. -/
lemma table_addAt (h : d.Aligned) (hi : i ≤ d.entries) (h0 : inode ≠ 0) :
    (d.addAt i name inode).table = d.table.put i name.key inode := by
  rw [table, SlotTable.put, SlotTable.mk.injEq]
  refine ⟨h.entries_addAt hi, funext fun j => ?_⟩
  by_cases hj : j = i
  · subst hj
    rw [update_self, slot_addAt_self, str_newEntry]
    exact if_neg h0
  · rw [update_of_ne hj, slot_addAt hj]
    rfl

/-- Clearing an entry leaves the others. -/
lemma slot_clear (h : j ≠ i) : (d.clear i).slot j = d.slot j := update_of_ne h _ _

/-- An entry that is cleared is unused. -/
lemma inode_clear : ((d.clear i).slot i).inode = 0 := by
  simp [clear]

/-- An entry that is freed. -/
lemma table_clear : (d.clear i).table = d.table.erase i := by
  rw [table, SlotTable.erase, SlotTable.mk.injEq]
  refine ⟨rfl, funext fun j => ?_⟩
  by_cases hj : j = i
  · subst hj
    rw [update_self]
    exact if_pos inode_clear
  · rw [update_of_ne hj, slot_clear hj]
    rfl

/-- The inode number of the entry that `add_entry` has made is set. -/
lemma addAt_setSlot {inode' : BitVec 16} :
    (d.addAt i name inode).setSlot i { (d.addAt i name inode).slot i with inode := inode' } =
      d.addAt i name inode' := by
  rw [slot_addAt_self, setSlot, addAt, addAt, Dir.mk.injEq]
  exact ⟨rfl, rfl, update_idem _ _ _⟩

end Dir

namespace FileSys

variable {ι : Type*} [DecidableEq ι] {newBlock : Disk → Nat → Nat × Disk} {now : Nat}
  {reads : Nat × Nat → Bool} {fs fs' fs₁ : FileSys ι} {k : ι} {n m : Name} {p q : EntryPtr}
  {inode : BitVec 16} {i : Nat} {d : Dir}

/-- A directory as the functions on names expect it: `i_size` is a multiple of 16, all blocks below it
    are mapped and can be read, and no two live entries have the same name. -/
structure IsDirectory (newBlock : Disk → Nat → Nat × Disk) (now : Nat) (reads : Nat × Nat → Bool)
    (fs : FileSys ι) (k : ι) : Prop where
  size : dirEntrySize ∣ (fs.inode k).iSize.toNat
  blocks : ∀ b, b * 1024 < (fs.inode k).iSize.toNat → ∃ z,
    fs.bmapReads newBlock now reads k b = .ret (z, fs) ∧ z ≠ 0 ∧ reads (fs.dev k, z) = true
  names : (fs.dir k).UniqueNames

/-- `find_entry(m)` gives the same result: the same entry, which has not changed, or nothing. -/
structure SameResult (newBlock : Disk → Nat → Nat × Disk) (now : Nat) (reads : Nat × Nat → Bool)
    (fs fs' : FileSys ι) (k : ι) (m : Name) : Prop where
  find : fs'.findEntry newBlock now reads k m = fs.findEntry newBlock now reads k m
  entry : ∀ q, fs.findEntry newBlock now reads k m = .ret (some q) → fs'.deref q = fs.deref q

/-- A directory has all its blocks. -/
lemma IsDirectory.hasBlocks (h : fs.IsDirectory newBlock now reads k) : fs.HasBlocks reads k := by
  intro b hlt
  obtain ⟨z, e, hz, hr⟩ := h.blocks b hlt
  have hb : b < maxBlocks := by
    by_contra hc
    rw [bmapReads, bmapOrCreateReads, if_pos (Nat.le_of_not_lt hc)] at e
    cases e
  obtain ⟨z', e', hz'⟩ : ∃ z', fs.bmapReads newBlock now reads k b = .ret (z', fs) ∧ _ :=
    bmapOrCreateReads_keep hb fun hf => by cases hf
  rw [e] at e'
  obtain ⟨rfl, _⟩ := Prod.mk.inj (Result.ret.inj e')
  obtain ⟨rfl, hpath⟩ := hz'.resolve_left fun hf => hz hf.1
  exact ⟨hb, hz, hpath, hr⟩

/-- Aligned, with all blocks and no name twice it is a directory. -/
lemma isDirectory_of (hs : (fs.dir k).Aligned) (hb : fs.HasBlocks reads k)
    (hu : (fs.dir k).UniqueNames) : fs.IsDirectory newBlock now reads k := by
  refine ⟨hs, fun b hlt => ?_, hu⟩
  have hb := hb b hlt
  obtain ⟨z, e, hz⟩ : ∃ z, fs.bmapReads newBlock now reads k b = .ret (z, fs) ∧ _ :=
    bmapOrCreateReads_keep hb.lt nofun
  obtain ⟨rfl, _⟩ := hz.resolve_left fun hf => hf.2 hb.path
  exact ⟨_, e, hb.ne, hb.read⟩

/-- `find_entry` looks the name up in the table. -/
lemma findEntry_eq_find (h : fs.HasBlocks reads k) : fs.findEntry newBlock now reads k n =
    .ret (((fs.dir k).table.find n.key).map (fs.place k)) := by
  rw [findEntry_eq h, Dir.findIn_eq_find]

omit [DecidableEq ι] in
/-- An entry that is found is in a block of the directory. -/
lemma HasBlocks.of_find (h : fs.HasBlocks reads k) {key : List (BitVec 8)}
    (hf : (fs.dir k).table.find key = some i) : fs.HasBlock reads k (i / dirEntriesPerBlock) :=
  h.entry (lt_entries (SlotTable.find_eq_some.1 hf).1.1)

/-- What `find_entry` finds is in the table. -/
lemma find_of_findEntry (h : fs.HasBlocks reads k)
    (hf : fs.findEntry newBlock now reads k n = .ret (some p)) :
    ∃ i, (fs.dir k).table.find n.key = some i ∧ p = fs.place k i := by
  rw [findEntry_eq_find h] at hf
  obtain ⟨i, hi, e⟩ := Option.map_eq_some_iff.1 (Result.ret.inj hf)
  exact ⟨i, hi, e.symm⟩

/-- What it does not find is not. -/
lemma find_of_findEntry_none (h : fs.HasBlocks reads k)
    (hf : fs.findEntry newBlock now reads k n = .ret none) : (fs.dir k).table.find n.key = none := by
  rw [findEntry_eq_find h] at hf
  exact Option.map_eq_none_iff.1 (Result.ret.inj hf)

/-- A change of the directory that leaves the lookup of a name alone, and the entry that it gives. -/
lemma Edits.sameResult (h : fs.HasBlocks reads k) (h' : fs'.HasBlocks reads k) (he : Edits fs fs' k d)
    (hf : d.table.find m.key = (fs.dir k).table.find m.key)
    (hs : ∀ i, (fs.dir k).table.find m.key = some i → d.slot i = (fs.dir k).slot i) :
    SameResult newBlock now reads fs fs' k m := by
  have hplace : ∀ i, (fs.dir k).table.find m.key = some i → fs'.place k i = fs.place k i :=
    fun i hi => he.place (h.of_find hi)
  constructor
  · rw [findEntry_eq_find h, findEntry_eq_find h', he.dir, hf]
    cases e : (fs.dir k).table.find m.key with
    | none => rfl
    | some i => rw [Option.map_some, Option.map_some, hplace i e]
  · intro q hq
    obtain ⟨i, hi, rfl⟩ := find_of_findEntry h hq
    have hb := h.of_find hi
    have hb' := he.hasBlock hb
    rw [deref_place hb.lt hb.ne, ← hplace i hi, deref_place hb'.lt hb'.ne, he.dir, hs i hi]

/-! ## The calls -/

omit [DecidableEq ι] in
/-- The blocks of the directory with the entry that is used. -/
lemma Edits.hasBlocks_addAt (h : fs.HasBlocks reads k) (hal : (fs.dir k).Aligned)
    (hi : i ≤ (fs.dir k).entries) (he : Edits fs fs' k ((fs.dir k).addAt i n inode))
    (hb : fs'.HasBlock reads k (i / dirEntriesPerBlock)) : fs'.HasBlocks reads k := by
  intro b hlt
  have hsize : (fs'.inode k).iSize.toNat = ((fs.dir k).addAt i n inode).iSize :=
    congrArg Dir.iSize he.dir
  by_cases hold : b * 1024 < (fs.inode k).iSize.toNat
  · exact he.hasBlock (h b hold)
  · -- the entry behind the last one is in this block
    have hb' : i / dirEntriesPerBlock = b := by
      obtain ⟨c, hc⟩ := hal
      have hc : (fs.dir k).iSize = 16 * c := hc
      have hold : ¬ b * 1024 < (fs.dir k).iSize := hold
      have hent : (fs.dir k).entries = (fs.dir k).iSize / 16 := rfl
      have hnew : ((fs.dir k).addAt i n inode).iSize =
        if i * 16 ≥ (fs.dir k).iSize then (i + 1) * 16 else (fs.dir k).iSize := rfl
      rw [hsize, hnew] at hlt
      show i / 64 = b
      split at hlt <;> omega
    exact hb' ▸ hb

/-- `add_entry` has used an entry, and then its inode number is set. -/
lemma Added.edits (hb : fs.HasBlocks reads k) (hal : (fs.dir k).Aligned)
    (h : Added newBlock now reads fs k n (.ret (some p, fs₁))) : ∃ i, FirstFree (fs.dir k) i ∧
      p = fs₁.place k i ∧ Edits fs fs₁ k ((fs.dir k).addAt i n 0) ∧
      ∀ inode, Edits fs (fs₁.setEntryInode p inode) k ((fs.dir k).addAt i n inode) ∧
        (fs₁.setEntryInode p inode).HasBlocks reads k ∧ (fs₁.setEntryInode p inode).place k i = p := by
  cases h with
  | @used i _ hfirst he hbi =>
    refine ⟨i, hfirst, rfl, he, fun inode => ?_⟩
    have hset := setEntryInode_edits inode he.wf hbi.lt hbi.ne
    have hall := he.trans hset
    rw [he.dir, Dir.addAt_setSlot] at hall
    exact ⟨hall, hall.hasBlocks_addAt hb hal hfirst.le (hset.hasBlock hbi), hset.place hbi⟩

/-- A directory is aligned. -/
lemma IsDirectory.aligned (h : fs.IsDirectory newBlock now reads k) : (fs.dir k).Aligned := h.size

/-- A directory has no name twice. -/
lemma IsDirectory.table_unique (h : fs.IsDirectory newBlock now reads k) : (fs.dir k).table.Unique :=
  Dir.unique_table.2 h.names

/-- A directory with a given table of names. -/
structure HasTable (newBlock : Disk → Nat → Nat × Disk) (now : Nat) (reads : Nat × Nat → Bool)
    (fs : FileSys ι) (k : ι) (t : SlotTable (List (BitVec 8)) (BitVec 16)) : Prop where
  wf : fs.WF
  dir : fs.IsDirectory newBlock now reads k
  table : (fs.dir k).table = t

/-- An entry with a name that was not there. -/
lemma add_hasTable (ha : Allocates newBlock) (hwf : fs.WF) (h : fs.IsDirectory newBlock now reads k)
    (hnone : fs.findEntry newBlock now reads k n = .ret none)
    (hadd : fs.addEntry newBlock now reads k n = .ret (some p, fs₁)) (h0 : inode ≠ 0) :
    ∃ i, FirstFree (fs.dir k) i ∧ (fs₁.setEntryInode p inode).place k i = p ∧
      Edits fs (fs₁.setEntryInode p inode) k ((fs.dir k).addAt i n inode) ∧
      HasTable newBlock now reads (fs₁.setEntryInode p inode) k
        ((fs.dir k).table.put i n.key inode) := by
  have hb := h.hasBlocks
  have hspec : Added newBlock now reads fs k n (.ret (some p, fs₁)) :=
    hadd ▸ addEntry_spec ha hwf hb h.aligned
  obtain ⟨i, hfirst, _, _, hset⟩ := hspec.edits hb h.aligned
  obtain ⟨he, hb', hplace⟩ := hset inode
  have ht : (((fs₁.setEntryInode p inode).dir k).table) = (fs.dir k).table.put i n.key inode := by
    rw [he.dir, Dir.table_addAt h.aligned hfirst.le h0]
  have hu := h.table_unique.put (v := inode) hfirst.le (find_of_findEntry_none hb hnone)
  refine ⟨i, hfirst, hplace, he, he.wf, isDirectory_of ?_ hb' ?_, ht⟩
  · rw [he.dir]
    exact Dir.aligned_addAt h.aligned
  · exact Dir.unique_table.1 (ht ▸ hu)

/-- An entry that is freed. -/
lemma remove_hasTable (hwf : fs.WF) (h : fs.IsDirectory newBlock now reads k)
    (hi : (fs.dir k).table.find n.key = some i) :
    Edits fs (fs.setEntryInode (fs.place k i) 0) k ((fs.dir k).clear i) ∧
      HasTable newBlock now reads (fs.setEntryInode (fs.place k i) 0) k ((fs.dir k).table.erase i) := by
  have hb := h.hasBlocks.of_find hi
  have he : Edits fs (fs.setEntryInode (fs.place k i) 0) k ((fs.dir k).clear i) :=
    setEntryInode_edits 0 hwf hb.lt hb.ne
  have ht : ((fs.setEntryInode (fs.place k i) 0).dir k).table = (fs.dir k).table.erase i := by
    rw [he.dir, Dir.table_clear]
  refine ⟨he, he.wf, isDirectory_of ?_ (fun b hlt => he.hasBlock (h.hasBlocks b hlt)) ?_, ht⟩
  · rw [he.dir]
    exact h.size
  · exact Dir.unique_table.1 (ht ▸ h.table_unique.erase)

/-- Null is returned. -/
lemma null_hasTable (ha : Allocates newBlock) (hwf : fs.WF) (h : fs.IsDirectory newBlock now reads k)
    (hadd : fs.addEntry newBlock now reads k n = .ret (none, fs₁)) :
    Edits fs fs₁ k (fs.dir k) ∧ HasTable newBlock now reads fs₁ k (fs.dir k).table := by
  have hb := h.hasBlocks
  have hspec : Added newBlock now reads fs k n (.ret (none, fs₁)) :=
    hadd ▸ addEntry_spec ha hwf hb h.aligned
  cases hspec with
  | null _ he =>
    have hsize : (fs₁.inode k).iSize.toNat = (fs.inode k).iSize.toNat := congrArg Dir.iSize he.dir
    refine ⟨he, he.wf, isDirectory_of ?_ (fun b hlt => he.hasBlock (hb b (hsize ▸ hlt))) ?_, ?_⟩
    · rw [he.dir]
      exact h.size
    · rw [he.dir]
      exact h.names
    · rw [he.dir]

/-! ## The law -/

/-- `find_entry` and `add_entry` on a directory as operations of a finite map, for one name `n`. -/
structure MapLaw (newBlock : Disk → Nat → Nat × Disk) (now : Nat) (reads : Nat × Nat → Bool)
    (fs : FileSys ι) (k : ι) (n : Name) : Prop where
  /-- A new name with an inode number is found, and the other names are where they were. -/
  add : ∀ p fs₁ inode, fs.findEntry newBlock now reads k n = .ret none →
    fs.addEntry newBlock now reads k n = .ret (some p, fs₁) → inode ≠ 0 →
      (fs₁.setEntryInode p inode).findEntry newBlock now reads k n = .ret (some p) ∧
        ((fs₁.setEntryInode p inode).deref p).inode = inode ∧
        ∀ m : Name, m.key ≠ n.key → SameResult newBlock now reads fs (fs₁.setEntryInode p inode) k m
  /-- A name whose entry is freed is not found any more, and the other names are where they were. -/
  remove : ∀ p, fs.findEntry newBlock now reads k n = .ret (some p) →
    (fs.setEntryInode p 0).findEntry newBlock now reads k n = .ret none ∧
      ∀ m : Name, m.key ≠ n.key → SameResult newBlock now reads fs (fs.setEntryInode p 0) k m
  /-- `add_entry` uses the first free entry, or the directory grows by one. -/
  slot : ∀ p fs₁, fs.addEntry newBlock now reads k n = .ret (some p, fs₁) →
    (∃ i < (fs.dir k).entries, p = fs.place k i ∧ ((fs.dir k).slot i).inode = 0 ∧
        (∀ j < i, ((fs.dir k).slot j).inode ≠ 0) ∧ (fs₁.inode k).iSize = (fs.inode k).iSize) ∨
      (∀ j < (fs.dir k).entries, ((fs.dir k).slot j).inode ≠ 0) ∧ p = fs₁.place k (fs.dir k).entries ∧
        (fs₁.inode k).iSize.toNat = (fs.inode k).iSize.toNat + 16
  /-- If it returns null nothing changes. -/
  null : ∀ fs₁, fs.addEntry newBlock now reads k n = .ret (none, fs₁) →
    ∀ m, SameResult newBlock now reads fs fs₁ k m
  /-- `find_entry` returns, and so does `add_entry`, unless all entries are in use and the file cannot
      become larger or its next block cannot be read. -/
  returns : (∃ r, fs.findEntry newBlock now reads k n = .ret r) ∧
    ((∃ r, fs.addEntry newBlock now reads k n = .ret r) ∨
      (∀ j < (fs.dir k).entries, ((fs.dir k).slot j).inode ≠ 0) ∧
        ((fs.inode k).iSize.toNat = maxBlocks * 1024 ∨
          ∃ z fs₁, fs.createBlockReads newBlock now reads k ((fs.dir k).entries / dirEntriesPerBlock) =
            .ret (z, fs₁) ∧ z ≠ 0 ∧ reads (fs.dev k, z) = false))

/-- A name that was added is found, and the others as before. -/
lemma law_add (ha : Allocates newBlock) (hwf : fs.WF) (h : fs.IsDirectory newBlock now reads k)
    (hnone : fs.findEntry newBlock now reads k n = .ret none)
    (hadd : fs.addEntry newBlock now reads k n = .ret (some p, fs₁)) (h0 : inode ≠ 0) :
    (fs₁.setEntryInode p inode).findEntry newBlock now reads k n = .ret (some p) ∧
      ((fs₁.setEntryInode p inode).deref p).inode = inode ∧
      ∀ m : Name, m.key ≠ n.key → SameResult newBlock now reads fs (fs₁.setEntryInode p inode) k m := by
  have hb := h.hasBlocks
  obtain ⟨i, hfirst, hplace, he, hc⟩ := add_hasTable ha hwf h hnone hadd h0
  have hb' := hc.dir.hasBlocks
  have hself := SlotTable.find_put_self (v := inode) hfirst.le (find_of_findEntry_none hb hnone)
  have hfind : ((fs₁.setEntryInode p inode).dir k).table.find n.key = some i := hc.table ▸ hself
  have hbi := hb'.of_find hfind
  have hderef := deref_place hbi.lt hbi.ne
  rw [hplace, he.dir, Dir.slot_addAt_self] at hderef
  refine ⟨?_, ?_, fun m hm => ?_⟩
  · rw [findEntry_eq_find hb', hfind, Option.map_some, hplace]
  · rw [hderef]
    rfl
  · refine he.sameResult hb hb' ?_ fun j hj => Dir.slot_addAt fun e => ?_
    · rw [Dir.table_addAt h.aligned hfirst.le h0]
      exact SlotTable.find_put_of_ne hfirst.le (Dir.free_table hfirst.free) hm
    · obtain ⟨hl, _⟩ := Dir.holds_table.1 (SlotTable.find_eq_some.1 hj).1
      exact hfirst.free (e ▸ hl)

/-- A name that was removed is not found, and the others as before. -/
lemma law_remove (hwf : fs.WF) (h : fs.IsDirectory newBlock now reads k)
    (hp : fs.findEntry newBlock now reads k n = .ret (some p)) :
    (fs.setEntryInode p 0).findEntry newBlock now reads k n = .ret none ∧
      ∀ m : Name, m.key ≠ n.key → SameResult newBlock now reads fs (fs.setEntryInode p 0) k m := by
  have hb := h.hasBlocks
  obtain ⟨i, hi, rfl⟩ := find_of_findEntry hb hp
  obtain ⟨he, hc⟩ := remove_hasTable hwf h hi
  have hb' := hc.dir.hasBlocks
  refine ⟨?_, fun m hm => ?_⟩
  · rw [findEntry_eq_find hb', hc.table, SlotTable.find_erase_self h.table_unique hi]
    rfl
  · refine he.sameResult hb hb' ?_ fun j hj => Dir.slot_clear fun e => ?_
    · rw [Dir.table_clear]
      exact SlotTable.find_erase_of_ne hi hm
    · exact hm ((SlotTable.find_eq_some.1 hi).1.inj (e ▸ (SlotTable.find_eq_some.1 hj).1))

/-- The place of a new name is the first free one, or at the end. -/
lemma law_slot (ha : Allocates newBlock) (hwf : fs.WF) (h : fs.IsDirectory newBlock now reads k)
    (hadd : fs.addEntry newBlock now reads k n = .ret (some p, fs₁)) :
    (∃ i < (fs.dir k).entries, p = fs.place k i ∧ ((fs.dir k).slot i).inode = 0 ∧
        (∀ j < i, ((fs.dir k).slot j).inode ≠ 0) ∧ (fs₁.inode k).iSize = (fs.inode k).iSize) ∨
      (∀ j < (fs.dir k).entries, ((fs.dir k).slot j).inode ≠ 0) ∧ p = fs₁.place k (fs.dir k).entries ∧
        (fs₁.inode k).iSize.toNat = (fs.inode k).iSize.toNat + 16 := by
  have hb := h.hasBlocks
  have hspec : Added newBlock now reads fs k n (.ret (some p, fs₁)) :=
    hadd ▸ addEntry_spec ha hwf hb h.aligned
  obtain ⟨i, hfirst, rfl, he, _⟩ := hspec.edits hb h.aligned
  have hsize : (fs₁.inode k).iSize.toNat = ((fs.dir k).addAt i n 0).iSize := congrArg Dir.iSize he.dir
  by_cases hi : i < (fs.dir k).entries
  · have hlt := lt_entries hi
    have h0 : ((fs.dir k).slot i).inode = 0 := by
      by_contra hc
      exact hfirst.free ⟨hi, hc⟩
    have hkeep : ((fs.dir k).addAt i n 0).iSize = (fs.dir k).iSize := if_neg (Nat.not_le.2 hlt)
    exact .inl ⟨i, hi, he.place (hb.entry hlt), h0, fun j hj => (hfirst.used j hj).2,
      BitVec.eq_of_toNat_eq (hsize.trans hkeep)⟩
  · obtain rfl : i = (fs.dir k).entries := le_antisymm hfirst.le (Nat.le_of_not_lt hi)
    obtain ⟨c, hc⟩ := h.aligned
    have hc : (fs.dir k).iSize = 16 * c := hc
    have hent : (fs.dir k).entries = (fs.dir k).iSize / 16 := rfl
    have hgrow : ((fs.dir k).addAt (fs.dir k).entries n 0).iSize = ((fs.dir k).entries + 1) * 16 := by
      refine if_pos ?_
      show (fs.dir k).entries * 16 ≥ (fs.dir k).iSize
      omega
    have hold : (fs.inode k).iSize.toNat = (fs.dir k).iSize := rfl
    refine .inr ⟨fun j hj => (hfirst.used j hj).2, rfl, ?_⟩
    omega

/-- A directory whose zones are pairwise distinct and marked used is a finite map from names to inode
    numbers. With one inode in the file system, nothing is asked of the others. -/
theorem directory_is_map (ha : Allocates newBlock) (hwf : fs.WF)
    (h : fs.IsDirectory newBlock now reads k) (n : Name) : MapLaw newBlock now reads fs k n where
  add _ _ _ hnone hadd h0 := law_add ha hwf h hnone hadd h0
  remove _ hp := law_remove hwf h hp
  slot _ _ hadd := law_slot ha hwf h hadd
  null _ hadd _ := by
    obtain ⟨he, hc⟩ := null_hasTable ha hwf h hadd
    exact he.sameResult h.hasBlocks hc.dir.hasBlocks rfl fun _ _ => rfl
  returns := by
    refine ⟨⟨_, findEntry_eq_find h.hasBlocks⟩, ?_⟩
    have hspec : Added newBlock now reads fs k n (fs.addEntry newBlock now reads k n) :=
      addEntry_spec ha hwf h.hasBlocks h.aligned
    generalize fs.addEntry newBlock now reads k n = r at hspec
    cases hspec with
    | used => exact .inl ⟨_, rfl⟩
    | null => exact .inl ⟨_, rfl⟩
    | panic hfull hmax => exact .inr ⟨fun j hj => (hfull j hj).2, .inl hmax⟩
    | fault hfull e hz hr => exact .inr ⟨fun j hj => (hfull j hj).2, .inr ⟨_, _, e, hz, hr⟩⟩

/-! ## A directory of one full block -/

/-- A block of 64 entries with the names 1 .. 64, one byte each. -/
def fullBlock : Bytes := fun x =>
  if x % 16 = 0 then 1 else if x % 16 = 2 then .ofNat 8 (x / 16 + 1) else 0

/-- A directory of one block, in zone 5, that is full; with the zone of the block behind it, and whether
    zone 5 is marked used. -/
def fullDir (second : BitVec 16) (marked : Bool) : FileSys Unit where
  disk := ⟨fun a => if a = (1, 5) then fullBlock else fun _ => 0, fun a => marked && a == (1, 5)⟩
  inode _ := { MInode.zero with
    iDev := 1, iSize := 1024, iZone := fun i => if i = 0 then 5 else if i = 1 then second else 0 }

/-- The names in the full block. -/
lemma str_fullBlock : ∀ i < 64, (dirEntryAt fullBlock (16 * i)).str = [.ofNat 8 (i + 1)] := by decide

/-- The full block is a directory. -/
lemma fullDir_isDirectory {second : BitVec 16} {marked : Bool} :
    (fullDir second marked).IsDirectory firstFit 0 (fun _ => true) () := by
  have hcon : ∀ off < 1024, (fullDir second marked).contents () off = fullBlock off := by
    intro off hoff
    have hq : off / 1024 = 0 := Nat.div_eq_of_lt hoff
    have hr : off % 1024 = off := Nat.mod_eq_of_lt hoff
    have hb : 0 < maxBlocks ∧ (fullDir second marked).zone () (slotOf 0) ≠ 0 :=
      ⟨Nat.succ_pos _, Nat.succ_ne_zero 4⟩
    rw [contents, hq, hr, if_pos hb]
    rfl
  have hstr : ∀ i < 64, (((fullDir second marked).dir ()).slot i).str = [.ofNat 8 (i + 1)] := by
    intro i hi
    have hslot : ((fullDir second marked).dir ()).slot i = dirEntryAt fullBlock (16 * i) := by
      apply dirEntryAt_congr
      intro x hx
      have hx : x < 16 := hx
      apply hcon
      show 16 * i + x < 1024
      omega
    rw [hslot, str_fullBlock i hi]
  refine ⟨⟨64, rfl⟩, fun b hb => ?_, fun i j hi hj e => ?_⟩
  · have hb : b * 1024 < 1024 := hb
    obtain rfl : b = 0 := by omega
    exact ⟨5, rfl, by decide, rfl⟩
  · have he : ((fullDir second marked).dir ()).entries = 64 := by
      simp [Dir.entries, dir, fullDir, dirEntrySize]
    have hi : i < 64 := he ▸ hi.1
    have hj : j < 64 := he ▸ hj.1
    rw [hstr i hi, hstr j hj, List.cons.injEq, ← BitVec.toNat_inj, BitVec.toNat_ofNat,
      BitVec.toNat_ofNat] at e
    omega

/-- The name `a`, which is not in the directory, and the name of its first entry. -/
def absentName : Name := ⟨[97], by decide, by decide⟩

def firstName : Name := ⟨[1], by decide, by decide⟩

/-- Its zones, if there is no second one. -/
lemma fullDir_wf : (fullDir 0 true).WF := by
  have hz : ∀ (k : Unit) {s : Slot}, s.Valid → (fullDir 0 true).zone k s ≠ 0 → s = .top 0 := by
    intro k s hs hne
    induction s with
    | top i =>
      by_contra hi
      have hi : i ≠ 0 := fun e => hi (congrArg Slot.top e)
      refine hne ?_
      simp [zone, fullDir, hi]
    | sub p e ih =>
      obtain rfl := ih hs.1.valid fun h0 => hne (zone_sub_of_zero h0)
      cases hs.1 with
      | inl h => cases h
      | inr h => cases h
  refine ⟨fun hs hne => ?_, fun hs hs' hne ha => ⟨rfl, ?_⟩⟩
  · obtain rfl := hz _ hs hne
    rfl
  · have hne' : (fullDir 0 true).zone _ _ ≠ 0 := fun h0 => hne ((congrArg Prod.snd ha).trans h0)
    rw [hz _ hs hne, hz _ hs' hne']

/-- The name `a` in a directory of one full block, which gets a second one. -/
theorem directory_is_map_grows : ∃ p fs₁,
    (fullDir 0 true).addEntry firstFit 0 (fun _ => true) () absentName = .ret (some p, fs₁) ∧
      (fs₁.inode ()).iSize.toNat = 1040 ∧
      (fs₁.setEntryInode p 7).findEntry firstFit 0 (fun _ => true) () absentName = .ret (some p) ∧
      (fs₁.setEntryInode p 7).findEntry firstFit 0 (fun _ => true) () firstName =
        .ret (some ⟨(1, 5), 0⟩) := by
  have law : MapLaw firstFit 0 (fun _ => true) (fullDir 0 true) () absentName :=
    directory_is_map allocates_firstFit fullDir_wf fullDir_isDirectory absentName
  have hnone : (fullDir 0 true).findEntry firstFit 0 (fun _ => true) () absentName = .ret none :=
    Result.toOption_eq_some.1 (by decide +kernel)
  have hfirst : (fullDir 0 true).findEntry firstFit 0 (fun _ => true) () firstName =
    .ret (some ⟨(1, 5), 0⟩) := Result.toOption_eq_some.1 (by decide +kernel)
  have hrun : ((fullDir 0 true).addEntry firstFit 0 (fun _ => true) () absentName).toOption.map
      (fun r => (r.1.isSome, (r.2.inode ()).iSize.toNat)) = some (true, 1040) := by decide +kernel
  cases e : (fullDir 0 true).addEntry firstFit 0 (fun _ => true) () absentName with
  | panic msg =>
    rw [e] at hrun
    cases hrun
  | fault =>
    rw [e] at hrun
    cases hrun
  | ret r =>
    obtain ⟨_ | p, fs₁⟩ := r
    · rw [e] at hrun
      cases hrun
    · rw [e] at hrun
      obtain ⟨hself, _, hothers⟩ := law.add p fs₁ 7 hnone e (by decide)
      exact ⟨p, fs₁, rfl, congrArg Prod.snd (Option.some.inj hrun), hself,
        (hothers firstName (by decide)).find.trans hfirst⟩

/-- `add_entry` of a new name makes `find_entry` lose another one. -/
def Loses (fs : FileSys Unit) : Prop :=
  fs.findEntry firstFit 0 (fun _ => true) () absentName = .ret none ∧
    fs.findEntry firstFit 0 (fun _ => true) () firstName = .ret (some ⟨(1, 5), 0⟩) ∧
    ∃ p fs₁, fs.addEntry firstFit 0 (fun _ => true) () absentName = .ret (some p, fs₁) ∧
      (fs₁.setEntryInode p 2).findEntry firstFit 0 (fun _ => true) () firstName = .ret none

/-- The same as a computation. -/
lemma loses_of {fs : FileSys Unit}
    (h : (fs.findEntry firstFit 0 (fun _ => true) () absentName).toOption = some none)
    (h' : (fs.findEntry firstFit 0 (fun _ => true) () firstName).toOption = some (some ⟨(1, 5), 0⟩))
    (hadd : (match fs.addEntry firstFit 0 (fun _ => true) () absentName with
      | .ret (some p, fs₁) =>
        ((fs₁.setEntryInode p 2).findEntry firstFit 0 (fun _ => true) () firstName).toOption
      | _ => none) = some none) : Loses fs := by
  refine ⟨Result.toOption_eq_some.1 h, Result.toOption_eq_some.1 h', ?_⟩
  cases e : fs.addEntry firstFit 0 (fun _ => true) () absentName with
  | panic msg =>
    rw [e] at hadd
    cases hadd
  | fault =>
    rw [e] at hadd
    cases hadd
  | ret r =>
    obtain ⟨_ | p, fs₁⟩ := r
    · rw [e] at hadd
      cases hadd
    · rw [e] at hadd
      exact ⟨p, fs₁, rfl, Result.toOption_eq_some.1 hadd⟩

/-- The next block of the directory is in the zone of the first one, or `new_block` gives it that zone,
    which is not marked used: the new entry is written over the first one, or all entries are cleared. -/
theorem add_entry_overwrites :
    ((fullDir 5 true).IsDirectory firstFit 0 (fun _ => true) () ∧ Loses (fullDir 5 true)) ∧
      (fullDir 0 false).IsDirectory firstFit 0 (fun _ => true) () ∧ Loses (fullDir 0 false) := by
  refine ⟨⟨fullDir_isDirectory, loses_of ?_ ?_ ?_⟩, fullDir_isDirectory, loses_of ?_ ?_ ?_⟩
  · decide +kernel
  · decide +kernel
  · decide +kernel
  · decide +kernel
  · decide +kernel
  · decide +kernel

/-! ## Runs -/

/-- What the callers of `find_entry` and `add_entry` do to the entries: an inode number for a name that
    they have not found, a name that could not be added, and 0 for a name that they have found. -/
inductive DirChange where
  | add (n : Name) (inode : BitVec 16)
  | addFails (n : Name)
  | remove (n : Name)

/-- The change of the map. -/
def DirChange.apply : DirChange → (List (BitVec 8) → Option (BitVec 16)) →
    List (BitVec 8) → Option (BitVec 16)
  | .add n inode, f => update f n.key (some inode)
  | .addFails _, f => f
  | .remove n, f => update f n.key none

/-- The changes on the disk. -/
inductive DirStep (newBlock : Disk → Nat → Nat × Disk) (now : Nat) (reads : Nat × Nat → Bool) (k : ι) :
    FileSys ι → DirChange → FileSys ι → Prop where
  | add {fs fs₁ : FileSys ι} {n : Name} {p : EntryPtr} {inode : BitVec 16} :
    fs.findEntry newBlock now reads k n = .ret none →
    fs.addEntry newBlock now reads k n = .ret (some p, fs₁) → inode ≠ 0 →
    DirStep newBlock now reads k fs (.add n inode) (fs₁.setEntryInode p inode)
  | addFails {fs fs₁ : FileSys ι} {n : Name} :
    fs.addEntry newBlock now reads k n = .ret (none, fs₁) →
    DirStep newBlock now reads k fs (.addFails n) fs₁
  | remove {fs : FileSys ι} {n : Name} {p : EntryPtr} :
    fs.findEntry newBlock now reads k n = .ret (some p) →
    DirStep newBlock now reads k fs (.remove n) (fs.setEntryInode p 0)

/-- Changes one after the other, from a directory in order. -/
def dirSystem (newBlock : Disk → Nat → Nat × Disk) (now : Nat) (reads : Nat × Nat → Bool) (k : ι) :
    System (FileSys ι) DirChange where
  init fs := fs.WF ∧ fs.IsDirectory newBlock now reads k
  step := DirStep newBlock now reads k

/-- The map that the directory is. -/
def names (fs : FileSys ι) (k : ι) : List (BitVec 8) → Option (BitVec 16) := (fs.dir k).table.get

/-- `find_entry` gives the inode number that the map has for the name. -/
theorem findEntry_names (h : fs.IsDirectory newBlock now reads k) :
    ∃ r, fs.findEntry newBlock now reads k n = .ret r ∧
      r.map (fun p => (fs.deref p).inode) = fs.names k n.key := by
  have hb := h.hasBlocks
  refine ⟨_, findEntry_eq_find hb, ?_⟩
  rw [names, SlotTable.get]
  cases hi : (fs.dir k).table.find n.key with
  | none => rfl
  | some i =>
    have hbi := hb.of_find hi
    obtain ⟨hl, _⟩ := Dir.holds_table.1 (SlotTable.find_eq_some.1 hi).1
    rw [Option.map_some, Option.map_some, Option.bind_some, deref_place hbi.lt hbi.ne,
      Dir.table_slot hl.2]
    rfl

/-- Each change keeps the directory and acts on its names. -/
lemma DirStep.keeps {c : DirChange} (ha : Allocates newBlock)
    (h : fs.WF ∧ fs.IsDirectory newBlock now reads k) (st : DirStep newBlock now reads k fs c fs') :
    (fs'.WF ∧ fs'.IsDirectory newBlock now reads k) ∧ fs'.names k = c.apply (fs.names k) := by
  obtain ⟨hwf, h⟩ := h
  cases st with
  | add hnone hadd h0 =>
    obtain ⟨i, hfirst, _, _, ht⟩ := add_hasTable ha hwf h hnone hadd h0
    refine ⟨⟨ht.wf, ht.dir⟩, ?_⟩
    rw [names, ht.table]
    have hkey := find_of_findEntry_none h.hasBlocks hnone
    exact SlotTable.get_put hfirst.le (Dir.free_table hfirst.free) hkey
  | addFails hadd =>
    obtain ⟨_, ht⟩ := null_hasTable ha hwf h hadd
    exact ⟨⟨ht.wf, ht.dir⟩, congrArg SlotTable.get ht.table⟩
  | remove hp =>
    obtain ⟨i, hi, rfl⟩ := find_of_findEntry h.hasBlocks hp
    obtain ⟨_, ht⟩ := remove_hasTable hwf h hi
    refine ⟨⟨ht.wf, ht.dir⟩, ?_⟩
    rw [names, ht.table]
    exact SlotTable.get_erase h.table_unique hi

/-- In every run the directory stays in order, and each change of the entries is the change of the map. -/
theorem directory_run (ha : Allocates newBlock) {tr : List (DirChange × FileSys ι)}
    (h0 : (dirSystem newBlock now reads k).init fs) (ex : (dirSystem newBlock now reads k).Exec fs tr) :
    Always (fun fs => fs.WF ∧ fs.IsDirectory newBlock now reads k) fs tr ∧
      Along (fun fs c fs' => fs'.names k = c.apply (fs.names k)) fs tr :=
  ex.along_of_inv (fun _ _ _ h st (_ : True) => DirStep.keeps ha h st) h0
    (.of_forall fun _ _ _ => trivial)

end FileSys

end OldLinux.Fs
