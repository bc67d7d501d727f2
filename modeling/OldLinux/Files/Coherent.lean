import OldLinux.Files.Disk

/-!
# The inodes in the table and on the disk

An inode of the mounted disk is in a slot of `inode_table`, or it is as the disk has it (`Tables.node`); the
functions on path names move inodes between the two. `Coherent` says that no inode is in two slots, and that a
slot with `i_dirt` clear holds what is on the disk, but for `i_mtime`, which `add_entry` sets without `i_dirt`.

`Walk t R` is what holds between two steps of such a function that began in `t`: the inodes are the same, and
the counts are `R`. The rules for `get_empty_inode`, `iput` and `iget` say that they keep it, and that they
return.
-/

namespace OldLinux.Files
open Lib Fs Function

variable {μ : Type}

/-- An inode without the time. -/
def attrs (d : DInode) : DInode := { d with iMtime := 0 }

namespace Tables

/-- The device of the mounted root. -/
def rootDev (s : Tables (RootDisk μ)) : Nat := s.kernel.super.sDev.toNat

/-- Slot `i` holds the inode `nr` of the mounted root. -/
def Caches (s : Tables (RootDisk μ)) (i : Fin 32) (nr : Nat) : Prop :=
  (s.inodeTable i).iDev = s.rootDev ∧ (s.inodeTable i).iNum = nr

instance (s : Tables (RootDisk μ)) (i : Fin 32) (nr : Nat) : Decidable (s.Caches i nr) :=
  inferInstanceAs (Decidable (_ ∧ _))

/-- The inode `nr`, from its slot or from the disk. -/
def node (s : Tables (RootDisk μ)) (nr : Nat) : Option DInode :=
  match (List.finRange 32).find? fun i => s.Caches i nr with
  | some i => some (attrs (s.inodeTable i).toDInode)
  | none => (s.kernel.dinode nr).map attrs

/-- The table agrees with the disk. -/
structure Coherent (s : Tables (RootDisk μ)) : Prop where
  dev : s.rootDev ≠ 0
  unique : ∀ i j nr, s.Caches i nr → s.Caches j nr → i = j
  pipe : ∀ i nr, s.Caches i nr → (s.inodeTable i).iPipe = false
  stored : ∀ i nr, s.Caches i nr → ∃ d, s.kernel.dinode nr = some d ∧
    ((s.inodeTable i).iDirt = false → attrs d = attrs (s.inodeTable i).toDInode)
  dirty : ∀ i, (s.inodeTable i).iCount = 0 → (s.inodeTable i).iDirt = true → (s.inodeTable i).iDev = s.rootDev

variable {s s' s'' t : Tables (RootDisk μ)} {i j e : Fin 32} {nr : Nat} {d : DInode}

/-- The attributes of a cached inode are those in its slot. -/
lemma Coherent.node_cached (h : s.Coherent) (hi : s.Caches i nr) :
    s.node nr = some (attrs (s.inodeTable i).toDInode) := by
  rw [node]
  cases hf : (List.finRange 32).find? fun i => s.Caches i nr with
  | none =>
    have hn := List.find?_eq_none.1 hf i (List.mem_finRange i)
    exact absurd (decide_eq_true hi) hn
  | some j =>
    have hj := of_decide_eq_true (List.find?_some hf :)
    rw [h.unique i j nr hi hj]

/-- Those of any other inode are on the disk. -/
lemma node_uncached (hn : ∀ i, ¬ s.Caches i nr) : s.node nr = (s.kernel.dinode nr).map attrs := by
  rw [node]
  cases hf : (List.finRange 32).find? fun i => s.Caches i nr with
  | none => rfl
  | some j => exact absurd (of_decide_eq_true (List.find?_some hf :)) (hn j)

/-- Nothing has changed but where the inodes are. -/
structure Moved (s s' : Tables (RootDisk μ)) : Prop where
  coherent : s'.Coherent
  kernel : s'.kernel = { s.kernel with dinode := s'.kernel.dinode }
  node : ∀ nr, s'.node nr = s.node nr

/-- Nothing done moves nothing. -/
lemma Moved.refl (h : s.Coherent) : Moved s s := ⟨h, rfl, fun _ => rfl⟩

/-- Two moves are one. -/
lemma Moved.trans (h : Moved s s') (h' : Moved s' s'') : Moved s s'' where
  coherent := h'.coherent
  kernel := by
    rw [h'.kernel, h.kernel]
  node nr := (h'.node nr).trans (h.node nr)

/-- The root device stays. -/
lemma Moved.rootDev (h : Moved s s') : s'.rootDev = s.rootDev := by
  rw [Tables.rootDev, h.kernel]
  rfl

/-- Slot `i` now holds `m`, and the disk the inodes `D`, but no inode has changed. -/
structure Replaced (s : Tables (RootDisk μ)) (i : Fin 32) (m : MInode) (D : Nat → Option DInode)
    (s' : Tables (RootDisk μ)) : Prop where
  self : s'.inodeTable i = m
  rest : ∀ j, j ≠ i → s'.inodeTable j = s.inodeTable j
  kernel : s'.kernel = { s.kernel with dinode := D }
  pipe : m.iDev = s.rootDev → m.iPipe = false
  stored : m.iDev = s.rootDev → ∃ d, D m.iNum = some d ∧ (m.iDirt = false → attrs d = attrs m.toDInode)
  dirty : m.iCount = 0 → m.iDirt = true → m.iDev = s.rootDev
  other : m.iDev = s.rootDev → ∀ j, j ≠ i → ¬ s.Caches j m.iNum
  disk : ∀ nr, ¬ s.Caches i nr → D nr = s.kernel.dinode nr
  new : m.iDev = s.rootDev → s.node m.iNum = some (attrs m.toDInode)
  old : ∀ nr, s.Caches i nr → ¬ (m.iDev = s.rootDev ∧ m.iNum = nr) → (D nr).map attrs = s.node nr

namespace Replaced
variable {m : MInode} {D : Nat → Option DInode}

/-- The inodes of the disk after a slot has been replaced. -/
lemma dinode (hr : s.Replaced i m D s') : s'.kernel.dinode = D := by rw [hr.kernel]

/-- The root device after a slot has been replaced. -/
lemma rootDev (hr : s.Replaced i m D s') : s'.rootDev = s.rootDev := by
  rw [Tables.rootDev, hr.kernel, Tables.rootDev]

/-- What the slot caches then. -/
lemma caches_self (hr : s.Replaced i m D s') : s'.Caches i nr ↔ m.iDev = s.rootDev ∧ m.iNum = nr := by
  rw [Caches, hr.self, hr.rootDev]

/-- The other slots cache what they did. -/
lemma caches_rest (hr : s.Replaced i m D s') (hj : j ≠ i) : s'.Caches j nr ↔ s.Caches j nr := by
  rw [Caches, Caches, hr.rest j hj, hr.rootDev]

/-- No slot has inode `nr`, now that slot `i` has not. -/
lemma not_caches (hr : s.Replaced i m D s') (hm : ¬ (m.iDev = s.rootDev ∧ m.iNum = nr))
    (hc : ∀ j, j ≠ i → ¬ s.Caches j nr) : ∀ j, ¬ s'.Caches j nr := by
  intro j hcj
  obtain rfl | e := eq_or_ne j i
  · exact hm (hr.caches_self.1 hcj)
  · exact hc j e ((hr.caches_rest e).1 hcj)

/-- No inode is cached twice. -/
lemma unique (hr : s.Replaced i m D s') (h : s.Coherent) {k : Fin 32} (hcj : s'.Caches j nr)
    (hck : s'.Caches k nr) : j = k := by
  by_cases ej : j = i <;> by_cases ek : k = i
  · rw [ej, ek]
  · rw [ej, hr.caches_self] at hcj
    rw [hr.caches_rest ek, ← hcj.2] at hck
    exact absurd hck (hr.other hcj.1 k ek)
  · rw [ek, hr.caches_self] at hck
    rw [hr.caches_rest ej, ← hck.2] at hcj
    exact absurd hcj (hr.other hck.1 j ej)
  · exact h.unique j k nr ((hr.caches_rest ej).1 hcj) ((hr.caches_rest ek).1 hck)

/-- The tables are coherent still. -/
lemma coherent (hr : s.Replaced i m D s') (h : s.Coherent) : s'.Coherent := by
  constructor
  · rw [hr.rootDev]
    exact h.dev
  · intro j k nr hcj hck
    exact hr.unique h hcj hck
  · intro j nr hc
    obtain rfl | e := eq_or_ne j i
    · rw [hr.self]
      exact hr.pipe (hr.caches_self.1 hc).1
    · rw [hr.rest j e]
      exact h.pipe j nr ((hr.caches_rest e).1 hc)
  · intro j nr hc
    rw [hr.dinode]
    obtain rfl | e := eq_or_ne j i
    · obtain ⟨hdev, rfl⟩ := hr.caches_self.1 hc
      rw [hr.self]
      exact hr.stored hdev
    · have hc := (hr.caches_rest e).1 hc
      rw [hr.rest j e, hr.disk nr fun hci => e (h.unique j i nr hc hci)]
      exact h.stored j nr hc
  · intro j hz hdt
    rw [hr.rootDev]
    obtain rfl | e := eq_or_ne j i
    · rw [hr.self] at hz hdt ⊢
      exact hr.dirty hz hdt
    · rw [hr.rest j e] at hz hdt ⊢
      exact h.dirty j hz hdt

/-- Every inode still has its attributes. -/
lemma node (hr : s.Replaced i m D s') (h : s.Coherent) (nr : Nat) : s'.node nr = s.node nr := by
  have hco := hr.coherent h
  by_cases hm : m.iDev = s.rootDev ∧ m.iNum = nr
  · obtain ⟨hdev, rfl⟩ := hm
    rw [hco.node_cached (hr.caches_self.2 ⟨hdev, rfl⟩), hr.self, hr.new hdev]
  by_cases hc : ∃ j, j ≠ i ∧ s.Caches j nr
  · obtain ⟨j, e, hc⟩ := hc
    rw [hco.node_cached ((hr.caches_rest e).2 hc), h.node_cached hc, hr.rest j e]
  have hn : ∀ j, j ≠ i → ¬ s.Caches j nr := fun j e hcj => hc ⟨j, e, hcj⟩
  rw [node_uncached (hr.not_caches hm hn), hr.dinode]
  by_cases hci : s.Caches i nr
  · exact hr.old nr hci hm
  · rw [node_uncached fun j hcj => hn j (fun e => hci (e ▸ hcj)) hcj, hr.disk nr hci]

end Replaced

/-- A slot and the inodes on the disk change, but no inode does. -/
lemma Coherent.update {m : MInode} {D : Nat → Option DInode} (h : s.Coherent)
    (hpipe : m.iDev = s.rootDev → m.iPipe = false)
    (hstored : m.iDev = s.rootDev → ∃ d, D m.iNum = some d ∧ (m.iDirt = false → attrs d = attrs m.toDInode))
    (hdirty : m.iCount = 0 → m.iDirt = true → m.iDev = s.rootDev)
    (hother : m.iDev = s.rootDev → ∀ j, j ≠ i → ¬ s.Caches j m.iNum)
    (hD : ∀ nr, ¬ s.Caches i nr → D nr = s.kernel.dinode nr)
    (hnew : m.iDev = s.rootDev → s.node m.iNum = some (attrs m.toDInode))
    (hold : ∀ nr, s.Caches i nr → ¬ (m.iDev = s.rootDev ∧ m.iNum = nr) → (D nr).map attrs = s.node nr) :
    Moved s { s with
      inodeTable := Function.update s.inodeTable i m
      kernel := { s.kernel with dinode := D } } := by
  have hr : s.Replaced i m D { s with
      inodeTable := Function.update s.inodeTable i m
      kernel := { s.kernel with dinode := D } } :=
    ⟨update_self .., fun j hj => update_of_ne hj .., rfl, hpipe, hstored, hdirty, hother, hD, hnew, hold⟩
  exact ⟨hr.coherent h, rfl, hr.node h⟩

/-- The place of the last search does not matter. -/
lemma Coherent.last (h : s.Coherent) : Moved s { s with lastAllocatedInode := e } :=
  ⟨⟨h.dev, h.unique, h.pipe, h.stored, h.dirty⟩, rfl, fun _ => rfl⟩

/-- Fields are set that do not say which inode is in the slot, or what the disk has of it. -/
lemma Coherent.set {m : MInode} (h : s.Coherent) (hd : m.toDInode = (s.inodeTable i).toDInode)
    (hdev : m.iDev = (s.inodeTable i).iDev) (hnum : m.iNum = (s.inodeTable i).iNum)
    (hpipe : m.iPipe = (s.inodeTable i).iPipe) (hclean : m.iDirt = false → (s.inodeTable i).iDirt = false)
    (hdirty : m.iCount = 0 → m.iDirt = true → m.iDev = s.rootDev) :
    Moved s { s with inodeTable := Function.update s.inodeTable i m } := by
  have hc : m.iDev = s.rootDev → s.Caches i m.iNum := fun hm => ⟨hdev ▸ hm, hnum.symm⟩
  refine h.update (D := s.kernel.dinode) (fun hm => ?_) (fun hm => ?_) hdirty (fun hm j hj hcj => ?_) (fun _ _ => rfl)
    (fun hm => ?_) fun nr hi hm => absurd ⟨hdev.trans hi.1, hnum.trans hi.2⟩ hm
  · rw [hpipe]
    exact h.pipe i _ (hc hm)
  · obtain ⟨d, hdisk, hd'⟩ := h.stored i _ (hc hm)
    rw [hd]
    exact ⟨d, hdisk, fun hm => hd' (hclean hm)⟩
  · exact hj (h.unique j i _ hcj (hc hm))
  · rw [h.node_cached (hc hm), hd]

/-- An inode is written to the disk. -/
lemma Coherent.write (h : s.Coherent) (hi : s.Caches i nr) :
    Moved s { s with
      inodeTable := Function.update s.inodeTable i { s.inodeTable i with iDirt := false }
      kernel := { s.kernel with dinode := Function.update s.kernel.dinode nr (some (s.inodeTable i).toDInode) } } := by
  obtain ⟨hdev, rfl⟩ := hi
  have hi : s.Caches i (s.inodeTable i).iNum := ⟨hdev, rfl⟩
  refine h.update (fun _ => h.pipe i _ hi) (fun _ => ⟨_, update_self .., fun _ => rfl⟩) nofun
    (fun _ j hj hcj => hj (h.unique j i _ hcj hi)) (fun nr hn => update_of_ne (fun e : nr = _ => hn (e ▸ hi)) ..)
    (fun _ => h.node_cached hi) fun nr hc hm => absurd ⟨hdev, hc.2⟩ hm

/-- A slot that agrees with the disk is cleared. -/
lemma Coherent.clear {m : MInode} (h : s.Coherent) (hclean : (s.inodeTable i).iDirt = false)
    (hdev : m.iDev = 0) (hdirt : m.iDirt = false) :
    Moved s { s with inodeTable := Function.update s.inodeTable i m } := by
  have hm : m.iDev ≠ s.rootDev := fun e => h.dev (e.symm.trans hdev)
  refine h.update (D := s.kernel.dinode) (fun e => absurd e hm) (fun e => absurd e hm) (fun _ e => ?_)
    (fun e => absurd e hm) (fun _ _ => rfl) (fun e => absurd e hm) fun nr hc _ => ?_
  · rw [hdirt] at e
    cases e
  · obtain ⟨d, hdisk, hd⟩ := h.stored i nr hc
    rw [hdisk, h.node_cached hc, Option.map_some, hd hclean]

/-- An inode is read into an empty slot. -/
lemma Coherent.read {m : MInode} (h : s.Coherent) (hd : s.kernel.dinode m.iNum = some m.toDInode)
    (hn : ∀ i, ¬ s.Caches i m.iNum) (hi : (s.inodeTable i).iDev = 0) (hdev : m.iDev = s.rootDev)
    (hpipe : m.iPipe = false) : Moved s { s with inodeTable := Function.update s.inodeTable i m } := by
  refine h.update (D := s.kernel.dinode) (fun _ => hpipe) (fun _ => ⟨_, hd, fun _ => rfl⟩) (fun _ _ => hdev)
    (fun _ j _ => hn j) (fun _ _ => rfl) (fun _ => ?_) fun nr hc _ => ?_
  · rw [node_uncached hn, hd]
    rfl
  · exact absurd (hc.1.symm.trans hi) h.dev

end Tables

/-! ## Reading and writing inodes -/

section
variable {reads : Nat × Nat → Bool} {sv : Services μ} {s s' t : Tables (RootDisk μ)} {i j e : Fin 32} {nr dev : Nat}
  {d d' : DInode} {k : RootDisk μ} {R R' : Fin 32 → Nat}

/-- A service that returns. -/
lemma service_of_ret {α κ : Type} {m : Prog κ α} {s : Tables κ} {a : α} {k : κ} (h : m s.kernel = .ret (a, k)) :
    service m s = .ret (a, { s with kernel := k }) := by
  rw [service, Prog.zoom, h]

/-- The super block of the root device is found. -/
lemma getSuper_root (h : k.super.sDev.toNat = dev) : Bitmap.getSuper k.super dev = some k.super := by
  rw [Bitmap.getSuper, if_pos (by rw [h])]

/-- Writing an inode stores its record. -/
lemma RootDisk.writeInode_eq (h : k.super.sDev.toNat = dev) (hd : k.dinode nr = some d') :
    RootDisk.writeInode dev nr d k = .ret ((), { k with dinode := update k.dinode nr (some d) }) := by
  rw [RootDisk.writeInode, Prog.bind_of_ret (m := Prog.get) (t := k) rfl]
  simp only [getSuper_root h, hd]
  rfl

/-- Reading one gives it. -/
lemma RootDisk.readInode_eq (h : k.super.sDev.toNat = dev) (hd : k.dinode nr = some d) :
    RootDisk.readInode dev nr k = .ret (d, k) := by
  rw [RootDisk.readInode, Prog.bind_of_ret (m := Prog.get) (t := k) rfl]
  simp only [getSuper_root h, hd]
  rfl

/-- What holds between two steps of a function that began in `t`, when the inodes have the counts `R`. Those
    that were in use stay in their slots. -/
structure Walk (t : Tables (RootDisk μ)) (R : Fin 32 → Nat) (s : Tables (RootDisk μ)) : Prop where
  holds : HoldsMod 0 t R s
  moved : t.Moved s
  base : ∀ i, (t.inodeTable i).iCount ≤ R i
  held : ∀ i, (t.inodeTable i).iCount ≠ 0 →
    (s.inodeTable i).iDev = (t.inodeTable i).iDev ∧ (s.inodeTable i).iNum = (t.inodeTable i).iNum

/-- A walk begins. -/
lemma Walk.start (h : t.Coherent) : Walk t (fun i => (t.inodeTable i).iCount) t where
  holds := .start
  moved := .refl h
  base _ := le_rfl
  held _ _ := ⟨rfl, rfl⟩

/-- A slot changes, and inodes on the disk. -/
lemma Walk.update {m : MInode} {D : Nat → Option DInode} (h : Walk t R s)
    (hm : s.Moved { s with
      inodeTable := Function.update s.inodeTable i m
      kernel := { s.kernel with dinode := D } })
    (hc : m.iCount = R' i) (hR : ∀ j, j ≠ i → R' j = R j) (hb : (t.inodeTable i).iCount ≤ R' i)
    (hheld : (t.inodeTable i).iCount ≠ 0 → m.iDev = (s.inodeTable i).iDev ∧ m.iNum = (s.inodeTable i).iNum) :
    Walk t R' { s with
      inodeTable := Function.update s.inodeTable i m
      kernel := { s.kernel with dinode := D } } := by
  refine ⟨⟨h.holds.task, h.holds.file, h.holds.isup, h.holds.imount, fun j => ?_, fun h0 => absurd rfl h0⟩,
    h.moved.trans hm, fun j => ?_, fun j hj => ?_⟩
  · show Nat.ModEq 0 (Function.update s.inodeTable i m j).iCount (R' j)
    obtain rfl | hne := eq_or_ne j i
    · rw [update_self, hc]
    · rw [update_of_ne hne, hR j hne]
      exact h.holds.count j
  · obtain rfl | hne := eq_or_ne j i
    · exact hb
    · rw [hR j hne]
      exact h.base j
  · show (Function.update s.inodeTable i m j).iDev = _ ∧ (Function.update s.inodeTable i m j).iNum = _
    obtain rfl | hne := eq_or_ne j i
    · rw [update_self, (hheld hj).1, (hheld hj).2]
      exact h.held j hj
    · rw [update_of_ne hne]
      exact h.held j hj

/-- `write_inode` of an inode of the mounted root. -/
lemma writeInode_eq (h : s.Coherent) (hi : s.Caches i nr) :
    writeInode (RootDisk.services reads sv) i s = .ret ((), { s with
      inodeTable := update s.inodeTable i { s.inodeTable i with iDirt := false }
      kernel := { s.kernel with dinode := update s.kernel.dinode nr (some (s.inodeTable i).toDInode) } }) := by
  obtain ⟨hdev, rfl⟩ := hi
  obtain ⟨d, hd, -⟩ := h.stored i _ ⟨hdev, rfl⟩
  have hget : inodeAt i s = .ret (s.inodeTable i, s) := rfl
  have hw := RootDisk.writeInode_eq (d := (s.inodeTable i).toDInode) hdev.symm hd
  have hserv : service ((RootDisk.services reads sv).writeInode (s.inodeTable i).iDev (s.inodeTable i).iNum
      (s.inodeTable i).toDInode) s = .ret ((), { s with kernel := { s.kernel with
        dinode := update s.kernel.dinode (s.inodeTable i).iNum (some (s.inodeTable i).toDInode) } }) :=
    service_of_ret hw
  rw [writeInode, Prog.bind_of_ret hget, Prog.bind_of_ret hserv]
  rfl

/-- `while (inode->i_dirt) write_inode(inode)`. -/
lemma writeIfDirty_walk (h : Walk t R s) (hd : (s.inodeTable i).iDirt = true → (s.inodeTable i).iDev = s.rootDev) :
    Prog.returns (writeIfDirty (RootDisk.services reads sv) i) (fun _ s' => Walk t R s' ∧
      s'.inodeTable = update s.inodeTable i { s.inodeTable i with iDirt := false } ∧ s'.rootDev = s.rootDev) s := by
  have hget : inodeAt i s = .ret (s.inodeTable i, s) := rfl
  rw [Prog.returns, writeIfDirty, Prog.bind_of_ret hget]
  by_cases hdt : (s.inodeTable i).iDirt = true
  · have hi : s.Caches i (s.inodeTable i).iNum := ⟨hd hdt, rfl⟩
    rw [if_pos hdt, writeInode_eq h.moved.coherent hi]
    refine ⟨_, _, rfl, h.update (h.moved.coherent.write hi) (h.holds.exact i) (fun _ _ => rfl) (h.base i)
      fun _ => ⟨rfl, rfl⟩, rfl, rfl⟩
  · rw [if_neg hdt]
    refine ⟨_, _, rfl, h, ?_, rfl⟩
    have hclean : { s.inodeTable i with iDirt := false } = s.inodeTable i := by
      rw [← Bool.eq_false_iff.2 hdt]
    rw [hclean, update_eq_self]

/-- With a free slot, the search finds one. -/
lemma emptySlot_some (h : (s.inodeTable i).iCount = 0) : ∃ e, emptySlot s = some e := by
  cases he : emptySlot s with
  | some e => exact ⟨e, rfl⟩
  | none =>
    have hmem : i ∈ (List.finRange 32).map (s.lastAllocatedInode + ·) :=
      List.mem_map.2 ⟨i - s.lastAllocatedInode, List.mem_finRange _, by simp⟩
    exact absurd (decide_eq_true h) (List.find?_eq_none.1 he i hmem)

/-- `get_empty_inode` returns a slot that was free. -/
lemma getEmptyInode_walk (h : Walk t R s) (hfree : ∃ i, R i = 0) :
    Prog.returns (getEmptyInode (RootDisk.services reads sv)) (fun e s' => Walk t (R + ref (some e)) s' ∧ R e = 0 ∧
      s'.inodeTable e = { MInode.zero with iCount := 1 }) s := by
  obtain ⟨i, hi⟩ := hfree
  obtain ⟨e, he⟩ := emptySlot_some ((h.holds.exact i).trans hi)
  have h0 : R e = 0 := (h.holds.exact e).symm.trans (emptySlot_free he)
  have ht0 : (t.inodeTable e).iCount = 0 := Nat.le_zero.1 ((h.base e).trans_eq h0)
  have h₁ : Walk t R { s with lastAllocatedInode := e } :=
    ⟨⟨h.holds.task, h.holds.file, h.holds.isup, h.holds.imount, h.holds.count, h.holds.small⟩,
      h.moved.trans h.moved.coherent.last, h.base, h.held⟩
  rw [getEmptyInode]
  refine Prog.returns_bind (Prog.returns_get ?_)
  simp only [he]
  refine Prog.returns_bind (Prog.returns_modify (Prog.returns_bind ?_))
  refine (writeIfDirty_walk h₁ fun hd => h.moved.coherent.dirty e (emptySlot_free he) hd).mono ?_
  rintro - s₂ ⟨h₂, htable, -⟩
  have hclean : (s₂.inodeTable e).iDirt = false := by
    rw [htable, update_self]
  refine Prog.returns_bind (Prog.returns_modify (Prog.returns_pure ⟨?_, h0, update_self ..⟩))
  refine h₂.update (D := s₂.kernel.dinode) (h₂.moved.coherent.clear hclean rfl rfl) ?_ (fun j hj => ?_) ?_
    fun hn => absurd ht0 hn
  · rw [Pi.add_apply, ref_self, h0]
  · rw [Pi.add_apply, ref_of_ne hj, Nat.add_zero]
  · rw [ht0]
    exact Nat.zero_le _

/-- A count becomes lower, of an inode that need not be written. -/
lemma dropCount_walk (h : Walk t (R + ref (some i)) s) (hb : ∀ i, (t.inodeTable i).iCount ≤ R i)
    (hd : R i = 0 → (s.inodeTable i).iDirt = true → (s.inodeTable i).iDev = s.rootDev) :
    Prog.returns (dropCount i) (fun _ s' => Walk t R s' ∧ ∀ j nr, s.Caches j nr → s'.Caches j nr) s := by
  have hc : (s.inodeTable i).iCount = R i + 1 := by
    rw [h.holds.exact, Pi.add_apply, ref_self]
  have hc' : (s.inodeTable i).iCount - 1 = R i := by omega
  refine Prog.returns_modify ⟨?_, fun j nr hj => ?_⟩
  · refine h.update (D := s.kernel.dinode) (h.moved.coherent.set rfl rfl rfl rfl id fun h0 => hd (hc'.symm.trans h0))
      hc' (fun j hj => ?_) (hb i) fun _ => ⟨rfl, rfl⟩
    rw [Pi.add_apply, ref_of_ne hj, Nat.add_zero]
  · show (update s.inodeTable i _ j).iDev = _ ∧ (update s.inodeTable i _ j).iNum = _
    obtain rfl | hne := eq_or_ne j i
    · rw [update_self]
      exact hj
    · rw [update_of_ne hne]
      exact hj

/-- `iput` of an inode that has links. -/
lemma iput_walk (h : Walk t (R + ref (some i)) s) (hb : ∀ i, (t.inodeTable i).iCount ≤ R i) (hi : s.Caches i nr)
    (hl : R i = 0 → (s.inodeTable i).iNlinks ≠ 0) :
    Prog.returns (iput (RootDisk.services reads sv) (some i)) (fun _ s' => Walk t R s') s := by
  have hc : (s.inodeTable i).iCount = R i + 1 := by
    rw [h.holds.exact, Pi.add_apply, ref_self]
  have hdev : (s.inodeTable i).iDev ≠ 0 := fun e => h.moved.coherent.dev (hi.1.symm.trans e)
  have hget : inodeAt i s = .ret (s.inodeTable i, s) := rfl
  have hpipe := h.moved.coherent.pipe i nr hi
  have hrun : iput (RootDisk.services reads sv) (some i) s =
      (if (s.inodeTable i).iDev = 0 ∨ (s.inodeTable i).iCount > 1 then dropCount i
        else if (s.inodeTable i).iNlinks = 0 then truncate (RootDisk.services reads sv) i >>= fun _ =>
          freeInode (RootDisk.services reads sv) i
        else writeIfDirty (RootDisk.services reads sv) i >>= fun _ => dropCount i) s := by
    rw [iput, Prog.bind_of_ret hget, if_neg (by omega), if_neg (by rw [hpipe]; exact Bool.false_ne_true)]
  rw [Prog.returns, hrun]
  by_cases h0 : R i = 0
  · have hone : ¬ ((s.inodeTable i).iDev = 0 ∨ (s.inodeTable i).iCount > 1) := by
      rintro (e | e)
      · exact hdev e
      · omega
    rw [if_neg hone, if_neg (hl h0)]
    refine Prog.returns_bind ((writeIfDirty_walk h fun _ => hi.1).mono ?_)
    rintro - s₂ ⟨h₂, htable, -⟩
    refine (dropCount_walk h₂ hb fun _ hd => ?_).mono fun _ _ h₃ => h₃.1
    rw [htable, update_self] at hd
    cases hd
  · rw [if_pos (.inr (by omega))]
    exact (dropCount_walk h hb fun e => absurd e h0).mono fun _ _ h₃ => h₃.1

/-- `iput` of a slot that `get_empty_inode` has returned. -/
lemma iput_empty_walk (h : Walk t (R + ref (some e)) s) (hb : ∀ i, (t.inodeTable i).iCount ≤ R i)
    (he : s.inodeTable e = { MInode.zero with iCount := 1 }) :
    Prog.returns (iput (RootDisk.services reads sv) (some e))
      (fun _ s' => Walk t R s' ∧ ∀ j nr, s.Caches j nr → s'.Caches j nr) s := by
  have hrun : iput (RootDisk.services reads sv) (some e) s = dropCount e s := by
    have hget : inodeAt e s = .ret (s.inodeTable e, s) := rfl
    rw [iput, Prog.bind_of_ret hget, he]
    rfl
  rw [Prog.returns, hrun]
  refine dropCount_walk h hb fun _ hd => ?_
  rw [he] at hd
  cases hd

/-- Another reference to an inode. -/
lemma Walk.withRef (h : Walk t R s) :
    Walk t (R + ref (some i)) { s with
      inodeTable := Function.update s.inodeTable i { s.inodeTable i with iCount := (s.inodeTable i).iCount + 1 } } := by
  refine h.update (D := s.kernel.dinode) (h.moved.coherent.set rfl rfl rfl rfl id fun h0 => nomatch h0) ?_
    (fun j hj => ?_) ?_ fun _ => ⟨rfl, rfl⟩
  · rw [Pi.add_apply, ref_self, h.holds.exact]
  · rw [Pi.add_apply, ref_of_ne hj, Nat.add_zero]
  · rw [Pi.add_apply, ref_self]
    exact Nat.le_succ_of_le (h.base i)

/-- A count that does not wrap is incremented. -/
lemma addCount_walk (h : Walk t R s) (hr : R i + 1 < 65536) :
    Prog.returns (addCount i) (fun _ s' => Walk t (R + ref (some i)) s' ∧
      (∀ j, j ≠ i → s'.inodeTable j = s.inodeTable j) ∧ ∀ j nr, s.Caches j nr → s'.Caches j nr) s := by
  have hc : ((s.inodeTable i).iCount + 1) % 65536 = (s.inodeTable i).iCount + 1 := by
    rw [h.holds.exact, Nat.mod_eq_of_lt hr]
  refine Prog.returns_modify ⟨?_, fun j hj => update_of_ne hj .., fun j nr hj => ?_⟩
  · simp only [hc]
    exact h.withRef
  · show (update s.inodeTable i _ j).iDev = _ ∧ (update s.inodeTable i _ j).iNum = _
    obtain rfl | hne := eq_or_ne j i
    · rw [update_self]
      exact hj
    · rw [update_of_ne hne]
      exact hj

/-- The inode is read into a slot that `get_empty_inode` has returned. -/
lemma readInode_walk (h : Walk t R s) (he : s.inodeTable e = { MInode.zero with iCount := 1 })
    (h0 : (t.inodeTable e).iCount = 0) (hn : ∀ i, ¬ s.Caches i nr) (hd : s.kernel.dinode nr = some d) :
    Prog.returns (setInode e (fun inode => { inode with iDev := s.rootDev, iNum := nr }) >>= fun _ =>
      readInode (RootDisk.services reads sv) e) (fun _ s' => Walk t R s' ∧ s'.Caches e nr) s := by
  let m : MInode := { MInode.zero with toDInode := d, iDev := s.rootDev, iNum := nr, iCount := 1 }
  have hmid : setInode e (fun inode => { inode with iDev := s.rootDev, iNum := nr }) s = .ret ((), { s with
      inodeTable := update s.inodeTable e { MInode.zero with iDev := s.rootDev, iNum := nr, iCount := 1 } }) := by
    rw [setInode, Prog.modify, he]
  have hread := service_of_ret (s := { s with
    inodeTable := update s.inodeTable e { MInode.zero with iDev := s.rootDev, iNum := nr, iCount := 1 } })
    (RootDisk.readInode_eq rfl hd)
  have hrun : (setInode e (fun inode => { inode with iDev := s.rootDev, iNum := nr }) >>= fun _ =>
      readInode (RootDisk.services reads sv) e) s = .ret ((), { s with inodeTable := update s.inodeTable e m }) := by
    rw [Prog.bind_of_ret hmid, readInode, Prog.bind_of_ret (m := inodeAt e) rfl]
    simp only [update_self]
    rw [Prog.bind_of_ret (m := service ((RootDisk.services reads sv).readInode s.rootDev nr)) hread, setInode,
      Prog.modify]
    simp only [update_self, update_idem]
    rfl
  refine ⟨_, _, hrun, ?_, ?_⟩
  · have hdev : (s.inodeTable e).iDev = 0 := by rw [he]; rfl
    refine h.update (D := s.kernel.dinode) (h.moved.coherent.read hd hn hdev rfl rfl) ?_ (fun _ _ => rfl) (h.base e)
      fun hne => absurd h0 hne
    rw [← h.holds.exact, he]
  · rw [Tables.Caches]
    show (update s.inodeTable e m e).iDev = _ ∧ (update s.inodeTable e m e).iNum = _
    rw [update_self]
    exact ⟨rfl, rfl⟩

/-- `iget` of an inode that there is. -/
lemma iget_walk (h : Walk t R s) (hn : s.node nr = some d) (hfree : ∃ i, R i = 0) (hr : ∀ i, R i + 1 < 65536) :
    Prog.returns (iget (RootDisk.services reads sv) s.rootDev nr)
      (fun i s' => Walk t (R + ref (some i)) s' ∧ s'.Caches i nr) s := by
  rw [iget, if_neg h.moved.coherent.dev]
  refine Prog.returns_bind ((getEmptyInode_walk h hfree).mono ?_)
  rintro e s₁ ⟨h₁, h0, he⟩
  have hroot : s.rootDev = s₁.rootDev := h.moved.rootDev.trans h₁.moved.rootDev.symm
  refine Prog.returns_bind (Prog.returns_get ?_)
  cases hf : (List.finRange 32).find? fun i => (s₁.inodeTable i).iDev = s.rootDev ∧ (s₁.inodeTable i).iNum = nr with
  | some i =>
    have hi : s₁.Caches i nr := by
      have hi := of_decide_eq_true (List.find?_some hf :)
      rwa [hroot] at hi
    have hie : e ≠ i := by
      rintro rfl
      have hdev := hi.1
      rw [he] at hdev
      exact h₁.moved.coherent.dev hdev.symm
    have hri : (R + ref (some e)) i + 1 < 65536 := by
      rw [Pi.add_apply, ref_of_ne hie.symm, Nat.add_zero]
      exact hr i
    refine Prog.returns_bind ((addCount_walk h₁ hri).mono ?_)
    rintro - s₂ ⟨h₂, hother, hk₂⟩
    rw [add_right_comm] at h₂
    refine Prog.returns_bind ((iput_empty_walk h₂ (fun j => (h.base j).trans (Nat.le_add_right _ _))
      ((hother e hie).trans he)).mono ?_)
    rintro - s₃ ⟨h₃, hk₃⟩
    exact Prog.returns_pure ⟨h₃, hk₃ i nr (hk₂ i nr hi)⟩
  | none =>
    have hno : ∀ i, ¬ s₁.Caches i nr := fun i hi => by
      have := List.find?_eq_none.1 hf i (List.mem_finRange i)
      rw [hroot] at this
      exact this (decide_eq_true hi)
    have hnode : (s₁.kernel.dinode nr).map attrs = some d := by
      rw [← Tables.node_uncached hno, h₁.moved.node, ← h.moved.node, hn]
    obtain ⟨d', hd', -⟩ := Option.map_eq_some_iff.1 hnode
    have ht0 : (t.inodeTable e).iCount = 0 := Nat.le_zero.1 ((h.base e).trans_eq h0)
    rw [hroot, ← bind_assoc]
    exact Prog.returns_bind ((readInode_walk h₁ he ht0 hno hd').mono fun _ _ h₂ => Prog.returns_pure h₂)

end

end OldLinux.Files
