import OldLinux.Mm.ForkExit

/-!
# Clearing page tables

`clear_page_tables` (`mm/memory.c`) gives back every page below the lower half of a page directory but
clears none of the entries. Neither it nor `free_page_tables` changes a table, so what their loops do at
the tables and pages of a tree is a fixed list of visits, and the second of two passes makes the visits
of the first again.
-/

namespace OldLinux.Mm
open Lib Function

/-- `clear_page_tables(tsk)`. -/
def clearPageTables (c : Fin 64) : Prog Memory Unit := do
  let s ← Prog.get
  match s.pgd c with
  | none => pure ()
  | some dir =>
    if c = 0 then Prog.panic "task[0] (swapper) doesn't support exec() yet\n"
    else if dir = s.swapperPgDir then pure ()
    else forM lowerHalf (freeOneTable dir)

/-! ## Visits -/

/-- What the loops of `free_one_table` do, one after the other. -/
inductive Visit where
  | read (table : BitVec 64)
  | free (page : BitVec 64)

def Visit.run : Visit → Prog Memory PUnit
  | .read table => do
    let _ ← readPte table 0
    pure ()
  | .free page => freePage page

def leafVisits (mem : BitVec 64 → Fin 512 → BitVec 64) (l0 : BitVec 64) (k : Fin 512) : List Visit :=
  .read l0 :: (leafNodes (mem l0 k)).map .free

def l0Visits (mem : BitVec 64 → Fin 512 → BitVec 64) (l1 : BitVec 64) (j : Fin 512) : List Visit :=
  .read l1 ::
    if valid (mem l1 j) then
      (List.finRange 512).flatMap (leafVisits mem (pte2va (mem l1 j))) ++ [.free (pte2va (mem l1 j))]
    else []

def l1Visits (mem : BitVec 64 → Fin 512 → BitVec 64) (dir : BitVec 64) (i : Fin 512) : List Visit :=
  .read dir ::
    if valid (mem dir i) then
      (List.finRange 512).flatMap (l0Visits mem (pte2va (mem dir i))) ++ [.free (pte2va (mem dir i))]
    else []

/-- The visits of a pass over the lower half of a page directory. -/
def treeVisits (mem : BitVec 64 → Fin 512 → BitVec 64) (dir : BitVec 64) : List Visit :=
  lowerHalf.flatMap (l1Visits mem dir)

variable {m : BitVec 64 → Fin 512 → BitVec 64} {s s' : Memory} {V V' : List Visit} {t x dir : BitVec 64}
  {i : Fin 512}

/-- `free_page` leaves the pages. -/
lemma freePage_mem : Prog.wp (freePage x) (fun _ s' => s'.mem = s.mem) s := by
  rw [freePage]
  split
  · rw [Prog.wp_pure]
  · split
    · exact Prog.wp_panic
    · rw [Prog.wp_bind, readMap, Prog.wp_bind, Prog.wp_get]
      split
      · rw [Prog.wp_pure, Prog.wp_bind, writeMap, Prog.wp_modify]
        split
        · rw [Prog.wp_pure]
        · rw [Prog.wp_bind, writeMap, Prog.wp_modify]
          exact Prog.wp_panic
      · exact Prog.wp_fault

/-- No visit changes a table. -/
lemma visits_mem (V : List Visit) : Prog.wp (forM V Visit.run) (fun _ s' => s'.mem = s.mem) s := by
  induction V generalizing s with
  | nil => exact Prog.wp_pure.2 rfl
  | cons v V ih =>
    have hv : Prog.wp v.run (fun _ s' => s'.mem = s.mem) s := by
      cases v with
      | read t =>
        rw [Visit.run, Prog.wp_bind]
        refine readPte_wp.mono ?_
        rintro _ s' ⟨_, rfl⟩
        exact Prog.wp_pure.2 rfl
      | free x => exact freePage_mem
    rw [List.forM_cons, Prog.wp_bind]
    refine hv.mono ?_
    intro _ s₁ h₁
    refine ih.mono ?_
    intro _ s₂ h₂
    exact h₂.trans h₁

/-- A loop whose turns are visits. -/
lemma forM_visits {ι : Type} {l : List ι} {body : ι → Prog Memory PUnit} {visits : ι → List Visit}
    (hb : ∀ a s, s.mem = m → body a s = forM (visits a) Visit.run s) (hm : s.mem = m) :
    forM l body s = forM (l.flatMap visits) Visit.run s := by
  rw [Prog.forM_flatMap]
  induction l generalizing s with
  | nil => rfl
  | cons a l ih =>
    rw [List.forM_cons, List.forM_cons]
    show Prog.andThen _ _ s = Prog.andThen _ _ s
    rw [Prog.andThen, Prog.andThen, hb a s hm]
    cases hr : forM (visits a) Visit.run s with
    | ret r => exact ih ((visits_mem _ _ _ hr).trans hm)
    | panic msg => rfl
    | fault => rfl

/-- Reading an entry, and the visits that depend on it. -/
lemma read_visits {f : BitVec 64 → Prog Memory PUnit}
    (h : f (s.mem t i) s = forM V Visit.run s) :
    (readPte t i >>= f) s = forM (.read t :: V) Visit.run s := by
  rw [List.forM_cons]
  by_cases ht : Mapped t
  · rw [Prog.bind_of_ret (readPte_eq ht), h]
    have hrun : (Visit.read t).run s = .ret ((), s) := by
      rw [Visit.run, Prog.bind_of_ret (readPte_eq ht)]
      rfl
    rw [Prog.bind_of_ret hrun]
  · have hf : ∀ k, readPte t k s = .fault := by
      intro k
      rw [readPte, Prog.bind_of_ret (t := s) rfl, if_neg ht]
      rfl
    show Prog.andThen _ _ s = Prog.andThen (Prog.andThen _ _) _ s
    rw [Prog.andThen, Prog.andThen, Prog.andThen, hf, hf]

/-- A table is freed after the visits below it. -/
lemma table_visits {loop : Prog Memory PUnit} (h : loop s = forM V Visit.run s) :
    (loop >>= fun _ => freePage t) s = forM (V ++ [.free t]) Visit.run s := by
  rw [List.forM_append, List.forM_cons, List.forM_nil]
  show Prog.andThen _ _ s = Prog.andThen _ _ s
  rw [Prog.andThen, Prog.andThen, h]
  cases forM V Visit.run s with
  | ret r => exact congrFun (bind_pure_unit (m := Prog Memory) (x := freePage t)).symm r.2
  | panic msg => rfl
  | fault => rfl

/-- The visits for an entry of the last level. -/
lemma freeLeaf_visits (hm : s.mem = m) : freeLeaf t i s = forM (leafVisits m t i) Visit.run s := by
  subst hm
  rw [freeLeaf, leafVisits]
  apply read_visits
  rw [leafNodes]
  split
  · rw [List.map_singleton, List.forM_cons, List.forM_nil]
    exact congrFun (bind_pure_unit (m := Prog Memory)).symm s
  · rfl

/-- The visits for a table of the last level. -/
lemma freeL0_visits (hm : s.mem = m) : freeL0 t i s = forM (l0Visits m t i) Visit.run s := by
  subst hm
  rw [freeL0, l0Visits]
  apply read_visits
  split
  · apply table_visits
    apply forM_visits _ rfl
    intro k s' hm
    exact freeLeaf_visits hm
  · rfl

/-- The visits for an entry of the directory. -/
lemma freeOneTable_visits (hm : s.mem = m) :
    freeOneTable dir i s = forM (l1Visits m dir i) Visit.run s := by
  subst hm
  rw [freeOneTable, l1Visits]
  apply read_visits
  split
  · apply table_visits
    apply forM_visits _ rfl
    intro j s' hm
    exact freeL0_visits hm
  · rfl

/-- The pass of `clear_page_tables` and `free_page_tables` over a page directory. -/
lemma freeTree_visits : forM lowerHalf (freeOneTable dir) s = forM (treeVisits s.mem dir) Visit.run s := by
  apply forM_visits _ rfl
  intro i s' hm
  exact freeOneTable_visits hm

/-! ## The pages of the visits -/

def Visit.page? : Visit → Option (BitVec 64)
  | .read _ => none
  | .free page => some page

/-- The pages that are given back by a list of visits. -/
def givenBack (V : List Visit) : List (BitVec 64) := V.filterMap Visit.page?

/-- What two walks give back. -/
lemma givenBack_append : givenBack (V ++ V') = givenBack V ++ givenBack V' :=
  List.filterMap_append

/-- What many of them give back. -/
lemma givenBack_flatMap {ι : Type} {l : List ι} {visits : ι → List Visit} {nodes : ι → List (BitVec 64)}
    (h : ∀ a, (givenBack (visits a)).Perm (nodes a)) :
    (givenBack (l.flatMap visits)).Perm (l.flatMap nodes) := by
  rw [givenBack, List.filterMap_flatMap]
  exact List.Perm.flatMap_left _ fun a _ => h a

/-- A table is given back behind what is in it. -/
lemma givenBack_table {nodes : List (BitVec 64)} (h : (givenBack V).Perm nodes) :
    (givenBack (.read t :: (V ++ [.free x]))).Perm (x :: nodes) := by
  show (givenBack (V ++ [.free x])).Perm _
  rw [givenBack_append]
  exact (h.append_right _).trans (List.perm_append_singleton x nodes)

/-- An entry gives back its page. -/
lemma givenBack_leaf : (givenBack (leafVisits m t i)).Perm (leafNodes (m t i)) := by
  show (List.filterMap Visit.page? ((leafNodes (m t i)).map .free)).Perm _
  rw [List.filterMap_map]
  exact .of_eq (List.filterMap_some)

/-- A table gives back its pages and itself. -/
lemma givenBack_l0 : (givenBack (l0Visits m t i)).Perm (l0Nodes m (m t i)) := by
  rw [l0Visits, l0Nodes]
  split
  · apply givenBack_table
    apply givenBack_flatMap
    intro k
    exact givenBack_leaf
  · exact .refl _

/-- An entry of the directory gives back all below it. -/
lemma givenBack_l1 : (givenBack (l1Visits m dir i)).Perm (l1Nodes m (m dir i)) := by
  rw [l1Visits, l1Nodes]
  split
  · apply givenBack_table
    apply givenBack_flatMap
    intro j
    exact givenBack_l0
  · exact .refl _

/-- A pass gives back the pages of the tree. -/
lemma givenBack_tree : (givenBack (treeVisits m dir)).Perm (tree m dir) := by
  apply givenBack_flatMap
  intro i
  exact givenBack_l1

/-! ## What a pass does -/

/-- The entries of `mem_map` for the pages of a list that it counts, one for each of them. -/
def frames (l : List (BitVec 64)) : List Nat := (l.filter fun x => p2v lowMem ≤ x).map mapNr

/-- The memory after `free_page` has counted each page of a list once less. -/
def Memory.release (s : Memory) (l : List (BitVec 64)) : Memory :=
  { s with memMap := fun k => s.memMap k - .ofNat 16 ((frames l).count k) }

/-- `free_page` can be called for the pages of a list, one after the other. -/
structure Payable (l : List (BitVec 64)) (s : Memory) : Prop where
  below : ∀ x ∈ l, x < p2v highMemory
  counted : ∀ k, (frames l).count k ≤ (s.memMap k).toNat

variable {l l' : List (BitVec 64)} {k : Nat}

/-- The counts of two lists. -/
lemma frames_append : frames (l ++ l') = frames l ++ frames l' := by
  rw [frames, List.filter_append, List.map_append]
  rfl

/-- How often a page is in two lists. -/
lemma frames_count_append : (frames (l ++ l')).count k = (frames l).count k + (frames l').count k := by
  rw [frames_append, List.count_append]

/-- A page below the pool has no count. -/
lemma frames_low (h : x < p2v lowMem) : frames [x] = [] := by
  rw [frames, List.filter_cons_of_neg, List.filter_nil, List.map_nil]
  simpa using h

/-- One of the pool has one. -/
lemma frames_counted (h : p2v lowMem ≤ x) : frames [x] = [mapNr x] := by
  rw [frames, List.filter_cons_of_pos, List.filter_nil, List.map_singleton]
  simpa using h

/-- The order does not matter. -/
lemma frames_perm (h : l.Perm l') : (frames l).count k = (frames l').count k :=
  ((h.filter _).map mapNr).count_eq k

/-- Nothing is given back. -/
lemma release_nil : s.release [] = s := by
  rw [Memory.release]
  congr 1
  funext k
  exact BitVec.sub_zero _

/-- Two lists are given back. -/
lemma release_append : (s.release l).release l' = s.release (l ++ l') := by
  rw [Memory.release, Memory.release, Memory.release]
  congr 1
  funext k
  rw [frames_count_append, BitVec.ofNat_add, sub_add_eq_sub_sub]

/-- A count goes down by the number of times. -/
lemma release_toNat (h : Payable l s) :
    ((s.release l).memMap k).toNat = (s.memMap k).toNat - (frames l).count k := by
  have hk := h.counted k
  have hlt := (s.memMap k).isLt
  show (s.memMap k - .ofNat 16 ((frames l).count k)).toNat = _
  rw [BitVec.toNat_sub, BitVec.toNat_ofNat]
  omega

/-- The pages of two lists can be freed if those of the first can, and those of the second then. -/
lemma payable_append : Payable (l ++ l') s ↔ Payable l s ∧ Payable l' (s.release l) := by
  constructor
  · intro h
    have hl : Payable l s := by
      refine ⟨fun x hx => h.below x (List.mem_append_left _ hx), fun k => ?_⟩
      have hk := h.counted k
      rw [frames_count_append] at hk
      omega
    refine ⟨hl, fun x hx => h.below x (List.mem_append_right _ hx), fun k => ?_⟩
    have hk := h.counted k
    rw [frames_count_append] at hk
    rw [release_toNat hl]
    omega
  · rintro ⟨hl, hl'⟩
    refine ⟨fun x hx => ?_, fun k => ?_⟩
    · cases List.mem_append.1 hx with
      | inl hx => exact hl.below x hx
      | inr hx => exact hl'.below x hx
    · have hk := hl.counted k
      have hk' := hl'.counted k
      rw [release_toNat hl] at hk'
      rw [frames_count_append]
      omega

/-- Nothing can be given back. -/
lemma payable_nil : Payable [] s :=
  ⟨List.forall_mem_nil _, fun _ => Nat.zero_le _⟩

/-- A page below the pool can be given back. -/
lemma payable_low (h : x < p2v lowMem) : Payable [x] s := by
  refine ⟨fun y hy => ?_, fun k => ?_⟩
  · rw [List.mem_singleton.1 hy]
    exact BitVec.lt_trans h (by decide)
  · rw [frames_low h]
    exact Nat.zero_le _

/-- One of the pool can be if its count is not 0. -/
lemma payable_counted (h : p2v lowMem ≤ x) :
    Payable [x] s ↔ x < p2v highMemory ∧ s.memMap (mapNr x) ≠ 0 := by
  constructor
  · intro hp
    refine ⟨hp.below x (List.mem_singleton_self _), fun h0 => ?_⟩
    have hk := hp.counted (mapNr x)
    rw [frames_counted h, List.count_singleton_self, h0] at hk
    exact absurd hk (by decide)
  · rintro ⟨hx, h0⟩
    refine ⟨fun y hy => List.mem_singleton.1 hy ▸ hx, fun k => ?_⟩
    rw [frames_counted h, List.count_singleton]
    split
    · next e =>
      rw [← beq_iff_eq.1 e, Nat.one_le_iff_ne_zero]
      exact fun e0 => h0 (BitVec.eq_of_toNat_eq e0)
    · exact Nat.zero_le _

/-- It has a place in the map. -/
lemma mapNr_lt (hl : p2v lowMem ≤ x) (hh : x < p2v highMemory) : mapNr x < pagingPages := by
  rw [BitVec.le_def, lowMemory_toNat] at hl
  rw [BitVec.lt_def, highMemory_toNat] at hh
  rw [mapNr, BitVec.toNat_ushiftRight, BitVec.toNat_sub, lowMemory_toNat, Nat.shiftRight_eq_div_pow]
  show _ < 31232
  omega

/-- What `free_page` comes to for an address below the end of the memory. -/
lemma freePage_cases (hx : x < p2v highMemory) :
    (Payable [x] s ∧ freePage x s = .ret ((), s.release [x])) ∨
      (¬ Payable [x] s ∧ ∃ msg, freePage x s = .panic msg) := by
  by_cases hl : x < p2v lowMem
  · refine .inl ⟨payable_low hl, ?_⟩
    rw [freePage, if_pos hl, Memory.release, frames_low hl]
    have he : (fun k => s.memMap k - .ofNat 16 (List.count k [])) = s.memMap := by
      funext k
      exact BitVec.sub_zero _
    rw [he]
    rfl
  · have hl' := BitVec.not_lt.1 hl
    have hrun : freePage x s = (if s.memMap (mapNr x) ≠ 0 then pure () else do
        writeMap (mapNr x) 0
        Prog.panic "trying to free free page" : Prog Memory Unit)
          { s with memMap := update s.memMap (mapNr x) (s.memMap (mapNr x) - 1) } := by
      rw [freePage, if_neg hl, if_neg (BitVec.lt_asymm hx),
        Prog.bind_of_ret (readMap_eq (mapNr_lt hl' hx)), Prog.bind_of_ret (a := ()) rfl]
    rw [payable_counted hl', hrun]
    by_cases h0 : s.memMap (mapNr x) = 0
    · refine .inr ⟨fun h => h.2 h0, "trying to free free page", ?_⟩
      rw [if_neg (not_not.2 h0)]
      rfl
    · refine .inl ⟨⟨hx, h0⟩, ?_⟩
      rw [if_pos h0, Memory.release, frames_counted hl']
      have he : update s.memMap (mapNr x) (s.memMap (mapNr x) - 1) =
          fun k => s.memMap k - .ofNat 16 ([mapNr x].count k) := by
        funext k
        rw [List.count_singleton, update_apply]
        split
        · next e =>
          subst e
          simp
        · next e => simp [Ne.symm e]
      rw [he]
      rfl

/-- `free_page` does not return for an address behind the end of the memory. -/
lemma freePage_high (hx : ¬ x < p2v highMemory) : freePage x s ≠ .ret ((), s') := by
  have hh := BitVec.not_lt.1 hx
  have hl : ¬ x < p2v lowMem := BitVec.not_lt.2 (BitVec.le_trans (by decide) hh)
  rw [freePage, if_neg hl]
  split
  · rintro ⟨⟩
  · next hgt =>
    obtain rfl : x = p2v highMemory := BitVec.le_antisymm (BitVec.not_lt.1 hgt) hh
    have hout : ¬ mapNr (p2v highMemory) < pagingPages := by decide
    intro e
    obtain ⟨n, s₁, e₁, _⟩ := Prog.bind_ret_iff.1 e
    rw [readMap, Prog.bind_of_ret (t := s) rfl, if_neg hout] at e₁
    cases e₁

/-- `free_page` returns exactly where the page can be given back. -/
lemma freePage_ret_iff : freePage x s = .ret ((), s') ↔ Payable [x] s ∧ s' = s.release [x] := by
  by_cases hx : x < p2v highMemory
  · rcases freePage_cases (s := s) hx with ⟨hp, e⟩ | ⟨hp, msg, e⟩
    · rw [e]
      constructor
      · intro h
        cases h
        exact ⟨hp, rfl⟩
      · rintro ⟨_, rfl⟩
        rfl
    · rw [e]
      exact ⟨nofun, fun h => absurd h.1 hp⟩
  · exact ⟨fun e => absurd e (freePage_high hx),
      fun h => absurd (h.1.below x (List.mem_singleton_self _)) hx⟩

/-- A table is read exactly where it is mapped. -/
lemma read_ret_iff : (Visit.read t).run s = .ret ((), s') ↔ Mapped t ∧ s' = s := by
  rw [Visit.run]
  by_cases ht : Mapped t
  · rw [Prog.bind_of_ret (readPte_eq ht)]
    constructor
    · intro e
      cases e
      exact ⟨ht, rfl⟩
    · rintro ⟨_, rfl⟩
      rfl
  · refine ⟨fun e => ?_, fun h => absurd h.1 ht⟩
    obtain ⟨e', s₁, e₁, _⟩ := Prog.bind_ret_iff.1 e
    rw [readPte, Prog.bind_of_ret (t := s) rfl, if_neg ht] at e₁
    cases e₁

/-- Visits return if the tables can be read and the pages freed, and they change the counters only. -/
lemma visits_ret_iff : forM V Visit.run s = .ret ((), s') ↔
    (∀ t, .read t ∈ V → Mapped t) ∧ Payable (givenBack V) s ∧ s' = s.release (givenBack V) := by
  induction V generalizing s with
  | nil =>
    constructor
    · intro e
      cases e
      exact ⟨nofun, payable_nil, release_nil.symm⟩
    · rintro ⟨_, _, rfl⟩
      rw [givenBack, List.filterMap_nil, release_nil]
      rfl
  | cons v V ih =>
    rw [List.forM_cons, Prog.bind_ret_iff]
    cases v with
    | read t =>
      constructor
      · rintro ⟨_, s₁, e, e'⟩
        obtain ⟨ht, rfl⟩ := read_ret_iff.1 e
        obtain ⟨hr, hp, rfl⟩ := ih.1 e'
        refine ⟨fun u hu => ?_, hp, rfl⟩
        cases List.mem_cons.1 hu with
        | inl e =>
          cases e
          exact ht
        | inr hu => exact hr u hu
      · rintro ⟨hr, hp, hs⟩
        refine ⟨(), s, read_ret_iff.2 ⟨hr t List.mem_cons_self, rfl⟩, ih.2 ⟨?_, hp, hs⟩⟩
        exact fun u hu => hr u (List.mem_cons_of_mem _ hu)
    | free x =>
      have hg : givenBack (.free x :: V) = [x] ++ givenBack V := rfl
      rw [hg, payable_append]
      constructor
      · rintro ⟨_, s₁, e, e'⟩
        obtain ⟨hx, rfl⟩ := freePage_ret_iff.1 e
        obtain ⟨hr, hp, rfl⟩ := ih.1 e'
        refine ⟨fun u hu => hr u ?_, ⟨hx, hp⟩, release_append⟩
        cases hu with
        | tail _ hu => exact hu
      · rintro ⟨hr, ⟨hx, hp⟩, rfl⟩
        refine ⟨(), _, freePage_ret_iff.2 ⟨hx, rfl⟩, ih.2 ⟨?_, hp, release_append.symm⟩⟩
        exact fun u hu => hr u (List.mem_cons_of_mem _ hu)

/-- Where the tables can be read and the pages are in the memory, visits return or panic. -/
lemma visits_not_fault (hr : ∀ t, .read t ∈ V → Mapped t) (hx : ∀ x ∈ givenBack V, x < p2v highMemory) :
    forM V Visit.run s ≠ .fault := by
  induction V generalizing s with
  | nil => nofun
  | cons v V ih =>
    have ih : ∀ s, forM V Visit.run s ≠ .fault := by
      intro s
      refine ih (fun t ht => hr t (List.mem_cons_of_mem _ ht)) (fun x h => hx x ?_)
      cases v with
      | read t => exact h
      | free y => exact List.mem_cons_of_mem _ h
    rw [List.forM_cons]
    cases v with
    | read t =>
      rw [Prog.bind_of_ret (read_ret_iff.2 ⟨hr t List.mem_cons_self, rfl⟩)]
      exact ih s
    | free x =>
      rcases freePage_cases (s := s) (hx x List.mem_cons_self) with ⟨_, e⟩ | ⟨_, msg, e⟩
      · rw [Prog.bind_of_ret (m := Visit.run (.free x)) e]
        exact ih _
      · show Prog.andThen (freePage x) _ s ≠ _
        rw [Prog.andThen, e]
        nofun

/-! ## clear_page_tables -/

/-- `mem_map` counts each page twice for every entry of the lower half that names it, and the page
    directory once more. -/
def CountedTwice (s : Memory) (dir : BitVec 64) : Prop :=
  ∀ k, 2 * (frames (tree s.mem dir)).count k + (frames [dir]).count k ≤ (s.memMap k).toNat

variable {c : Fin 64} {s₁ : Memory}

/-- `clear_page_tables` is the walk through the tree. -/
lemma clearPageTables_eq (hc : c ≠ 0) (hd : s.pgd c = some dir) (hs : dir ≠ s.swapperPgDir) :
    clearPageTables c s = forM (treeVisits s.mem dir) Visit.run s := by
  rw [← freeTree_visits, clearPageTables, Prog.bind_of_ret (t := s) rfl, hd]
  show (if c = 0 then _ else if dir = s.swapperPgDir then _ else _ : Prog Memory Unit) s = _
  rw [if_neg hc, if_neg hs]

/-- `free_page_tables` gives the directory back at the end. -/
lemma freePageTables_eq (hc : c ≠ 0) (hd : s.pgd c = some dir) (hs : dir ≠ s.swapperPgDir) :
    freePageTables c s = forM (treeVisits s.mem dir ++ [.free dir]) Visit.run s := by
  rw [← table_visits freeTree_visits, freePageTables, Prog.bind_of_ret (t := s) rfl, hd]
  show (if c = 0 then _ else if dir = s.swapperPgDir then _ else _ : Prog Memory Unit) s = _
  rw [if_neg hc, if_neg hs]

/-- The walk reads the directory. -/
lemma read_dir_mem : .read dir ∈ treeVisits m dir :=
  List.mem_flatMap.2 ⟨0, by decide, List.mem_cons_self⟩

/-- What a pass that returns has required and done. -/
lemma clearPageTables_ret (hc : c ≠ 0) (hd : s.pgd c = some dir) (hs : dir ≠ s.swapperPgDir)
    (e : clearPageTables c s = .ret ((), s₁)) :
    (∀ t, .read t ∈ treeVisits s.mem dir → Mapped t) ∧ Payable (givenBack (treeVisits s.mem dir)) s ∧
      s₁ = s.release (givenBack (treeVisits s.mem dir)) := by
  rw [clearPageTables_eq hc hd hs] at e
  exact visits_ret_iff.1 e

/-- The second pass panics unless the counters allow for it. -/
lemma second_pass (hc : c ≠ 0) (hd : s.pgd c = some dir) (hs : dir ≠ s.swapperPgDir)
    (e : clearPageTables c s = .ret ((), s₁)) :
    (∀ msg, freePageTables c s₁ ≠ .panic msg) ↔ CountedTwice s dir := by
  obtain ⟨hr, hp, rfl⟩ := clearPageTables_ret hc hd hs e
  have hdir : dir < p2v highMemory := (hr dir read_dir_mem).2
  have hg : givenBack (treeVisits s.mem dir ++ [.free dir]) = givenBack (treeVisits s.mem dir) ++ [dir] :=
    givenBack_append
  have hbelow : ∀ x ∈ givenBack (treeVisits s.mem dir) ++ [dir], x < p2v highMemory := by
    intro x hx
    cases List.mem_append.1 hx with
    | inl hx => exact hp.below x hx
    | inr hx => exact List.mem_singleton.1 hx ▸ hdir
  have hread : ∀ t, .read t ∈ treeVisits s.mem dir ++ [.free dir] → Mapped t := by
    intro t ht
    cases List.mem_append.1 ht with
    | inl ht => exact hr t ht
    | inr ht => cases List.mem_singleton.1 ht
  have hperm : (givenBack (treeVisits s.mem dir)).Perm (tree s.mem dir) := givenBack_tree
  have hpay : Payable (givenBack (treeVisits s.mem dir) ++ [dir])
      (s.release (givenBack (treeVisits s.mem dir))) ↔ CountedTwice s dir := by
    refine ⟨fun h k => ?_, fun h => ⟨hbelow, fun k => ?_⟩⟩
    · have hk := h.counted k
      have hk' := hp.counted k
      rw [frames_count_append, release_toNat hp] at hk
      rw [← frames_perm hperm]
      omega
    · have hk := h k
      rw [← frames_perm hperm] at hk
      rw [frames_count_append, release_toNat hp]
      omega
  have hrun : freePageTables c (s.release (givenBack (treeVisits s.mem dir))) =
      forM (treeVisits s.mem dir ++ [.free dir]) Visit.run
        (s.release (givenBack (treeVisits s.mem dir))) :=
    freePageTables_eq hc hd hs
  rw [← hpay, hrun]
  constructor
  · intro hn
    cases hv : forM (treeVisits s.mem dir ++ [.free dir]) Visit.run
        (s.release (givenBack (treeVisits s.mem dir))) with
    | ret r =>
      have hret := (visits_ret_iff.1 hv).2.1
      rwa [hg] at hret
    | panic msg => exact absurd hv (hn msg)
    | fault => exact absurd hv (visits_not_fault hread (hg ▸ hbelow))
  · intro h msg
    rw [visits_ret_iff.2 ⟨hread, hg ▸ h, rfl⟩]
    nofun

/-- **`clear_page_tables` leaves a valid tree** only if each page of the tree is counted twice for every
    entry that names it: the entries stay, so the pages are still reachable, and are freed again with the
    page tables. -/
theorem clear_page_tables_leaves (hc : c ≠ 0) (hd : s.pgd c = some dir) (hs : dir ≠ s.swapperPgDir)
    (e : clearPageTables c s = .ret ((), s₁)) :
    ((∀ k ∈ frames (tree s₁.mem dir), s.memMap k ≠ 0 → s₁.memMap k ≠ 0) ∧
      ∀ msg, freePageTables c s₁ ≠ .panic msg) ↔ CountedTwice s dir := by
  rw [second_pass hc hd hs e]
  refine ⟨fun h => h.2, fun h => ⟨fun k hk _ => ?_, h⟩⟩
  obtain ⟨_, hp, rfl⟩ := clearPageTables_ret hc hd hs e
  have hin : 0 < (frames (tree s.mem dir)).count k := List.count_pos_iff.2 hk
  have hleft := release_toNat (k := k) hp
  have htwice := h k
  rw [frames_perm givenBack_tree] at hleft
  intro h0
  rw [h0] at hleft
  have hzero : (0 : BitVec 16).toNat = 0 := rfl
  omega

/-- The tables of the sample are cleared. -/
lemma onePage_clear : ∃ s₁, clearPageTables 1 onePage = .ret ((), s₁) := by
  have hd : onePage.pgd 1 = some (pageAddr 2) := by decide
  have hcov : Covered (tree onePage.mem (pageAddr 2)) onePage := by
    have h := (freeable_space onePage_init.1 onePage_init.2 (c := 1) (by decide)).covered
    rw [space_of_some hd] at h
    exact (h.perm (List.perm_append_singleton _ _).symm).left
  have hloop : Prog.returns (forM lowerHalf (freeOneTable (pageAddr 2)))
      (fun _ => Frees (tree onePage.mem (pageAddr 2)) onePage) onePage := by
    apply forM_frees _ rfl hcov
    intro i s hm hf
    exact freeOneTable_returns hm (by decide) hf
  obtain ⟨_, s₁, e, _⟩ := hloop
  refine ⟨s₁, ?_⟩
  rw [clearPageTables_eq (by decide) hd (by decide), ← freeTree_visits]
  exact e

/-- Task 1 has one page. -/
theorem clear_page_tables_leaves_onePage : ∃ s₁, clearPageTables 1 onePage = .ret ((), s₁) ∧
    (((∀ k ∈ frames (tree s₁.mem (pageAddr 2)), onePage.memMap k ≠ 0 → s₁.memMap k ≠ 0) ∧
      ∀ msg, freePageTables 1 s₁ ≠ .panic msg) ↔ CountedTwice onePage (pageAddr 2)) := by
  obtain ⟨s₁, e⟩ := onePage_clear
  exact ⟨s₁, e, clear_page_tables_leaves (by decide) (by decide) (by decide) e⟩

/-- The tables of task 1 and its page are free after `clear_page_tables` and still linked, and
    `free_page_tables` panics. -/
theorem clear_page_tables_dangle : ∃ s₁, clearPageTables 1 onePage = .ret ((), s₁) ∧
    (∀ k ∈ frames (tree s₁.mem (pageAddr 2)), onePage.memMap k = 1 ∧ s₁.memMap k = 0) ∧
    frames (tree s₁.mem (pageAddr 2)) = [3, 4, 5] ∧ ∃ msg, freePageTables 1 s₁ = .panic msg := by
  obtain ⟨s₁, e⟩ := onePage_clear
  have hd : onePage.pgd 1 = some (pageAddr 2) := by decide
  have hframes : frames (tree onePage.mem (pageAddr 2)) = [3, 4, 5] := by
    rw [onePage_tree]
    decide
  have hpanic := second_pass (by decide) hd (by decide) e
  obtain ⟨_, hp, rfl⟩ := clearPageTables_ret (by decide) hd (by decide) e
  refine ⟨_, e, fun k hk => ?_, hframes, ?_⟩
  · have hleft : (onePage.release (givenBack (treeVisits onePage.mem (pageAddr 2)))).memMap k =
        onePage.memMap k - .ofNat 16 ([3, 4, 5].count k) := by
      rw [← hframes, ← frames_perm givenBack_tree]
      rfl
    have hk : k ∈ frames (tree onePage.mem (pageAddr 2)) := hk
    rw [hframes] at hk
    rw [hleft]
    simp only [List.mem_cons, List.not_mem_nil, or_false] at hk
    obtain rfl | rfl | rfl := hk
    · decide
    · decide
    · decide
  · by_contra hn
    have htwice := hpanic.1 (not_exists.1 hn) 3
    rw [hframes] at htwice
    exact absurd htwice (by decide)

end OldLinux.Mm
