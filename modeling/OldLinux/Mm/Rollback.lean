import OldLinux.Mm.MapPage

/-!
# Running out of pages

What `map_page` does when `get_free_page` finds nothing. The pages it has taken are to be given back, but
the loop for that begins at the last of them, whose parent it looks up in `pte_record` one level too low:
there the record is still a null pointer. So a call gives up cleanly only if it has not taken a page yet.
-/

namespace OldLinux.Mm
open Lib Function

variable {s : Memory} {n leaf top : Nat} {t page table va pa perm pte : BitVec 64} {i : Fin 512}
  {pteRecord : Nat → BitVec 64}

/-- The number of free pages. -/
def freePages (s : Memory) : Nat := ((Finset.range pagingPages).filter fun k => s.memMap k = 0).card

/-- How many tables `map_page` has to add on its walk. -/
def missing (m : BitVec 64 → Fin 512 → BitVec 64) (va : BitVec 64) (leafLevel : Nat) :
    Nat → BitVec 64 → Nat
  | 0, _ => 0
  | n + 1, table =>
    let pte := m table (px (leafLevel + (n + 1)) va)
    if valid pte then missing m va leafLevel n (pte2va pte) else n + 1

/-- The tables that `map_page` reads are in the direct map and not free. -/
def Walkable (s : Memory) (va : BitVec 64) (leafLevel : Nat) : Nat → BitVec 64 → Prop
  | 0, _ => True
  | n + 1, table =>
    let pte := s.mem table (px (leafLevel + (n + 1)) va)
    Mapped table ∧ (Managed table → s.memMap (mapNr table) ≠ 0) ∧
      (valid pte = true → Walkable s va leafLevel n (pte2va pte))

/-- There is one free page less. -/
lemma freePages_taken (hm : Managed page) (h0 : s.memMap (mapNr page) = 0) :
    freePages (s.taken page) + 1 = freePages s := by
  have hin : mapNr page ∈ (Finset.range pagingPages).filter fun k => s.memMap k = 0 :=
    Finset.mem_filter.2 ⟨Finset.mem_range.2 hm.mapNr_lt, h0⟩
  have herase : ((Finset.range pagingPages).filter fun k => (s.taken page).memMap k = 0) =
      ((Finset.range pagingPages).filter fun k => s.memMap k = 0).erase (mapNr page) := by
    ext k
    have hk : (s.taken page).memMap k = if k = mapNr page then 1 else s.memMap k :=
      update_apply _ _ _ _
    rw [Finset.mem_erase, Finset.mem_filter, Finset.mem_filter, hk]
    split
    · next e => simp [e]
    · next e => simp [e]
  rw [freePages, herase, Finset.card_erase_add_one hin, freePages]

/-- There is one free page less when the page is linked in. -/
lemma freePages_linked (hm : Managed page) (h0 : s.memMap (mapNr page) = 0) :
    freePages (s.linked t i page) + 1 = freePages s :=
  freePages_taken hm h0

/-- `get_free_page` finds a page if there is one. -/
lemma getFreePage_cases :
    (freePages s = 0 ∧ getFreePage s = .ret (none, s)) ∨
      ∃ page, Managed page ∧ s.memMap (mapNr page) = 0 ∧ getFreePage s = .ret (some page, s.taken page) := by
  obtain ⟨r, m, e, ⟨rfl, rfl, hnone⟩ | ⟨page, rfl, hm, h0, rfl⟩⟩ := getFreePage_taken (s := s)
  · refine .inl ⟨Finset.card_eq_zero.2 (Finset.filter_eq_empty_iff.2 fun k hk h0 => ?_), e⟩
    have hk := Finset.mem_range.1 hk
    refine hnone (pageAddr k) ⟨k, hk, rfl⟩ ?_
    rw [mapNr_pageAddr hk, h0]
  · exact .inr ⟨page, hm, h0, e⟩

/-- An entry of a mapped table is read. -/
lemma readPte_ret (h : Mapped t) : readPte t i s = .ret (s.mem t i, s) := by
  rw [readPte, Prog.bind_of_ret (t := s) rfl, if_pos h]
  rfl

/-- A null pointer is a fault. -/
lemma readPte_null : readPte 0 i s = .fault := by
  rw [readPte, Prog.bind_of_ret (t := s) rfl, if_neg (by decide)]
  rfl

/-- Nothing has been recorded, so there is nothing to give back. -/
lemma rollback_nothing {level : Nat} : rollback va (fun _ => 0) level n s = .ret ((), s) := by
  induction n generalizing level with
  | zero => rfl
  | succ n ih =>
    rw [rollback, if_neg (fun h => h rfl)]
    exact ih

/-- The loop reads the table above the last one that was recorded from the record below it. -/
lemma rollback_null {level : Nat} (h : pteRecord level ≠ 0) (h0 : pteRecord (level - 1) = 0) :
    rollback va pteRecord level (n + 1) s = .fault := by
  rw [rollback, if_pos h, h0]
  show Prog.andThen _ _ s = _
  rw [Prog.andThen, readPte_null]

/-! ## The walk -/

/-- The walk goes on in the next table. -/
lemma mapPageWalk_found (h : Mapped table)
    (hv : valid (s.mem table (px (leaf + (n + 1)) va)) = true) :
    mapPageWalk va top leaf (n + 1) table pteRecord s =
      mapPageWalk va top leaf n (pte2va (s.mem table (px (leaf + (n + 1)) va))) pteRecord s := by
  rw [mapPageWalk, Prog.bind_of_ret (readPte_ret h), if_pos hv]

/-- It is rolled back when there is no page for one. -/
lemma mapPageWalk_full (h : Mapped table)
    (hv : valid (s.mem table (px (leaf + (n + 1)) va)) = false)
    (e : getFreePage s = .ret (none, s)) :
    mapPageWalk va top leaf (n + 1) table pteRecord s =
      Prog.andThen (rollback va pteRecord (leaf + (n + 1)) (top - (leaf + (n + 1))))
        (fun _ => pure none) s := by
  rw [mapPageWalk, Prog.bind_of_ret (readPte_ret h), if_neg (by rw [hv]; decide), Prog.bind_of_ret e]
  rfl

/-- It goes on in a new one. -/
lemma mapPageWalk_add (h : Mapped table)
    (hv : valid (s.mem table (px (leaf + (n + 1)) va)) = false) (hm : Managed page)
    (e : getFreePage s = .ret (some page, s.taken page)) :
    mapPageWalk va top leaf (n + 1) table pteRecord s =
      mapPageWalk va top leaf n page (update pteRecord (leaf + n) page)
        (s.linked table (px (leaf + (n + 1)) va) page) := by
  rw [mapPageWalk, Prog.bind_of_ret (readPte_ret h), if_neg (by rw [hv]; decide), Prog.bind_of_ret e]
  show mapPageWalk va top leaf n (pte2va (va2pte page ||| pteV)) _ _ = _
  rw [(link_spec hm).2.2]
  rfl

/-- A managed page is not at 0. -/
lemma Managed.ne_zero (h : Managed t) : t ≠ 0 := by
  rintro rfl
  exact absurd h.mapped (by decide)

/-- The walk through new tables: it ends at the leaf, or it takes the last page and then traps. -/
lemma mapPageWalk_new (hr : pteRecord (leaf + n) ≠ 0) (hlow : ∀ l < leaf + n, pteRecord l = 0)
    (htop : leaf + n < top) (hm : Managed page) (hempty : s.mem page = fun _ => 0)
    (hcount : s.memMap (mapNr page) ≠ 0) :
    (n ≤ freePages s → ∃ t s', mapPageWalk va top leaf n page pteRecord s = .ret (some t, s')) ∧
      (freePages s < n → mapPageWalk va top leaf n page pteRecord s = .fault) := by
  induction n generalizing s page pteRecord with
  | zero => exact ⟨fun _ => ⟨page, s, rfl⟩, nofun⟩
  | succ n ih =>
    have hv : valid (s.mem page (px (leaf + (n + 1)) va)) = false := by
      rw [hempty]
      exact valid_zero
    rcases getFreePage_cases (s := s) with ⟨hnone, e⟩ | ⟨new, hmn, h0, e⟩
    · -- the loop has a turn, as the table before was new
      refine ⟨fun h => absurd h (by omega), fun _ => ?_⟩
      obtain ⟨k, hk⟩ := Nat.exists_eq_add_of_lt htop
      have hturns : top - (leaf + (n + 1)) = k + 1 := by omega
      rw [mapPageWalk_full hm.mapped hv e, hturns, Prog.andThen,
        rollback_null hr (hlow _ (Nat.lt_succ_self _))]
    · have hne : new ≠ page := by
        rintro rfl
        exact hcount h0
      have hr' : update pteRecord (leaf + n) new (leaf + n) ≠ 0 := by
        rw [update_self]
        exact hmn.ne_zero
      have hlow' : ∀ l < leaf + n, update pteRecord (leaf + n) new l = 0 := by
        intro l hl
        rw [update_of_ne (Nat.ne_of_lt hl)]
        exact hlow l (Nat.lt_succ_of_lt hl)
      obtain ⟨hend, htrap⟩ := ih hr' hlow' (by omega) hmn
        (linked_row hne (i := px (leaf + (n + 1)) va) (s := s)) (linked_used hmn)
      have hfree := freePages_linked (t := page) (i := px (leaf + (n + 1)) va) hmn h0
      rw [mapPageWalk_add hm.mapped hv hmn e]
      exact ⟨fun h => hend (by omega), fun h => htrap (by omega)⟩

/-- How the walk of `map_page` ends. -/
lemma mapPageWalk_outcome (h : Walkable s va leaf n table) (htop : leaf + n ≤ top) :
    (missing s.mem va leaf n table ≤ freePages s →
      ∃ t s', mapPageWalk va top leaf n table (fun _ => 0) s = .ret (some t, s')) ∧
    (freePages s < missing s.mem va leaf n table → freePages s = 0 →
      mapPageWalk va top leaf n table (fun _ => 0) s = .ret (none, s)) ∧
    (freePages s < missing s.mem va leaf n table → freePages s ≠ 0 →
      mapPageWalk va top leaf n table (fun _ => 0) s = .fault) := by
  induction n generalizing table with
  | zero => exact ⟨fun _ => ⟨table, s, rfl⟩, nofun, nofun⟩
  | succ n ih =>
    obtain ⟨hmap, hused, hnext⟩ := h
    cases hv : valid (s.mem table (px (leaf + (n + 1)) va)) with
    | true =>
      have hm : missing s.mem va leaf (n + 1) table =
          missing s.mem va leaf n (pte2va (s.mem table (px (leaf + (n + 1)) va))) := if_pos hv
      rw [mapPageWalk_found hmap hv, hm]
      exact ih (hnext hv) (by omega)
    | false =>
      have hm : missing s.mem va leaf (n + 1) table = n + 1 := if_neg (by rw [hv]; decide)
      rw [hm]
      rcases getFreePage_cases (s := s) with ⟨hnone, e⟩ | ⟨new, hmn, h0, e⟩
      · -- the first table that is missing: nothing has been recorded yet
        refine ⟨fun h => absurd h (by omega), fun _ _ => ?_, fun _ h => absurd hnone h⟩
        rw [mapPageWalk_full hmap hv e, Prog.andThen, rollback_nothing]
        rfl
      · have hne : new ≠ table := by
          rintro rfl
          exact hused hmn h0
        have hr : update (fun _ => (0 : BitVec 64)) (leaf + n) new (leaf + n) ≠ 0 := by
          rw [update_self]
          exact hmn.ne_zero
        -- from here on the walk is through new tables
        have hlow : ∀ l < leaf + n, update (fun _ => (0 : BitVec 64)) (leaf + n) new l = 0 :=
          fun l hl => update_of_ne (Nat.ne_of_lt hl) _ _
        obtain ⟨hend, htrap⟩ := mapPageWalk_new hr hlow (Nat.lt_of_succ_le htop) hmn
          (linked_row hne (i := px (leaf + (n + 1)) va) (s := s)) (linked_used hmn)
        have hfree := freePages_linked (t := table) (i := px (leaf + (n + 1)) va) hmn h0
        rw [mapPageWalk_add hmap hv hmn e]
        exact ⟨fun h => hend (by omega), fun _ _ => by omega, fun h _ => htrap (by omega)⟩

/-! ## map_page -/

/-- The call returns, and if it fails, it has changed nothing. -/
def MapsOrUndoes (table va pa perm : BitVec 64) (topLevel leafLevel : Nat) (s : Memory) : Prop :=
  Prog.returns (mapPage table va pa perm topLevel leafLevel) (fun r s' => r = -1 → s' = s) s

/-- After the first page there is no way back. -/
lemma mapPage_fault (h : Walkable s va leaf (top - leaf) table) (htop : leaf ≤ top)
    (hlt : freePages s < missing s.mem va leaf (top - leaf) table) (h0 : freePages s ≠ 0) :
    mapPage table va pa perm top leaf s = .fault := by
  have hw := (mapPageWalk_outcome (by assumption) (Nat.add_sub_cancel' htop).le).2.2 hlt h0
  show Prog.andThen _ _ s = _
  rw [Prog.andThen, hw]

/-- **When `map_page` fails cleanly**: exactly if it does not run out of pages after the first. -/
theorem map_page_undoes_iff (h : Walkable s va leaf (top - leaf) table) (htop : leaf ≤ top) :
    MapsOrUndoes table va pa perm top leaf s ↔
      (freePages s < missing s.mem va leaf (top - leaf) table → freePages s = 0) := by
  constructor
  · intro ⟨r, s', e, _⟩ hlt
    by_contra h0
    rw [mapPage_fault h htop hlt h0] at e
    cases e
  · intro hcond
    obtain ⟨henough, hnone, _⟩ := mapPageWalk_outcome h (Nat.add_sub_cancel' htop).le
    rcases Nat.lt_or_ge (freePages s) (missing s.mem va leaf (top - leaf) table) with hlt | hge
    · refine ⟨-1, s, ?_, fun _ => rfl⟩
      rw [mapPage, Prog.bind_of_ret (hnone hlt (hcond hlt))]
      rfl
    · obtain ⟨t, s', e⟩ := henough hge
      refine ⟨0, s'.written t (px leaf va) (pa2pte pa ||| perm), ?_, fun h => absurd h (by decide)⟩
      rw [mapPage, Prog.bind_of_ret e]
      rfl

/-- An empty page directory when only page 1 is free. -/
def lastPage : Memory := emptyDir fun i => if i = 1 then 0 else 1

/-- The sample has one free page. -/
lemma lastPage_free : freePages lastPage = 1 := by
  have h : ((Finset.range pagingPages).filter fun k => lastPage.memMap k = 0) = {1} := by
    ext k
    rw [Finset.mem_filter, Finset.mem_range, Finset.mem_singleton]
    show _ ∧ (if k = 1 then (0 : BitVec 16) else 1) = 0 ↔ _
    constructor
    · intro ⟨_, h⟩
      by_contra hk
      rw [if_neg hk] at h
      exact absurd h (by decide)
    · rintro rfl
      exact ⟨by decide, rfl⟩
  rw [freePages, h, Finset.card_singleton]

/-- Its directory can be walked. -/
lemma lastPage_walkable : Walkable lastPage 0x1000#64 0 2 (pageAddr 0) := by
  refine ⟨by decide, fun _ => by decide, fun h => ?_⟩
  rw [show lastPage.mem (pageAddr 0) (px (0 + (1 + 1)) 0x1000#64) = 0 from rfl, valid_zero] at h
  cases h

/-- A page of 2 MiB needs one table. -/
theorem map_page_undoes_level : MapsOrUndoes (pageAddr 0) 0x1000#64 paKernel userPerm 2 1 lastPage := by
  have h : Walkable lastPage 0x1000#64 1 (2 - 1) (pageAddr 0) :=
    ⟨by decide, fun _ => by decide, fun _ => trivial⟩
  exact (map_page_undoes_iff h (by decide)).2 fun hlt => absurd hlt (by rw [lastPage_free]; decide)

/-- The last page becomes the level-1 table, and there is none for the level-0 table. -/
theorem map_page_lost_table : TableTree lastPage 2 (pageAddr 0) ∧
    ¬ MapsOrUndoes (pageAddr 0) 0x1000#64 paKernel userPerm 2 0 lastPage := by
  refine ⟨emptyDir_tree (by decide), fun ⟨r, s', e, _⟩ => ?_⟩
  have hlt : freePages lastPage < missing lastPage.mem 0x1000#64 0 2 (pageAddr 0) := by
    rw [lastPage_free]
    decide
  have h0 : freePages lastPage ≠ 0 := by
    rw [lastPage_free]
    decide
  rw [mapPage_fault lastPage_walkable (Nat.zero_le 2) hlt h0] at e
  cases e

end OldLinux.Mm
