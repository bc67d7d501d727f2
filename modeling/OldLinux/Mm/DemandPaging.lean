import OldLinux.Mm.GetPte
import OldLinux.Mm.Cow

/-!
# Demand paging

What `do_page_fault` does for an address that is not mapped. As `get_pte` never returns a null pointer and
`*table_entry | PTE_V` is never 0, `do_no_page` is not reached: the fault goes to `do_wp_page`, which
takes what it finds for a write-protected page. `doPageFault_unmapped` says what comes of it: the task is
ended, or an invalid entry that names a page with the count 1 gets its `PTE_W` and the page stays unmapped.
-/

namespace OldLinux.Mm
open Lib Function

variable {m m' : BitVec 64 → Fin 512 → BitVec 64} {s s' : Memory} {c : Fin 64} {n : Nat}
  {dir table t va pte page : BitVec 64} {i : Fin 512}

/-- What a walk that ends so is mapped to. -/
def Found.mapping : Found → Option (Nat × BitVec 64)
  | .missing _ => none
  | .entry level pte => if valid pte then some (level, pte) else none

/-- The entry that maps an address, with its level. -/
def mapping (m : BitVec 64 → Fin 512 → BitVec 64) (dir va : BitVec 64) : Option (Nat × BitVec 64) :=
  (tableWalk m va 0 2 dir).mapping

/-- From `s` to `s'` the page of `va` has been mapped to a page that was free, and nothing else. -/
structure Demanded (dir va : BitVec 64) (s s' : Memory) : Prop where
  page : ∃ page, Managed page ∧ s.memMap (mapNr page) = 0 ∧ s'.memMap (mapNr page) = 1 ∧
    s'.mem page = (fun _ => 0) ∧ mapping s'.mem dir va = some (0, va2pte page ||| userPerm)
  others : ∀ va', (∃ l ≤ 2, px l va' ≠ px l va) → mapping s'.mem dir va' = mapping s.mem dir va'

/-- When the page fault handler returns and has not ended the task, it has mapped the page. -/
def DemandPages (c : Fin 64) (va : BitVec 64) (s : Memory) : Prop :=
  ∀ dir s', s.pgd c = some dir → doPageFault c va s = .ret ((), s') → s'.pgd c = some dir →
    Demanded dir va s s'

/-- The entry that `get_pte` comes to names a page that `mem_map` counts once. -/
def SoleEntry (s : Memory) (dir va : BitVec 64) : Prop :=
  ∃ t i, getPte s.mem dir va = .entry t i ∧ Mapped t ∧ p2v lowMem ≤ pte2va (s.mem t i) ∧
    mapNr (pte2va (s.mem t i)) < pagingPages ∧ s.memMap (mapNr (pte2va (s.mem t i))) = 1

/-! ## Walks -/

/-- The offset in the page is not used. -/
lemma px_page {l : Nat} : px l (va &&& ~~~0xFFF#64) = px l va := by
  have h : (va &&& ~~~0xFFF#64) >>> (12 + 9 * l) = va >>> (12 + 9 * l) := by
    apply BitVec.eq_of_getLsbD_eq
    intro b hb
    have hmask : (0xFFF#64).getLsbD (12 + 9 * l + b) = false := by
      rw [BitVec.getLsbD_ofNat, Nat.testBit_lt_two_pow, Bool.and_false]
      calc 0xFFF < 2 ^ 12 := by decide
        _ ≤ 2 ^ (12 + 9 * l + b) := Nat.pow_le_pow_right (by decide) (by omega)
    rw [BitVec.getLsbD_ushiftRight, BitVec.getLsbD_ushiftRight, BitVec.getLsbD_and, BitVec.getLsbD_not,
      hmask]
    by_cases h : 12 + 9 * l + b < 64
    · simp [h]
    · rw [BitVec.getLsbD_of_ge va _ (by omega), Bool.false_and]
  rw [px, px, h]

/-- The page of an address. -/
lemma page_toNat : (va &&& ~~~0xFFF#64).toNat = va.toNat / 4096 * 4096 := by
  have h : va &&& ~~~0xFFF#64 = (va >>> 12) <<< 12 := by
    apply BitVec.eq_of_getLsbD_eq
    intro b hb
    rw [BitVec.getLsbD_and, BitVec.getLsbD_not, BitVec.getLsbD_shiftLeft, BitVec.getLsbD_ushiftRight]
    by_cases h12 : b < 12
    · have hmask : (0xFFF#64).getLsbD b = true := by
        rw [BitVec.getLsbD_ofNat, show 0xFFF = 2 ^ 12 - 1 from rfl, Nat.testBit_two_pow_sub_one]
        simp [hb, h12]
      rw [hmask]
      simp [h12]
    · have hmask : (0xFFF#64).getLsbD b = false := by
        rw [BitVec.getLsbD_ofNat, show 0xFFF = 2 ^ 12 - 1 from rfl, Nat.testBit_two_pow_sub_one]
        simp [h12]
      rw [hmask]
      simp [h12, hb, Nat.add_sub_cancel' (Nat.not_lt.1 h12)]
  have hlt := va.isLt
  rw [h, BitVec.toNat_shiftLeft, BitVec.toNat_ushiftRight, Nat.shiftRight_eq_div_pow, Nat.shiftLeft_eq]
  omega

/-- The walk depends on the page only. -/
lemma tableWalk_page {leaf : Nat} :
    tableWalk m (va &&& ~~~0xFFF#64) leaf n table = tableWalk m va leaf n table := by
  induction n generalizing table with
  | zero => rw [tableWalk, tableWalk, px_page]
  | succ n ih => simp only [tableWalk, px_page, ih]

/-- `get_pte` depends on the page only. -/
lemma getPteWalk_page : getPteWalk m (va &&& ~~~0xFFF#64) n table = getPteWalk m va n table := by
  induction n generalizing table with
  | zero => rw [getPteWalk, getPteWalk, px_page]
  | succ n ih => simp only [getPteWalk, px_page, ih]

/-- `walk` is the walk to level 0. -/
lemma walk_eq_some : walk m va n table = some pte ↔ tableWalk m va 0 n table = .entry 0 pte := by
  induction n generalizing table with
  | zero =>
    rw [walk, tableWalk, Option.some.injEq, Found.entry.injEq]
    simp
  | succ n ih =>
    simp only [walk, tableWalk, Nat.zero_add]
    cases hp : pointer (m table (px (n + 1) va)) with
    | true =>
      rw [if_pos rfl, if_neg (by rw [valid_of_pointer hp]; decide), if_pos rfl]
      exact ih
    | false =>
      rw [if_neg Bool.false_ne_true]
      split
      · exact iff_of_false (fun h => by cases h) fun h => by cases h
      · rw [if_neg Bool.false_ne_true]
        exact iff_of_false (fun h => by cases h) fun h => by cases h

/-- A page that is mapped has a valid entry. -/
lemma mapping_some {level : Nat} (h : mapping m dir va = some (level, pte)) :
    tableWalk m va 0 2 dir = .entry level pte ∧ valid pte = true := by
  rw [mapping] at h
  cases hw : tableWalk m va 0 2 dir with
  | missing l =>
    rw [hw] at h
    cases h
  | entry l p =>
    rw [hw, Found.mapping] at h
    split at h
    · next hv =>
      cases h
      exact ⟨rfl, hv⟩
    · cases h

/-- The address is not mapped by an entry of level 0. -/
def Unmapped (m : BitVec 64 → Fin 512 → BitVec 64) (dir va : BitVec 64) : Prop :=
  ∀ pte, walk m va 2 dir = some pte → valid pte = false

/-- One that is not mapped has none. -/
lemma unmapped_of_mapping (h : mapping m dir va = none) : Unmapped m dir va := by
  intro pte e
  rw [mapping, walk_eq_some.1 e, Found.mapping] at h
  split at h
  · cases h
  · next hv => exact Bool.eq_false_iff.2 hv

/-- A writable entry is no table. -/
lemma pointer_setW : pointer (pte ||| pteW) = false := by
  rw [pointer, Bool.and_eq_false_iff]
  right
  rw [beq_eq_false_iff_ne]
  intro h
  have hb := congrArg (fun b : BitVec 64 => b.getLsbD 2) h
  simp [pteW, pteR, pteX] at hb

/-- Setting `PTE_W` makes no address mapped. -/
lemma walk_setW (hw : walk (setW s t i).mem va n table = some pte) (hv : valid pte = true) :
    ∃ pte', walk s.mem va n table = some pte' ∧ valid pte' = true := by
  induction n generalizing table with
  | zero =>
    cases hw
    refine ⟨_, rfl, ?_⟩
    rcases setW_entry s t i table (px 0 va) with h | ⟨_, _, h⟩
    · rwa [h] at hv
    · rwa [h, valid_or (by decide)] at hv
  | succ n ih =>
    simp only [walk] at hw ⊢
    split at hw
    · next hp =>
      rcases setW_entry s t i table (px (n + 1) va) with h | ⟨_, _, h⟩
      · rw [h] at hp hw
        rw [if_pos hp]
        exact ih hw
      · rw [h, pointer_setW] at hp
        cases hp
    · cases hw

/-- Making another page writable maps none. -/
lemma Unmapped.setW (h : Unmapped s.mem dir va) : Unmapped (setW s t i).mem dir va := by
  intro pte hw
  by_contra hv
  obtain ⟨pte', hw', hv'⟩ := walk_setW hw (Bool.of_not_eq_false hv)
  rw [h _ hw'] at hv'
  cases hv'

/-- A page that is not mapped cannot be read. -/
lemma Unmapped.not_readable (h : Unmapped m dir va) : readable m dir va = false := by
  rw [readable]
  split
  · rfl
  · next pte hw =>
    have hv := h pte hw
    rw [Bool.and_eq_false_iff]
    left
    rw [allows, beq_eq_false_iff_ne]
    intro ha
    have hb := congrArg (fun b : BitVec 64 => b.getLsbD 0) ha
    rw [BitVec.getLsbD_and, show pte.getLsbD 0 = false from hv, Bool.false_and] at hb
    exact absurd hb (by decide)

/-- Where a walk is kept, an unmapped address stays unmapped. -/
lemma Unmapped.kept {new : List (BitVec 64)} (h : Unmapped m dir va)
    (hk : WalkKept m m' va 0 2 dir new) : Unmapped m' dir va := by
  intro pte hw
  rw [walk_eq_some] at hw
  cases hk with
  | same e _ => exact h pte (walk_eq_some.2 (e ▸ hw))
  | fresh _ _ e =>
    rw [e, Found.empty] at hw
    split at hw
    · cases hw
      exact valid_zero
    · cases hw

/-- Taking a page changes no table. -/
lemma TableTree.rows_taken (ht : TableTree s n table) (hm : Managed page)
    (h0 : s.memMap (mapNr page) = 0) (ht' : IsTable s.mem n table t) : (s.taken page).mem t = s.mem t := by
  refine taken_other ?_
  rintro rfl
  exact ht.allocated ht' hm h0

/-- Taking a page leaves the tables. -/
lemma TableTree.taken (ht : TableTree s n table) (hm : Managed page)
    (h0 : s.memMap (mapNr page) = 0) : TableTree (s.taken page) n table where
  distinct p q t hp hq hfp hfq := by
    have hrows := fun u => ht.rows_taken (t := u) hm h0
    rw [follow_congr hrows hp] at hfp
    rw [follow_congr hrows hq] at hfq
    exact ht.distinct p q t hp hq hfp hfq
  allocated {t} hu hmt := by
    rw [IsTable.congr fun u => ht.rows_taken hm h0] at hu
    rw [taken_memMap hm hmt]
    split
    · decide
    · exact ht.allocated hu hmt

/-- The way to a page depends on the tables only. -/
lemma NoLeaf.congr {leaf : Nat} (h : ∀ u, IsTable m n table u → m' u = m u)
    (hn : NoLeaf m va leaf n table) : NoLeaf m' va leaf n table := by
  induction n generalizing table with
  | zero => trivial
  | succ n ih =>
    intro hv
    rw [h table .root] at hv ⊢
    obtain ⟨hp, hn⟩ := hn hv
    exact ⟨hp, ih (fun u hu => h u (hu.child hp)) hn⟩

/-- Pages and user addresses are in different halves of the page directory. -/
lemma px_managed (h : Managed page) : 256 ≤ (px 2 page).val := by
  obtain ⟨k, hk, rfl⟩ := h
  have hk' : k < 31232 := hk
  rw [px_val, pageAddr_toNat hk, lowMemory_toNat]
  omega

/-! ## The handler -/

/-- The tables of a task: they are all different and in use, and the pages of `mem_map` are mapped one by
    one in the direct map. -/
structure TaskTables (s : Memory) (dir : BitVec 64) : Prop where
  tree : TableTree s 2 dir
  direct : ∀ page, Managed page → NoLeaf s.mem page 0 2 dir

/-- After `do_exit` the task has no tables. -/
lemma doExit_ends : Prog.wp (doExit c) (fun _ s' => s'.pgd c = none) s := by
  rw [doExit]
  split
  · exact Prog.wp_panic
  · rw [Prog.wp_bind]
    intro _ s₁ _
    rw [Prog.wp_modify]
    exact update_self _ _ _

/-- The copying branch does not come back for a page that is not mapped. -/
lemma copyOnWrite_ends {old : BitVec 64} (ht : TaskTables s dir) (hu : Unmapped s.mem dir va)
    (hva : va >>> 38 = 0#64) :
    Prog.wp (copyOnWrite (memcpyTraps c va n) c dir va t i old) (fun _ s' => s'.pgd c = none) s := by
  rw [copyOnWrite, Prog.wp_bind]
  refine getFreePage_taken.wp.mono fun r s₁ h => ?_
  rcases h with ⟨rfl, _, _⟩ | ⟨page, rfl, hm, h0, rfl⟩
  · exact doExit_ends
  have hrows := fun u => ht.tree.rows_taken (t := u) hm h0
  have hu₁ : Unmapped (s.taken page).mem dir va := by
    intro pte hw
    rw [walk_eq_some, tableWalk_congr hrows] at hw
    exact hu pte (walk_eq_some.2 hw)
  show Prog.wp (mapPage dir page va userPerm 2 0 >>= _) _ _
  rw [Prog.wp_bind]
  refine (mapPage_maps (ht.tree.taken hm h0) (.congr hrows (ht.direct page hm))).mono fun r s₂ h => ?_
  split
  · exact doExit_ends
  next hr =>
  obtain ⟨new, hmaps⟩ := h (not_not.1 hr)
  -- the new page is mapped at its own address, in the other half of the directory
  have hne : px 2 va ≠ px 2 page := by
    intro e
    have hlow := mem_lowerHalf.1 (px_lower hva)
    rw [e] at hlow
    exact absurd hlow (Nat.not_lt.2 (px_managed hm))
  have hu₂ : Unmapped s₂.mem dir va := hu₁.kept (hmaps.others va ⟨2, by decide, by decide, hne⟩)
  split
  · exact doExit_ends
  rw [Prog.wp_bind]
  intro k s₃ e₃
  rw [Prog.wp_bind, writeMap, Prog.wp_modify, Prog.wp_bind]
  have hs₃ : s₃ = s₂ := by
    rw [readMap, Prog.bind_of_ret (t := s₂) rfl] at e₃
    split at e₃
    · cases e₃
      rfl
    · cases e₃
  subst hs₃
  apply wp_readPte
  rw [Prog.wp_bind, writePte, Prog.wp_modify, Prog.wp_bind, Prog.wp_get]
  split
  · next hread =>
    -- the copy would read the page, which is not there
    have hno := (hu₂.setW (t := t) (i := i)).not_readable
    change readable (setW s₃ t i).mem dir va = true at hread
    rw [hno] at hread
    cases hread
  · exact memcpyTraps_ends

/-- `do_wp_page` on an entry of an address that is not mapped. -/
lemma wpPage_unmapped (ht : TaskTables s dir) (hu : Unmapped s.mem dir va) (hva : va >>> 38 = 0#64) :
    Prog.wp (wpPage (memcpyTraps c va n) c dir va t i) (fun _ s' => s'.pgd c = none ∨
      (Mapped t ∧ p2v lowMem ≤ pte2va (s.mem t i) ∧ mapNr (pte2va (s.mem t i)) < pagingPages ∧
        s.memMap (mapNr (pte2va (s.mem t i))) = 1 ∧ s' = setW s t i)) s := by
  rw [wpPage]
  split
  · next hm =>
    rw [Prog.wp_bind, Prog.wp_get]
    dsimp only
    split
    · exact doExit_ends.mono fun _ _ h => .inl h
    · next hout =>
      split
      · next h1 =>
        rw [writePte, Prog.wp_modify]
        exact .inr ⟨hm, h1.1, Nat.lt_of_not_le fun h => hout ⟨h1.1, h⟩, h1.2, rfl⟩
      · exact (copyOnWrite_ends ht hu hva).mono fun _ _ h => .inl h
  · exact doExit_ends.mono fun _ _ h => .inl h

/-- What the handler does for an address that is not mapped. -/
lemma doPageFault_unmapped (hd : s.pgd c = some dir) (ht : TaskTables s dir)
    (hu : mapping s.mem dir va = none) :
    Prog.wp (doPageFault c va) (fun _ s' => s'.pgd c = none ∨
      SoleEntry s dir va ∧ ∃ t i, s' = setW s t i) s := by
  rw [doPageFault, pageFault, Prog.wp_bind, Prog.wp_get, hd]
  show Prog.wp (if _ then _ else _) _ s
  split
  · exact doExit_ends.mono fun _ _ h => .inl h
  next hr =>
  have hva := taskSize_user (BitVec.not_le.1 (not_or.1 hr).2)
  have hu' : Unmapped s.mem dir (va &&& ~~~0xFFF#64) := by
    apply unmapped_of_mapping
    rw [mapping, tableWalk_page]
    exact hu
  cases hg : getPte s.mem dir (va &&& ~~~0xFFF#64) with
  | null => exact absurd hg getPteWalk_ne_null
  | trap => exact doExit_ends.mono fun _ _ h => .inl h
  | entry t i =>
    show Prog.wp (if _ then _ else _) _ s
    rw [if_pos or_pteV_ne_zero]
    refine (wpPage_unmapped ht hu' hva).mono fun _ s' h => ?_
    rcases h with h | ⟨hm, hlow, hlt, h1, rfl⟩
    · exact .inl h
    · refine .inr ⟨⟨t, i, ?_, hm, hlow, hlt, h1⟩, t, i, rfl⟩
      rw [← hg]
      exact getPteWalk_page.symm

/-- An entry with the count 1 gets its `PTE_W`, mapped or not. -/
lemma doPageFault_sole (hd : s.pgd c = some dir) (hlo : pageSize ≤ va) (hhi : va < taskSize)
    (h : SoleEntry s dir va) : ∃ t i, doPageFault c va s = .ret ((), setW s t i) := by
  obtain ⟨t, i, hg, hm, hlow, hlt, h1⟩ := h
  -- the beginning of the page is in range as well
  have hpage : ¬ (va &&& ~~~0xFFF#64 < pageSize ∨ taskSize ≤ va &&& ~~~0xFFF#64) := by
    have h4096 : pageSize.toNat = 4096 := rfl
    rw [BitVec.le_def, h4096] at hlo
    rw [BitVec.lt_def] at hhi
    rw [BitVec.lt_def, BitVec.le_def, page_toNat, h4096]
    omega
  have hg' : getPte s.mem dir (va &&& ~~~0xFFF#64) = .entry t i := by
    rw [← hg]
    exact getPteWalk_page
  refine ⟨t, i, ?_⟩
  obtain ⟨hlo', hhi'⟩ := not_or.1 hpage
  rw [doPageFault, pageFault_entry hd (BitVec.not_lt.1 hlo') (BitVec.not_le.1 hhi') hg', wpPage_sole hm hlow hlt h1]

/-- After that the page is still not mapped. -/
lemma SoleEntry.breaks (h : SoleEntry s dir va) (hd : s.pgd c = some dir) (hlo : pageSize ≤ va)
    (hhi : va < taskSize) (hu : mapping s.mem dir va = none) : ¬ DemandPages c va s := by
  intro hp
  obtain ⟨t, i, e⟩ := doPageFault_sole hd hlo hhi h
  obtain ⟨page, _, _, _, _, hmap⟩ := (hp dir _ hd e hd).page
  obtain ⟨hw, hv⟩ := mapping_some hmap
  rw [(unmapped_of_mapping hu).setW _ (walk_eq_some.2 hw)] at hv
  cases hv

/-- **Demand paging**: the handler keeps its promise exactly where it does not come across an entry that
    names a page counted once; and wherever it returns, the page is still not mapped. -/
theorem demand_paging_iff (hd : s.pgd c = some dir) (ht : TaskTables s dir) (hlo : pageSize ≤ va)
    (hhi : va < taskSize) (hu : mapping s.mem dir va = none) :
    (DemandPages c va s ↔ ¬ SoleEntry s dir va) ∧
      ∀ s', doPageFault c va s = .ret ((), s') → s'.pgd c = some dir → Unmapped s'.mem dir va := by
  have hout : ∀ s', doPageFault c va s = .ret ((), s') → s'.pgd c = some dir →
      SoleEntry s dir va ∧ ∃ t i, s' = setW s t i := by
    intro s' e hs'
    cases doPageFault_unmapped hd ht hu _ _ e with
    | inl h =>
      rw [h] at hs'
      cases hs'
    | inr h => exact h
  refine ⟨⟨fun h hs => hs.breaks hd hlo hhi hu h, fun h dir' s' hd' e hs' => ?_⟩, fun s' e hs' => ?_⟩
  · rw [hd] at hd'
    obtain rfl := Option.some.inj hd'
    exact absurd (hout s' e hs').1 h
  · obtain ⟨_, t, i, rfl⟩ := hout s' e hs'
    exact (unmapped_of_mapping hu).setW

/-- An empty directory is one of a task. -/
lemma emptyDir_tables {memMap : Nat → BitVec 16} (h : memMap 0 ≠ 0) :
    TaskTables (emptyDir memMap) (pageAddr 0) :=
  ⟨emptyDir_tree h, fun _ _ => .of_empty rfl⟩

/-- The first page of a task. -/
theorem demand_paging_empty : DemandPages 1 0x1000#64 (emptyDir fun i => if i = 0 then 1 else 0) := by
  refine (demand_paging_iff rfl (emptyDir_tables (by decide)) (by decide) (by decide) (by decide)).1.2 ?_
  rintro ⟨t, i, hg, _⟩
  have htrap : getPte (emptyDir fun i => if i = 0 then 1 else 0).mem (pageAddr 0) 0x1000#64 = .trap := by
    decide
  rw [htrap] at hg
  cases hg

/-- The paths from a table whose only entry points to the next. -/
lemma follow_link {p : List (Fin 512)} {u : BitVec 64} (hm : Managed t)
    (hrow : ∀ i, m table i = if i = 0 then va2pte t ||| pteV else 0)
    (hf : follow m table (i :: p) = some u) : i = 0 ∧ follow m t p = some u := by
  obtain ⟨_, hlink, hto⟩ := link_spec hm
  rw [follow, hrow] at hf
  by_cases h0 : i = 0
  · rw [if_pos h0, if_pos hlink, hto] at hf
    exact ⟨h0, hf⟩
  · rw [if_neg h0, if_neg (by rw [pointer_zero]; decide)] at hf
    cases hf

/-- There is one table below the directory. -/
lemma isTable_link {u : BitVec 64} (hm : Managed t)
    (hrow : ∀ i, m table i = if i = 0 then va2pte t ||| pteV else 0) (h : IsTable m (n + 1) table u) :
    u = table ∨ IsTable m n t u := by
  obtain ⟨p, hp, hf⟩ := h
  cases p with
  | nil => exact .inl (Option.some.inj hf).symm
  | cons i p => exact .inr ⟨p, Nat.le_of_succ_le_succ hp, (follow_link hm hrow hf).2⟩

/-- A table whose only entry points to the next. -/
lemma TableTree.of_link (hm : Managed t)
    (hrow : ∀ i, s.mem table i = if i = 0 then va2pte t ||| pteV else 0) (h : TableTree s n t)
    (hnot : ¬ IsTable s.mem n t table) (hcount : s.memMap (mapNr table) ≠ 0) :
    TableTree s (n + 1) table := by
  constructor
  · intro p q u hp hq hfp hfq
    cases p with
    | nil =>
      cases q with
      | nil => rfl
      | cons j q =>
        cases hfp
        exact absurd ⟨q, Nat.le_of_succ_le_succ hq, (follow_link hm hrow hfq).2⟩ hnot
    | cons i p =>
      cases q with
      | nil =>
        cases hfq
        exact absurd ⟨p, Nat.le_of_succ_le_succ hp, (follow_link hm hrow hfp).2⟩ hnot
      | cons j q =>
        obtain ⟨hi, hfp'⟩ := follow_link hm hrow hfp
        obtain ⟨hj, hfq'⟩ := follow_link hm hrow hfq
        rw [hi, hj, h.distinct p q u (Nat.le_of_succ_le_succ hp) (Nat.le_of_succ_le_succ hq) hfp' hfq']
  · intro u hu hmu
    cases isTable_link hm hrow hu with
    | inl e =>
      rw [e]
      exact hcount
    | inr hu => exact h.allocated hu hmu

/-- The entry of the page at `0x1000` is not valid, but names page 3. -/
def staleEntry : Memory := threeTables (va2pte (pageAddr 3))

/-- The sample has the tables of a task. -/
lemma staleEntry_tables : TaskTables staleEntry (pageAddr 0) := by
  have h1 : Managed (pageAddr 1) := ⟨1, by decide, rfl⟩
  have h2 : Managed (pageAddr 2) := ⟨2, by decide, rfl⟩
  have hrow0 : ∀ i, staleEntry.mem (pageAddr 0) i = if i = 0 then va2pte (pageAddr 1) ||| pteV else 0 :=
    fun _ => threeTables_dir
  have hrow1 : ∀ i, staleEntry.mem (pageAddr 1) i = if i = 0 then va2pte (pageAddr 2) ||| pteV else 0 :=
    fun _ => threeTables_l1
  have hone : ∀ {p : List (Fin 512)}, p.length ≤ 0 → p = [] :=
    fun h => List.eq_nil_of_length_eq_zero (Nat.le_zero.1 h)
  have hleaf : ∀ u, IsTable staleEntry.mem 0 (pageAddr 2) u → u = pageAddr 2 := by
    rintro u ⟨p, hp, hf⟩
    rw [hone hp] at hf
    exact (Option.some.inj hf).symm
  have ht0 : TableTree staleEntry 0 (pageAddr 2) := by
    refine ⟨fun p q _ hp hq _ _ => (hone hp).trans (hone hq).symm, fun hu _ => ?_⟩
    rw [hleaf _ hu]
    decide
  have ht1 : TableTree staleEntry 1 (pageAddr 1) :=
    .of_link h2 hrow1 ht0 (fun h => absurd (hleaf _ h) (by decide)) (by decide)
  refine ⟨.of_link h1 hrow0 ht1 (fun h => ?_) (by decide), fun page hm hv => ?_⟩
  · cases isTable_link h2 hrow1 h with
    | inl e => exact absurd e (by decide)
    | inr h => exact absurd (hleaf _ h) (by decide)
  · rw [hrow0, if_neg] at hv
    · rw [valid_zero] at hv
      cases hv
    · intro e
      have hge := px_managed hm
      rw [show px 2 page = 0 from e] at hge
      exact absurd hge (by decide)

/-- The handler makes the entry writable and returns. -/
theorem stale_entry_unmapped : TaskTables staleEntry (pageAddr 0) ∧
    mapping staleEntry.mem (pageAddr 0) 0x1000#64 = none ∧ ¬ DemandPages 1 0x1000#64 staleEntry := by
  have hsole : SoleEntry staleEntry (pageAddr 0) 0x1000#64 :=
    ⟨pageAddr 2, 1, by decide, by decide, by decide, by decide, by decide⟩
  exact ⟨staleEntry_tables, by decide, hsole.breaks rfl (by decide) (by decide) (by decide)⟩

end OldLinux.Mm
