import OldLinux.Mm.PageFault
import OldLinux.Lib.Tally

/-!
# Reference counts of pages

The runs of `copy_page_tables`, `do_page_fault` and `do_exit` by any live tasks. As long as no page
fault reaches the copying branch of `do_wp_page`, `mem_map` counts for every page the live tasks
whose address space reaches it (`page_counts`). The copying branch takes a reference to the old page
away while the entry, in a table that the tasks may share, goes on to name it.
-/

namespace OldLinux.Mm
open Lib Function Finset

/-! ## Runs -/

/-- What happens in a run. -/
inductive Event where
  | fork (c nr : Fin 64)
  | fault (c : Fin 64) (badaddr : BitVec 64)
  | exit (c : Fin 64)

/-- A live task forks into a free slot, faults or exits. -/
inductive Step : Memory → Event → Memory → Prop where
  | fork {s s' c nr r} : s.pgd c ≠ none → s.pgd nr = none → nr ≠ 0 →
    copyPageTables c nr s = .ret (r, s') → Step s (.fork c nr) s'
  | fault {s s' c badaddr} : s.pgd c ≠ none → doPageFault c badaddr s = .ret ((), s') →
    Step s (.fault c badaddr) s'
  | exit {s s' c} : s.pgd c ≠ none → doExit c s = .ret ((), s') → Step s (.exit c) s'

/-- The number of live tasks whose address space reaches a page. -/
def Memory.reachers (s : Memory) (x : BitVec 64) : Nat := #{t | x ∈ s.space t}

/-- `mem_map` counts the live tasks that reach a page, for every page that one reaches. -/
def Memory.Counted (s : Memory) : Prop :=
  ∀ x, Managed x → 0 < s.reachers x → (s.memMap (mapNr x)).toNat = s.reachers x

/-- An address space reaches no page twice and only pages that `mem_map` counts; task 0 may have its
    page directory in the kernel. -/
structure Memory.WF (s : Memory) : Prop where
  nodup : ∀ t, (s.space t).Nodup
  managed : ∀ {t dir}, s.pgd t = some dir → ∀ x ∈ tree s.mem dir, Managed x
  directory : ∀ {t dir}, t ≠ 0 → s.pgd t = some dir → Managed dir
  mapped : ∀ {t dir}, s.pgd t = some dir → Mapped dir
  swapper : ¬ Managed s.swapperPgDir

/-- The memory as seen from any well-formed state that is counted right. -/
def system : System Memory Event := ⟨fun s => s.WF ∧ s.Counted, Step⟩

/-- The page fault reaches the copying branch of `do_wp_page`, and there is a free page: the entry
    for the address does not name a page from `LOW_MEM` on with the count 1. -/
def Copies (s : Memory) (c : Fin 64) (badaddr : BitVec 64) : Prop :=
  ∃ dir table i, s.pgd c = some dir ∧
    pageSize ≤ badaddr &&& ~~~0xFFF#64 ∧ badaddr &&& ~~~0xFFF#64 < taskSize ∧
    getPte s.mem dir (badaddr &&& ~~~0xFFF#64) = .entry table i ∧ Mapped table ∧
    ¬ (p2v lowMem ≤ pte2va (s.mem table i) ∧ pagingPages ≤ mapNr (pte2va (s.mem table i))) ∧
    ¬ (p2v lowMem ≤ pte2va (s.mem table i) ∧ s.memMap (mapNr (pte2va (s.mem table i))) = 1) ∧
    findFree s.memMap 0 pagingPages ≠ none

/-- A step that is not a page fault which copies. -/
def NoCopy (s : Memory) : Event → Memory → Prop
  | .fault c badaddr, _ => ¬ Copies s c badaddr
  | _, _ => True

/-- The counts are right, no page in use has the count 0, and every address space can be torn down. -/
structure Memory.Sound (s : Memory) : Prop where
  counted : s.Counted
  used : ∀ x, Managed x → 0 < s.reachers x → s.memMap (mapNr x) ≠ 0
  teardown : ∀ c, c ≠ 0 → s.pgd c ≠ none → ∃ s', freePageTables c s = .ret ((), s')

/-! ## Counting tasks -/

variable {s s' : Memory} {c : Fin 64} {x : BitVec 64}

/-- Who has a page reaches it. -/
lemma reachers_pos {t : Fin 64} (h : x ∈ s.space t) : 0 < s.reachers x :=
  card_pos.2 ⟨t, mem_filter.2 ⟨mem_univ t, h⟩⟩

/-- There are 64 tasks at most. -/
lemma reachers_le : s.reachers x ≤ 64 :=
  (card_le_univ _).trans (by simp)

/-- A page that one task reaches is out of reach of the others. -/
lemma not_mem_of_sole {t : Fin 64} (h : s.reachers x = 1) (hx : x ∈ s.space c)
    (ht : t ≠ c) : x ∉ s.space t := by
  intro hxt
  obtain ⟨a, ha⟩ := card_eq_one.1 h
  have hc : c ∈ ({a} : Finset (Fin 64)) := ha ▸ mem_filter.2 ⟨mem_univ c, hx⟩
  have ht' : t ∈ ({a} : Finset (Fin 64)) := ha ▸ mem_filter.2 ⟨mem_univ t, hxt⟩
  exact ht ((mem_singleton.1 ht').trans (mem_singleton.1 hc).symm)

/-- The number depends on the pages of the tasks only. -/
lemma reachers_congr (h : ∀ t, s'.space t = s.space t) : s'.reachers x = s.reachers x := by
  rw [Memory.reachers, Memory.reachers]
  simp only [h]

/-- The address space of one task is changed. -/
lemma reachers_change (h : ∀ t, t ≠ c → s'.space t = s.space t) :
    s'.reachers x + (if x ∈ s.space c then 1 else 0) =
      s.reachers x + (if x ∈ s'.space c then 1 else 0) := by
  let g : Memory → Fin 64 → Option Unit := fun s t => if x ∈ s.space t then some () else none
  have hr : ∀ s : Memory, s.reachers x = tally (g s) () := by
    intro s
    rw [Memory.reachers, tally]
    congr 1
    ext t
    by_cases hx : x ∈ s.space t
    · simp [g, hx]
    · simp [g, hx]
  have hg : g s' = update (g s) c (g s' c) := by
    funext t
    by_cases ht : t = c
    · subst ht
      rw [update_self]
    · rw [update_of_ne ht]
      show (if x ∈ s'.space t then some () else none) = if x ∈ s.space t then some () else none
      rw [h t ht]
  have hone : ∀ s : Memory, ref (g s c) () = if x ∈ s.space c then 1 else 0 := by
    intro s
    show (if (if x ∈ s.space c then some () else none) = some () then 1 else 0) = _
    by_cases hx : x ∈ s.space c
    · simp [hx]
    · simp [hx]
  have ht := congrFun (tally_update (g s) c (g s' c)) ()
  rw [← hg, Pi.add_apply, Pi.add_apply, hone, hone] at ht
  rw [hr, hr]
  exact ht

/-- A slot without directory has no pages. -/
lemma space_of_none (h : s.pgd c = none) : s.space c = [] := by
  rw [Memory.space, h]

/-- A task has its directory and what is below it. -/
lemma space_of_some {dir : BitVec 64} (h : s.pgd c = some dir) : s.space c = dir :: tree s.mem dir := by
  rw [Memory.space, h]

/-- The address spaces do not depend on flags. -/
lemma space_congr (ha : Alike s.mem s'.mem) {t : Fin 64} (hp : s'.pgd t = s.pgd t) :
    s'.space t = s.space t := by
  cases h : s.pgd t with
  | none => rw [space_of_none h, space_of_none (hp.trans h)]
  | some dir => rw [space_of_some h, space_of_some (hp.trans h), tree_congr ha]

/-- A free page is in no address space. -/
lemma Memory.Counted.not_mem (h : s.Counted) (hx : Managed x) (h0 : s.memMap (mapNr x) = 0)
    (t : Fin 64) : x ∉ s.space t := by
  intro hm
  have hpos := reachers_pos hm
  have hc := h x hx hpos
  rw [h0] at hc
  simp at hc
  omega

/-! ## Exit -/

/-- The pages of a task are managed. -/
lemma Memory.WF.space_managed (h : s.WF) (hc : c ≠ 0) : ∀ x ∈ s.space c, Managed x := by
  intro x hx
  cases hd : s.pgd c with
  | none =>
    rw [space_of_none hd] at hx
    cases hx
  | some dir =>
    rw [space_of_some hd, List.mem_cons] at hx
    cases hx with
    | inl e =>
      rw [e]
      exact h.directory hc hd
    | inr hx => exact h.managed hd x hx

/-- A page that is reached has a count. -/
lemma Memory.Counted.ne_zero (h : s.Counted) (hx : Managed x) (hr : 0 < s.reachers x) :
    s.memMap (mapNr x) ≠ 0 := by
  intro h0
  have hc := h x hx hr
  rw [h0] at hc
  simp at hc
  omega

/-- The pages of a task can be given back. -/
lemma freeable_space (hw : s.WF) (h : s.Counted) (hc : c ≠ 0) : Freeable (s.space c) s :=
  ⟨hw.nodup c, hw.space_managed hc, fun x hx => h.ne_zero (hw.space_managed hc x hx) (reachers_pos hx)⟩

/-- An address space can be torn down, and only its own counts change. -/
lemma teardown_returns (hw : s.WF) (h : s.Counted) (hc : c ≠ 0) (hl : s.pgd c ≠ none) :
    Prog.returns (freePageTables c) (fun _ => Frees (s.space c) s) s := by
  obtain ⟨dir, hd⟩ := Option.ne_none_iff_exists'.1 hl
  refine freePageTables_returns hc hd ?_ (freeable_space hw h hc).covered
  intro e
  apply hw.swapper
  rw [← e]
  exact hw.directory hc hd

/-- What is counted is sound. -/
lemma Memory.Counted.sound (hw : s.WF) (h : s.Counted) : s.Sound := by
  refine ⟨h, fun x hx hr => h.ne_zero hx hr, ?_⟩
  intro c hc hl
  obtain ⟨_, s', e, _⟩ := teardown_returns hw h hc hl
  exact ⟨s', e⟩

/-- What `do_exit` does to a memory whose pages of the task can be freed. -/
lemma doExit_frees {dir : BitVec 64} (hc : c ≠ 0) (hd : s.pgd c = some dir) (hne : dir ≠ s.swapperPgDir)
    (hf : Freeable (s.space c) s) : doExit c s = .ret ((),
      { s with memMap := subAll s.memMap (s.space c), pgd := update s.pgd c none }) := by
  obtain ⟨_, ⟨mem, memMap, pgd, swapper⟩, e, hmem, hmap, hpgd, hsw⟩ := freePageTables_returns hc hd hne hf.covered
  dsimp only at hmem hmap hpgd hsw
  subst hmem hmap hpgd hsw
  rw [doExit, if_neg hc, Prog.bind_of_ret e]
  rfl

/-- What `do_exit` does to a memory whose counts are right. -/
lemma doExit_eq (hw : s.WF) (h : s.Counted) (hc : c ≠ 0) (hl : s.pgd c ≠ none) :
    doExit c s = .ret ((),
      { s with memMap := subAll s.memMap (s.space c), pgd := update s.pgd c none }) := by
  obtain ⟨dir, hd⟩ := Option.ne_none_iff_exists'.1 hl
  refine doExit_frees hc hd ?_ (freeable_space hw h hc)
  rintro rfl
  exact hw.swapper (hw.directory hc hd)

/-- `do_exit` gives back the pages of the task. -/
lemma doExit_spec (hw : s.WF) (h : s.Counted) (hl : s.pgd c ≠ none)
    (e : doExit c s = .ret ((), s')) :
    c ≠ 0 ∧ s'.mem = s.mem ∧ s'.memMap = subAll s.memMap (s.space c) ∧ s'.pgd = update s.pgd c none ∧
      s'.swapperPgDir = s.swapperPgDir := by
  by_cases hc : c = 0
  · rw [doExit, if_pos hc] at e
    cases e
  · rw [doExit_eq hw h hc hl] at e
    cases e
    exact ⟨hc, rfl, rfl, rfl, rfl⟩

/-- A task exits. -/
lemma doExit_keeps (hw : s.WF) (h : s.Counted) (hl : s.pgd c ≠ none)
    (e : doExit c s = .ret ((), s')) : s'.WF ∧ s'.Counted := by
  obtain ⟨hc, hmem, hmap, hpgd, hsw⟩ := doExit_spec hw h hl e
  have hpgd' : ∀ t, t ≠ c → s'.pgd t = s.pgd t := by
    intro t ht
    rw [hpgd, update_of_ne ht]
  have hlive : ∀ {t dir}, s'.pgd t = some dir → s.pgd t = some dir := by
    intro t dir ht
    rw [hpgd] at ht
    by_cases htc : t = c
    · rw [htc, update_self] at ht
      cases ht
    · rwa [update_of_ne htc] at ht
  have hnone : s'.space c = [] := space_of_none (by rw [hpgd, update_self])
  have hspace : ∀ t, t ≠ c → s'.space t = s.space t := by
    intro t ht
    apply space_congr _ (hpgd' t ht)
    rw [hmem]
    exact Alike.refl _
  constructor
  · refine ⟨?_, ?_, ?_, ?_, ?_⟩
    · intro t
      by_cases ht : t = c
      · rw [ht, hnone]
        exact List.nodup_nil
      · rw [hspace t ht]
        exact hw.nodup t
    · intro t dir ht
      rw [hmem]
      exact hw.managed (hlive ht)
    · intro t dir ht0 ht
      exact hw.directory ht0 (hlive ht)
    · intro t dir ht
      exact hw.mapped (hlive ht)
    · rw [hsw]
      exact hw.swapper
  · intro x hx hr
    have hchange := reachers_change (x := x) hspace
    rw [hnone, if_neg List.not_mem_nil, Nat.add_zero] at hchange
    -- the page loses one owner, and is in the address space once
    have hcount := count_mapNr (hw.space_managed hc) (hw.nodup c) hx
    have hold := h x hx (by omega)
    rw [hmap, subAll, hcount]
    have hle := reachers_le (s := s) (x := x)
    split at hchange
    · next hin =>
      rw [if_pos hin, BitVec.toNat_sub, hold]
      simp
      omega
    · next hin =>
      rw [if_neg hin]
      simp
      omega

/-! ## Fork -/

/-- The page directory `n` of the task in slot `nr` is a copy of `dir`, on a page that was free, and the
    pages of the tree are counted. -/
structure Forks (nr : Fin 64) (dir n : BitVec 64) (s s' : Memory) : Prop where
  managed : Managed n
  free : s.memMap (mapNr n) = 0
  alike : Alike (update s.mem n (s.mem dir)) s'.mem
  rows : ∀ t, (∀ i j, Route (update s.mem n (s.mem dir)) dir i j →
    t ≠ l0At (update s.mem n (s.mem dir)) dir i j) → s'.mem t = update s.mem n (s.mem dir) t
  memMap : s'.memMap = addAll (update s.memMap (mapNr n) 1) (tree s.mem dir)
  pgd : s'.pgd = update s.pgd nr (some n)
  swapper : s'.swapperPgDir = s.swapperPgDir

/-- `copy_page_tables` returns, with no change or with a new address space; its address space uses no
    free page. -/
lemma copyPageTables_forks {nr : Fin 64} {dir : BitVec 64} (hd : s.pgd c = some dir) (hmap : Mapped dir)
    (htree : ∀ x ∈ tree s.mem dir, Managed x)
    (hused : ∀ x ∈ dir :: tree s.mem dir, Managed x → s.memMap (mapNr x) ≠ 0) :
    Prog.returns (copyPageTables c nr)
      (fun r s' => (r ≠ 0 ∧ s' = s) ∨ (r = 0 ∧ ∃ n, Forks nr dir n s s')) s := by
  apply Prog.returns_bind
  apply Prog.returns_get
  rw [hd]
  show Prog.returns (getFreePage >>= _) _ s
  apply Prog.returns_bind
  obtain ⟨r, s₁, e, h⟩ := getFreePage_taken (s := s)
  refine ⟨r, s₁, e, ?_⟩
  obtain ⟨rfl, rfl, _⟩ | ⟨n, rfl, hm, hfree, rfl⟩ := h
  · apply Prog.returns_pure
    exact .inl ⟨by decide, rfl⟩
  · have hnot : n ∉ dir :: tree s.mem dir := fun hin => hused _ hin hm hfree
    rw [List.mem_cons, not_or] at hnot
    -- the new page is no part of the tree that is copied
    have hcopy : update (update s.mem n fun _ => 0) n (update s.mem n (fun _ => 0) dir) =
        update s.mem n (s.mem dir) := by
      rw [update_idem, update_of_ne (Ne.symm hnot.1)]
    have hsame : tree (update s.mem n (s.mem dir)) dir = tree s.mem dir := tree_update hnot.1 hnot.2
    show Prog.returns (_ >>= _) _ _
    apply Prog.returns_bind
    apply Prog.returns_modify
    apply Prog.returns_bind
    apply Prog.returns_modify
    apply Prog.returns_bind
    show Prog.returns _ _ { s with
      mem := update (update s.mem n fun _ => 0) n (update s.mem n (fun _ => 0) dir)
      memMap := update s.memMap (mapNr n) 1, pgd := update s.pgd nr (some n) }
    rw [hcopy]
    refine (shareTree_returns (P := fun t => ∃ i j, Route (update s.mem n (s.mem dir)) dir i j ∧
      t = l0At (update s.mem n (s.mem dir)) dir i j) hmap ?_ ?_).mono ?_
    · intro i hi hv j hv'
      dsimp only at hv hv' ⊢
      refine ⟨i, j, ⟨hi, hv, ?_⟩, ?_⟩
      · rw [l1At]
        exact hv'
      · rw [l0At, l1At]
    · intro x hx
      rw [hsame] at hx
      exact htree x hx
    · intro _ s₁ h₁
      apply Prog.returns_pure
      refine .inr ⟨rfl, n, hm, hfree, h₁.alike, ?_, ?_, h₁.pgd, h₁.swapper⟩
      · intro t ht
        apply h₁.rows
        rintro ⟨i, j, r, e⟩
        exact ht i j r e
      · rw [h₁.memMap, hsame]

/-- `copy_page_tables` fails and changes nothing, or forks. -/
lemma copyPageTables_returns {nr : Fin 64} {dir : BitVec 64} (hw : s.WF) (h : s.Counted)
    (hd : s.pgd c = some dir) :
    Prog.returns (copyPageTables c nr)
      (fun r s' => (r ≠ 0 ∧ s' = s) ∨ (r = 0 ∧ ∃ n, Forks nr dir n s s')) s := by
  refine copyPageTables_forks hd (hw.mapped hd) (hw.managed hd) ?_
  intro x hx hm hfree
  apply h.not_mem hm hfree c
  rw [space_of_some hd]
  exact hx

/-- The address spaces after a fork. -/
lemma Forks.space {nr : Fin 64} {dir n : BitVec 64} (h : s.Counted) (hd : s.pgd c = some dir)
    (hf : Forks nr dir n s s') :
    (∀ t, t ≠ nr → s'.space t = s.space t) ∧ s'.space nr = n :: tree s.mem dir ∧
      n ∉ tree s.mem dir := by
  have hnot := h.not_mem hf.managed hf.free
  have hnd := hnot c
  rw [space_of_some hd, List.mem_cons, not_or] at hnd
  refine ⟨?_, ?_, hnd.2⟩
  · intro t ht
    have hp : s'.pgd t = s.pgd t := by rw [hf.pgd, update_of_ne ht]
    cases ht' : s.pgd t with
    | none => rw [space_of_none ht', space_of_none (hp.trans ht')]
    | some dir' =>
      have hnt := hnot t
      rw [space_of_some ht', List.mem_cons, not_or] at hnt
      rw [space_of_some ht', space_of_some (hp.trans ht'), tree_congr hf.alike,
        tree_update hnt.1 hnt.2]
  · have hp : s'.pgd nr = some n := by rw [hf.pgd, update_self]
    rw [space_of_some hp, tree_congr hf.alike, tree_copy hnd.2]

/-- A fork copies the page directory and does not write to the level-1 tables. -/
lemma Forks.upper {nr : Fin 64} {dir n : BitVec 64} (hw : s.WF) (h : s.Counted)
    (hd : s.pgd c = some dir) (hf : Forks nr dir n s s') :
    s'.mem dir = s.mem dir ∧ s'.mem n = s.mem dir ∧
      ∀ i ∈ lowerHalf, valid (s.mem dir i) = true →
        s'.mem (l1At s.mem dir i) = s.mem (l1At s.mem dir i) := by
  have hn := h.not_mem hf.managed hf.free c
  rw [space_of_some hd, List.mem_cons, not_or] at hn
  have htree : tree (update s.mem n (s.mem dir)) dir = tree s.mem dir := tree_update hn.1 hn.2
  have hnodup : (dir :: tree (update s.mem n (s.mem dir)) dir).Nodup := by
    rw [htree, ← space_of_some hd]
    exact hw.nodup c
  have hrow : update s.mem n (s.mem dir) dir = s.mem dir := update_of_ne (Ne.symm hn.1) _ _
  have hup : ∀ t, Upper (update s.mem n (s.mem dir)) dir t →
      s'.mem t = update s.mem n (s.mem dir) t := by
    intro t ht
    apply hf.rows
    rintro i j r rfl
    exact r.not_upper hnodup ht
  refine ⟨(hup dir (.inl rfl)).trans hrow, ?_, ?_⟩
  · have hl0 : s'.mem n = update s.mem n (s.mem dir) n := by
      apply hf.rows
      rintro i j r e
      have hm := r.l0_mem_tree
      rw [← e, htree] at hm
      exact hn.2 hm
    rw [hl0, update_self]
  · intro i hi hv
    have e : l1At (update s.mem n (s.mem dir)) dir i = l1At s.mem dir i := by rw [l1At, l1At, hrow]
    have hv' : valid (update s.mem n (s.mem dir) dir i) = true := by rw [hrow, hv]
    have hl := hup _ (.inr ⟨i, hi, hv', rfl⟩)
    rw [e] at hl
    rw [hl]
    apply update_of_ne
    rintro rfl
    exact hn.2 (mem_tree hi (l1At_mem hv))

/-- A fork keeps the tables in order. -/
lemma Forks.wf {nr : Fin 64} {dir n : BitVec 64} (hw : s.WF) (h : s.Counted)
    (hd : s.pgd c = some dir) (hf : Forks nr dir n s s') : s'.WF := by
  obtain ⟨hspace, hchild, hn⟩ := hf.space h hd
  have hsub : ∀ t dir', s'.pgd t = some dir' → (t = nr ∧ dir' = n) ∨ s.pgd t = some dir' := by
    intro t dir' ht
    rw [hf.pgd] at ht
    by_cases htn : t = nr
    · rw [htn, update_self] at ht
      exact .inl ⟨htn, (Option.some.inj ht).symm⟩
    · rw [update_of_ne htn] at ht
      exact .inr ht
  refine ⟨?_, ?_, ?_, ?_, ?_⟩
  · intro t
    by_cases ht : t = nr
    · have hold := hw.nodup c
      rw [space_of_some hd, List.nodup_cons] at hold
      rw [ht, hchild]
      exact List.nodup_cons.2 ⟨hn, hold.2⟩
    · rw [hspace t ht]
      exact hw.nodup t
  · intro t dir' ht x hx
    have hx' : x ∈ s'.space t := by
      rw [space_of_some ht]
      exact List.mem_cons_of_mem _ hx
    by_cases htn : t = nr
    · -- the child has the pages of its parent
      rw [htn, hchild, List.mem_cons] at hx'
      cases hx' with
      | inl e =>
        rw [e]
        exact hf.managed
      | inr hx' => exact hw.managed hd x hx'
    · have hp : s.pgd t = some dir' := by
        have := hf.pgd ▸ ht
        rwa [update_of_ne htn] at this
      have htr : tree s'.mem dir' = tree s.mem dir' := by
        have e := hspace t htn
        rw [space_of_some ht, space_of_some hp] at e
        exact List.tail_eq_of_cons_eq e
      rw [htr] at hx
      exact hw.managed hp x hx
  · intro t dir' ht0 ht
    obtain ⟨_, rfl⟩ | ht' := hsub t dir' ht
    · exact hf.managed
    · exact hw.directory ht0 ht'
  · intro t dir' ht
    obtain ⟨_, rfl⟩ | ht' := hsub t dir' ht
    · exact hf.managed.mapped
    · exact hw.mapped ht'
  · rw [hf.swapper]
    exact hw.swapper

/-- A fork keeps the counts right: the pages of the tree get an owner more. -/
lemma Forks.counted {nr : Fin 64} {dir n : BitVec 64} (hw : s.WF) (h : s.Counted)
    (hd : s.pgd c = some dir) (hnr : s.pgd nr = none) (hf : Forks nr dir n s s') : s'.Counted := by
  obtain ⟨hspace, hchild, hn⟩ := hf.space h hd
  have hold := hw.nodup c
  rw [space_of_some hd, List.nodup_cons] at hold
  intro x hx hr
  have hchange := reachers_change (x := x) hspace
  rw [space_of_none hnr, if_neg List.not_mem_nil, Nat.add_zero, hchild] at hchange
  have hcount := count_mapNr (fun y hy => hw.managed hd y hy) hold.2 hx
  have hle := reachers_le (s := s) (x := x)
  rw [hf.memMap, addAll, hcount]
  by_cases hxn : x = n
  · -- the new page directory: it was free, so nothing reached it
    subst hxn
    have h0 : s.reachers x = 0 := by
      rw [Memory.reachers, card_eq_zero, filter_eq_empty_iff]
      intro t _
      exact h.not_mem hx hf.free t
    rw [if_pos List.mem_cons_self, h0] at hchange
    rw [update_self, if_neg hn, hchange]
    rfl
  · -- any other page gets one owner more if it is in the tree
    have hne : mapNr x ≠ mapNr n := fun e => hxn (hx.eq_of_mapNr hf.managed e)
    rw [update_of_ne hne]
    by_cases hin : x ∈ tree s.mem dir
    · have hpos : 0 < s.reachers x := by
        apply reachers_pos (t := c)
        rw [space_of_some hd]
        exact List.mem_cons_of_mem _ hin
      rw [if_pos (List.mem_cons_of_mem _ hin)] at hchange
      rw [if_pos hin, BitVec.toNat_add, h x hx hpos, hchange]
      simp
      omega
    · rw [if_neg (by rw [List.mem_cons, not_or]; exact ⟨hxn, hin⟩), Nat.add_zero] at hchange
      rw [if_neg hin, hchange]
      rw [BitVec.add_zero]
      exact h x hx (by omega)

/-- A fork keeps the counts. -/
lemma Forks.keeps {nr : Fin 64} {dir n : BitVec 64} (hw : s.WF) (h : s.Counted)
    (hd : s.pgd c = some dir) (hnr : s.pgd nr = none) (hf : Forks nr dir n s s') :
    s'.WF ∧ s'.Counted :=
  ⟨hf.wf hw h hd, hf.counted hw h hd hnr⟩

/-! ## Page faults -/

/-- `get_pte` never returns a null pointer. -/
lemma getPteWalk_ne_null {m : BitVec 64 → Fin 512 → BitVec 64} {va table : BitVec 64} {n : Nat} :
    getPteWalk m va n table ≠ .null := by
  induction n generalizing table with
  | zero => rintro ⟨⟩
  | succ n ih =>
    rw [getPteWalk]
    split
    · show (if _ then _ else _) ≠ _
      rw [if_neg (getPte_test _)]
      exact ih
    · rintro ⟨⟩

/-- The entry of an address has the count 1: only its `PTE_W` is set. -/
structure SetsW (c : Fin 64) (badaddr : BitVec 64) (s s' : Memory) : Prop where
  entry : ∃ dir table i, s.pgd c = some dir ∧
    pageSize ≤ badaddr &&& ~~~0xFFF#64 ∧ badaddr &&& ~~~0xFFF#64 < taskSize ∧
    getPte s.mem dir (badaddr &&& ~~~0xFFF#64) = .entry table i ∧ Mapped table ∧
    p2v lowMem ≤ pte2va (s.mem table i) ∧ s.memMap (mapNr (pte2va (s.mem table i))) = 1 ∧
    s' = { s with mem := update s.mem table (update (s.mem table) i (s.mem table i ||| pteW)) }

/-- `do_wp_page` ends the task, sets `PTE_W` on a page with the count 1, or takes a free page to
    copy. -/
lemma wpPage_cases {trapped : Prog Memory Unit} {dir address table : BitVec 64} {i : Fin 512} :
    wpPage trapped c dir address table i s = doExit c s ∨
      (Mapped table ∧ p2v lowMem ≤ pte2va (s.mem table i) ∧ s.memMap (mapNr (pte2va (s.mem table i))) = 1 ∧
        wpPage trapped c dir address table i s = .ret ((), setW s table i)) ∨
      (Mapped table ∧
        ¬ (p2v lowMem ≤ pte2va (s.mem table i) ∧ pagingPages ≤ mapNr (pte2va (s.mem table i))) ∧
        ¬ (p2v lowMem ≤ pte2va (s.mem table i) ∧ s.memMap (mapNr (pte2va (s.mem table i))) = 1) ∧
        findFree s.memMap 0 pagingPages ≠ none) := by
  rw [wpPage]
  split
  · next hm =>
    rw [Prog.bind_of_ret (t := s) rfl]
    split
    · exact .inl rfl
    · next hout =>
      split
      · next h1 => exact .inr (.inl ⟨hm, h1.1, h1.2, rfl⟩)
      · next h1 =>
        by_cases hf : findFree s.memMap 0 pagingPages = none
        · exact .inl (copyOnWrite_full hf)
        · exact .inr (.inr ⟨hm, hout, h1, hf⟩)
  · exact .inl rfl

/-- A page fault that does not copy ends the task or sets `PTE_W`. -/
lemma doPageFault_cases {badaddr : BitVec 64} (hl : s.pgd c ≠ none) (hc : ¬ Copies s c badaddr) :
    doPageFault c badaddr s = doExit c s ∨
      ∃ s', SetsW c badaddr s s' ∧ doPageFault c badaddr s = .ret ((), s') := by
  obtain ⟨dir, hd⟩ := Option.ne_none_iff_exists'.1 hl
  by_cases hr : badaddr &&& ~~~0xFFF#64 < pageSize ∨ taskSize ≤ badaddr &&& ~~~0xFFF#64
  · left
    rw [doPageFault, pageFault, Prog.bind_of_ret (t := s) rfl, hd]
    dsimp only
    rw [if_pos hr]
  · obtain ⟨hlo, hhi⟩ := not_or.1 hr
    cases hg : getPte s.mem dir (badaddr &&& ~~~0xFFF#64) with
    | null => exact absurd hg getPteWalk_ne_null
    | trap =>
      left
      rw [doPageFault, pageFault, Prog.bind_of_ret (t := s) rfl, hd]
      dsimp only
      rw [if_neg hr, hg]
    | entry table i =>
      rw [doPageFault, pageFault_entry hd (BitVec.not_lt.1 hlo) (BitVec.not_le.1 hhi) hg]
      obtain h | ⟨hm, hlow, h1, h⟩ | ⟨hm, hout, h1, hfree⟩ := wpPage_cases (s := s) (c := c)
      · exact .inl h
      · exact .inr ⟨_, ⟨dir, table, i, hd, BitVec.not_lt.1 hlo, BitVec.not_le.1 hhi, hg, hm, hlow, h1, rfl⟩, h⟩
      · exact absurd ⟨dir, table, i, hd, BitVec.not_lt.1 hlo, BitVec.not_le.1 hhi, hg, hm, hout, h1,
          hfree⟩ hc

/-- Setting `PTE_W` changes no address space. -/
lemma alike_setW (m : BitVec 64 → Fin 512 → BitVec 64) (table : BitVec 64) (i : Fin 512) :
    Alike m (update m table (update (m table) i (m table i ||| pteW))) :=
  (Alike.refl m).write (valid_or (by decide)) (pte2va_or (by decide))

/-- What leaves the pages of all tasks keeps the counts. -/
lemma keeps_of_space (hw : s.WF) (h : s.Counted) (hspace : ∀ t, s'.space t = s.space t)
    (hm : s'.memMap = s.memMap) (hp : s'.pgd = s.pgd) (hs : s'.swapperPgDir = s.swapperPgDir) :
    s'.WF ∧ s'.Counted := by
  constructor
  · refine ⟨?_, ?_, ?_, ?_, ?_⟩
    · intro t
      rw [hspace]
      exact hw.nodup t
    · intro t dir ht
      have e := hspace t
      rw [space_of_some ht] at e
      rw [hp] at ht
      rw [space_of_some ht] at e
      rw [List.tail_eq_of_cons_eq e]
      exact hw.managed ht
    · intro t dir ht0 ht
      rw [hp] at ht
      exact hw.directory ht0 ht
    · intro t dir ht
      rw [hp] at ht
      exact hw.mapped ht
    · rw [hs]
      exact hw.swapper
  · intro x hx hr
    have hreach : s'.reachers x = s.reachers x := reachers_congr hspace
    rw [hreach] at hr ⊢
    rw [hm]
    exact h x hx hr

/-- A step that does not copy keeps the counts right. -/
lemma Step.keeps {l : Event} (hw : s.WF) (h : s.Counted) (st : Step s l s') (hc : NoCopy s l s') :
    s'.WF ∧ s'.Counted := by
  cases st with
  | fork hl hnr _ e =>
    obtain ⟨dir, hd⟩ := Option.ne_none_iff_exists'.1 hl
    obtain ⟨_, rfl⟩ | ⟨_, n, hf⟩ := (copyPageTables_returns hw h hd).elim e
    · exact ⟨hw, h⟩
    · exact hf.keeps hw h hd hnr
  | fault hl e =>
    obtain he | ⟨_, ⟨_, table, i, _, _, _, _, _, _, _, rfl⟩, he⟩ := doPageFault_cases hl hc
    · exact doExit_keeps hw h hl (he.symm.trans e)
    · cases he.symm.trans e
      refine keeps_of_space hw h ?_ rfl rfl rfl
      intro t
      exact space_congr (alike_setW _ _ _) rfl
  | exit hl e => exact doExit_keeps hw h hl e

/-- In a run of forks, page faults and exits none of which reaches the copying branch of `do_wp_page`,
    `mem_map` counts the live tasks that reach each page, no page in use has the count 0, and
    `free_page` does not panic when an address space is torn down. -/
theorem page_counts {tr : List (Event × Memory)} (h0 : system.init s) (ex : system.Exec s tr)
    (hc : Along NoCopy s tr) : Always Memory.Sound s tr := by
  have hstep : ∀ s l s', system.init s → system.step s l s' → NoCopy s l s' →
      system.init s' ∧ True := by
    intro s l s' h st hn
    exact ⟨Step.keeps h.1 h.2 st hn, trivial⟩
  have hinv := (ex.along_of_inv (Q := fun _ _ _ => True) hstep h0 hc).1
  exact hinv.mono fun s h => Memory.Counted.sound h.1 h.2

/-! ### One mapped page -/

/-- A table with a few entries. -/
def entries (l : List (Fin 512 × BitVec 64)) : Fin 512 → BitVec 64 := fun i => (l.lookup i).getD 0

/-- An entry for the `i`-th page. -/
def entryOf (i : Nat) (perm : BitVec 64) : BitVec 64 := va2pte (pageAddr i) ||| perm

/-- Task 1 with its page directory on page 2 and one page, page 5, mapped at `0x87000000`; pages 0 and 1
    are tables of the direct map. -/
def onePage : Memory where
  mem p :=
    if p = pageAddr 2 then entries [(2, entryOf 3 pteV), (256, entryOf 0 pteV)]
    else if p = pageAddr 3 then entries [(56, entryOf 4 pteV)]
    else if p = pageAddr 4 then entries [(0, entryOf 5 userPerm)]
    else if p = pageAddr 0 then entries [(2, entryOf 1 pteV)]
    else if p = pageAddr 1 then fun i => entryOf i (pteX ||| pteW ||| pteR ||| pteV)
    else fun _ => 0
  memMap i := if i < 6 then 1 else 0
  pgd := update (fun _ => none) 1 (some (pageAddr 2))
  swapperPgDir := p2v 0x80210000#64

/-- The pages of the only task. -/
lemma onePage_space (t : Fin 64) :
    onePage.space t = if t = 1 then [pageAddr 2, pageAddr 3, pageAddr 4, pageAddr 5] else [] := by
  split
  · next h =>
    subst h
    decide +kernel
  · next h =>
    apply space_of_none
    show update (fun _ => none) 1 (some (pageAddr 2)) t = none
    rw [update_of_ne h]

/-- Its directory. -/
lemma onePage_pgd {t : Fin 64} {dir : BitVec 64} (h : onePage.pgd t = some dir) :
    t = 1 ∧ dir = pageAddr 2 := by
  have h' : update (fun _ => none) 1 (some (pageAddr 2)) t = some dir := h
  by_cases ht : t = 1
  · subst ht
    rw [update_self] at h'
    exact ⟨rfl, (Option.some.inj h').symm⟩
  · rw [update_of_ne ht] at h'
    cases h'

/-- Its pages are the first six of the pool. -/
lemma onePage_mem {t : Fin 64} {x : BitVec 64} (h : x ∈ onePage.space t) :
    t = 1 ∧ ∃ i, i < 6 ∧ x = pageAddr i := by
  rw [onePage_space] at h
  split at h
  · next ht =>
    refine ⟨ht, ?_⟩
    simp only [List.mem_cons, List.not_mem_nil, or_false] at h
    obtain rfl | rfl | rfl | rfl := h
    · exact ⟨2, by decide, rfl⟩
    · exact ⟨3, by decide, rfl⟩
    · exact ⟨4, by decide, rfl⟩
    · exact ⟨5, by decide, rfl⟩
  · cases h

/-- The sample is initial. -/
lemma onePage_init : system.init onePage := by
  have hman : ∀ {t x}, x ∈ onePage.space t → Managed x := by
    intro t x hx
    obtain ⟨_, i, hi, rfl⟩ := onePage_mem hx
    exact ⟨i, hi.trans (by decide), rfl⟩
  refine ⟨⟨?_, ?_, ?_, ?_, ?_⟩, ?_⟩
  · intro t
    rw [onePage_space]
    split
    · decide
    · exact List.nodup_nil
  · intro t dir hd x hx
    apply hman (t := t)
    rw [space_of_some hd]
    exact List.mem_cons_of_mem _ hx
  · intro t dir _ hd
    apply hman (t := t)
    rw [space_of_some hd]
    exact List.mem_cons_self
  · intro t dir hd
    rw [(onePage_pgd hd).2]
    decide
  · intro h
    exact absurd h.range.1 (by decide)
  · intro x _ hr
    obtain ⟨t, ht⟩ := card_pos.1 hr
    obtain ⟨rfl, i, hi, rfl⟩ := onePage_mem (mem_filter.1 ht).2
    have hone : onePage.reachers (pageAddr i) = 1 := by
      refine card_eq_one.2 ⟨1, eq_singleton_iff_unique_mem.2 ⟨ht, ?_⟩⟩
      intro t' ht'
      exact (onePage_mem (mem_filter.1 ht').2).1
    rw [hone, mapNr_pageAddr (hi.trans (by decide))]
    show (if i < 6 then 1 else 0 : BitVec 16).toNat = 1
    rw [if_pos hi]
    rfl

/-- The entries of the directory. -/
lemma onePage_dir : onePage.mem (pageAddr 2) = entries [(2, entryOf 3 pteV), (256, entryOf 0 pteV)] := by
  rw [onePage]
  dsimp only
  rw [if_pos rfl]

/-- The entries of the table below the directory. -/
lemma onePage_l1 : onePage.mem (pageAddr 3) = entries [(56, entryOf 4 pteV)] := by
  have h : pageAddr 3 ≠ pageAddr 2 := by decide
  rw [onePage]
  dsimp only
  rw [if_neg h, if_pos rfl]

/-- The entries of the last table. -/
lemma onePage_l0 : onePage.mem (pageAddr 4) = entries [(0, entryOf 5 userPerm)] := by
  rw [onePage]
  dsimp only
  rw [if_neg (by decide), if_neg (by decide), if_pos rfl]

/-- An entry that is not in use is skipped. -/
lemma skip_entry {table : BitVec 64} {i : Fin 512} {f : BitVec 64 → Prog Memory PUnit} (h : Mapped table)
    (hv : valid (s.mem table i) = false) :
    (readPte table i >>= fun pte => if valid pte then f pte else pure ()) s = .ret ((), s) := by
  rw [Prog.bind_of_ret (readPte_eq h), hv]
  rfl

/-- A valid entry is followed. -/
lemma enter_entry {table : BitVec 64} {i : Fin 512} {f : BitVec 64 → Prog Memory PUnit} (h : Mapped table)
    (hv : valid (s.mem table i) = true) :
    (readPte table i >>= fun pte => if valid pte then f pte else pure ()) s = f (s.mem table i) s := by
  rw [Prog.bind_of_ret (readPte_eq h), if_pos hv]

/-- The count of a page goes up. -/
lemma addCount_page {i : Nat} (h : i < pagingPages) : addCount (pageAddr i) s =
    .ret ((), { s with memMap := update s.memMap i (s.memMap i + 1) }) := by
  rw [addCount, mapNr_pageAddr h, Prog.bind_of_ret (readMap_eq h)]
  rfl


/-- A table without entries. -/
lemma entries_nil (i : Fin 512) : entries [] i = 0#64 := rfl

/-- The entries behind another one. -/
lemma entries_of_ne {a i : Fin 512} {e : BitVec 64} {l : List (Fin 512 × BitVec 64)} (h : i ≠ a) :
    entries ((a, e) :: l) i = entries l i := by
  have hb : (i == a) = false := by simp [h]
  rw [entries, List.lookup_cons, hb]
  rfl

/-- The first entry. -/
lemma entries_self {a : Fin 512} {e : BitVec 64} {l : List (Fin 512 × BitVec 64)} :
    entries ((a, e) :: l) a = e := by
  rw [entries, List.lookup_cons, beq_self_eq_true]
  rfl

/-- The memory after the page directory has been copied. -/
def copiedDir : BitVec 64 → Fin 512 → BitVec 64 :=
  update onePage.mem (pageAddr 6) (entries [(2, entryOf 3 pteV), (256, entryOf 0 pteV)])

/-- The memory after the page has been write-protected. -/
def guardedDir : BitVec 64 → Fin 512 → BitVec 64 :=
  update copiedDir (pageAddr 4) (entries [(0, entryOf 5 sharedPerm)])

/-- Copying the directory leaves the other pages. -/
lemma copiedDir_of_ne (h : x ≠ pageAddr 6) : copiedDir x = onePage.mem x := update_of_ne h _ _

/-- Guarding the page leaves all but its table. -/
lemma guardedDir_of_ne (h : x ≠ pageAddr 4) : guardedDir x = copiedDir x := update_of_ne h _ _

/-- The only page is shared. -/
lemma shareLeaves_onePage (hm : s.mem = copiedDir) :
    forM (List.finRange 512) (shareLeaf (pageAddr 4)) s =
      .ret ((), { s with mem := guardedDir, memMap := update s.memMap 5 (s.memMap 5 + 1) }) := by
  have hmap : Mapped (pageAddr 4) := by decide
  refine Prog.forM_one (a := 0) (List.nodup_finRange 512) (List.mem_finRange 0) ?_ ?_ ?_
  · intro b _ hb
    refine skip_entry hmap ?_
    rw [hm, copiedDir_of_ne (by decide), onePage_l0, entries_of_ne hb, entries_nil]
    rfl
  · have hv : valid (s.mem (pageAddr 4) 0) = true := by
      rw [hm, copiedDir_of_ne (by decide), onePage_l0]
      decide
    rw [shareLeaf, enter_entry hmap hv, hm, copiedDir_of_ne (by decide), onePage_l0, entries_self]
    have hp : pte2va (setFlags (entryOf 5 userPerm) sharedPerm) = pageAddr 5 := by decide
    have hw : update (entries [(0, entryOf 5 userPerm)]) 0 (setFlags (entryOf 5 userPerm) sharedPerm) =
        entries [(0, entryOf 5 sharedPerm)] := by
      funext i
      by_cases hi : i = 0
      · subst hi
        rw [update_self, entries_self]
        decide
      · rw [update_of_ne hi, entries_of_ne hi, entries_of_ne hi]
    have hwrite : writePte (pageAddr 4) 0 (setFlags (entryOf 5 userPerm) sharedPerm) s =
        .ret ((), { s with mem := guardedDir }) := by
      rw [guardedDir, ← hw, ← onePage_l0, ← copiedDir_of_ne (x := pageAddr 4) (by decide), ← hm]
      rfl
    rw [Prog.bind_of_ret hwrite, hp, addCount_page (by decide)]
  · intro b _ hb
    refine skip_entry hmap ?_
    show valid (guardedDir (pageAddr 4) b) = false
    rw [guardedDir, update_self, entries_of_ne hb, entries_nil]
    rfl
/-- No entry of the lower half is twice in it. -/
lemma lowerHalf_nodup : lowerHalf.Nodup :=
  (List.nodup_finRange 256).map (Fin.castLE_injective _)

/-- The last table is shared. -/
lemma shareTables_onePage (hm : s.mem = copiedDir) :
    forM (List.finRange 512) (shareL0 (pageAddr 3)) s =
      .ret ((), { s with
        mem := guardedDir
        memMap := update (update s.memMap 4 (s.memMap 4 + 1)) 5 (s.memMap 5 + 1) }) := by
  have hmap : Mapped (pageAddr 3) := by decide
  refine Prog.forM_one (a := 56) (List.nodup_finRange 512) (List.mem_finRange 56) ?_ ?_ ?_
  · intro b _ hb
    refine skip_entry hmap ?_
    rw [hm, copiedDir_of_ne (by decide), onePage_l1, entries_of_ne hb, entries_nil]
    rfl
  · have hv : valid (s.mem (pageAddr 3) 56) = true := by
      rw [hm, copiedDir_of_ne (by decide), onePage_l1]
      decide
    have hp : pte2va (entryOf 4 pteV) = pageAddr 4 := by decide
    rw [shareL0, enter_entry hmap hv, hm, copiedDir_of_ne (by decide), onePage_l1, entries_self, hp,
      Prog.bind_of_ret (addCount_page (by decide))]
    have hloop := shareLeaves_onePage (s := { s with memMap := update s.memMap 4 (s.memMap 4 + 1) }) hm
    dsimp only at hloop
    rw [hloop]
    rw [update_of_ne (show (5 : Nat) ≠ 4 by decide)]
  · intro b _ hb
    refine skip_entry hmap ?_
    show valid (guardedDir (pageAddr 3) b) = false
    rw [guardedDir_of_ne (by decide), copiedDir_of_ne (by decide), onePage_l1, entries_of_ne hb,
      entries_nil]
    rfl

/-- The table above the last one is shared. -/
lemma shareDir_onePage (hm : s.mem = copiedDir) :
    forM lowerHalf (referenceCountOneTable (pageAddr 2)) s =
      .ret ((), { s with
        mem := guardedDir
        memMap := update (update (update s.memMap 3 (s.memMap 3 + 1)) 4 (s.memMap 4 + 1)) 5
          (s.memMap 5 + 1) }) := by
  have hmap : Mapped (pageAddr 2) := by decide
  have hne : ∀ b ∈ lowerHalf, b ≠ 2 → valid (copiedDir (pageAddr 2) b) = false := by
    intro b hb h2
    have h256 : b ≠ 256 := by
      rintro rfl
      exact absurd (mem_lowerHalf.1 hb) (by decide)
    rw [copiedDir_of_ne (by decide), onePage_dir, entries_of_ne h2, entries_of_ne h256, entries_nil]
    rfl
  refine Prog.forM_one (a := 2) lowerHalf_nodup (mem_lowerHalf.2 (by decide)) ?_ ?_ ?_
  · intro b hl hb
    refine skip_entry hmap ?_
    rw [hm]
    exact hne b hl hb
  · have hv : valid (s.mem (pageAddr 2) 2) = true := by
      rw [hm, copiedDir_of_ne (by decide), onePage_dir]
      decide
    have hp : pte2va (entryOf 3 pteV) = pageAddr 3 := by decide
    rw [referenceCountOneTable, enter_entry hmap hv, hm, copiedDir_of_ne (by decide), onePage_dir, entries_self, hp,
      Prog.bind_of_ret (addCount_page (by decide))]
    have hloop := shareTables_onePage (s := { s with memMap := update s.memMap 3 (s.memMap 3 + 1) }) hm
    dsimp only at hloop
    rw [hloop]
    rw [update_of_ne (show (5 : Nat) ≠ 3 by decide), update_of_ne (show (4 : Nat) ≠ 3 by decide)]
  · intro b hl hb
    refine skip_entry hmap ?_
    show valid (guardedDir (pageAddr 2) b) = false
    rw [guardedDir_of_ne (by decide)]
    exact hne b hl hb

/-- Task 1 has forked task 2. -/
def forked : Memory where
  mem := guardedDir
  memMap i := if i < 3 then 1 else if i < 6 then 2 else if i = 6 then 1 else 0
  pgd := update onePage.pgd 2 (some (pageAddr 6))
  swapperPgDir := onePage.swapperPgDir

/-- The task is forked. -/
lemma fork_onePage : copyPageTables 1 2 onePage = .ret (0, forked) := by
  have hfree : findFree onePage.memMap 0 pagingPages = some 6 := by decide
  have hd : onePage.pgd 1 = some (pageAddr 2) := by decide
  have hcopy : update (update onePage.mem (pageAddr 6) fun _ => 0) (pageAddr 6)
      (update onePage.mem (pageAddr 6) (fun _ => 0) (pageAddr 2)) = copiedDir := by
    rw [update_idem, update_of_ne (by decide), onePage_dir, copiedDir]
  have hmap : update (update (update (update onePage.memMap 6 1) 3 (update onePage.memMap 6 1 3 + 1)) 4
      (update onePage.memMap 6 1 4 + 1)) 5 (update onePage.memMap 6 1 5 + 1) = forked.memMap := by
    funext i
    show _ = if i < 3 then 1 else if i < 6 then 2 else if i = 6 then 1 else (0 : BitVec 16)
    simp only [update_apply, onePage]
    split_ifs <;> first | rfl | omega
  have hloop := shareDir_onePage (s := ⟨copiedDir, update onePage.memMap 6 1,
    update onePage.pgd 2 (some (pageAddr 6)), onePage.swapperPgDir⟩) rfl
  dsimp only at hloop
  rw [hmap] at hloop
  rw [copyPageTables, Prog.bind_of_ret (t := onePage) rfl, hd]
  dsimp only
  rw [Prog.bind_of_ret (getFreePage_some hfree)]
  dsimp only
  rw [Prog.bind_of_ret (t := ⟨update onePage.mem (pageAddr 6) fun _ => 0, update onePage.memMap 6 1,
      update onePage.pgd 2 (some (pageAddr 6)), onePage.swapperPgDir⟩) rfl,
    Prog.bind_of_ret (t := ⟨copiedDir, update onePage.memMap 6 1,
      update onePage.pgd 2 (some (pageAddr 6)), onePage.swapperPgDir⟩) (by rw [← hcopy]; rfl),
    Prog.bind_of_ret hloop]
  rfl

/-- Forking the task is a step. -/
lemma forked_step : Step onePage (.fork 1 2) forked :=
  .fork (by decide) (by decide) (by decide) fork_onePage

/-- The fork keeps the counts. -/
lemma forked_keeps : forked.WF ∧ forked.Counted :=
  Step.keeps onePage_init.1 onePage_init.2 forked_step trivial

/-- The pages of the child. -/
lemma forked_space : forked.space 2 = [pageAddr 6, pageAddr 3, pageAddr 4, pageAddr 5] := by
  obtain ⟨hw, hc⟩ := onePage_init
  have hd : onePage.pgd 1 = some (pageAddr 2) := by decide
  obtain ⟨h, _⟩ | ⟨_, n, hf⟩ := (copyPageTables_returns hw hc hd).elim fork_onePage
  · exact absurd rfl h
  · have hn : forked.pgd 2 = some n := by rw [hf.pgd, update_self]
    have hs := onePage_space 1
    rw [space_of_some hd, if_pos rfl] at hs
    rw [(hf.space hc hd).2.1, List.tail_eq_of_cons_eq hs]
    cases hn
    rfl

/-- Task 2 has exited. -/
def exited : Memory := { forked with memMap := onePage.memMap, pgd := update forked.pgd 2 none }

/-- The child exits. -/
lemma exit_forked : doExit 2 forked = .ret ((), exited) := by
  have hmap : subAll forked.memMap (forked.space 2) = onePage.memMap := by
    have hnr : [pageAddr 6, pageAddr 3, pageAddr 4, pageAddr 5].map mapNr = [6, 3, 4, 5] := by decide
    funext i
    rw [subAll, forked_space, hnr]
    show (if i < 3 then 1 else if i < 6 then 2 else if i = 6 then 1 else (0 : BitVec 16)) - _ =
      if i < 6 then 1 else 0
    simp only [List.count_cons, List.count_nil, beq_iff_eq]
    split_ifs <;> first | rfl | omega
  rw [doExit_eq forked_keeps.1 forked_keeps.2 (by decide) (by decide), hmap]
  rfl

/-- The exit of the child is a step. -/
lemma exited_step : Step forked (.exit 2) exited := .exit (by decide) exit_forked

/-- Task 1 has stored to its page. -/
def stored : Memory := Prog.after (doPageFault 1 0x87000123#64) exited

/-- Then the parent stores to its page. -/
lemma stored_step : Step exited (.fault 1 0x87000123#64) stored := by
  have h : Prog.halts (doPageFault 1 0x87000123#64) exited = true := by decide
  obtain ⟨_, e⟩ := Prog.ret_after h
  exact .fault (by decide) e

/-- The store of the parent copies nothing. -/
lemma exited_noCopy : ¬ Copies exited 1 0x87000123#64 := by
  have hp : exited.pgd 1 = some (pageAddr 2) := by decide
  have hg : getPte exited.mem (pageAddr 2) (0x87000123#64 &&& ~~~0xFFF#64) = .entry (pageAddr 4) 0 := by
    decide
  have h1 : p2v lowMem ≤ pte2va (exited.mem (pageAddr 4) 0) ∧
      exited.memMap (mapNr (pte2va (exited.mem (pageAddr 4) 0))) = 1 := by decide
  rintro ⟨dir, table, i, hd, _, _, he, _, _, hn, _⟩
  rw [hp] at hd
  cases hd
  rw [hg] at he
  cases he
  exact hn h1

/-- A fork, the exit of the child and a store of the parent. -/
theorem page_counts_parent_store :
    Always Memory.Sound onePage
      [(Event.fork 1 2, forked), (Event.exit 2, exited), (Event.fault 1 0x87000123#64, stored)] :=
  page_counts onePage_init (.cons forked_step (.cons exited_step (.cons stored_step .nil)))
    ⟨trivial, trivial, exited_noCopy, trivial⟩

/-! ### Three tasks and one free page -/

/-- The page directory of a task that has page 5 mapped through the tables on pages 3 and 4. -/
def sharedDir : Fin 512 → BitVec 64 := entries [(2, entryOf 3 pteV), (256, entryOf 0 pteV)]

/-- Task 1 has forked the tasks 2 and 3, which share its page; of the other pages only page 8 is free. -/
def crowded : Memory where
  mem p :=
    if p = pageAddr 2 ∨ p = pageAddr 6 ∨ p = pageAddr 7 then sharedDir
    else if p = pageAddr 3 then entries [(56, entryOf 4 pteV)]
    else if p = pageAddr 4 then entries [(0, entryOf 5 sharedPerm)]
    else if p = pageAddr 0 then entries [(2, entryOf 1 pteV)]
    else if p = pageAddr 1 then fun i => entryOf i (pteX ||| pteW ||| pteR ||| pteV)
    else fun _ => 0
  memMap i := if i < 3 then 1 else if i < 6 then 3 else if i = 8 then 0 else 1
  pgd t := if t = 1 then some (pageAddr 2) else if t = 2 then some (pageAddr 6)
    else if t = 3 then some (pageAddr 7) else none
  swapperPgDir := p2v 0x80210000#64

/-- The address spaces of the three tasks. -/
lemma crowded_space (t : Fin 64) : crowded.space t =
    if t = 1 then [pageAddr 2, pageAddr 3, pageAddr 4, pageAddr 5]
    else if t = 2 then [pageAddr 6, pageAddr 3, pageAddr 4, pageAddr 5]
    else if t = 3 then [pageAddr 7, pageAddr 3, pageAddr 4, pageAddr 5] else [] := by
  split
  · next h =>
    subst h
    decide +kernel
  split
  · next h =>
    subst h
    decide +kernel
  split
  · next h =>
    subst h
    decide +kernel
  · next h1 h2 h3 =>
    apply space_of_none
    show (if t = 1 then _ else _) = _
    rw [if_neg h1, if_neg h2, if_neg h3]

/-- They consist of the pages 2 to 7. -/
lemma crowded_mem {t : Fin 64} (h : x ∈ crowded.space t) : ∃ i, 2 ≤ i ∧ i < 8 ∧ x = pageAddr i := by
  have hlist : ∀ k, k = 2 ∨ k = 6 ∨ k = 7 → x ∈ [pageAddr k, pageAddr 3, pageAddr 4, pageAddr 5] →
      ∃ i, 2 ≤ i ∧ i < 8 ∧ x = pageAddr i := by
    intro k hk hx
    simp only [List.mem_cons, List.not_mem_nil, or_false] at hx
    obtain rfl | rfl | rfl | rfl := hx
    · exact ⟨k, by omega, by omega, rfl⟩
    · exact ⟨3, by decide, by decide, rfl⟩
    · exact ⟨4, by decide, by decide, rfl⟩
    · exact ⟨5, by decide, by decide, rfl⟩
  rw [crowded_space] at h
  split_ifs at h
  · exact hlist 2 (.inl rfl) h
  · exact hlist 6 (.inr (.inl rfl)) h
  · exact hlist 7 (.inr (.inr rfl)) h
  · cases h

/-- Each of them is counted. -/
lemma crowded_count {i : Nat} (hlo : 2 ≤ i) (hhi : i < 8) :
    crowded.reachers (pageAddr i) = (crowded.memMap i).toNat := by
  have hcard : ∀ i : Fin 8, 2 ≤ i.val →
      #{t : Fin 64 | pageAddr i ∈ if t = 1 then [pageAddr 2, pageAddr 3, pageAddr 4, pageAddr 5]
        else if t = 2 then [pageAddr 6, pageAddr 3, pageAddr 4, pageAddr 5]
        else if t = 3 then [pageAddr 7, pageAddr 3, pageAddr 4, pageAddr 5] else []} =
      (crowded.memMap i).toNat := by decide
  rw [Memory.reachers, ← hcard ⟨i, hhi⟩ hlo]
  simp only [crowded_space]

/-- The memory is well-formed and counted right. -/
lemma crowded_init : system.init crowded := by
  have hman : ∀ {t x}, x ∈ crowded.space t → Managed x := by
    intro t x hx
    obtain ⟨i, _, hi, rfl⟩ := crowded_mem hx
    exact ⟨i, hi.trans (by decide), rfl⟩
  have hdir : ∀ {t dir}, crowded.pgd t = some dir → Managed dir := by
    intro t dir hd
    apply hman (t := t)
    rw [space_of_some hd]
    exact List.mem_cons_self
  refine ⟨⟨?_, ?_, fun _ => hdir, fun hd => (hdir hd).mapped, ?_⟩, ?_⟩
  · intro t
    rw [crowded_space]
    split_ifs <;> decide
  · intro t dir hd x hx
    apply hman (t := t)
    rw [space_of_some hd]
    exact List.mem_cons_of_mem _ hx
  · intro h
    exact absurd h.range.1 (by decide)
  · intro x _ hr
    obtain ⟨t, ht⟩ := card_pos.1 hr
    obtain ⟨i, hlo, hhi, rfl⟩ := crowded_mem (mem_filter.1 ht).2
    rw [crowded_count hlo hhi, mapNr_pageAddr (hhi.trans (by decide))]

/-- `do_page_fault` has taken page `k` for the copy, and has mapped the page at its own address. -/
def Memory.remapped (s : Memory) (k : Nat) : Memory :=
  { s with
    memMap := update s.memMap k 1
    mem := update (update s.mem (pageAddr k) fun _ => 0) (pageAddr 1)
      (update (s.mem (pageAddr 1)) (px 0 (pageAddr k)) (pa2pte 0x87000000#64 ||| userPerm)) }

/-- `memcpy` is about to copy page 5. -/
def Memory.copying (s : Memory) (k : Nat) : Memory := (s.remapped k).unshared (pageAddr 4) 0 (pageAddr 5)

/-- `do_page_fault` for a store of task 2 to the page at `0x87000000`, up to the load that traps. -/
lemma sharedPage_traps {trapped : Prog Memory Unit} {k : Nat} (hd : s.pgd 2 = some (pageAddr 6))
    (hg : getPte s.mem (pageAddr 6) 0x87000000#64 = .entry (pageAddr 4) 0)
    (he : pte2va (s.mem (pageAddr 4) 0) = pageAddr 5) (h1 : s.memMap (mapNr (pageAddr 5)) ≠ 1)
    (hf : findFree s.memMap 0 pagingPages = some k)
    (hmap : mapPage (pageAddr 6) (pageAddr k) 0x87000000#64 userPerm 2 0
      { s with memMap := update s.memMap k 1, mem := update s.mem (pageAddr k) fun _ => 0 } =
        .ret (0, s.remapped k))
    (hread : readable (s.copying k).mem (pageAddr 6) 0x87000000#64 = false) :
    pageFault trapped 2 0x87000123#64 s = trapped (s.copying k) := by
  have hnr : mapNr (pageAddr 5) < pagingPages := by decide
  have hm : Mapped (pageAddr 4) := by decide
  have ha : 0x87000123#64 &&& ~~~0xFFF#64 = 0x87000000#64 := by decide
  rw [pageFault_entry hd (by rw [ha]; decide) (by rw [ha]; decide) (by rw [ha]; exact hg), ha,
    wpPage_copies hm (by rw [he]; exact hnr) (by rw [he]; exact h1), he]
  exact copyOnWrite_traps hf hmap hnr hm hread

/-- `map_page` has all tables that it needs. -/
lemma crowded_mapPage : mapPage (pageAddr 6) (pageAddr 8) 0x87000000#64 userPerm 2 0
    { crowded with memMap := update crowded.memMap 8 1, mem := update crowded.mem (pageAddr 8) fun _ => 0 } =
      .ret (0, crowded.remapped 8) := by
  rw [mapPage_present (t := pageAddr 0) (u := pageAddr 1) (by decide) (by decide) (by decide)
    (by decide) (by decide) (by decide)]
  rfl

/-- Task 2 takes page 8. -/
def trappedCopy : Memory := crowded.copying 8

/-- The page fault of task 2, up to the load that traps. -/
lemma crowded_traps {trapped : Prog Memory Unit} : pageFault trapped 2 0x87000123#64 crowded = trapped trappedCopy :=
  sharedPage_traps rfl (by decide) (by decide) (by decide) (by decide) crowded_mapPage
    (by decide)

/-- There is no free page for the copy that the nested page fault makes. -/
lemma trappedCopy_full : findFree trappedCopy.memMap 0 pagingPages = none := by
  cases hf : findFree trappedCopy.memMap 0 pagingPages with
  | none => rfl
  | some k =>
    exfalso
    obtain ⟨h0, _⟩ := findFree_some hf
    have hnr : mapNr (pageAddr 5) = 5 := by decide
    change update (crowded.remapped 8).memMap (mapNr (pageAddr 5)) _ k = 0 at h0
    rw [hnr] at h0
    by_cases h5 : k = 5
    · subst h5
      rw [update_self] at h0
      exact absurd h0 (by decide)
    rw [update_of_ne h5] at h0
    change update crowded.memMap 8 1 k = 0 at h0
    by_cases h8 : k = 8
    · subst h8
      rw [update_self] at h0
      exact absurd h0 (by decide)
    rw [update_of_ne h8] at h0
    change (if k < 3 then 1 else if k < 6 then 3 else if k = 8 then 0 else 1 : BitVec 16) = 0 at h0
    split_ifs at h0
    all_goals exact absurd h0 (by decide)

/-- Task 2 still has its pages. -/
lemma trappedCopy_space : trappedCopy.space 2 = [pageAddr 6, pageAddr 3, pageAddr 4, pageAddr 5] := by
  decide +kernel

/-- Task 2 has been killed. -/
def overdrawn : Memory :=
  { trappedCopy with
    memMap := subAll trappedCopy.memMap (trappedCopy.space 2)
    pgd := update crowded.pgd 2 none }

/-- The load of `memcpy` ends in `do_exit`. -/
lemma trappedCopy_exits (n : Nat) :
    memcpyTraps 2 (0x87000123#64 &&& ~~~0xFFF#64) (n + 1) trappedCopy = .ret ((), overdrawn) := by
  have hd : trappedCopy.pgd 2 = some (pageAddr 6) := rfl
  have hg : getPte trappedCopy.mem (pageAddr 6) ((0x87000123#64 &&& ~~~0xFFF#64) &&& ~~~0xFFF#64) =
      .entry (pageAddr 4) 0 := by decide
  have he : pte2va (trappedCopy.mem (pageAddr 4) 0) = pageAddr 5 := by decide
  have hexit : doExit 2 trappedCopy = .ret ((), overdrawn) := by
    refine doExit_frees (by decide) hd (by decide) ⟨?_, ?_, ?_⟩
    · rw [trappedCopy_space]
      decide
    · intro x hx
      rw [trappedCopy_space] at hx
      simp only [List.mem_cons, List.not_mem_nil, or_false] at hx
      obtain rfl | rfl | rfl | rfl := hx
      all_goals exact ⟨_, by decide, rfl⟩
    · intro x hx
      rw [trappedCopy_space] at hx
      simp only [List.mem_cons, List.not_mem_nil, or_false] at hx
      obtain rfl | rfl | rfl | rfl := hx
      all_goals decide
  refine memcpyTraps_exits ?_ rfl
  rw [pageFault_entry hd (by decide) (by decide) hg,
    wpPage_copies (by decide) (by rw [he]; decide) (by rw [he]; decide), copyOnWrite_full trappedCopy_full,
    hexit]

/-- Task 2 stores to the page and is killed for want of memory. -/
lemma crowded_step : Step crowded (.fault 2 0x87000123#64) overdrawn :=
  .fault (by decide) (crowded_traps.trans (trappedCopy_exits pagingPages))

/-- A page directory that leads to page 5 through the tables on pages 3 and 4. -/
lemma overdrawn_reaches {t : Fin 64} {dir : BitVec 64} (hd : overdrawn.pgd t = some dir)
    (h2 : overdrawn.mem dir 2 = entryOf 3 pteV) : pageAddr 5 ∈ overdrawn.space t := by
  have e1 : l1At overdrawn.mem dir 2 = pageAddr 3 := by
    rw [l1At, h2]
    decide
  have e0 : l0At overdrawn.mem dir 2 56 = pageAddr 4 := by
    rw [l0At, e1]
    decide
  have ep : leafAt overdrawn.mem dir 2 56 0 = pageAddr 5 := by
    rw [leafAt, e0]
    decide
  have hv1 : valid (overdrawn.mem dir 2) = true := by
    rw [h2]
    decide
  have hv0 : valid (overdrawn.mem (l1At overdrawn.mem dir 2) 56) = true := by
    rw [e1]
    decide
  have hv : valid (overdrawn.mem (l0At overdrawn.mem dir 2 56) 0) = true := by
    rw [e0]
    decide
  have r : Route overdrawn.mem dir 2 56 := ⟨mem_lowerHalf.2 (by decide), hv1, hv0⟩
  rw [space_of_some hd, ← ep]
  exact List.mem_cons_of_mem _ (r.leaf_mem_tree hv)

/-- The page that the child has not been able to copy has lost two of its three references, and two tasks
    still map it. -/
theorem page_counts_fail_child_store :
    system.init crowded ∧ system.Exec crowded [(Event.fault 2 0x87000123#64, overdrawn)] ∧
      ¬ Always Memory.Sound crowded [(Event.fault 2 0x87000123#64, overdrawn)] := by
  refine ⟨crowded_init, .cons crowded_step .nil, ?_⟩
  intro h
  have hm : (overdrawn.memMap (mapNr (pageAddr 5))).toNat = 1 := by
    have hcount : overdrawn.memMap (mapNr (pageAddr 5)) =
        subAll trappedCopy.memMap [pageAddr 6, pageAddr 3, pageAddr 4, pageAddr 5] (mapNr (pageAddr 5)) := by
      rw [← trappedCopy_space]
      rfl
    rw [hcount]
    decide
  have h1 := overdrawn_reaches (show overdrawn.pgd 1 = some (pageAddr 2) from rfl) (by decide)
  have h3 := overdrawn_reaches (show overdrawn.pgd 3 = some (pageAddr 7) from rfl) (by decide)
  have hsound : overdrawn.Sound := h.at_last
  have hc := hsound.counted (pageAddr 5) ⟨5, by decide, rfl⟩ (reachers_pos h1)
  rw [hm] at hc
  exact not_mem_of_sole hc.symm h1 (by decide) h3

end OldLinux.Mm
