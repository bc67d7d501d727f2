import OldLinux.Mm.Tree

/-!
# The page allocator

`get_free_page`, `get_two_free_pages`, `free_page` and `free_two_pages` (`mm/memory.c`) over whole
runs. The blocks that are handed out are kept beside the memory: a `Block` is one page or a pair of
adjacent ones. A run takes and frees blocks in any order and mixture, and its users write to the
memory as they like.

The invariant `Owned` says that the pages of the blocks are different pages of the managed memory and
that `mem_map` is 1 exactly on them. Taking a block (`Takes`) and freeing one (`Frees`, of `Mm.Tree`)
are described for any list of pages, so that singles and pairs share all of the argument. The
headline is `page_allocator_exact`.
-/

namespace OldLinux.Mm
open Lib Function

/-- What the allocator hands out: a page, or two adjacent ones. -/
inductive Block where
  | page (addr : BitVec 64)
  | pair (addr : BitVec 64)
  deriving DecidableEq

/-- The pages of a block. -/
def Block.pages : Block → List (BitVec 64)
  | .page addr => [addr]
  | .pair addr => [addr, addr + pageSize]

/-- The memory with the blocks that are handed out. -/
structure Pool where
  mem : Memory
  held : List Block

/-- The pages that are handed out. -/
def Pool.pages (p : Pool) : List (BitVec 64) := p.held.flatMap Block.pages

/-- The calls of the allocator with what they return, and the writes of its users. -/
inductive PoolEvent where
  | getFreePage (r : Option (BitVec 64))
  | getTwoFreePages (r : Option (BitVec 64))
  | freePage (addr : BitVec 64)
  | freeTwoPages (addr : BitVec 64)
  | use

/-- The steps of the allocator. Only blocks that are handed out are freed. -/
inductive PoolStep : Pool → PoolEvent → Pool → Prop where
  | getFreePage {p r m} : getFreePage p.mem = .ret (r, m) →
    PoolStep p (.getFreePage r) ⟨m, r.toList.map Block.page ++ p.held⟩
  | getTwoFreePages {p r m} : getTwoFreePages p.mem = .ret (r, m) →
    PoolStep p (.getTwoFreePages r) ⟨m, r.toList.map Block.pair ++ p.held⟩
  | freePage {p addr m} : .page addr ∈ p.held → freePage addr p.mem = .ret ((), m) →
    PoolStep p (.freePage addr) ⟨m, p.held.erase (.page addr)⟩
  | freeTwoPages {p addr m} : .pair addr ∈ p.held → freeTwoPages addr p.mem = .ret ((), m) →
    PoolStep p (.freeTwoPages addr) ⟨m, p.held.erase (.pair addr)⟩
  | use {p m} : m.memMap = p.mem.memMap →
    PoolStep p .use ⟨m, p.held⟩

/-- The allocator, which starts with an all-zero `mem_map`. -/
def poolSystem : System Pool PoolEvent where
  init p := (∀ i < pagingPages, p.mem.memMap i = 0) ∧ p.held = []
  step := PoolStep

/-- A page of the managed memory: aligned, and between `P2V(LOW_MEM)` and `P2V(HIGH_MEMORY)`. -/
def IsPage (addr : BitVec 64) : Prop :=
  addr.toNat % 4096 = 0 ∧ p2v lowMem ≤ addr ∧ addr.toNat + 4096 ≤ (p2v highMemory).toNat

/-- The page is not handed out. -/
def Pool.Free (p : Pool) (addr : BitVec 64) : Prop := IsPage addr ∧ addr ∉ p.pages

/-- A call has handed out `b` and left the memory `m`: the pages of `b` are pages, are zero-filled and
    were not handed out before. -/
def Pool.HandsOut (p : Pool) (b : Block) (m : Memory) : Prop :=
  ∀ x ∈ b.pages, IsPage x ∧ m.mem x = (fun _ => 0) ∧ x ∉ p.pages

/-- What the allocator guarantees in a state. -/
structure Pool.Exact (p : Pool) : Prop where
  isPage : ∀ x ∈ p.pages, IsPage x
  nodup : p.pages.Nodup
  memMap : ∀ i < pagingPages, p.mem.memMap i = if pageAddr i ∈ p.pages then 1 else 0
  getFreePage : Prog.returns getFreePage (fun r m =>
    (r = none ↔ ¬ ∃ x, p.Free x) ∧ ∀ addr, r = some addr → p.HandsOut (.page addr) m) p.mem
  getTwoFreePages : Prog.returns getTwoFreePages (fun r m =>
    (r = none ↔ ¬ ∃ x, p.Free x ∧ p.Free (x + pageSize)) ∧
      ∀ addr, r = some addr → p.HandsOut (.pair addr) m) p.mem
  freePage : ∀ addr, .page addr ∈ p.held → ∃ m, freePage addr p.mem = .ret ((), m)
  freeTwoPages : ∀ addr, .pair addr ∈ p.held → ∃ m, freeTwoPages addr p.mem = .ret ((), m)

/-! ## Pages -/

/-- What the map counts is a page of the pool. -/
lemma Managed.isPage {addr : BitVec 64} (h : Managed addr) : IsPage addr := by
  refine ⟨?_, h.range.1, ?_⟩
  all_goals
    obtain ⟨i, hi, rfl⟩ := h
    have h31 : i < 31232 := hi
    have hhigh := highMemory_toNat
    rw [pageAddr_toNat hi, lowMemory_toNat]
    omega

/-- A page of the pool is one that the map counts. -/
lemma IsPage.managed {addr : BitVec 64} (h : IsPage addr) : Managed addr := by
  obtain ⟨ha, hl, hh⟩ := h
  rw [BitVec.le_def, lowMemory_toNat] at hl
  rw [highMemory_toNat] at hh
  have hi : (addr.toNat - 0xFFFFFFC000400000) / 4096 < pagingPages := by
    show _ < 31232
    omega
  refine ⟨_, hi, ?_⟩
  apply BitVec.eq_of_toNat_eq
  rw [pageAddr_toNat hi, lowMemory_toNat]
  omega

/-- Both say the same. -/
lemma isPage_iff {addr : BitVec 64} : IsPage addr ↔ Managed addr :=
  ⟨IsPage.managed, Managed.isPage⟩

/-- The pages follow one another. -/
lemma pageAddr_succ (i : Nat) : pageAddr i + pageSize = pageAddr (i + 1) := by
  have e : BitVec.ofNat 64 (i * 4096) + pageSize = BitVec.ofNat 64 ((i + 1) * 4096) := by
    rw [Nat.succ_mul, BitVec.ofNat_add]
    rfl
  rw [pageAddr, pageAddr, BitVec.add_assoc, e]

/-- The next page has the next counter. -/
lemma mapNr_add_pageSize {addr : BitVec 64} (h : Managed addr) (h' : Managed (addr + pageSize)) :
    mapNr (addr + pageSize) = mapNr addr + 1 := by
  obtain ⟨i, hi, rfl⟩ := h
  obtain ⟨j, hj, e⟩ := h'
  have hij : j = i + 1 := by
    have h31 : i < 31232 := hi
    have hsz : pageSize.toNat = 4096 := rfl
    have he := congrArg BitVec.toNat e
    rw [BitVec.toNat_add, pageAddr_toNat hi, pageAddr_toNat hj, lowMemory_toNat, hsz] at he
    omega
  subst hij
  rw [e, mapNr_pageAddr hj, mapNr_pageAddr hi]

/-! ## Taking and freeing blocks -/

variable {s s' : Memory} {p : Pool} {b : Block}

/-- From `s` to `s'` the pages of `l`, which were free, have been taken and filled with zeros. -/
structure Takes (l : List (BitVec 64)) (s s' : Memory) : Prop where
  nodup : l.Nodup
  free : ∀ x ∈ l, Managed x ∧ s.memMap (mapNr x) = 0
  zero : ∀ x ∈ l, s'.mem x = fun _ => 0
  memMap : ∀ x, Managed x → s'.memMap (mapNr x) = if x ∈ l then 1 else s.memMap (mapNr x)

/-- `get_free_page` fails when every page is counted, and takes a page otherwise. -/
lemma getFreePage_takes :
    Prog.returns getFreePage (fun r m =>
      (r = none ∧ m = s ∧ ∀ x, Managed x → s.memMap (mapNr x) ≠ 0) ∨
      ∃ addr, r = some addr ∧ Takes [addr] s m) s := by
  refine getFreePage_taken.mono fun r m h => ?_
  obtain h | ⟨page, rfl, hm, h0, rfl⟩ := h
  · exact .inl h
  · refine .inr ⟨page, rfl, List.nodup_singleton _, ?_, ?_, ?_⟩
    · intro x hx
      obtain rfl := List.mem_singleton.1 hx
      exact ⟨hm, h0⟩
    · intro x hx
      obtain rfl := List.mem_singleton.1 hx
      exact taken_row
    · intro x hx
      simp only [List.mem_singleton]
      exact taken_memMap hm hx

/-- `get_two_free_pages` fails when no two adjacent pages are free, and takes such two otherwise. -/
lemma getTwoFreePages_takes :
    Prog.returns getTwoFreePages (fun r m =>
      (r = none ∧ m = s ∧ ∀ x, Managed x → Managed (x + pageSize) →
        ¬ (s.memMap (mapNr x) = 0 ∧ s.memMap (mapNr (x + pageSize)) = 0)) ∨
      ∃ addr, r = some addr ∧ Takes [addr, addr + pageSize] s m) s := by
  cases hf : findTwoFree s.memMap (pagingPages - 1) with
  | none =>
    refine ⟨none, s, getTwoFreePages_none hf, .inl ⟨rfl, rfl, ?_⟩⟩
    intro x hx hx'
    have hlt := hx'.mapNr_lt
    rw [mapNr_add_pageSize hx hx'] at hlt ⊢
    exact findTwoFree_none hf (by omega)
  | some i =>
    refine ⟨_, _, getTwoFreePages_some hf, .inr ⟨_, rfl, ?_⟩⟩
    obtain ⟨h0, h0', hlt⟩ := findTwoFree_some hf
    have hi : i < pagingPages := by omega
    have hi' : i + 1 < pagingPages := by omega
    have hm : Managed (pageAddr i) := ⟨i, hi, rfl⟩
    have hm' : Managed (pageAddr (i + 1)) := ⟨i + 1, hi', rfl⟩
    have hnr := mapNr_pageAddr hi
    have hnr' := mapNr_pageAddr hi'
    have hne : pageAddr i ≠ pageAddr (i + 1) := by
      intro e
      rw [e, hnr'] at hnr
      omega
    rw [pageAddr_succ]
    refine ⟨by simp [hne], ?_, ?_, ?_⟩
    · intro x hx
      rcases List.mem_pair.1 hx with rfl | rfl
      · exact ⟨hm, by rw [hnr, h0]⟩
      · exact ⟨hm', by rw [hnr', h0']⟩
    · intro x hx
      rcases List.mem_pair.1 hx with rfl | rfl
      · simp [hne]
      · simp
    · intro x hx
      by_cases e : x = pageAddr i
      · subst e
        simp [hnr]
      by_cases e' : x = pageAddr (i + 1)
      · subst e'
        simp [hnr']
      · have hx1 : mapNr x ≠ i := fun h => e (hx.eq_of_mapNr hm (h.trans hnr.symm))
        have hx2 : mapNr x ≠ i + 1 := fun h => e' (hx.eq_of_mapNr hm' (h.trans hnr'.symm))
        simp [e, e', hx1, hx2]

/-- `free_two_pages` gives two pages back. -/
lemma freeTwoPages_returns {addr : BitVec 64} (h : Freeable [addr, addr + pageSize] s) :
    Prog.returns (freeTwoPages addr) (fun _ => Frees [addr, addr + pageSize] s) s := by
  have hm := h.managed addr List.mem_cons_self
  have hm' := h.managed (addr + pageSize) (List.mem_cons_of_mem _ List.mem_cons_self)
  have hc := h.counted addr List.mem_cons_self
  have hc' := h.counted (addr + pageSize) (List.mem_cons_of_mem _ List.mem_cons_self)
  have hnr := mapNr_add_pageSize hm hm'
  have hlt := hm'.mapNr_lt
  have hmap : subAll s.memMap [addr, addr + pageSize] =
      update (update s.memMap (mapNr addr) (s.memMap (mapNr addr) - 1)) (mapNr addr + 1)
        (s.memMap (mapNr addr + 1) - 1) := by
    rw [← List.singleton_append, subAll_append, subAll_singleton, subAll_singleton, hnr,
      update_of_ne (Nat.succ_ne_self _)]
  rw [hnr] at hc' hlt
  obtain ⟨hl, hh⟩ := hm.range
  rw [freeTwoPages, if_neg (BitVec.not_lt.2 hl), if_neg (BitVec.lt_asymm hh)]
  generalize mapNr addr = i at *
  have hread : update s.memMap i (s.memMap i - 1) (i + 1) = s.memMap (i + 1) :=
    update_of_ne (Nat.succ_ne_self i) _ _
  apply Prog.returns_bind
  refine (readMap_returns (Nat.lt_of_succ_lt hlt)).mono ?_
  rintro n s₁ ⟨rfl, rfl⟩
  apply Prog.returns_bind
  apply Prog.returns_modify
  apply Prog.returns_bind
  refine (readMap_returns hlt).mono ?_
  rintro n s₂ ⟨rfl, rfl⟩
  apply Prog.returns_bind
  apply Prog.returns_modify
  rw [← hread] at hc' hmap
  rw [if_pos ⟨hc, hc'⟩]
  apply Prog.returns_pure
  exact ⟨rfl, hmap.symm, rfl, rfl⟩

/-! ## The invariant -/

/-- The pages of the blocks handed out are different managed pages, and `mem_map` is 1 exactly on
    them. -/
structure Pool.Owned (p : Pool) : Prop where
  nodup : p.pages.Nodup
  managed : ∀ x ∈ p.pages, Managed x
  memMap : ∀ x, Managed x → p.mem.memMap (mapNr x) = if x ∈ p.pages then 1 else 0

/-- A page is free exactly if nobody has it. -/
lemma Pool.Owned.free_iff (h : p.Owned) {x : BitVec 64} (hx : Managed x) :
    p.mem.memMap (mapNr x) = 0 ↔ x ∉ p.pages := by
  rw [h.memMap x hx]
  split
  · next hin => simp [hin]
  · next hin => simp [hin]

/-- A block is taken. -/
lemma Pool.Owned.take {m : Memory} (h : p.Owned) (ht : Takes b.pages p.mem m) :
    Pool.Owned ⟨m, b :: p.held⟩ := by
  have hpages : Pool.pages ⟨m, b :: p.held⟩ = b.pages ++ p.pages := List.flatMap_cons
  refine ⟨?_, ?_, ?_⟩
  · rw [hpages]
    refine List.nodup_append.2 ⟨ht.nodup, h.nodup, ?_⟩
    rintro x hx _ hx' rfl
    obtain ⟨hm, h0⟩ := ht.free x hx
    exact (h.free_iff hm).1 h0 hx'
  · rw [hpages]
    intro x hx
    rcases List.mem_append.1 hx with hx | hx
    · exact (ht.free x hx).1
    · exact h.managed x hx
  · rw [hpages]
    intro x hx
    rw [ht.memMap x hx, h.memMap x hx]
    by_cases hb : x ∈ b.pages <;> simp [hb]

/-- The pages of one block and of the others. -/
lemma Pool.pages_perm (hb : b ∈ p.held) :
    p.pages.Perm (b.pages ++ (p.held.erase b).flatMap Block.pages) := by
  have hp := (List.perm_cons_erase hb).flatMap_right Block.pages
  rwa [List.flatMap_cons] at hp

/-- A block that is held can be given back. -/
lemma Pool.Owned.freeable (h : p.Owned) (hb : b ∈ p.held) : Freeable b.pages p.mem := by
  have hp := Pool.pages_perm hb
  have hin : ∀ x ∈ b.pages, x ∈ p.pages := fun x hx => hp.mem_iff.2 (List.mem_append_left _ hx)
  refine ⟨(List.nodup_append.1 (hp.nodup_iff.1 h.nodup)).1, fun x hx => h.managed x (hin x hx), ?_⟩
  intro x hx
  rw [h.memMap x (h.managed x (hin x hx)), if_pos (hin x hx)]
  decide

/-- It is given back. -/
lemma Pool.Owned.free {m : Memory} (h : p.Owned) (hb : b ∈ p.held) (hf : Frees b.pages p.mem m) :
    Pool.Owned ⟨m, p.held.erase b⟩ := by
  have hp := Pool.pages_perm hb
  obtain ⟨hn, hn', hd⟩ := List.nodup_append.1 (hp.nodup_iff.1 h.nodup)
  refine ⟨hn', fun x hx => h.managed x (hp.mem_iff.2 (List.mem_append_right _ hx)), ?_⟩
  intro x hx
  have hcount := count_mapNr (h.freeable hb).managed hn hx
  show m.memMap (mapNr x) = if x ∈ (p.held.erase b).flatMap Block.pages then 1 else 0
  rw [hf.memMap, subAll, hcount, h.memMap x hx]
  by_cases hxb : x ∈ b.pages
  · have hin : x ∈ p.pages := hp.mem_iff.2 (List.mem_append_left _ hxb)
    have hout : x ∉ (p.held.erase b).flatMap Block.pages := fun hx' => hd x hxb x hx' rfl
    rw [if_pos hin, if_pos hxb, if_neg hout]
    rfl
  · have hiff : x ∈ p.pages ↔ x ∈ (p.held.erase b).flatMap Block.pages := by
      rw [hp.mem_iff, List.mem_append]
      exact or_iff_right hxb
    simp [hxb, hiff]

/-- Every step keeps the blocks apart and counted. -/
lemma Pool.Owned.step {e : PoolEvent} {p' : Pool} (h : p.Owned) (st : PoolStep p e p') : p'.Owned := by
  cases st with
  | getFreePage hr =>
    rcases getFreePage_takes.elim hr with ⟨rfl, rfl, _⟩ | ⟨addr, rfl, ht⟩
    · exact h
    · exact h.take (b := .page addr) ht
  | getTwoFreePages hr =>
    rcases getTwoFreePages_takes.elim hr with ⟨rfl, rfl, _⟩ | ⟨addr, rfl, ht⟩
    · exact h
    · exact h.take (b := .pair addr) ht
  | freePage hb hr => exact h.free hb ((freePage_returns (h.freeable hb).covered).elim hr)
  | freeTwoPages hb hr => exact h.free hb ((freeTwoPages_returns (h.freeable hb)).elim hr)
  | @use m hm =>
    refine ⟨h.nodup, h.managed, ?_⟩
    show ∀ x, Managed x → m.memMap (mapNr x) = _
    rw [hm]
    exact h.memMap

/-- At first nobody has a page. -/
lemma Pool.Owned.init (h : poolSystem.init p) : p.Owned := by
  have hpages : p.pages = [] := by rw [Pool.pages, h.2, List.flatMap_nil]
  refine ⟨?_, ?_, ?_⟩
  · rw [hpages]
    exact List.nodup_nil
  · rw [hpages]
    exact nofun
  · rw [hpages]
    intro x hx
    rw [h.1 _ hx.mapNr_lt, if_neg List.not_mem_nil]

/-- What is taken from an invariant pool is handed out as it should be. -/
lemma Pool.Owned.handsOut {m : Memory} (h : p.Owned) (ht : Takes b.pages p.mem m) :
    p.HandsOut b m := by
  intro x hx
  obtain ⟨hm, h0⟩ := ht.free x hx
  exact ⟨hm.isPage, ht.zero x hx, (h.free_iff hm).1 h0⟩

/-- What is free has the count 0. -/
lemma Pool.Owned.free_of_counted (h : p.Owned) {x : BitVec 64} :
    p.Free x ↔ Managed x ∧ p.mem.memMap (mapNr x) = 0 := by
  rw [Pool.Free, isPage_iff]
  exact and_congr_right fun hx => (h.free_iff hx).symm

/-- Nobody has the page of another one. -/
lemma Pool.Owned.exact (h : p.Owned) : p.Exact where
  isPage x hx := (h.managed x hx).isPage
  nodup := h.nodup
  memMap := by
    intro i hi
    have hm := h.memMap (pageAddr i) ⟨i, hi, rfl⟩
    rwa [mapNr_pageAddr hi] at hm
  getFreePage := by
    refine getFreePage_takes.mono ?_
    rintro r m (⟨rfl, rfl, hfull⟩ | ⟨addr, rfl, ht⟩)
    · refine ⟨iff_of_true rfl ?_, nofun⟩
      rintro ⟨x, hx⟩
      obtain ⟨hx, h0⟩ := h.free_of_counted.1 hx
      exact hfull x hx h0
    · refine ⟨iff_of_false nofun (not_not_intro ⟨addr, ?_⟩), ?_⟩
      · exact h.free_of_counted.2 (ht.free addr List.mem_cons_self)
      · intro addr' e
        cases e
        exact h.handsOut (b := .page addr) ht
  getTwoFreePages := by
    refine getTwoFreePages_takes.mono ?_
    rintro r m (⟨rfl, rfl, hfull⟩ | ⟨addr, rfl, ht⟩)
    · refine ⟨iff_of_true rfl ?_, nofun⟩
      rintro ⟨x, hx, hx'⟩
      obtain ⟨hx, h0⟩ := h.free_of_counted.1 hx
      obtain ⟨hx', h0'⟩ := h.free_of_counted.1 hx'
      exact hfull x hx hx' ⟨h0, h0'⟩
    · refine ⟨iff_of_false nofun (not_not_intro ⟨addr, ?_, ?_⟩), ?_⟩
      · exact h.free_of_counted.2 (ht.free addr List.mem_cons_self)
      · exact h.free_of_counted.2 (ht.free _ (List.mem_cons_of_mem _ List.mem_cons_self))
      · intro addr' e
        cases e
        exact h.handsOut (b := .pair addr) ht
  freePage addr hb := by
    obtain ⟨_, m, e, _⟩ := freePage_returns (h.freeable hb).covered
    exact ⟨m, e⟩
  freeTwoPages addr hb := by
    obtain ⟨_, m, e, _⟩ := freeTwoPages_returns (h.freeable hb)
    exact ⟨m, e⟩

/-- In every state reached from an all-zero `mem_map` by taking pages and pairs, freeing what was taken
    and writing to memory, the pages handed out are different aligned pages of the managed memory and
    `mem_map` is 1 exactly on them; the next call returns zero-filled pages that are not handed out, or
    nothing exactly when there is no page (no two adjacent pages) left; and freeing anything that is
    handed out reaches no panic. -/
theorem page_allocator_exact (hr : poolSystem.Reach p) : p.Exact := by
  have h : p.Owned := hr.inv (fun _ => Pool.Owned.init) fun _ _ _ h st => h.step st
  exact h.exact

/-- A memory of which nothing is handed out. -/
def blankPool : Pool where
  mem := { mem := fun _ _ => 7, memMap := fun _ => 0, pgd := fun _ => none, swapperPgDir := 0 }
  held := []

/-- The first page is handed out. -/
def onePool : Pool where
  mem := { blankPool.mem with
    memMap := update blankPool.mem.memMap 0 1
    mem := update blankPool.mem.mem (pageAddr 0) fun _ => 0 }
  held := [.page (pageAddr 0)]

/-- The first page and the last two are handed out. -/
def threePool : Pool where
  mem := { onePool.mem with
    memMap := update (update onePool.mem.memMap 31230 1) 31231 1
    mem := update (update onePool.mem.mem (pageAddr 31230) fun _ => 0) (pageAddr 31231) fun _ => 0 }
  held := [.pair (pageAddr 31230), .page (pageAddr 0)]

/-- A page and a pair are taken from an all-zero `mem_map`. -/
theorem page_allocator_exact_three : poolSystem.Reach threePool ∧ threePool.Exact := by
  have hone : findFree blankPool.mem.memMap 0 pagingPages = some 0 := rfl
  have htwo : findTwoFree onePool.mem.memMap (pagingPages - 1) = some 31230 := rfl
  have hr : poolSystem.Reach threePool :=
    .step (.step (.init ⟨fun _ _ => rfl, rfl⟩) (.getFreePage (getFreePage_some hone)))
      (.getTwoFreePages (getTwoFreePages_some htwo))
  exact ⟨hr, page_allocator_exact hr⟩

end OldLinux.Mm
