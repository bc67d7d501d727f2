import OldLinux.Mm.RefCount
import OldLinux.Mm.Walk

/-!
# Isolation after a fork

After `copy_page_tables` the parent and the child share all tables and pages, and every mapped page
is write-protected. As long as no page fault of the two reaches the copying branch of `do_wp_page`,
an entry is made writable only when its page is reached by one task, so that a store of one of them
never changes what the other one reads (`cow_isolation`). The copying branch makes the shared entry
writable for both.
-/

namespace OldLinux.Mm
open Lib Function Finset

variable {m m' : BitVec 64 → Fin 512 → BitVec 64} {s s' : Memory}

/-! ## The write-protect pass -/

/-- Entries have changed in their flags only, and none has become writable. -/
structure Protects (m m' : BitVec 64 → Fin 512 → BitVec 64) : Prop where
  alike : Alike m m'
  writable : ∀ p i, Mm.writable (m' p i) = true → Mm.writable (m p i) = true

/-- Nothing done protects what was protected. -/
lemma Protects.refl (m : BitVec 64 → Fin 512 → BitVec 64) : Protects m m :=
  ⟨Alike.refl m, fun _ _ h => h⟩

/-- Two steps that protect do so together. -/
lemma Protects.trans {m₁ m₂ m₃ : BitVec 64 → Fin 512 → BitVec 64} (h : Protects m₁ m₂)
    (h' : Protects m₂ m₃) : Protects m₁ m₃ := by
  constructor
  · intro p i
    exact ⟨(h'.alike p i).1.trans (h.alike p i).1, (h'.alike p i).2.trans (h.alike p i).2⟩
  · intro p i hw
    exact h.writable p i (h'.writable p i hw)

/-- An entry that is in use is not writable. -/
def Guarded (m : BitVec 64 → Fin 512 → BitVec 64) (l0 : BitVec 64) (k : Fin 512) : Prop :=
  valid (m l0 k) = true → writable (m l0 k) = false

/-- A page that is guarded stays so. -/
lemma Protects.guarded {l0 : BitVec 64} {k : Fin 512} (h : Protects m m') (hg : Guarded m l0 k) :
    Guarded m' l0 k := by
  intro hv
  rw [(h.alike l0 k).1] at hv
  by_contra hw
  rw [Bool.not_eq_false] at hw
  have := h.writable l0 k hw
  rw [hg hv] at this
  cases this

/-- Every entry of the level-0 table behind an entry of a level-1 table is guarded. -/
def GuardedL0 (m : BitVec 64 → Fin 512 → BitVec 64) (l1 : BitVec 64) (j : Fin 512) : Prop :=
  valid (m l1 j) = true → ∀ k, Guarded m (pte2va (m l1 j)) k

/-- Every entry behind an entry of a page directory is guarded. -/
def GuardedL1 (m : BitVec 64 → Fin 512 → BitVec 64) (dir : BitVec 64) (i : Fin 512) : Prop :=
  valid (m dir i) = true → ∀ j, GuardedL0 m (pte2va (m dir i)) j

/-- Protecting the entries keeps those of a table guarded. -/
lemma Protects.guardedL0 {l1 : BitVec 64} {j : Fin 512} (h : Protects m m') (hg : GuardedL0 m l1 j) :
    GuardedL0 m' l1 j := by
  intro hv k
  rw [(h.alike l1 j).1] at hv
  rw [(h.alike l1 j).2]
  exact h.guarded (hg hv k)

/-- Protecting the entries keeps those of an entry of the directory guarded. -/
lemma Protects.guardedL1 {dir : BitVec 64} {i : Fin 512} (h : Protects m m') (hg : GuardedL1 m dir i) :
    GuardedL1 m' dir i := by
  intro hv j
  rw [(h.alike dir i).1] at hv
  rw [(h.alike dir i).2]
  exact h.guardedL0 (hg hv j)

/-- A shared page is not writable. -/
lemma writable_setFlags (pte : BitVec 64) : writable (setFlags pte sharedPerm) = false := by
  rw [writable, setFlags, BitVec.getLsbD_or, BitVec.getLsbD_and]
  have h1 : (~~~0x3FF#64).getLsbD 2 = false := by decide
  have h2 : sharedPerm.getLsbD 2 = false := by decide
  rw [h1, h2, Bool.and_false, Bool.or_false]

/-- Flags without `PTE_W` are set in one entry. -/
lemma protects_write {table : BitVec 64} {i : Fin 512} {pte : BitVec 64}
    (hv : valid pte = valid (m table i)) (hp : pte2va pte = pte2va (m table i))
    (hw : writable pte = false) : Protects m (update m table (update (m table) i pte)) := by
  refine ⟨(Alike.refl m).write hv hp, ?_⟩
  intro p k h
  by_cases hpt : p = table
  · subst hpt
    rw [update_self] at h
    by_cases hk : k = i
    · subst hk
      rw [update_self, hw] at h
      cases h
    · rwa [update_of_ne hk] at h
  · rwa [update_of_ne hpt] at h

/-- A loop of the pass: what each turn guards stays guarded. -/
lemma forM_guards {ι : Type} {l : List ι} {body : ι → Prog Memory PUnit}
    {G : ι → (BitVec 64 → Fin 512 → BitVec 64) → Prop}
    (hG : ∀ a m m', Protects m m' → G a m → G a m')
    (hb : ∀ a s, Prog.wp (body a) (fun _ s' => Protects s.mem s'.mem ∧ G a s'.mem) s) :
    Prog.wp (forM l body) (fun _ s' => Protects s.mem s'.mem ∧ ∀ a ∈ l, G a s'.mem) s := by
  apply Prog.wp_forM_all (R := fun s s' : Memory => Protects s.mem s'.mem)
    (G := fun a s => G a s.mem) _ _ _ hb
  · exact fun s => Protects.refl s.mem
  · exact fun _ _ _ h h' => h.trans h'
  · exact fun a _ _ h hg => hG a _ _ h hg

/-- Sharing a page guards it. -/
lemma shareLeaf_guards {l0 : BitVec 64} {k : Fin 512} :
    Prog.wp (shareLeaf l0 k) (fun _ s' => Protects s.mem s'.mem ∧ Guarded s'.mem l0 k) s := by
  rw [shareLeaf, Prog.wp_bind]
  refine readPte_wp.mono ?_
  rintro e s₁ ⟨rfl, rfl⟩
  split
  · next hv =>
    rw [Prog.wp_bind, writePte, Prog.wp_modify]
    refine addCount_wp.mono ?_
    intro _ s₂ h₂
    rw [h₂]
    refine ⟨protects_write ?_ (pte2va_setFlags (by decide)) (writable_setFlags _), ?_⟩
    · rw [valid_setFlags (by decide), hv]
    · intro _
      dsimp only
      rw [update_self, update_self]
      exact writable_setFlags _
  · next hv =>
    rw [Prog.wp_pure]
    exact ⟨Protects.refl _, fun h => absurd h hv⟩

/-- Sharing a table guards its pages. -/
lemma shareL0_guards {l1 : BitVec 64} {j : Fin 512} :
    Prog.wp (shareL0 l1 j) (fun _ s' => Protects s.mem s'.mem ∧ GuardedL0 s'.mem l1 j) s := by
  rw [shareL0, Prog.wp_bind]
  refine readPte_wp.mono ?_
  rintro e s₁ ⟨rfl, rfl⟩
  split
  · rw [Prog.wp_bind]
    refine addCount_wp.mono ?_
    intro _ s₂ h₂
    refine (forM_guards (G := fun k m => Guarded m (pte2va (s₁.mem l1 j)) k) ?_ ?_).mono ?_
    · exact fun _ _ _ h hg => h.guarded hg
    · exact fun _ _ => shareLeaf_guards
    rintro _ s₃ ⟨h₃, hg⟩
    rw [h₂] at h₃
    refine ⟨h₃, ?_⟩
    intro _ k
    rw [(h₃.alike l1 j).2]
    exact hg k (List.mem_finRange k)
  · next hv =>
    rw [Prog.wp_pure]
    exact ⟨Protects.refl _, fun h => absurd h hv⟩

/-- Sharing an entry of the directory guards all below it. -/
lemma referenceCountOneTable_guards {dir : BitVec 64} {i : Fin 512} :
    Prog.wp (referenceCountOneTable dir i)
      (fun _ s' => Protects s.mem s'.mem ∧ GuardedL1 s'.mem dir i) s := by
  rw [referenceCountOneTable, Prog.wp_bind]
  refine readPte_wp.mono ?_
  rintro e s₁ ⟨rfl, rfl⟩
  split
  · rw [Prog.wp_bind]
    refine addCount_wp.mono ?_
    intro _ s₂ h₂
    refine (forM_guards (G := fun j m => GuardedL0 m (pte2va (s₁.mem dir i)) j) ?_ ?_).mono ?_
    · exact fun _ _ _ h hg => h.guardedL0 hg
    · exact fun _ _ => shareL0_guards
    rintro _ s₃ ⟨h₃, hg⟩
    rw [h₂] at h₃
    refine ⟨h₃, ?_⟩
    intro _ j
    rw [(h₃.alike dir i).2]
    exact hg j (List.mem_finRange j)
  · next hv =>
    rw [Prog.wp_pure]
    exact ⟨Protects.refl _, fun h => absurd h hv⟩

/-- `copy_page_tables` write-protects every page that the parent maps. -/
lemma copyPageTables_guards {c nr : Fin 64} {dir : BitVec 64} (hd : s.pgd c = some dir) :
    Prog.wp (copyPageTables c nr)
      (fun r s' => r = 0 → ∀ i ∈ lowerHalf, GuardedL1 s'.mem dir i) s := by
  rw [copyPageTables, Prog.wp_bind, Prog.wp_get, hd]
  show Prog.wp (getFreePage >>= _) _ s
  rw [Prog.wp_bind]
  intro r s₁ _
  cases r with
  | none =>
    rw [Prog.wp_pure]
    intro h
    cases h
  | some n =>
    show Prog.wp (_ >>= _) _ s₁
    rw [Prog.wp_bind, Prog.wp_modify, Prog.wp_bind, copyPage, Prog.wp_modify, Prog.wp_bind]
    refine (forM_guards (G := fun i m => GuardedL1 m dir i) ?_ ?_).mono ?_
    · exact fun _ _ _ h hg => h.guardedL1 hg
    · exact fun _ _ => referenceCountOneTable_guards
    intro _ s₂ h₂
    rw [Prog.wp_pure]
    intro _
    exact h₂.2

/-! ## Runs of stores -/

/-- A store that a task asks for. -/
structure Store where
  task : Fin 64
  va : BitVec 64
  byte : BitVec 8

/-- One of two tasks makes a store, or takes a page fault and will try again. -/
inductive StoreStep (p q : Fin 64) : Memory → Store → Memory → Prop where
  | mk {s s' x} : x.task = p ∨ x.task = q → s.pgd x.task ≠ none →
    userStore x.task x.va x.byte s = .ret ((), s') → StoreStep p q s x s'

/-- The task in slot `p` has just forked the one in slot `q`. -/
def JustForked (p q : Fin 64) (s : Memory) : Prop :=
  ∃ (s₀ : Memory) (dir : BitVec 64), s₀.WF ∧ s₀.Counted ∧ s₀.pgd p = some dir ∧ UserTables s₀.mem dir ∧
    s₀.pgd q = none ∧ copyPageTables p q s₀ = .ret (0, s)

/-- The stores of two tasks after a fork. -/
def stores (p q : Fin 64) : System Memory Store := ⟨JustForked p q, StoreStep p q⟩

/-- The store does not fault into the copying branch of `do_wp_page`. -/
def StoreNoCopy (s : Memory) (x : Store) (_ : Memory) : Prop :=
  storePage s x.task x.va = none → ¬ Copies s x.task x.va

/-- The store is made, or its page fault comes to an end: `do_page_fault` goes back to the store, or kills the
    task, which it may not do to task 0. -/
def ComesBack (s : Memory) (x : Store) : Prop :=
  (∃ s', userStore x.task x.va x.byte s = .ret ((), s')) ∨
    userStore x.task x.va x.byte s = .panic "Try to do_exit on TASK 0."

/-- What the other task reads is not changed. -/
def Isolated (p q : Fin 64) (s : Memory) (x : Store) (s' : Memory) : Prop :=
  ∀ c, c = p ∨ c = q → c ≠ x.task → ∀ va, userLoad s' c va = userLoad s c va

/-- The step is not a store that task `c` makes to the page at `va`. -/
def Spares (c : Fin 64) (va : BitVec 64) (s : Memory) (x : Store) (_ : Memory) : Prop :=
  x.task = c → storePage s c x.va ≠ none → x.va >>> 12 ≠ va >>> 12

/-- A task that is alive after the step reads what it read before, but where it has stored itself. -/
def Kept (p q : Fin 64) (s : Memory) (x : Store) (s' : Memory) : Prop :=
  ∀ c va, c = p ∨ c = q → s'.pgd c ≠ none → Spares c va s x s' → userLoad s' c va = userLoad s c va

/-! ## The invariant -/

/-- Two page directories with the same level-1 tables. -/
def SameL1 (m : BitVec 64 → Fin 512 → BitVec 64) (dir dir' : BitVec 64) : Prop :=
  ∀ i ∈ lowerHalf, valid (m dir' i) = valid (m dir i) ∧ pte2va (m dir' i) = pte2va (m dir i)

/-- The two tasks have the same tables, and an entry of theirs that is writable names a page that no
    other task reaches. -/
structure CowInv (p q : Fin 64) (s : Memory) : Prop where
  wf : s.WF
  counted : s.Counted
  tables : ∀ {c dir}, c = p ∨ c = q → s.pgd c = some dir → UserTables s.mem dir
  same : ∀ {c d dir dir'}, c = p ∨ c = q → d = p ∨ d = q → s.pgd c = some dir → s.pgd d = some dir' →
    SameL1 s.mem dir dir'
  sole : ∀ {c dir}, c = p ∨ c = q → s.pgd c = some dir → ∀ {i j}, Route s.mem dir i j → ∀ k,
    valid (s.mem (l0At s.mem dir i j) k) = true → writable (s.mem (l0At s.mem dir i j) k) = true →
      s.reachers (leafAt s.mem dir i j k) = 1

variable {p q c : Fin 64} {dir dir' : BitVec 64} {i j k : Fin 512}

/-- Directories with the same entries lead the same way. -/
lemma SameL1.route (h : SameL1 m dir dir') (r : Route m dir i j) :
    Route m dir' i j ∧ l0At m dir' i j = l0At m dir i j := by
  obtain ⟨hv, hp⟩ := h i r.lower
  have e1 : l1At m dir' i = l1At m dir i := hp
  refine ⟨⟨r.lower, hv.trans r.l1, ?_⟩, ?_⟩
  · rw [e1]
    exact r.l0
  · rw [l0At, l0At, e1]

/-- No page is twice in a tree. -/
lemma Memory.WF.dir_nodup (hw : s.WF) (hd : s.pgd c = some dir) : (dir :: tree s.mem dir).Nodup := by
  have h := hw.nodup c
  rwa [space_of_some hd] at h

/-- A level-0 table of one of the tasks is not a table of a higher level of either. -/
lemma CowInv.not_upper {d : Fin 64} (h : CowInv p q s) (hc : c = p ∨ c = q) (hd : d = p ∨ d = q)
    (hcd : s.pgd c = some dir) (hdd : s.pgd d = some dir') (r : Route s.mem dir i j) :
    ¬ Upper s.mem dir' (l0At s.mem dir i j) := by
  obtain ⟨r', e⟩ := (h.same hc hd hcd hdd).route r
  rw [← e]
  exact r'.not_upper (h.wf.dir_nodup hdd)

/-- A change of the memory that no table above level 0 and no address space sees. -/
lemma CowInv.of_upper (h : CowInv p q s) (hmap : s'.memMap = s.memMap) (hpgd : s'.pgd = s.pgd)
    (hsw : s'.swapperPgDir = s.swapperPgDir) (hspace : ∀ t, s'.space t = s.space t)
    (hup : ∀ {c dir}, c = p ∨ c = q → s.pgd c = some dir → ∀ t, Upper s.mem dir t → s'.mem t = s.mem t)
    (hsole : ∀ {c dir}, c = p ∨ c = q → s.pgd c = some dir → ∀ {i j}, Route s.mem dir i j → ∀ k,
      valid (s'.mem (l0At s.mem dir i j) k) = true →
        writable (s'.mem (l0At s.mem dir i j) k) = true →
          s.reachers (pte2va (s'.mem (l0At s.mem dir i j) k)) = 1) : CowInv p q s' := by
  obtain ⟨hw, hcount⟩ := keeps_of_space h.wf h.counted hspace hmap hpgd hsw
  refine ⟨hw, hcount, ?_, ?_, ?_⟩
  · intro c dir hc hd
    rw [hpgd] at hd
    exact (h.tables hc hd).congr (hup hc hd)
  · intro c d dir dir' hc hd hcd hdd
    rw [hpgd] at hcd hdd
    have e := hup hc hcd dir (.inl rfl)
    have e' := hup hd hdd dir' (.inl rfl)
    intro i hi
    rw [e, e']
    exact h.same hc hd hcd hdd i hi
  · intro c dir hc hd i j r k hv hwr
    rw [hpgd] at hd
    obtain ⟨r', _, e0⟩ := r.congr (hup hc hd)
    rw [e0] at hv hwr
    rw [leafAt, e0, reachers_congr hspace]
    exact hsole hc hd r' k hv hwr

/-! ## A store that is made -/

/-- An access is allowed if the entry has all its bits. -/
lemma allows_iff {pte perm : BitVec 64} : allows pte perm = true ↔ pte &&& perm = perm := by
  rw [allows, beq_iff_eq]

/-- An entry that allows a store is in use and writable. -/
lemma allows_store {pte : BitVec 64} (h : allows pte (pteV ||| pteU ||| (pteR ||| pteW)) = true) :
    valid pte = true ∧ writable pte = true := by
  have h' := allows_iff.1 h
  have h0 := congrArg (fun b : BitVec 64 => b.getLsbD 0) h'
  have h2 := congrArg (fun b : BitVec 64 => b.getLsbD 2) h'
  simp [pteV, pteU, pteR, pteW] at h0 h2
  exact ⟨h0, h2⟩

/-- What can be loaded from is valid. -/
lemma allows_load {pte : BitVec 64} (h : allows pte (pteV ||| pteU ||| pteR) = true) :
    valid pte = true := by
  have h0 := congrArg (fun b : BitVec 64 => b.getLsbD 0) (allows_iff.1 h)
  simp [pteV, pteU, pteR] at h0
  exact h0

/-- The page of a store: it is mapped by the task, by no other, and it is no table. -/
structure StoreTarget (s : Memory) (c : Fin 64) (va x : BitVec 64) : Prop where
  user : va >>> 38 = 0#64
  live : ∃ dir, s.pgd c = some dir ∧ Route s.mem dir (px 2 va) (px 1 va) ∧
    valid (s.mem (l0At s.mem dir (px 2 va) (px 1 va)) (px 0 va)) = true ∧
      x = leafAt s.mem dir (px 2 va) (px 1 va) (px 0 va)
  other : ∀ t, t ≠ c → x ∉ s.space t
  upper : ∀ {t dir}, s.pgd t = some dir → ∀ y, Upper s.mem dir y → y ≠ x
  l0 : ∀ {t dir}, s.pgd t = some dir → ∀ {i j}, Route s.mem dir i j → l0At s.mem dir i j ≠ x

/-- Where a store goes. -/
lemma CowInv.target {va x : BitVec 64} (h : CowInv p q s) (hc : c = p ∨ c = q)
    (hx : storePage s c va = some x) : StoreTarget s c va x := by
  cases hd : s.pgd c with
  | none =>
    rw [storePage, hd] at hx
    cases hx
  | some dir =>
    rw [storePage, hd] at hx
    obtain ⟨hu, r, ha, rfl⟩ := translate_some hx
    obtain ⟨hv, hw⟩ := allows_store ha
    have hn := h.wf.dir_nodup hd
    have hnt := (List.nodup_cons.1 hn).2
    have hmem : leafAt s.mem dir (px 2 va) (px 1 va) (px 0 va) ∈ s.space c := by
      rw [space_of_some hd]
      exact List.mem_cons_of_mem _ (r.leaf_mem_tree hv)
    have hother := fun t ht => not_mem_of_sole (t := t) (h.sole hc hd r _ hv hw) hmem ht
    refine ⟨hu, ⟨dir, hd, r, hv, rfl⟩, hother, ?_, ?_⟩
    · rintro t dir' hd' y hy rfl
      by_cases ht : t = c
      · subst ht
        rw [hd] at hd'
        cases hd'
        exact Mm.not_upper hn r.lower r.l1 (r.leaf_mem hv) hy
      · apply hother t ht
        rw [space_of_some hd']
        exact hy.mem
    · intro t dir' hd' i j r' e
      by_cases ht : t = c
      · subst ht
        rw [hd] at hd'
        cases hd'
        exact r.leaf_ne_l0 hnt r' hv e.symm
      · apply hother t ht
        rw [space_of_some hd', ← e]
        exact List.mem_cons_of_mem _ r'.l0_mem_tree

/-- A load depends on the translation of the address and on the page that it leads to. -/
lemma userLoad_congr {d : Fin 64} {va : BitVec 64} (hp : s'.pgd d = s.pgd d)
    (htr : ∀ dir, s.pgd d = some dir → translate s'.mem dir va pteR = translate s.mem dir va pteR)
    (hpage : ∀ dir y, s.pgd d = some dir → translate s.mem dir va pteR = some y →
      s'.mem y = s.mem y) : userLoad s' d va = userLoad s d va := by
  rw [userLoad, userLoad, hp]
  cases hd : s.pgd d with
  | none => rfl
  | some dir =>
    dsimp only
    rw [htr dir hd]
    cases hy : translate s.mem dir va pteR with
    | none => rfl
    | some y => rw [Option.map_some, Option.map_some, hpage dir y hd hy]

/-- The words of a page are changed. -/
def poke (s : Memory) (x : BitVec 64) (w : Fin 512 → BitVec 64) : Memory :=
  { s with mem := update s.mem x w }

/-- A store leaves the other pages. -/
lemma poke_of_ne {x y : BitVec 64} {w : Fin 512 → BitVec 64} (h : y ≠ x) :
    (poke s x w).mem y = s.mem y :=
  update_of_ne h _ _

/-- A store to a page changes no table of any task. -/
lemma StoreTarget.space {va x : BitVec 64} (hx : StoreTarget s c va x) (w : Fin 512 → BitVec 64)
    (t : Fin 64) : (poke s x w).space t = s.space t := by
  have hp : (poke s x w).pgd t = s.pgd t := rfl
  cases hd : s.pgd t with
  | none => rw [space_of_none hd, space_of_none (hp.trans hd)]
  | some dir =>
    have htree : tree (poke s x w).mem dir = tree s.mem dir := by
      apply tree_of_tables
      · intro y hy
        exact poke_of_ne (hx.upper hd y hy)
      · intro i j r
        exact poke_of_ne (hx.l0 hd r)
    rw [space_of_some hd, space_of_some (hp.trans hd), htree]

/-- A store to a page that is not shared keeps the invariant. -/
lemma StoreTarget.keeps {va x : BitVec 64} (h : CowInv p q s) (hx : StoreTarget s c va x)
    (w : Fin 512 → BitVec 64) : CowInv p q (poke s x w) := by
  refine h.of_upper rfl rfl rfl (hx.space w) ?_ ?_
  · intro d dir _ hdd y hy
    exact poke_of_ne (hx.upper hdd y hy)
  · intro d dir hd hdd i j r k
    rw [poke_of_ne (hx.l0 hdd r)]
    exact h.sole hd hdd r k

/-- A store is seen by its own task only, at the page of its address. -/
lemma StoreTarget.load {d : Fin 64} {va va' x : BitVec 64} (h : CowInv p q s)
    (hx : StoreTarget s c va x) (w : Fin 512 → BitVec 64) (hs : d = c → va >>> 12 ≠ va' >>> 12) :
    userLoad (poke s x w) d va' = userLoad s d va' := by
  refine userLoad_congr rfl ?_ ?_
  · intro dir hdd
    apply translate_congr
    · intro y hy
      exact poke_of_ne (hx.upper hdd y hy)
    · intro i j r k
      rw [poke_of_ne (hx.l0 hdd r)]
      exact ⟨rfl, rfl⟩
  · intro dir y hdd hy
    obtain ⟨hu, r, ha, rfl⟩ := translate_some hy
    have hv := allows_load ha
    apply poke_of_ne
    intro e
    by_cases hdc : d = c
    · subst hdc
      obtain ⟨dir', hdd', r', hv', rfl⟩ := hx.live
      rw [hdd] at hdd'
      cases hdd'
      have hn := (List.nodup_cons.1 (h.wf.dir_nodup hdd)).2
      obtain ⟨e2, e1, e0⟩ := r'.leaf_unique hn r hv' hv e.symm
      exact hs rfl (page_of_px hx.user hu e2 e1 e0)
    · apply hx.other d hdc
      rw [space_of_some hdd, ← e]
      exact List.mem_cons_of_mem _ (r.leaf_mem_tree hv)

/-! ## A page fault -/

/-- A page can be loaded from as before it was made writable. -/
lemma allows_setW (pte : BitVec 64) :
    allows (pte ||| pteW) (pteV ||| pteU ||| pteR) = allows pte (pteV ||| pteU ||| pteR) := by
  have h0 : pteW &&& (pteV ||| pteU ||| pteR) = 0#64 := by decide
  have h : (pte ||| pteW) &&& (pteV ||| pteU ||| pteR) = pte &&& (pteV ||| pteU ||| pteR) := by
    rw [BitVec.and_comm, BitVec.and_or_distrib_left, BitVec.and_comm _ pteW, h0, BitVec.or_zero,
      BitVec.and_comm]
  rw [allows, allows, h]

/-- Making a page writable leaves the other tables. -/
lemma setW_of_ne {table y : BitVec 64} {k : Fin 512} (h : y ≠ table) :
    (setW s table k).mem y = s.mem y :=
  update_of_ne h _ _

/-- An entry after `PTE_W` has been set somewhere. -/
lemma setW_entry (s : Memory) (table : BitVec 64) (k : Fin 512) (y : BitVec 64) (n : Fin 512) :
    (setW s table k).mem y n = s.mem y n ∨
      (y = table ∧ n = k ∧ (setW s table k).mem y n = s.mem y n ||| pteW) := by
  by_cases hy : y = table
  · subst hy
    have e : (setW s y k).mem y = update (s.mem y) k (s.mem y k ||| pteW) := update_self _ _ _
    rw [e]
    by_cases hn : n = k
    · subst hn
      exact .inr ⟨rfl, rfl, update_self _ _ _⟩
    · exact .inl (update_of_ne hn _ _)
  · exact .inl (congrFun (setW_of_ne hy) n)

/-- Setting `PTE_W` somewhere adds and loses no page. -/
lemma setW_space (s : Memory) (table : BitVec 64) (k : Fin 512) (t : Fin 64) :
    (setW s table k).space t = s.space t := by
  have ha : Alike s.mem (setW s table k).mem := alike_setW s.mem table k
  exact space_congr ha rfl

/-- Making a page that is not shared writable keeps the invariant. -/
lemma CowInv.setW (h : CowInv p q s) (hc : c = p ∨ c = q) (hcd : s.pgd c = some dir)
    (r : Route s.mem dir i j) (h1 : s.memMap (mapNr (leafAt s.mem dir i j k)) = 1) :
    CowInv p q (Mm.setW s (l0At s.mem dir i j) k) := by
  refine h.of_upper rfl rfl rfl ?_ ?_ ?_
  · exact setW_space s _ k
  · intro d dir' hd hdd y hy
    apply setW_of_ne
    rintro rfl
    exact h.not_upper hc hd hcd hdd r hy
  · intro d dir' hd hdd i' j' r' k' hv hw
    obtain e | ⟨et, rfl, e⟩ := setW_entry s (l0At s.mem dir i j) k (l0At s.mem dir' i' j') k'
    · rw [e] at hv hw ⊢
      exact h.sole hd hdd r' k' hv hw
    · rw [e, valid_or (by decide)] at hv
      rw [e, pte2va_or (by decide)]
      have hm : leafAt s.mem dir' i' j' k' ∈ tree s.mem dir' := r'.leaf_mem_tree hv
      have hpos : 0 < s.reachers (leafAt s.mem dir' i' j' k') := by
        apply reachers_pos (t := d)
        rw [space_of_some hdd]
        exact List.mem_cons_of_mem _ hm
      have hcount := h.counted _ (h.wf.managed hdd _ hm) hpos
      rw [leafAt, et, ← leafAt, h1] at hcount
      rw [et]
      exact hcount.symm

/-- Nobody sees that `PTE_W` is set. -/
lemma CowInv.setW_load {d : Fin 64} {va : BitVec 64} (h : CowInv p q s) (hc : c = p ∨ c = q)
    (hd : d = p ∨ d = q) (hcd : s.pgd c = some dir) (r : Route s.mem dir i j) :
    userLoad (Mm.setW s (l0At s.mem dir i j) k) d va = userLoad s d va := by
  refine userLoad_congr rfl ?_ ?_
  · intro dir' hdd
    apply translate_congr
    · intro y hy
      apply setW_of_ne
      rintro rfl
      exact h.not_upper hc hd hcd hdd r hy
    · intro i' j' r' k'
      obtain e | ⟨_, _, e⟩ := setW_entry s (l0At s.mem dir i j) k (l0At s.mem dir' i' j') k'
      · rw [e]
        exact ⟨rfl, rfl⟩
      · rw [e]
        exact ⟨allows_setW _, pte2va_or (by decide)⟩
  · intro dir' y hdd hy
    obtain ⟨_, r', ha, rfl⟩ := translate_some hy
    obtain ⟨r'', e⟩ := (h.same hc hd hcd hdd).route r
    have hn := (List.nodup_cons.1 (h.wf.dir_nodup hdd)).2
    apply setW_of_ne
    rw [← e]
    exact r'.leaf_ne_l0 hn r'' (allows_load ha)

/-- One of the tasks is killed. -/
lemma CowInv.exit (h : CowInv p q s) (hl : s.pgd c ≠ none) (e : doExit c s = .ret ((), s')) :
    CowInv p q s' ∧ s'.mem = s.mem ∧ s'.pgd = update s.pgd c none := by
  obtain ⟨hw, hcount⟩ := doExit_keeps h.wf h.counted hl e
  obtain ⟨_, hmem, _, hpgd, _⟩ := doExit_spec h.wf h.counted hl e
  have hlive : ∀ {t dir}, s'.pgd t = some dir → t ≠ c ∧ s.pgd t = some dir := by
    intro t dir ht
    rw [hpgd] at ht
    by_cases htc : t = c
    · rw [htc, update_self] at ht
      cases ht
    · rw [update_of_ne htc] at ht
      exact ⟨htc, ht⟩
  have hspace : ∀ t, t ≠ c → s'.space t = s.space t := by
    intro t ht
    apply space_congr
    · rw [hmem]
      exact Alike.refl _
    · rw [hpgd, update_of_ne ht]
  refine ⟨⟨hw, hcount, ?_, ?_, ?_⟩, hmem, hpgd⟩
  · intro d dir hd hdd
    rw [hmem]
    exact h.tables hd (hlive hdd).2
  · intro d d' dir dir' hd hd' hdd hdd'
    rw [hmem]
    exact h.same hd hd' (hlive hdd).2 (hlive hdd').2
  · intro d dir hd hdd i j r k hv hwr
    obtain ⟨hdc, hdd⟩ := hlive hdd
    rw [hmem] at r hv hwr ⊢
    have hsole := h.sole hd hdd r k hv hwr
    have hin : leafAt s.mem dir i j k ∈ s.space d := by
      rw [space_of_some hdd]
      exact List.mem_cons_of_mem _ (r.leaf_mem_tree hv)
    have hnone : s'.space c = [] := space_of_none (by rw [hpgd, update_self])
    have hchange := reachers_change (x := leafAt s.mem dir i j k) hspace
    rw [hnone, if_neg List.not_mem_nil, if_neg (not_mem_of_sole hsole hin (Ne.symm hdc)),
      hsole] at hchange
    exact hchange

/-! ## The fork -/

/-- The invariant holds after the fork. -/
lemma JustForked.inv (h : JustForked p q s) : CowInv p q s := by
  obtain ⟨s₀, dir, hw₀, hc₀, hd, ht, hq, e⟩ := h
  obtain ⟨hr, _⟩ | ⟨_, n, hf⟩ := (copyPageTables_returns hw₀ hc₀ hd).elim e
  · exact absurd rfl hr
  obtain ⟨hw, hc⟩ := hf.keeps hw₀ hc₀ hd hq
  obtain ⟨hdir, hn, hl1⟩ := hf.upper hw₀ hc₀ hd
  have hguard := copyPageTables_guards hd _ _ e rfl
  have hpq : p ≠ q := by
    rintro rfl
    rw [hd] at hq
    cases hq
  -- both page directories have the entries that the parent's had
  have hrow : ∀ {c dir'}, c = p ∨ c = q → s.pgd c = some dir' → s.mem dir' = s₀.mem dir := by
    rintro c dir' (rfl | rfl) hcd
    · rw [hf.pgd, update_of_ne hpq, hd] at hcd
      cases hcd
      exact hdir
    · rw [hf.pgd, update_self] at hcd
      cases hcd
      exact hn
  have hsame : ∀ {c d dir₁ dir₂}, c = p ∨ c = q → d = p ∨ d = q → s.pgd c = some dir₁ →
      s.pgd d = some dir₂ → SameL1 s.mem dir₁ dir₂ := by
    intro c d dir₁ dir₂ hcpq hdpq hcd hdd i _
    rw [hrow hcpq hcd, hrow hdpq hdd]
    exact ⟨rfl, rfl⟩
  refine ⟨hw, hc, fun hcpq hcd => ht.copy (hrow hcpq hcd) hl1, hsame, ?_⟩
  intro c dir' hcpq hcd i j r k hv hwr
  have hpd : s.pgd p = some dir := by rw [hf.pgd, update_of_ne hpq, hd]
  obtain ⟨r', e0⟩ := (hsame hcpq (.inl rfl) hcd hpd).route r
  rw [← e0] at hv hwr
  have hg : writable (s.mem (l0At s.mem dir i j) k) = false := hguard i r'.lower r'.l1 j r'.l0 k hv
  rw [hwr] at hg
  cases hg

/-! ## Isolation -/

/-- A user address is in the lower half. -/
lemma taskSize_user {va : BitVec 64} (h : va < taskSize) : va >>> 38 = 0#64 := by
  have hlt : va.toNat < 0x3FFFFFFFFF := h
  apply BitVec.eq_of_toNat_eq
  rw [BitVec.toNat_ushiftRight, Nat.shiftRight_eq_div_pow]
  simp
  omega

/-- What a store comes to: it is made, it kills the task, or it sets `PTE_W` on a page with the count
    1. -/
lemma userStore_cases {x : Store} (hl : s.pgd x.task ≠ none) (hc : StoreNoCopy s x s')
    (e : userStore x.task x.va x.byte s = .ret ((), s')) :
    (∃ page, storePage s x.task x.va = some page ∧ s' = poke s page (setByte (s.mem page) x.va x.byte)) ∨
      doExit x.task s = .ret ((), s') ∨ SetsW x.task x.va s s' := by
  rw [userStore, Prog.bind_of_ret (t := s) rfl] at e
  cases hp : storePage s x.task x.va with
  | some page =>
    rw [hp] at e
    cases e
    exact .inl ⟨page, rfl, rfl⟩
  | none =>
    rw [hp] at e
    obtain h | ⟨_, hw, h⟩ := doPageFault_cases hl (hc hp)
    · exact .inr (.inl (h.symm.trans e))
    · cases h.symm.trans e
      exact .inr (.inr hw)

/-- A store that does not copy comes back. -/
lemma CowInv.comesBack {x : Store} (h : CowInv p q s) (hl : s.pgd x.task ≠ none) (hc : StoreNoCopy s x s) :
    ComesBack s x := by
  rw [ComesBack, userStore, Prog.bind_of_ret (t := s) rfl]
  cases hp : storePage s x.task x.va with
  | some page => exact .inl ⟨_, rfl⟩
  | none =>
    dsimp only
    obtain e | ⟨s', _, e⟩ := doPageFault_cases hl (hc hp)
    · rw [e]
      by_cases h0 : x.task = 0
      · right
        rw [doExit, if_pos h0]
        rfl
      · exact .inl ⟨_, doExit_eq h.wf h.counted h0 hl⟩
    · exact .inl ⟨s', e⟩

/-- A step that does not copy keeps the invariant and what the tasks read. -/
lemma StoreStep.keeps {x : Store} (h : CowInv p q s) (st : StoreStep p q s x s')
    (hc : StoreNoCopy s x s') :
    CowInv p q s' ∧ Kept p q s x s' ∧ (s'.pgd = s.pgd ∨ s'.pgd = update s.pgd x.task none) := by
  obtain ⟨hx, hl, e⟩ := st
  obtain ⟨page, hp, rfl⟩ | he | hw := userStore_cases hl hc e
  · have ht := h.target hx hp
    refine ⟨ht.keeps h _, ?_, .inl rfl⟩
    intro c va _ _ hs
    apply ht.load h
    rintro rfl
    exact hs rfl (by rw [hp]; exact nofun)
  · obtain ⟨h', hmem, hpgd⟩ := h.exit hl he
    refine ⟨h', ?_, .inr hpgd⟩
    intro c va _ hcl _
    have hcx : c ≠ x.task := by
      rintro rfl
      rw [hpgd, update_self] at hcl
      exact hcl rfl
    apply userLoad_congr
    · rw [hpgd, update_of_ne hcx]
    · intro dir _
      rw [hmem]
    · intro dir y _ _
      rw [hmem]
  · obtain ⟨dir, table, k, hd, _, hhi, hg, hm, _, h1, rfl⟩ := hw
    obtain ⟨r, rfl, rfl⟩ := getPte_route (h.tables hx hd) (taskSize_user hhi) hg hm
    refine ⟨h.setW hx hd r h1, ?_, .inl rfl⟩
    intro c va hcpq _ _
    exact h.setW_load hx hcpq hd r

/-- What is kept is isolated. -/
lemma Kept.isolated {x : Store} (h : Kept p q s x s')
    (hp : s'.pgd = s.pgd ∨ s'.pgd = update s.pgd x.task none) : Isolated p q s x s' := by
  intro c hc hcx va
  have hpc : s'.pgd c = s.pgd c := by
    obtain e | e := hp
    · rw [e]
    · rw [e, update_of_ne hcx]
  by_cases hl : s'.pgd c = none
  · rw [userLoad, userLoad, hl, ← hpc, hl]
  · exact h c va hc hl fun e _ => absurd e.symm hcx

/-- A task that has been killed stays dead. -/
lemma StoreStep.dead {x : Store} (hp : s'.pgd = s.pgd ∨ s'.pgd = update s.pgd x.task none)
    (h : s.pgd c = none) : s'.pgd c = none := by
  obtain e | e := hp
  · rw [e, h]
  · rw [e]
    by_cases hc : c = x.task
    · rw [hc, update_self]
    · rw [update_of_ne hc, h]

/-- A run of stores that do not copy. -/
lemma stores_run {tr : List (Store × Memory)} (h : CowInv p q s) (ex : (stores p q).Exec s tr)
    (hc : Along StoreNoCopy s tr) :
    CowInv p q (last s tr) ∧ Along (Isolated p q) s tr ∧
      (∀ c, s.pgd c = none → (last s tr).pgd c = none) ∧
        ∀ c va, c = p ∨ c = q → (last s tr).pgd c ≠ none → Along (Spares c va) s tr →
          userLoad (last s tr) c va = userLoad s c va := by
  induction ex with
  | nil => exact ⟨h, trivial, fun _ h => h, fun _ _ _ _ _ => rfl⟩
  | @cons s x s' tr st _ ih =>
    obtain ⟨h', hkept, hpgd⟩ := StoreStep.keeps h st hc.1
    obtain ⟨hlast, hiso, hdead, hread⟩ := ih h' hc.2
    refine ⟨hlast, ⟨hkept.isolated hpgd, hiso⟩, fun c hn => hdead c (StoreStep.dead hpgd hn), ?_⟩
    rintro c va hcpq hl ⟨hs, hss⟩
    have hl' : s'.pgd c ≠ none := fun hn => hl (hdead c hn)
    calc userLoad (last s' tr) c va = userLoad s' c va := hread c va hcpq hl hss
      _ = userLoad s c va := hkept c va hcpq hl' hs

/-- In a run of stores after a fork none of which faults into the copying branch of `do_wp_page`, a
    step of one task never changes what the other one reads, each task that is alive reads what
    it read after the fork at every page that it has not stored to, and the page fault of a store comes to
    an end. -/
theorem cow_isolation {tr : List (Store × Memory)} (h0 : (stores p q).init s)
    (ex : (stores p q).Exec s tr) (hc : Along StoreNoCopy s tr) :
    Along (Isolated p q) s tr ∧
      (∀ c va, c = p ∨ c = q → (last s tr).pgd c ≠ none → Along (Spares c va) s tr →
        userLoad (last s tr) c va = userLoad s c va) ∧
      ∀ x : Store, x.task = p ∨ x.task = q → (last s tr).pgd x.task ≠ none →
        (storePage (last s tr) x.task x.va = none → ¬ Copies (last s tr) x.task x.va) →
        ComesBack (last s tr) x := by
  obtain ⟨hlast, hiso, _, hread⟩ := stores_run (JustForked.inv h0) ex hc
  exact ⟨hiso, hread, fun _ _ hl hx => hlast.comesBack hl hx⟩

/-! ### The stores of a parent and a child -/

/-- An entry of a table that is listed is there. -/
lemma entries_cases (l : List (Fin 512 × BitVec 64)) (i : Fin 512) :
    entries l i = 0#64 ∨ (i, entries l i) ∈ l := by
  rw [entries]
  induction l with
  | nil => exact .inl rfl
  | cons a l ih =>
    rw [List.lookup_cons]
    split
    · next hi =>
      rw [beq_iff_eq] at hi
      rw [hi]
      exact .inr List.mem_cons_self
    · exact ih.imp id (List.mem_cons_of_mem _)

/-- An entry of a table that is listed leads to a table. -/
lemma entries_tables {l : List (Fin 512 × BitVec 64)} (h : l.all fun x => TableEntry x.2) (i : Fin 512) :
    TableEntry (entries l i) := by
  obtain e | hm := entries_cases l i
  · rw [e]
    decide
  · exact of_decide_eq_true (List.all_eq_true.1 h _ hm)

/-- The sample has tables of a user. -/
lemma onePage_tables : UserTables onePage.mem (pageAddr 2) := by
  constructor
  · intro i _
    rw [onePage_dir]
    apply entries_tables
    decide
  · intro i hi hv j
    have e : l1At onePage.mem (pageAddr 2) i = pageAddr 3 := by
      rw [l1At]
      rw [onePage_dir] at hv ⊢
      obtain e | hm := entries_cases [(2, entryOf 3 pteV), (256, entryOf 0 pteV)] i
      · rw [e] at hv
        cases hv
      · simp only [List.mem_cons, Prod.mk.injEq, List.not_mem_nil, or_false] at hm
        obtain ⟨_, e⟩ | ⟨rfl, _⟩ := hm
        · rw [e]
          decide
        · exact absurd (mem_lowerHalf.1 hi) (by decide)
    rw [e, onePage_l1]
    apply entries_tables
    decide

/-- It has just been forked. -/
lemma forked_justForked : JustForked 1 2 forked :=
  ⟨onePage, pageAddr 2, onePage_init.1, onePage_init.2, by decide, onePage_tables, by decide, fork_onePage⟩

/-- Task 2 stores through a null pointer. -/
def nullStore : Store := ⟨2, 0#64, 7#8⟩

/-- Task 1 stores to its page. -/
def parentStore : Store := ⟨1, 0x87000123#64, 7#8⟩

/-- Task 2 stores to the page that it shares with task 1. -/
def childStore : Store := ⟨2, 0x87000123#64, 7#8⟩

/-- The memory after a store. -/
def afterStore (x : Store) (s : Memory) : Memory := Prog.after (userStore x.task x.va x.byte) s

/-- A store that halts is a step. -/
lemma afterStore_step {x : Store} (hx : x.task = 1 ∨ x.task = 2) (hl : s.pgd x.task ≠ none)
    (h : Prog.halts (userStore x.task x.va x.byte) s = true) : StoreStep 1 2 s x (afterStore x s) := by
  obtain ⟨_, e⟩ := Prog.ret_after h
  exact .mk hx hl e

/-- A store below the first page kills the task. -/
lemma doPageFault_low {badaddr : BitVec 64} (hd : s.pgd c = some dir)
    (h : badaddr &&& ~~~0xFFF#64 < pageSize) : doPageFault c badaddr s = doExit c s := by
  rw [doPageFault, pageFault, Prog.bind_of_ret (t := s) rfl, hd]
  dsimp only
  rw [if_pos (.inl h)]

/-- Task 2 is killed. -/
lemma nullStore_step : StoreStep 1 2 forked nullStore exited := by
  have hp : storePage forked 2 0#64 = none := by decide
  have hd : forked.pgd 2 = some (pageAddr 6) := by decide
  refine .mk (.inr rfl) (by decide) ?_
  show userStore 2 0#64 7#8 forked = _
  rw [userStore, Prog.bind_of_ret (t := forked) rfl, hp]
  dsimp only
  rw [doPageFault_low hd (by decide), exit_forked]

/-- Task 1 has made its page writable. -/
def unlocked : Memory := afterStore parentStore exited

/-- Task 1 has stored to its page. -/
def written : Memory := afterStore parentStore unlocked

/-- The child is killed, and the parent stores to its page. -/
def parentRun : List (Store × Memory) :=
  [(nullStore, exited), (parentStore, unlocked), (parentStore, written)]

/-- The stores of the parent are a run. -/
lemma parentRun_exec : (stores 1 2).Exec forked parentRun := by
  refine .cons nullStore_step (.cons (afterStore_step (.inl rfl) ?_ ?_)
    (.cons (afterStore_step (.inl rfl) ?_ ?_) .nil))
  all_goals decide

/-- The stores of the parent copy no page. -/
lemma parentRun_noCopy : Along StoreNoCopy forked parentRun := by
  refine ⟨?_, ?_, ?_, trivial⟩
  · rintro _ ⟨_, _, _, _, hlo, _⟩
    exact absurd hlo (by decide)
  · exact fun _ => exited_noCopy
  · intro h
    have hp : storePage unlocked 1 0x87000123#64 ≠ none := by decide
    exact absurd h hp

/-- Task 1 goes on to read what was there after the fork at every page but the one it has stored to. -/
theorem cow_isolation_parent_store :
    Along (Isolated 1 2) forked parentRun ∧
      (∀ c va, c = 1 ∨ c = 2 → (last forked parentRun).pgd c ≠ none → Along (Spares c va) forked parentRun →
        userLoad (last forked parentRun) c va = userLoad forked c va) ∧
      ∀ x : Store, x.task = 1 ∨ x.task = 2 → (last forked parentRun).pgd x.task ≠ none →
        (storePage (last forked parentRun) x.task x.va = none → ¬ Copies (last forked parentRun) x.task x.va) →
        ComesBack (last forked parentRun) x :=
  cow_isolation forked_justForked parentRun_exec parentRun_noCopy

/-- `map_page` has all tables that it needs. -/
lemma forked_mapPage : mapPage (pageAddr 6) (pageAddr 7) 0x87000000#64 userPerm 2 0
    { forked with memMap := update forked.memMap 7 1, mem := update forked.mem (pageAddr 7) fun _ => 0 } =
      .ret (0, forked.remapped 7) := by
  rw [mapPage_present (t := pageAddr 0) (u := pageAddr 1) (by decide) (by decide) (by decide)
    (by decide) (by decide) (by decide)]
  rfl

/-- Task 2 takes page 7, and `memcpy` is about to copy the page that it shares with task 1. -/
def childCopy : Memory := forked.copying 7

/-- The page fault of the child, up to the load that traps. -/
lemma forked_traps {trapped : Prog Memory Unit} : pageFault trapped 2 0x87000123#64 forked = trapped childCopy :=
  sharedPage_traps rfl (by decide) (by decide) (by decide) (by decide) forked_mapPage
    (by decide)

/-- The load of the child's `memcpy` traps again and again: the page has the count 1 now. -/
lemma childCopy_forever (n : Nat) : memcpyTraps 2 (0x87000123#64 &&& ~~~0xFFF#64) n childCopy = .fault := by
  have hg : getPte childCopy.mem (pageAddr 6) ((0x87000123#64 &&& ~~~0xFFF#64) &&& ~~~0xFFF#64) =
      .entry (pageAddr 4) 0 := by decide
  have he : pte2va (childCopy.mem (pageAddr 4) 0) = pageAddr 5 := by decide
  refine memcpyTraps_forever (show childCopy.pgd 2 = some (pageAddr 6) from rfl) (by decide) (by decide) hg
    (by decide) ?_ ?_ ?_ ?_
  · rw [he]
    decide
  · rw [he]
    decide
  · rw [he]
    decide
  · decide

/-- The child's store is never made: however often `do_page_fault` has run for the `memcpy` of the first page
    fault, the load traps once more. -/
theorem cow_isolation_fail_child_store :
    JustForked 1 2 forked ∧ storePage forked 2 0x87000123#64 = none ∧
      (∀ n, pageFault (memcpyTraps 2 (0x87000123#64 &&& ~~~0xFFF#64) n) 2 0x87000123#64 forked = .fault) ∧
        ¬ ComesBack forked childStore := by
  have hp : storePage forked 2 0x87000123#64 = none := by decide
  have hforever : ∀ n, pageFault (memcpyTraps 2 (0x87000123#64 &&& ~~~0xFFF#64) n) 2 0x87000123#64 forked = .fault :=
    fun n => forked_traps.trans (childCopy_forever n)
  refine ⟨forked_justForked, hp, hforever, ?_⟩
  have e : userStore 2 0x87000123#64 7#8 forked = .fault := by
    rw [userStore, Prog.bind_of_ret (t := forked) rfl, hp]
    exact hforever maxTraps
  rw [ComesBack, show userStore childStore.task childStore.va childStore.byte forked = .fault from e]
  rintro (⟨_, h⟩ | h)
  · cases h
  · cases h

end OldLinux.Mm
