import OldLinux.Mm.Walk
import OldLinux.Mm.Allocator

/-!
# Mapping a page

What `map_page` does to a tree of page tables, for any number of levels. A table at height `n` is `n`
levels above the tables of `leaf_level`. `tableWalk` is the walk of an address from there, `walkTables`
are the tables it meets, and `follow` is the table that a path of indices leads to.

`Maps` says what a call that returns 0 has done: the walk of the address ends in the new entry, the
walks of all other addresses are as before (`WalkKept`), and the pages taken are the tables that were
missing. It is proved from one level to the next (`Maps.descend`, `Maps.link`).
-/

namespace OldLinux.Mm
open Lib Function

variable {m m' : BitVec 64 → Fin 512 → BitVec 64} {s s' : Memory}

/-! ## Walks and tables -/

/-- Where the walk of an address ends: at an entry that is not valid, above the leaf level, or at an
    entry of the leaf level or of a larger page. -/
inductive Found where
  | missing (level : Nat)
  | entry (level : Nat) (pte : BitVec 64)

/-- The walk of an address from a table at height `n`. -/
def tableWalk (m : BitVec 64 → Fin 512 → BitVec 64) (va : BitVec 64) (leafLevel : Nat) :
    Nat → BitVec 64 → Found
  | 0, table => .entry leafLevel (m table (px leafLevel va))
  | n + 1, table =>
    let level := leafLevel + (n + 1)
    let pte := m table (px level va)
    if valid pte = false then .missing level
    else if pointer pte then tableWalk m va leafLevel n (pte2va pte)
    else .entry level pte

/-- The tables on the walk. -/
def walkTables (m : BitVec 64 → Fin 512 → BitVec 64) (va : BitVec 64) (leafLevel : Nat) :
    Nat → BitVec 64 → List (BitVec 64)
  | 0, table => [table]
  | n + 1, table =>
    let pte := m table (px (leafLevel + (n + 1)) va)
    if pointer pte then table :: walkTables m va leafLevel n (pte2va pte) else [table]

/-- The table that a path of indices leads to. -/
def follow (m : BitVec 64 → Fin 512 → BitVec 64) : BitVec 64 → List (Fin 512) → Option (BitVec 64)
  | table, [] => some table
  | table, i :: p => if pointer (m table i) then follow m (pte2va (m table i)) p else none

/-- A table of the tree below a table at height `n`. -/
def IsTable (m : BitVec 64 → Fin 512 → BitVec 64) (n : Nat) (table t : BitVec 64) : Prop :=
  ∃ p, p.length ≤ n ∧ follow m table p = some t

/-- A tree of tables: its tables are all different, and none of them is on a free page. -/
structure TableTree (s : Memory) (n : Nat) (table : BitVec 64) : Prop where
  distinct : ∀ p q t, p.length ≤ n → q.length ≤ n → follow s.mem table p = some t →
    follow s.mem table q = some t → p = q
  allocated : ∀ {t}, IsTable s.mem n table t → Managed t → s.memMap (mapNr t) ≠ 0

/-- On the walk of an address no page larger than those of the leaf level is mapped. -/
def NoLeaf (m : BitVec 64 → Fin 512 → BitVec 64) (va : BitVec 64) (leafLevel : Nat) :
    Nat → BitVec 64 → Prop
  | 0, _ => True
  | n + 1, table =>
    let pte := m table (px (leafLevel + (n + 1)) va)
    valid pte = true → pointer pte = true ∧ NoLeaf m va leafLevel n (pte2va pte)

variable {n leaf : Nat} {t u table va va' pa perm : BitVec 64} {i j : Fin 512} {p : List (Fin 512)}

/-- A table is below itself. -/
lemma IsTable.root : IsTable m n t t := ⟨[], Nat.zero_le n, rfl⟩

/-- One step. -/
lemma follow_cons (h : pointer (m t i) = true) : follow m t (i :: p) = follow m (pte2va (m t i)) p :=
  if_pos h

/-- What is below a table is below the one above it. -/
lemma IsTable.child (h : pointer (m t i) = true) (hu : IsTable m n (pte2va (m t i)) u) :
    IsTable m (n + 1) t u := by
  obtain ⟨p, hp, hf⟩ := hu
  exact ⟨i :: p, Nat.succ_le_succ hp, (follow_cons h).trans hf⟩

/-- Paths depend on the tables they go through. -/
lemma follow_congr (h : ∀ u, IsTable m n t u → m' u = m u) (hp : p.length ≤ n) :
    follow m' t p = follow m t p := by
  induction n generalizing t p with
  | zero =>
    cases p with
    | nil => rfl
    | cons i p => exact absurd hp (Nat.not_succ_le_zero _)
  | succ n ih =>
    cases p with
    | nil => rfl
    | cons i p =>
      rw [follow, follow, h t .root]
      split
      · exact ih (fun u hu => h u (hu.child ‹_›)) (Nat.le_of_succ_le_succ hp)
      · rfl

/-- What is below depends on the tables only. -/
lemma IsTable.congr (h : ∀ u, IsTable m n t u → m' u = m u) : IsTable m' n t u ↔ IsTable m n t u := by
  refine exists_congr fun p => and_congr_right fun hp => ?_
  rw [follow_congr h hp]

/-- Walks depend on the tables of the tree. -/
lemma tableWalk_congr (h : ∀ u, IsTable m n t u → m' u = m u) :
    tableWalk m' va leaf n t = tableWalk m va leaf n t := by
  induction n generalizing t with
  | zero => rw [tableWalk, tableWalk, h t .root]
  | succ n ih =>
    simp only [tableWalk, h t .root]
    split
    · rfl
    split
    · exact ih fun u hu => h u (hu.child ‹_›)
    · rfl

/-- The way depends on the tables of the tree. -/
lemma walkTables_congr (h : ∀ u, IsTable m n t u → m' u = m u) :
    walkTables m' va leaf n t = walkTables m va leaf n t := by
  induction n generalizing t with
  | zero => rfl
  | succ n ih =>
    simp only [walkTables, h t .root]
    split
    · rw [ih fun u hu => h u (hu.child ‹_›)]
    · rfl

/-- A tree below a tree. -/
lemma TableTree.child (h : TableTree s (n + 1) t) (hp : pointer (s.mem t i) = true) :
    TableTree s n (pte2va (s.mem t i)) where
  distinct p q u hpl hql hfp hfq := by
    have e := h.distinct (i :: p) (i :: q) u (Nat.succ_le_succ hpl) (Nat.succ_le_succ hql)
      ((follow_cons hp).trans hfp) ((follow_cons hp).trans hfq)
    exact (List.cons.inj e).2
  allocated hu := h.allocated (hu.child hp)

/-- A table is not below itself. -/
lemma TableTree.root_not_below (h : TableTree s (n + 1) t) (hp : pointer (s.mem t i) = true) :
    ¬ IsTable s.mem n (pte2va (s.mem t i)) t := by
  rintro ⟨p, hpl, hf⟩
  have e := h.distinct (i :: p) [] t (Nat.succ_le_succ hpl) (Nat.zero_le _)
    ((follow_cons hp).trans hf) rfl
  cases e

/-- The tables below different entries are different. -/
lemma TableTree.siblings (h : TableTree s (n + 1) t) (hi : pointer (s.mem t i) = true)
    (hj : pointer (s.mem t j) = true) (hij : j ≠ i) (hu : IsTable s.mem n (pte2va (s.mem t i)) u) :
    ¬ IsTable s.mem n (pte2va (s.mem t j)) u := by
  obtain ⟨p, hpl, hf⟩ := hu
  rintro ⟨q, hql, hf'⟩
  have e := h.distinct (j :: q) (i :: p) u (Nat.succ_le_succ hql) (Nat.succ_le_succ hpl)
    ((follow_cons hj).trans hf') ((follow_cons hi).trans hf)
  exact hij (List.cons.inj e).1

/-- An empty entry is not valid. -/
lemma valid_zero : valid (0 : BitVec 64) = false := by decide

/-- An empty entry leads to no table. -/
lemma pointer_zero : pointer (0 : BitVec 64) = false := by decide

/-- Below an empty table there are no others. -/
lemma follow_empty (h : m t = fun _ => 0) : follow m t p = some u → p = [] ∧ u = t := by
  intro hf
  cases p with
  | nil => exact ⟨rfl, (Option.some.inj hf).symm⟩
  | cons i p =>
    rw [follow, h, if_neg (by rw [pointer_zero]; decide)] at hf
    cases hf

/-- There is nothing below an empty table. -/
lemma IsTable.of_empty (h : m t = fun _ => 0) (hu : IsTable m n t u) : u = t := by
  obtain ⟨p, _, hf⟩ := hu
  exact (follow_empty h hf).2

/-- An empty table is a tree. -/
lemma TableTree.of_empty (h : s.mem t = fun _ => 0) (hm : s.memMap (mapNr t) ≠ 0) : TableTree s n t where
  distinct _ _ _ _ _ hf hf' := (follow_empty h hf).1.trans (follow_empty h hf').1.symm
  allocated hu _ := hu.of_empty h ▸ hm

/-! ## The links -/

/-- An address gives no flags. -/
lemma va2pte_flags : va2pte t &&& 0x3FF#64 = 0#64 :=
  pa2pte_flags

/-- The entry of a page that `get_free_page` returns leads back to the page. -/
lemma pte2va_va2pte (h : Managed t) : pte2va (va2pte t) = t := by
  obtain ⟨k, hk, rfl⟩ := h
  have hk' : k < 31232 := hk
  have hphys : (v2p (pageAddr k)).toNat = 0x80600000 + k * 4096 := by
    rw [v2p_toNat, pageAddr_toNat hk, lowMemory_toNat]
    omega
  have hround : pte2pa (va2pte (pageAddr k)) = v2p (pageAddr k) :=
    pte2pa_pa2pte (by omega) (by omega)
  rw [pte2va, hround, p2v_v2p]

/-- The entry that `map_page` writes for a new table points to it. -/
lemma link_spec (h : Managed t) :
    valid (va2pte t ||| pteV) = true ∧ pointer (va2pte t ||| pteV) = true ∧
      pte2va (va2pte t ||| pteV) = t := by
  have hvalid : valid (va2pte t ||| pteV) = true := by
    rw [valid, BitVec.getLsbD_or]
    simp [pteV]
  have hrwx : va2pte t &&& (pteR ||| pteW ||| pteX) = 0#64 := by
    have hsub : (pteR ||| pteW ||| pteX) = 0x3FF#64 &&& (pteR ||| pteW ||| pteX) := by decide
    rw [hsub, ← BitVec.and_assoc, va2pte_flags, BitVec.zero_and]
  have hpointer : pointer (va2pte t ||| pteV) = true := by
    rw [pointer, hvalid, Bool.true_and, beq_iff_eq, BitVec.and_comm, BitVec.and_or_distrib_left,
      BitVec.and_comm, hrwx]
    decide
  have hto : pte2va (va2pte t ||| pteV) = t := by
    rw [pte2va_or (by decide), pte2va_va2pte h]
  exact ⟨hvalid, hpointer, hto⟩

/-- A table is valid. -/
lemma valid_of_pointer {pte : BitVec 64} (h : pointer pte = true) : valid pte = true := by
  rw [pointer, Bool.and_eq_true] at h
  exact h.1

/-! ## What a call does -/

/-- What a walk finds that ends at `level` of an empty table. -/
def Found.empty (leafLevel level : Nat) : Found :=
  if level = leafLevel then .entry leafLevel 0 else .missing level

/-- The walk of an address finds what it found before, or it goes further than before into one of the
    tables `new` and finds nothing there. -/
inductive WalkKept (m m' : BitVec 64 → Fin 512 → BitVec 64) (va : BitVec 64) (leafLevel n : Nat)
    (table : BitVec 64) (new : List (BitVec 64)) : Prop where
  | same : tableWalk m' va leafLevel n table = tableWalk m va leafLevel n table →
    walkTables m' va leafLevel n table = walkTables m va leafLevel n table →
    WalkKept m m' va leafLevel n table new
  | fresh {level level' t} : level' < level → tableWalk m va leafLevel n table = .missing level →
    tableWalk m' va leafLevel n table = .empty leafLevel level' →
    (walkTables m' va leafLevel n table).getLast? = some t → t ∈ new →
    WalkKept m m' va leafLevel n table new

/-- From `s` to `s'` an address has been mapped by `pte` in a tree of height `n`, with the pages `new`
    as new tables. -/
structure Maps (leafLevel n : Nat) (table va pte : BitVec 64) (new : List (BitVec 64))
    (s s' : Memory) : Prop where
  walk : tableWalk s'.mem va leafLevel n table = .entry leafLevel pte
  others : ∀ va', (∃ l, leafLevel ≤ l ∧ l ≤ leafLevel + n ∧ px l va' ≠ px l va) →
    WalkKept s.mem s'.mem va' leafLevel n table new
  tables : walkTables s'.mem va leafLevel n table = walkTables s.mem va leafLevel n table ++ new
  nodup : new.Nodup
  free : ∀ x ∈ new, Managed x ∧ s.memMap (mapNr x) = 0
  memMap : ∀ x, Managed x → s'.memMap (mapNr x) = if x ∈ new then 1 else s.memMap (mapNr x)
  rows : ∀ t, ¬ IsTable s.mem n table t → t ∉ new → s'.mem t = s.mem t

variable {new : List (BitVec 64)} {pte page : BitVec 64}

/-- The memory after `table[i] = pte`. -/
def Memory.written (s : Memory) (table : BitVec 64) (i : Fin 512) (pte : BitVec 64) : Memory :=
  { s with mem := update s.mem table (update (s.mem table) i pte) }

/-- The table after an entry has been written. -/
lemma written_row : (s.written t i pte).mem t = update (s.mem t) i pte :=
  update_self _ _ _

/-- The other tables after an entry has been written. -/
lemma written_other (h : u ≠ t) : (s.written t i pte).mem u = s.mem u :=
  update_of_ne h _ _

/-- The memory after `map_page` has made `page` the table below `table[i]`. -/
def Memory.linked (s : Memory) (table : BitVec 64) (i : Fin 512) (page : BitVec 64) : Memory :=
  (s.taken page).written table i (va2pte page ||| pteV)

/-- The new table is empty. -/
lemma linked_row (h : page ≠ t) : (s.linked t i page).mem page = fun _ => 0 :=
  (written_other h).trans taken_row

/-- The others are as they were. -/
lemma linked_other (ht : u ≠ t) (hp : u ≠ page) : (s.linked t i page).mem u = s.mem u :=
  (written_other ht).trans (taken_other hp)

/-- The table that the new one is linked to gets an entry for it. -/
lemma linked_parent (h : t ≠ page) :
    (s.linked t i page).mem t = update (s.mem t) i (va2pte page ||| pteV) := by
  rw [Memory.linked, written_row, taken_other h]

/-- The new table is counted once. -/
lemma linked_memMap (ht : Managed page) (hu : Managed u) :
    (s.linked t i page).memMap (mapNr u) = if u = page then 1 else s.memMap (mapNr u) :=
  taken_memMap ht hu

/-- The new table is in use. -/
lemma linked_used (h : Managed page) : (s.linked t i page).memMap (mapNr page) ≠ 0 := by
  rw [linked_memMap h h, if_pos rfl]
  decide

/-! ## One level -/

/-- The walk goes on in the next table. -/
lemma tableWalk_pointer (h : pointer (m t (px (leaf + (n + 1)) va)) = true) :
    tableWalk m va leaf (n + 1) t = tableWalk m va leaf n (pte2va (m t (px (leaf + (n + 1)) va))) := by
  simp only [tableWalk]
  rw [if_neg (by rw [valid_of_pointer h]; decide), if_pos h]

/-- The next table is on the way. -/
lemma walkTables_pointer (h : pointer (m t (px (leaf + (n + 1)) va)) = true) :
    walkTables m va leaf (n + 1) t =
      t :: walkTables m va leaf n (pte2va (m t (px (leaf + (n + 1)) va))) := by
  simp only [walkTables]
  rw [if_pos h]

/-- It ends where there is none. -/
lemma tableWalk_missing (h : valid (m t (px (leaf + (n + 1)) va)) = false) :
    tableWalk m va leaf (n + 1) t = .missing (leaf + (n + 1)) := by
  simp only [tableWalk]
  rw [if_pos h]

/-- The way ends where there is no table. -/
lemma walkTables_missing (h : valid (m t (px (leaf + (n + 1)) va)) = false) :
    walkTables m va leaf (n + 1) t = [t] := by
  simp only [walkTables]
  rw [if_neg]
  intro hp
  rw [valid_of_pointer hp] at h
  cases h

/-- A walk that begins at an empty table finds nothing there. -/
lemma walk_empty (h : m t = fun _ => 0) :
    tableWalk m va leaf n t = .empty leaf (leaf + n) ∧ walkTables m va leaf n t = [t] := by
  cases n with
  | zero =>
    refine ⟨?_, rfl⟩
    rw [tableWalk, h, Found.empty, if_pos (Nat.add_zero leaf)]
  | succ n =>
    have hv : valid (m t (px (leaf + (n + 1)) va)) = false := by
      rw [h]
      exact valid_zero
    refine ⟨?_, walkTables_missing hv⟩
    rw [tableWalk_missing hv, Found.empty, if_neg (by omega)]

/-- There is no leaf in an empty table. -/
lemma NoLeaf.of_empty (h : m t = fun _ => 0) : NoLeaf m va leaf n t := by
  cases n with
  | zero => trivial
  | succ n =>
    intro hv
    rw [h, valid_zero] at hv
    cases hv

/-- What is kept from the next table on is kept from this one on. -/
lemma WalkKept.descend (hrow : m' t (px (leaf + (n + 1)) va') = m t (px (leaf + (n + 1)) va'))
    (hp : pointer (m t (px (leaf + (n + 1)) va')) = true)
    (h : WalkKept m m' va' leaf n (pte2va (m t (px (leaf + (n + 1)) va'))) new) :
    WalkKept m m' va' leaf (n + 1) t new := by
  have hp' : pointer (m' t (px (leaf + (n + 1)) va')) = true := hrow ▸ hp
  cases h with
  | same hw ht =>
    refine .same ?_ ?_
    · rw [tableWalk_pointer hp', tableWalk_pointer hp, hrow, hw]
    · rw [walkTables_pointer hp', walkTables_pointer hp, hrow, ht]
  | fresh hlt hw hw' hlast hin =>
    refine .fresh hlt ?_ ?_ ?_ hin
    · rw [tableWalk_pointer hp, hw]
    · rw [tableWalk_pointer hp', hrow, hw']
    · rw [walkTables_pointer hp', hrow, List.getLast?_cons, hlast]
      rfl

/-- The walk through an entry is kept if the tables below the entry are. -/
lemma WalkKept.aside (hrow : m' t (px (leaf + (n + 1)) va') = m t (px (leaf + (n + 1)) va'))
    (h : pointer (m t (px (leaf + (n + 1)) va')) = true →
      ∀ u, IsTable m n (pte2va (m t (px (leaf + (n + 1)) va'))) u → m' u = m u) :
    WalkKept m m' va' leaf (n + 1) t new := by
  cases hp : pointer (m t (px (leaf + (n + 1)) va')) with
  | true =>
    refine .descend hrow hp (.same (tableWalk_congr (h hp)) (walkTables_congr (h hp)))
  | false =>
    refine .same ?_ ?_
    · simp only [tableWalk, hrow, hp, Bool.false_eq_true, if_false]
    · simp only [walkTables, hrow, hp, Bool.false_eq_true, if_false]

/-- An address that shares the new table found nothing before, and finds an empty entry. -/
lemma WalkKept.linked {m₁ : BitVec 64 → Fin 512 → BitVec 64} {page : BitVec 64}
    (hv : valid (m t (px (leaf + (n + 1)) va')) = false) (hp : pointer (m' t (px (leaf + (n + 1)) va')) = true)
    (hnext : pte2va (m' t (px (leaf + (n + 1)) va')) = page) (hpage : m₁ page = fun _ => 0)
    (h : WalkKept m₁ m' va' leaf n page new) : WalkKept m m' va' leaf (n + 1) t (page :: new) := by
  cases h with
  | same hw hwt =>
    obtain ⟨hempty, hone⟩ : tableWalk m₁ va' leaf n page = .empty leaf (leaf + n) ∧
        walkTables m₁ va' leaf n page = [page] := walk_empty hpage
    refine .fresh (Nat.lt_succ_self _) (tableWalk_missing hv) ?_ ?_ List.mem_cons_self
    · rw [tableWalk_pointer hp, hnext, hw, hempty]
      rfl
    · rw [walkTables_pointer hp, hnext, hwt, hone]
      rfl
  | @fresh level level' t hlt hw hw' hlast hin =>
    have hlevel : level ≤ leaf + n := by
      rw [(walk_empty hpage).1, Found.empty] at hw
      split at hw
      · cases hw
      · cases hw
        exact Nat.le_refl _
    have hlt' : level' < leaf + (n + 1) := by omega
    refine .fresh hlt' (tableWalk_missing hv) ?_ ?_ (List.mem_cons_of_mem _ hin)
    · rw [tableWalk_pointer hp, hnext, hw']
    · rw [walkTables_pointer hp, hnext, List.getLast?_cons, hlast]
      rfl

/-- Addresses that differ in one of the indices from `leaf` on differ in the first of them, or in one of
    the others. -/
lemma differ_below (h : ∃ l, leaf ≤ l ∧ l ≤ leaf + (n + 1) ∧ px l va' ≠ px l va)
    (he : px (leaf + (n + 1)) va' = px (leaf + (n + 1)) va) :
    ∃ l, leaf ≤ l ∧ l ≤ leaf + n ∧ px l va' ≠ px l va := by
  obtain ⟨l, hl, hle, hne⟩ := h
  refine ⟨l, hl, ?_, hne⟩
  cases Nat.lt_or_eq_of_le hle with
  | inl hlt => omega
  | inr e =>
    subst e
    exact absurd he hne

/-- The walk goes on at the next table. -/
lemma Maps.descend (ht : TableTree s (n + 1) table)
    (hp : pointer (s.mem table (px (leaf + (n + 1)) va)) = true)
    (h : Maps leaf n (pte2va (s.mem table (px (leaf + (n + 1)) va))) va pte new s s') :
    Maps leaf (n + 1) table va pte new s s' := by
  have hnew : ∀ {u}, IsTable s.mem (n + 1) table u → u ∉ new := by
    intro u hu hin
    obtain ⟨hm, h0⟩ := h.free u hin
    exact ht.allocated hu hm h0
  have hrow : s'.mem table = s.mem table := h.rows _ (ht.root_not_below hp) (hnew .root)
  have hp' : pointer (s'.mem table (px (leaf + (n + 1)) va)) = true := hrow ▸ hp
  refine ⟨?_, fun va' hva => ?_, ?_, h.nodup, h.free, h.memMap, fun t hnot => h.rows t ?_⟩
  · rw [tableWalk_pointer hp', hrow, h.walk]
  · -- either both addresses go on through the same table, or through different ones
    by_cases he : px (leaf + (n + 1)) va' = px (leaf + (n + 1)) va
    · have hk := h.others va' (differ_below hva he)
      rw [← he] at hk hp
      exact .descend (by rw [hrow]) hp hk
    · refine .aside (by rw [hrow]) fun hj u hu => h.rows u ?_ (hnew (hu.child hj))
      exact fun hu' => ht.siblings hp hj he hu' hu
  · rw [walkTables_pointer hp', walkTables_pointer hp, hrow, h.tables, List.cons_append]
  · exact fun hu => hnot (hu.child hp)

/-- The further new tables were free before the first one was linked in. -/
lemma Maps.free_linked (hm : Managed page)
    (h : Maps leaf n page va pte new (s.linked table (px (leaf + (n + 1)) va) page) s') :
    ∀ x ∈ new, x ≠ page ∧ Managed x ∧ s.memMap (mapNr x) = 0 := by
  intro x hx
  obtain ⟨hmx, h0x⟩ := h.free x hx
  rw [linked_memMap hm hmx] at h0x
  split at h0x
  · exact absurd h0x (by decide)
  · next hxp => exact ⟨hxp, hmx, h0x⟩

/-- The walk goes on at a new table. -/
lemma Maps.link (ht : TableTree s (n + 1) table)
    (hv : valid (s.mem table (px (leaf + (n + 1)) va)) = false) (hm : Managed page)
    (h0 : s.memMap (mapNr page) = 0)
    (h : Maps leaf n page va pte new (s.linked table (px (leaf + (n + 1)) va) page) s') :
    Maps leaf (n + 1) table va pte (page :: new) s s' := by
  obtain ⟨_, hlink, hto⟩ := link_spec hm
  have hne : ∀ {u}, IsTable s.mem (n + 1) table u → u ≠ page := by
    rintro u hu rfl
    exact ht.allocated hu hm h0
  have hpage : (s.linked table (px (leaf + (n + 1)) va) page).mem page = fun _ => 0 :=
    linked_row (hne .root).symm
  have hfree := h.free_linked hm
  have hnew : ∀ {u}, IsTable s.mem (n + 1) table u → u ∉ new := by
    intro u hu hin
    obtain ⟨_, hmu, h0u⟩ := hfree u hin
    exact ht.allocated hu hmu h0u
  -- only the new tables and the entry that points to the first of them have changed
  have hrows : ∀ u, u ≠ table → u ≠ page → u ∉ new → s'.mem u = s.mem u := by
    intro u hut hup hun
    rw [h.rows u (fun hu => hup (hu.of_empty hpage)) hun, linked_other hut hup]
  have hrow : s'.mem table = update (s.mem table) (px (leaf + (n + 1)) va) (va2pte page ||| pteV) := by
    rw [h.rows table (fun hu => hne .root (hu.of_empty hpage)) (hnew .root), linked_parent (hne .root)]
  have hentry : s'.mem table (px (leaf + (n + 1)) va) = va2pte page ||| pteV := by
    rw [hrow, update_self]
  have hp' : pointer (s'.mem table (px (leaf + (n + 1)) va)) = true := hentry ▸ hlink
  have hnext : pte2va (s'.mem table (px (leaf + (n + 1)) va)) = page := hentry ▸ hto
  refine ⟨?_, fun va' hva => ?_, ?_, ?_, ?_, fun x hx => ?_, fun t hnot hin => ?_⟩
  · rw [tableWalk_pointer hp', hnext, h.walk]
  · by_cases he : px (leaf + (n + 1)) va' = px (leaf + (n + 1)) va
    · have hk := h.others va' (differ_below hva he)
      rw [← he] at hp' hnext hv
      exact .linked hv hp' hnext hpage hk
    · have hj : s'.mem table (px (leaf + (n + 1)) va') = s.mem table (px (leaf + (n + 1)) va') := by
        rw [hrow, update_of_ne he]
      refine .aside hj fun hpj u hu => ?_
      refine hrows u ?_ (hne (hu.child hpj)) (hnew (hu.child hpj))
      rintro rfl
      exact ht.root_not_below hpj hu
  · rw [walkTables_pointer hp', walkTables_missing hv, hnext, h.tables, (walk_empty hpage).2]
    rfl
  · exact List.nodup_cons.2 ⟨fun hin => (hfree page hin).1 rfl, h.nodup⟩
  · intro x hx
    cases List.mem_cons.1 hx with
    | inl e =>
      subst e
      exact ⟨hm, h0⟩
    | inr hin => exact (hfree x hin).2
  · rw [h.memMap x hx]
    by_cases hin : x ∈ new
    · rw [if_pos hin, if_pos (List.mem_cons_of_mem _ hin)]
    · rw [if_neg hin, linked_memMap hm hx]
      simp only [List.mem_cons, hin, or_false]
  · refine hrows t ?_ ?_ ?_
    · rintro rfl
      exact hnot .root
    · rintro rfl
      exact hin List.mem_cons_self
    · exact fun h => hin (List.mem_cons_of_mem _ h)

/-! ## map_page -/

/-- An entry is read. -/
lemma wp_readPte {Q : BitVec 64 → Memory → Prop} (h : Q (s.mem t i) s) : Prog.wp (readPte t i) Q s := by
  rw [readPte, Prog.wp_bind, Prog.wp_get]
  split
  · exact Prog.wp_pure.2 h
  · exact Prog.wp_fault

/-- `map_page` from a table at height `n`: when the walk ends, the entry is still to be written. -/
lemma mapPageWalk_maps (pte : BitVec 64) {top : Nat} {pteRecord : Nat → BitVec 64}
    (ht : TableTree s n table) (hn : NoLeaf s.mem va leaf n table) :
    Prog.wp (mapPageWalk va top leaf n table pteRecord)
      (fun r s' => ∀ t, r = some t →
        ∃ new, Maps leaf n table va pte new s (s'.written t (px leaf va) pte)) s := by
  induction n generalizing s table pteRecord with
  | zero =>
    rw [mapPageWalk, Prog.wp_pure]
    rintro t ⟨⟩
    refine ⟨[], ?_, ?_, rfl, List.nodup_nil, nofun, fun x _ => rfl, fun t hnot _ => ?_⟩
    · rw [tableWalk, written_row, update_self]
    · rintro va' ⟨l, hl, hle, hne⟩
      obtain rfl : l = leaf := by omega
      refine .same ?_ rfl
      rw [tableWalk, tableWalk, written_row, update_of_ne hne]
    · refine written_other ?_
      rintro rfl
      exact hnot .root
  | succ n ih =>
    rw [mapPageWalk, Prog.wp_bind]
    apply wp_readPte
    by_cases hv : valid (s.mem table (px (leaf + (n + 1)) va)) = true
    · obtain ⟨hp, hn⟩ := hn hv
      rw [if_pos hv]
      refine (ih (ht.child hp) hn).mono fun r s' h t e => ?_
      obtain ⟨new, hmaps⟩ := h t e
      exact ⟨new, hmaps.descend ht hp⟩
    · rw [if_neg hv, Prog.wp_bind]
      refine getFreePage_taken.wp.mono fun r s₁ h => ?_
      rcases h with ⟨rfl, _, _⟩ | ⟨page, rfl, hm, h0, rfl⟩
      · -- no page is free: the call fails
        rw [Prog.wp_bind]
        exact fun _ _ _ => Prog.wp_pure.2 nofun
      · show Prog.wp (writePte table _ (va2pte page ||| pteV) >>= _) _ _
        rw [Prog.wp_bind, writePte, Prog.wp_modify, (link_spec hm).2.2]
        have hne : page ≠ table := by
          rintro rfl
          exact ht.allocated .root hm h0
        refine (ih (.of_empty (linked_row hne) (linked_used hm))
          (.of_empty (linked_row hne))).mono fun r s' h t e => ?_
        obtain ⟨new, hmaps⟩ := h t e
        exact ⟨page :: new, hmaps.link ht (Bool.eq_false_iff.2 hv) hm h0⟩

/-- `map_page` maps the page if it returns 0. -/
lemma mapPage_maps {top : Nat} (ht : TableTree s (top - leaf) table)
    (hn : NoLeaf s.mem va leaf (top - leaf) table) :
    Prog.wp (mapPage table va pa perm top leaf) (fun r s' => r = 0 →
      ∃ new, Maps leaf (top - leaf) table va (pa2pte pa ||| perm) new s s') s := by
  rw [mapPage, Prog.wp_bind]
  refine (mapPageWalk_maps (pa2pte pa ||| perm) ht hn).mono fun r s₁ h => ?_
  cases r with
  | none => exact Prog.wp_pure.2 nofun
  | some t =>
    show Prog.wp (writePte t (px leaf va) (pa2pte pa ||| perm) >>= _) _ _
    rw [Prog.wp_bind, writePte, Prog.wp_modify, Prog.wp_pure]
    exact fun _ => h t rfl

/-- **`map_page` maps one address**: if it returns 0, the walk of `va` ends in the new entry, all other
    walks find what they found before, and the pages taken are the missing tables. -/
theorem map_page_maps {top : Nat} (ht : TableTree s (top - leaf) table)
    (hn : NoLeaf s.mem va leaf (top - leaf) table)
    (e : mapPage table va pa perm top leaf s = .ret (0, s')) :
    ∃ new, Maps leaf (top - leaf) table va (pa2pte pa ||| perm) new s s' :=
  mapPage_maps ht hn _ _ e rfl

/-- An empty page directory on page 0, with the counters `memMap`. -/
def emptyDir (memMap : Nat → BitVec 16) : Memory :=
  ⟨fun _ _ => 0, memMap, fun _ => some (pageAddr 0), p2v paKernel⟩

/-- An empty directory is a tree. -/
lemma emptyDir_tree {memMap : Nat → BitVec 16} (h : memMap 0 ≠ 0) :
    TableTree (emptyDir memMap) n (pageAddr 0) :=
  .of_empty rfl (by rw [mapNr_pageAddr (by decide)]; exact h)

/-- The first page of an address space takes two tables. -/
theorem map_page_maps_first : ∃ s' new, Maps 0 2 (pageAddr 0) 0x1000#64 (pa2pte paKernel ||| userPerm) new
    (emptyDir fun i => if i = 0 then 1 else 0) s' := by
  have hret : Prog.halts (mapPage (pageAddr 0) 0x1000#64 paKernel userPerm 2 0)
      (emptyDir fun i => if i = 0 then 1 else 0) = true := by decide
  obtain ⟨r, e⟩ := Prog.ret_after hret
  have hr : (mapPage (pageAddr 0) 0x1000#64 paKernel userPerm 2 0
      (emptyDir fun i => if i = 0 then 1 else 0)).toOption.map Prod.fst = some 0 := by decide
  rw [e] at hr
  obtain rfl := Option.some.inj hr
  exact ⟨_, map_page_maps (emptyDir_tree (by decide)) (.of_empty rfl) e⟩

end OldLinux.Mm
