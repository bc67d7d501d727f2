import OldLinux.Mm.Rollback
import OldLinux.Mm.RefCount

/-!
# Looking up an entry

`get_pte` beside the hardware's walk and the walk of `map_page`. Its test for a missing table is never
true, so that it agrees with the other two on the addresses whose tables are all there, and follows
invalid entries on all others.
-/

namespace OldLinux.Mm
open Lib Function

variable {m : BitVec 64 → Fin 512 → BitVec 64} {s : Memory} {n : Nat} {table dir va : BitVec 64}

/-- Where the hardware finds the level-0 entry for an address, from a table of level `n`. -/
def entryPlace (m : BitVec 64 → Fin 512 → BitVec 64) (va : BitVec 64) :
    Nat → BitVec 64 → Option (BitVec 64 × Fin 512)
  | 0, table => some (table, px 0 va)
  | n + 1, table =>
    let pte := m table (px (n + 1) va)
    if pointer pte then entryPlace m va n (pte2va pte) else none

/-- The entries that `get_pte` follows. -/
def followed (m : BitVec 64 → Fin 512 → BitVec 64) (va : BitVec 64) : Nat → BitVec 64 → List (BitVec 64)
  | 0, _ => []
  | n + 1, table =>
    if Mapped table then
      let pte := m table (px (n + 1) va)
      if pte &&& (if pteV = 0 then 1 else 0) ≠ 0 then [] else pte :: followed m va n (pte2va pte)
    else []

/-- A tree of tables of the direct map, without huge pages, from a table of level `n`. -/
def Sv39Tree (m : BitVec 64 → Fin 512 → BitVec 64) : Nat → BitVec 64 → Prop
  | 0, table => Mapped table
  | n + 1, table => Mapped table ∧
    ∀ i, valid (m table i) = true → pointer (m table i) = true ∧ Sv39Tree m n (pte2va (m table i))

/-- The entries above level 0 on the walk of an address are all valid. -/
def Present (m : BitVec 64 → Fin 512 → BitVec 64) (va : BitVec 64) : Nat → BitVec 64 → Prop
  | 0, _ => True
  | n + 1, table =>
    let pte := m table (px (n + 1) va)
    valid pte = true ∧ Present m va n (pte2va pte)

/-- `get_pte` agrees with the hardware and with `map_page`. -/
structure GetPteAgrees (s : Memory) (dir va : BitVec 64) : Prop where
  null : getPte s.mem dir va = .null ↔ ¬ Present s.mem va 2 dir
  entry : Present s.mem va 2 dir → ∃ t i, getPte s.mem dir va = .entry t i ∧
    entryPlace s.mem va 2 dir = some (t, i) ∧
    ∀ pa perm, mapPage dir va pa perm 2 0 s = .ret (0, s.written t i (pa2pte pa ||| perm))
  follows : ∀ pte ∈ followed s.mem va 2 dir, valid pte = true

/-- The root of a tree is mapped. -/
lemma Sv39Tree.mapped (h : Sv39Tree m n table) : Mapped table := by
  cases n with
  | zero => exact h
  | succ n => exact h.1

/-- Through valid entries the three walks go the same way. -/
lemma Present.walks (h : Present s.mem va n table) (ht : Sv39Tree s.mem n table) :
    ∃ t, getPteWalk s.mem va n table = .entry t (px 0 va) ∧
      entryPlace s.mem va n table = some (t, px 0 va) ∧
      ∀ top pteRecord, mapPageWalk va top 0 n table pteRecord s = .ret (some t, s) := by
  induction n generalizing table with
  | zero => exact ⟨table, rfl, rfl, fun _ _ => rfl⟩
  | succ n ih =>
    obtain ⟨hv, h⟩ := h
    obtain ⟨hp, hnext⟩ := ht.2 _ hv
    obtain ⟨t, hg, he, hm⟩ := ih h hnext
    have hlevel : 0 + (n + 1) = n + 1 := Nat.zero_add _
    refine ⟨t, ?_, ?_, fun top pteRecord => ?_⟩
    · rw [getPteWalk, if_pos ht.mapped]
      exact (if_neg (getPte_test _)).trans hg
    · exact (if_pos hp).trans he
    · rw [mapPageWalk_found ht.mapped (by rw [hlevel]; exact hv), hlevel]
      exact hm top pteRecord

/-- The entries followed on such a walk are those of the walk. -/
lemma Present.follows (h : Present m va n table) : ∀ pte ∈ followed m va n table, valid pte = true := by
  induction n generalizing table with
  | zero => exact nofun
  | succ n ih =>
    rw [followed]
    split
    · intro pte hin
      dsimp only at hin
      rw [if_neg (getPte_test _)] at hin
      cases List.mem_cons.1 hin with
      | inl e => exact e ▸ h.1
      | inr hin => exact ih h.2 pte hin
    · exact nofun

/-- **When `get_pte` agrees with the hardware**: exactly if no table is missing. -/
theorem get_pte_agrees_iff (ht : Sv39Tree s.mem 2 dir) :
    GetPteAgrees s dir va ↔ Present s.mem va 2 dir := by
  constructor
  · intro h
    by_contra hp
    exact getPteWalk_ne_null (h.null.2 hp)
  · intro h
    refine ⟨⟨fun e => absurd e getPteWalk_ne_null, fun hp => absurd h hp⟩, fun _ => ?_, h.follows⟩
    obtain ⟨t, hg, he, hm⟩ := h.walks ht
    refine ⟨t, px 0 va, hg, he, fun pa perm => ?_⟩
    rw [mapPage, Prog.bind_of_ret (hm 2 fun _ => 0)]
    rfl

/-- The tables on pages 0, 1 and 2 for the first 512 pages, with one entry at level 0. -/
def threeTables (pte : BitVec 64) : Memory where
  mem t i :=
    if t = pageAddr 0 ∧ i = 0 then va2pte (pageAddr 1) ||| pteV
    else if t = pageAddr 1 ∧ i = 0 then va2pte (pageAddr 2) ||| pteV
    else if t = pageAddr 2 ∧ i = 1 then pte
    else 0
  memMap i := if i < 4 then 1 else 0
  pgd _ := some (pageAddr 0)
  swapperPgDir := p2v paKernel

variable {pte : BitVec 64} {i : Fin 512}

/-- The directory of the sample. -/
lemma threeTables_dir : (threeTables pte).mem (pageAddr 0) i =
    if i = 0 then va2pte (pageAddr 1) ||| pteV else 0 := by
  have h1 : pageAddr 0 ≠ pageAddr 1 := by decide
  have h2 : pageAddr 0 ≠ pageAddr 2 := by decide
  simp [threeTables, h1, h2]

/-- The table of the second level of the sample. -/
lemma threeTables_l1 : (threeTables pte).mem (pageAddr 1) i =
    if i = 0 then va2pte (pageAddr 2) ||| pteV else 0 := by
  have h0 : pageAddr 1 ≠ pageAddr 0 := by decide
  have h2 : pageAddr 1 ≠ pageAddr 2 := by decide
  simp [threeTables, h0, h2]

/-- A table with one entry, for a page that `get_free_page` gave. -/
lemma Sv39Tree.of_link {t : BitVec 64} (hm : Mapped table) (ht : Managed t)
    (hrow : ∀ i, m table i = if i = 0 then va2pte t ||| pteV else 0) (h : Sv39Tree m n t) :
    Sv39Tree m (n + 1) table := by
  refine ⟨hm, fun i hv => ?_⟩
  rw [hrow] at hv ⊢
  split at hv
  · next h0 =>
    obtain ⟨_, hp, hto⟩ := link_spec ht
    rw [if_pos h0, hto]
    exact ⟨hp, h⟩
  · rw [valid_zero] at hv
    cases hv

/-- It is a tree. -/
lemma threeTables_tree : Sv39Tree (threeTables pte).mem 2 (pageAddr 0) := by
  have h1 : Managed (pageAddr 1) := ⟨1, by decide, rfl⟩
  have h2 : Managed (pageAddr 2) := ⟨2, by decide, rfl⟩
  exact .of_link (by decide) h1 (fun _ => threeTables_dir)
    (.of_link h1.mapped h2 (fun _ => threeTables_l1) h2.mapped)

/-- The tables of the page are there. -/
lemma threeTables_present : Present (threeTables pte).mem 0x1000#64 2 (pageAddr 0) := by
  have h1 : Managed (pageAddr 1) := ⟨1, by decide, rfl⟩
  have h2 : Managed (pageAddr 2) := ⟨2, by decide, rfl⟩
  have e2 : (threeTables pte).mem (pageAddr 0) (px 2 0x1000#64) = va2pte (pageAddr 1) ||| pteV := by
    rw [threeTables_dir]
    rfl
  have e1 : (threeTables pte).mem (pageAddr 1) (px 1 0x1000#64) = va2pte (pageAddr 2) ||| pteV := by
    rw [threeTables_l1]
    rfl
  refine ⟨?_, ?_, trivial⟩
  · show valid ((threeTables pte).mem (pageAddr 0) (px 2 0x1000#64)) = true
    rw [e2]
    exact (link_spec h1).1
  · show valid ((threeTables pte).mem (pte2va ((threeTables pte).mem (pageAddr 0) (px 2 0x1000#64)))
      (px 1 0x1000#64)) = true
    rw [e2, (link_spec h1).2.2, e1]
    exact (link_spec h2).1

/-- The page of the sample. -/
theorem get_pte_agrees_three : GetPteAgrees (threeTables 0) (pageAddr 0) 0x1000#64 :=
  (get_pte_agrees_iff threeTables_tree).2 threeTables_present

/-- In an empty page directory every address lacks a table, and `get_pte` does not say so. -/
theorem get_pte_blind : Sv39Tree (emptyDir fun i => if i = 0 then 1 else 0).mem 2 (pageAddr 0) ∧
    ¬ GetPteAgrees (emptyDir fun i => if i = 0 then 1 else 0) (pageAddr 0) 0x1000#64 := by
  constructor
  · refine ⟨by decide, fun i hv => ?_⟩
    have hv : valid (0 : BitVec 64) = true := hv
    rw [valid_zero] at hv
    cases hv
  · intro h
    refine getPteWalk_ne_null (h.null.2 fun hp => ?_)
    have hv : valid (0 : BitVec 64) = true := hp.1
    rw [valid_zero] at hv
    cases hv

end OldLinux.Mm
