import OldLinux.Mm.Tree
import Mathlib.Data.List.Nodup
import Mathlib.Data.List.Pairwise

/-!
# User accesses

Loads and stores of user programs. The hardware translates a user address through the three levels of
tables (Sv39); a store that it refuses goes to `do_page_fault` and is made again afterwards. What an
access finds depends on the tables of the task only (`translate_congr`), and in an address space that
reaches no page twice no mapped page is a table and no page is mapped at two addresses.
-/

namespace OldLinux.Mm
open Lib Function

/-! ## Translation -/

/-- `pte & PTE_W`. -/
def writable (pte : BitVec 64) : Bool := pte.getLsbD 2

/-- The page of a user access that needs the flags `perm`, or nothing if the access faults; no entry of
    the upper half has `PTE_U`. -/
def translate (m : BitVec 64 → Fin 512 → BitVec 64) (dir va perm : BitVec 64) : Option (BitVec 64) :=
  if va >>> 38 = 0#64 then
    match walk m va 2 dir with
    | none => none
    | some pte => if allows pte (pteV ||| pteU ||| perm) then some (pte2va pte) else none
  else none

def wordOf (va : BitVec 64) : Fin 512 := Fin.ofNat 512 (va >>> 3).toNat

/-- The byte of a page at an address. -/
def getByte (words : Fin 512 → BitVec 64) (va : BitVec 64) : BitVec 8 :=
  (words (wordOf va)).extractLsb' (8 * (va.toNat % 8)) 8

/-- The page with another byte at an address. -/
def setByte (words : Fin 512 → BitVec 64) (va : BitVec 64) (b : BitVec 8) : Fin 512 → BitVec 64 :=
  update words (wordOf va)
    ((words (wordOf va) &&& ~~~(0xFF#64 <<< (8 * (va.toNat % 8)))) |||
      (b.setWidth 64 <<< (8 * (va.toNat % 8))))

/-- The byte that a task reads at an address, or nothing if the load faults. -/
def userLoad (s : Memory) (c : Fin 64) (va : BitVec 64) : Option (BitVec 8) :=
  match s.pgd c with
  | none => none
  | some dir => (translate s.mem dir va pteR).map fun page => getByte (s.mem page) va

/-- The page that a task can store to at an address. -/
def storePage (s : Memory) (c : Fin 64) (va : BitVec 64) : Option (BitVec 64) :=
  match s.pgd c with
  | none => none
  | some dir => translate s.mem dir va (pteR ||| pteW)

/-- A task stores a byte, or runs `do_page_fault` if the store faults. -/
def userStore (c : Fin 64) (va : BitVec 64) (b : BitVec 8) : Prog Memory Unit := do
  let s ← Prog.get
  match storePage s c va with
  | some page => Prog.modify fun s => { s with mem := update s.mem page (setByte (s.mem page) va b) }
  | none => doPageFault c va

/-! ## Routes -/

def l1At (m : BitVec 64 → Fin 512 → BitVec 64) (dir : BitVec 64) (i : Fin 512) : BitVec 64 :=
  pte2va (m dir i)

def l0At (m : BitVec 64 → Fin 512 → BitVec 64) (dir : BitVec 64) (i j : Fin 512) : BitVec 64 :=
  pte2va (m (l1At m dir i) j)

def leafAt (m : BitVec 64 → Fin 512 → BitVec 64) (dir : BitVec 64) (i j k : Fin 512) : BitVec 64 :=
  pte2va (m (l0At m dir i j) k)

/-- The entries `i` and `j` lead from a page directory to a level-0 table. -/
structure Route (m : BitVec 64 → Fin 512 → BitVec 64) (dir : BitVec 64) (i j : Fin 512) : Prop where
  lower : i ∈ lowerHalf
  l1 : valid (m dir i) = true
  l0 : valid (m (l1At m dir i) j) = true

/-- The page directory and the level-1 tables. -/
def Upper (m : BitVec 64 → Fin 512 → BitVec 64) (dir t : BitVec 64) : Prop :=
  t = dir ∨ ∃ i ∈ lowerHalf, valid (m dir i) = true ∧ t = l1At m dir i

/-- An entry that points to a table or, like 0, to nothing in the direct map. -/
def TableEntry (pte : BitVec 64) : Prop :=
  pointer pte = true ∨ (valid pte = false ∧ ¬ Mapped (pte2va pte))

instance (pte : BitVec 64) : Decidable (TableEntry pte) := inferInstanceAs (Decidable (_ ∨ _))

/-- The tables above level 0 hold no superpages and no pages that are not in use. -/
structure UserTables (m : BitVec 64 → Fin 512 → BitVec 64) (dir : BitVec 64) : Prop where
  l1 : ∀ i ∈ lowerHalf, TableEntry (m dir i)
  l0 : ∀ i ∈ lowerHalf, valid (m dir i) = true → ∀ j, TableEntry (m (l1At m dir i) j)

variable {m m' : BitVec 64 → Fin 512 → BitVec 64} {dir va : BitVec 64} {i i' j j' k k' : Fin 512}

/-- The lower half of the directory. -/
lemma mem_lowerHalf : i ∈ lowerHalf ↔ i.val < 256 := by
  rw [lowerHalf, List.mem_map]
  constructor
  · rintro ⟨a, _, rfl⟩
    exact a.isLt
  · intro h
    exact ⟨⟨i.val, h⟩, List.mem_finRange _, rfl⟩

/-- A user address has 38 bits. -/
lemma user_toNat (h : va >>> 38 = 0#64) : va.toNat < 2 ^ 38 := by
  have h0 := congrArg BitVec.toNat h
  rw [BitVec.toNat_ushiftRight, Nat.shiftRight_eq_div_pow] at h0
  simp at h0
  omega

/-- The index of a level. -/
lemma px_val (level : Nat) (va : BitVec 64) :
    (px level va).val = va.toNat / 2 ^ (12 + 9 * level) % 512 := by
  rw [px, Fin.val_ofNat, BitVec.toNat_ushiftRight, Nat.shiftRight_eq_div_pow]

/-- User addresses are those of the lower half. -/
lemma px_lower (h : va >>> 38 = 0#64) : px 2 va ∈ lowerHalf := by
  have hlt := user_toNat h
  rw [mem_lowerHalf, px_val]
  omega

/-- The three indices make up the page number of a user address. -/
lemma page_of_px {va' : BitVec 64} (h : va >>> 38 = 0#64) (h' : va' >>> 38 = 0#64)
    (h2 : px 2 va = px 2 va') (h1 : px 1 va = px 1 va') (h0 : px 0 va = px 0 va') :
    va >>> 12 = va' >>> 12 := by
  have hlt := user_toNat h
  have hlt' := user_toNat h'
  have e2 := congrArg Fin.val h2
  have e1 := congrArg Fin.val h1
  have e0 := congrArg Fin.val h0
  rw [px_val, px_val] at e2 e1 e0
  apply BitVec.eq_of_toNat_eq
  rw [BitVec.toNat_ushiftRight, BitVec.toNat_ushiftRight, Nat.shiftRight_eq_div_pow,
    Nat.shiftRight_eq_div_pow]
  omega

/-- A table is valid. -/
lemma pointer_valid {pte : BitVec 64} (h : pointer pte = true) : valid pte = true := by
  rw [pointer, Bool.and_eq_true] at h
  exact h.1

/-- An entry that leads to a table is valid. -/
lemma TableEntry.valid {pte : BitVec 64} (h : TableEntry pte) (hm : Mapped (pte2va pte)) :
    Mm.valid pte = true := by
  cases h with
  | inl hp => exact pointer_valid hp
  | inr hn => exact absurd hm hn.2

/-- The walk of the hardware, level by level. -/
lemma walk_eq : walk m va 2 dir =
    if pointer (m dir (px 2 va)) ∧ pointer (m (l1At m dir (px 2 va)) (px 1 va)) then
      some (m (l0At m dir (px 2 va) (px 1 va)) (px 0 va))
    else none := by
  show (if pointer (m dir (px 2 va)) then
      if pointer (m (l1At m dir (px 2 va)) (px 1 va)) then
        some (m (l0At m dir (px 2 va) (px 1 va)) (px 0 va))
      else none
    else none) = _
  by_cases h1 : pointer (m dir (px 2 va)) = true
  · simp [h1]
  · simp [h1]

/-- A translation has followed a route to an entry with the flags it needs. -/
lemma translate_some {perm x : BitVec 64} (h : translate m dir va perm = some x) :
    va >>> 38 = 0#64 ∧ Route m dir (px 2 va) (px 1 va) ∧
      allows (m (l0At m dir (px 2 va) (px 1 va)) (px 0 va)) (pteV ||| pteU ||| perm) = true ∧
        x = leafAt m dir (px 2 va) (px 1 va) (px 0 va) := by
  rw [translate] at h
  split at h
  · next hu =>
    rw [walk_eq] at h
    split at h
    · cases h
    · next pte hw =>
      split at hw
      · next hp =>
        cases hw
        split at h
        · next ha =>
          have hx := Option.some.inj h
          exact ⟨hu, ⟨px_lower hu, pointer_valid hp.1, pointer_valid hp.2⟩, ha, hx.symm⟩
        · cases h
      · cases hw
  · cases h

/-- A translation depends on the tables above level 0 and on what the level-0 entries allow. -/
lemma translate_congr {perm : BitVec 64} (hu : ∀ t, Upper m dir t → m' t = m t)
    (hl : ∀ i j, Route m dir i j → ∀ k,
      allows (m' (l0At m dir i j) k) (pteV ||| pteU ||| perm) =
        allows (m (l0At m dir i j) k) (pteV ||| pteU ||| perm) ∧
      pte2va (m' (l0At m dir i j) k) = pte2va (m (l0At m dir i j) k)) :
    translate m' dir va perm = translate m dir va perm := by
  have hd : m' dir = m dir := hu dir (.inl rfl)
  rw [translate, translate]
  split
  · next hua =>
    rw [walk_eq, walk_eq]
    have e1 : l1At m' dir (px 2 va) = l1At m dir (px 2 va) := by rw [l1At, l1At, hd]
    rw [l0At, e1, hd]
    by_cases hp : pointer (m dir (px 2 va)) = true
    · have hup := hu _ (.inr ⟨px 2 va, px_lower hua, pointer_valid hp, rfl⟩)
      rw [hup]
      by_cases hq : pointer (m (l1At m dir (px 2 va)) (px 1 va)) = true
      · obtain ⟨ha, he⟩ := hl _ _ ⟨px_lower hua, pointer_valid hp, pointer_valid hq⟩ (px 0 va)
        rw [if_pos ⟨hp, hq⟩, if_pos ⟨hp, hq⟩]
        show (if _ then some (pte2va (m' (l0At m dir (px 2 va) (px 1 va)) (px 0 va))) else none) = _
        rw [he, ← l0At, ha]
      · rw [if_neg (fun h => hq h.2), if_neg (fun h => hq h.2)]
    · rw [if_neg (fun h => hp h.1), if_neg (fun h => hp h.1)]
  · rfl

/-! ## Address spaces without repetitions -/

/-- In a list of blocks without repetitions no two blocks have an element in common. -/
lemma eq_of_mem_blocks {ι α : Type*} {l : List ι} {f : ι → List α} {a b : ι} {x : α}
    (hn : (l.flatMap f).Nodup) (ha : a ∈ l) (hb : b ∈ l) (hxa : x ∈ f a) (hxb : x ∈ f b) : a = b := by
  have hs : Std.Symm (List.Disjoint on f) := ⟨fun _ _ h => h.symm⟩
  by_contra hab
  exact (List.nodup_flatMap.1 hn).2.forall ha hb hab hxa hxb

/-- The pages of a table that is there. -/
lemma l0Nodes_valid {e : BitVec 64} (h : valid e = true) :
    l0Nodes m e = pte2va e :: (List.finRange 512).flatMap fun k => leafNodes (m (pte2va e) k) := by
  rw [l0Nodes, if_pos h]

/-- The pages of an entry of the directory that is there. -/
lemma l1Nodes_valid {e : BitVec 64} (h : valid e = true) :
    l1Nodes m e = pte2va e :: (List.finRange 512).flatMap fun j => l0Nodes m (m (pte2va e) j) := by
  rw [l1Nodes, if_pos h]

/-- The page of an entry of the last level that is there. -/
lemma leafNodes_valid {e : BitVec 64} (h : valid e = true) : leafNodes e = [pte2va e] := by
  rw [leafNodes, if_pos h]

/-- The pages below an entry `j` of a level-1 table are below the table. -/
lemma mem_below_l1 {x : BitVec 64} (hx : x ∈ l0Nodes m (m (l1At m dir i) j)) :
    x ∈ (List.finRange 512).flatMap fun j => l0Nodes m (m (l1At m dir i) j) :=
  List.mem_flatMap.2 ⟨j, List.mem_finRange _, hx⟩

/-- What is below a table is below the entry above it. -/
lemma mem_l1Nodes {x : BitVec 64} (hv : valid (m dir i) = true)
    (hx : x ∈ l0Nodes m (m (l1At m dir i) j)) : x ∈ l1Nodes m (m dir i) := by
  rw [l1Nodes_valid hv]
  exact List.mem_cons_of_mem _ (mem_below_l1 hx)

/-- What is below an entry of the directory is in the tree. -/
lemma mem_tree {x : BitVec 64} (hi : i ∈ lowerHalf) (hx : x ∈ l1Nodes m (m dir i)) : x ∈ tree m dir :=
  List.mem_flatMap.2 ⟨i, hi, hx⟩

/-- The table below an entry. -/
lemma l1At_mem (hv : valid (m dir i) = true) : l1At m dir i ∈ l1Nodes m (m dir i) := by
  rw [l1Nodes_valid hv]
  exact List.mem_cons_self

/-- The level-0 table on a way is below the level-1 table. -/
lemma Route.l0_mem (r : Route m dir i j) : l0At m dir i j ∈ l0Nodes m (m (l1At m dir i) j) := by
  rw [l0Nodes_valid r.l0]
  exact List.mem_cons_self

/-- The page on a way is below the level-0 table. -/
lemma mem_below_l0 (hk : valid (m (l0At m dir i j) k) = true) :
    leafAt m dir i j k ∈ (List.finRange 512).flatMap fun k => leafNodes (m (l0At m dir i j) k) := by
  refine List.mem_flatMap.2 ⟨k, List.mem_finRange _, ?_⟩
  rw [leafNodes_valid hk]
  exact List.mem_singleton_self _

/-- A page on a route. -/
lemma Route.leaf_mem (r : Route m dir i j) (hk : valid (m (l0At m dir i j) k) = true) :
    leafAt m dir i j k ∈ l0Nodes m (m (l1At m dir i) j) := by
  rw [l0Nodes_valid r.l0]
  exact List.mem_cons_of_mem _ (mem_below_l0 hk)

/-- A page mapped by a task is in its tree. -/
lemma Route.leaf_mem_tree (r : Route m dir i j) (hk : valid (m (l0At m dir i j) k) = true) :
    leafAt m dir i j k ∈ tree m dir :=
  mem_tree r.lower (mem_l1Nodes r.l1 (r.leaf_mem hk))

/-- The level-0 table on a way is in the tree. -/
lemma Route.l0_mem_tree (r : Route m dir i j) : l0At m dir i j ∈ tree m dir :=
  mem_tree r.lower (mem_l1Nodes r.l1 r.l0_mem)

/-- So are the tables above. -/
lemma Upper.mem {t : BitVec 64} (h : Upper m dir t) : t ∈ dir :: tree m dir := by
  obtain rfl | ⟨i, hi, hv, rfl⟩ := h
  · exact List.mem_cons_self
  · exact List.mem_cons_of_mem _ (mem_tree hi (l1At_mem hv))

/-- What lies below a level-1 table is no page directory and no level-1 table. -/
lemma not_upper {x : BitVec 64} (hn : (dir :: tree m dir).Nodup) (hi : i ∈ lowerHalf)
    (hv : valid (m dir i) = true) (hx : x ∈ l0Nodes m (m (l1At m dir i) j)) : ¬ Upper m dir x := by
  obtain ⟨hd, ht⟩ := List.nodup_cons.1 hn
  rintro (rfl | ⟨i', hi', hv', rfl⟩)
  · exact hd (mem_tree hi (mem_l1Nodes hv hx))
  · have e := eq_of_mem_blocks ht hi' hi (l1At_mem hv') (mem_l1Nodes hv hx)
    subst e
    have h1 := (List.nodup_flatMap.1 ht).1 i' hi
    rw [l1Nodes_valid hv] at h1
    exact (List.nodup_cons.1 h1).1 (mem_below_l1 hx)

/-- The level-0 table on a way is no upper table. -/
lemma Route.not_upper (hn : (dir :: tree m dir).Nodup) (r : Route m dir i j) :
    ¬ Upper m dir (l0At m dir i j) :=
  Mm.not_upper hn r.lower r.l1 r.l0_mem

/-- Two entries of the same page directory below which the same page lies. -/
lemma Route.unique {x : BitVec 64} (hn : (tree m dir).Nodup) (r : Route m dir i j)
    (r' : Route m dir i' j') (hx : x ∈ l0Nodes m (m (l1At m dir i) j))
    (hx' : x ∈ l0Nodes m (m (l1At m dir i') j')) : i = i' ∧ j = j' := by
  have e := eq_of_mem_blocks hn r.lower r'.lower (mem_l1Nodes r.l1 hx) (mem_l1Nodes r'.l1 hx')
  subst e
  have h1 := (List.nodup_flatMap.1 hn).1 i r.lower
  rw [l1Nodes_valid r.l1] at h1
  exact ⟨rfl,
    eq_of_mem_blocks (List.nodup_cons.1 h1).2 (List.mem_finRange j) (List.mem_finRange j') hx hx'⟩

/-- The pages below an entry of a level-1 table are all different. -/
lemma Route.nodup (hn : (tree m dir).Nodup) (r : Route m dir i j) :
    (l0At m dir i j :: (List.finRange 512).flatMap fun k => leafNodes (m (l0At m dir i j) k)).Nodup := by
  have h1 := (List.nodup_flatMap.1 hn).1 i r.lower
  rw [l1Nodes_valid r.l1] at h1
  have h0 := (List.nodup_flatMap.1 (List.nodup_cons.1 h1).2).1 j (List.mem_finRange j)
  have e : l0Nodes m (m (l1At m dir i) j) = _ := l0Nodes_valid r.l0
  rw [← l1At, e] at h0
  exact h0

/-- A mapped page is no level-0 table. -/
lemma Route.leaf_ne_l0 (hn : (tree m dir).Nodup) (r : Route m dir i j) (r' : Route m dir i' j')
    (hk : valid (m (l0At m dir i j) k) = true) : leafAt m dir i j k ≠ l0At m dir i' j' := by
  intro e
  have hm := r.leaf_mem hk
  rw [e] at hm
  obtain ⟨rfl, rfl⟩ := r.unique hn r' hm r'.l0_mem
  have hb := mem_below_l0 hk
  rw [e] at hb
  exact (List.nodup_cons.1 (r.nodup hn)).1 hb

/-- A page is mapped at one address. -/
lemma Route.leaf_unique (hn : (tree m dir).Nodup) (r : Route m dir i j) (r' : Route m dir i' j')
    (hk : valid (m (l0At m dir i j) k) = true) (hk' : valid (m (l0At m dir i' j') k') = true)
    (e : leafAt m dir i j k = leafAt m dir i' j' k') : i = i' ∧ j = j' ∧ k = k' := by
  have hm := r.leaf_mem hk
  rw [e] at hm
  obtain ⟨rfl, rfl⟩ := r.unique hn r' hm (r'.leaf_mem hk')
  refine ⟨rfl, rfl, ?_⟩
  have h0 := (List.nodup_cons.1 (r.nodup hn)).2
  refine eq_of_mem_blocks h0 (List.mem_finRange k) (List.mem_finRange k') (x := leafAt m dir i j k) ?_ ?_
  · rw [leafNodes_valid hk]
    exact List.mem_singleton_self _
  · rw [leafNodes_valid hk', e]
    exact List.mem_singleton_self _

/-! ## Memories with the same tables -/

/-- The routes depend on the tables above level 0. -/
lemma Route.congr (hu : ∀ t, Upper m dir t → m' t = m t) (r : Route m' dir i j) :
    Route m dir i j ∧ l1At m' dir i = l1At m dir i ∧ l0At m' dir i j = l0At m dir i j := by
  have hd : m' dir = m dir := hu dir (.inl rfl)
  have h1 := r.l1
  rw [hd] at h1
  have e1 : l1At m' dir i = l1At m dir i := by rw [l1At, l1At, hd]
  have hup := hu _ (.inr ⟨i, r.lower, h1, rfl⟩)
  have h0 := r.l0
  rw [e1, hup] at h0
  refine ⟨⟨r.lower, h1, h0⟩, e1, ?_⟩
  rw [l0At, l0At, e1, hup]

/-- A page directory with the same entries and the same level-1 tables. -/
lemma UserTables.copy {dir' : BitVec 64} (h : UserTables m dir) (hd : m' dir' = m dir)
    (hl : ∀ i ∈ lowerHalf, valid (m dir i) = true → m' (l1At m dir i) = m (l1At m dir i)) :
    UserTables m' dir' := by
  constructor
  · intro i hi
    rw [hd]
    exact h.l1 i hi
  · intro i hi hv j
    rw [hd] at hv
    rw [l1At, hd, ← l1At, hl i hi hv]
    exact h.l0 i hi hv j

/-- The tables of a user depend on the upper ones only. -/
lemma UserTables.congr (hu : ∀ t, Upper m dir t → m' t = m t) (h : UserTables m dir) :
    UserTables m' dir :=
  h.copy (hu dir (.inl rfl)) fun i hi hv => hu _ (.inr ⟨i, hi, hv, rfl⟩)

/-- The tree depends on the tables only. -/
lemma tree_of_tables (hu : ∀ t, Upper m dir t → m' t = m t)
    (hl : ∀ i j, Route m dir i j → m' (l0At m dir i j) = m (l0At m dir i j)) :
    tree m' dir = tree m dir := by
  have hd : m' dir = m dir := hu dir (.inl rfl)
  rw [tree, tree, hd]
  apply List.flatMap_congr
  intro i hi
  by_cases hv : valid (m dir i) = true
  · have hup : m' (pte2va (m dir i)) = m (pte2va (m dir i)) := hu _ (.inr ⟨i, hi, hv, rfl⟩)
    rw [l1Nodes_valid hv, l1Nodes_valid hv, hup]
    apply congrArg (List.cons _)
    apply List.flatMap_congr
    intro j _
    by_cases hw : valid (m (l1At m dir i) j) = true
    · have hrow := hl i j ⟨hi, hv, hw⟩
      rw [← l1At, l0Nodes_valid hw, l0Nodes_valid hw, ← l0At, hrow]
    · rw [← l1At, l0Nodes, l0Nodes, if_neg hw, if_neg hw]
  · rw [l1Nodes, l1Nodes, if_neg hv, if_neg hv]

/-- Where `get_pte` finds an entry, the tables lead to it. -/
lemma getPte_route {table : BitVec 64} (h : UserTables m dir) (hu : va >>> 38 = 0#64)
    (hg : getPte m dir va = .entry table i) (hm : Mapped table) :
    Route m dir (px 2 va) (px 1 va) ∧ table = l0At m dir (px 2 va) (px 1 va) ∧ i = px 0 va := by
  rw [getPte, getPteWalk] at hg
  split at hg
  · dsimp only at hg
    rw [if_neg (getPte_test _), getPteWalk] at hg
    split at hg
    · next h1 =>
      dsimp only at hg
      rw [if_neg (getPte_test _), getPteWalk] at hg
      have hv1 := (h.l1 _ (px_lower hu)).valid h1
      have e := PteRef.entry.inj hg
      have hv0 := (h.l0 _ (px_lower hu) hv1 (px 1 va)).valid (e.1 ▸ hm)
      exact ⟨⟨px_lower hu, hv1, hv0⟩, e.1.symm, e.2.symm⟩
    · cases hg
  · cases hg

end OldLinux.Mm
