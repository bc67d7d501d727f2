import OldLinux.Mm.Walk

/-!
# The paths of the page fault handler

What `do_page_fault` does with an entry for the address: the page has the count 1 and gets its `PTE_W`
(`wpPage_sole`), or the copying branch of `do_wp_page` is entered (`wpPage_copies`). There the `memcpy` cannot
read the page of the user, and `do_page_fault` runs for its load. If the page has the count 1 by then, this has
no end (`memcpyTraps_forever`); otherwise another page is taken, until none is left and the task is killed.
-/

namespace OldLinux.Mm
open Lib Function

variable {s s₁ : Memory} {c : Fin 64} {dir table address badaddr old page : BitVec 64} {i : Fin 512}
  {trapped : Prog Memory Unit} {k n : Nat}

/-- `PTE_W` is set in the entry `k` of a level-0 table. -/
def setW (s : Memory) (table : BitVec 64) (k : Fin 512) : Memory :=
  { s with mem := update s.mem table (update (s.mem table) k (s.mem table k ||| pteW)) }

/-- The memory when the `memcpy` of the copying branch begins. -/
def Memory.unshared (s : Memory) (table : BitVec 64) (i : Fin 512) (old : BitVec 64) : Memory :=
  setW { s with memMap := update s.memMap (mapNr old) (s.memMap (mapNr old) - 1) } table i

/-! ## The entry -/

/-- `do_page_fault` comes to `do_wp_page` wherever `get_pte` returns a place. -/
lemma pageFault_entry (hd : s.pgd c = some dir) (hlo : pageSize ≤ badaddr &&& ~~~0xFFF#64)
    (hhi : badaddr &&& ~~~0xFFF#64 < taskSize)
    (hg : getPte s.mem dir (badaddr &&& ~~~0xFFF#64) = .entry table i) :
    pageFault trapped c badaddr s = wpPage trapped c dir (badaddr &&& ~~~0xFFF#64) table i s := by
  rw [pageFault, Prog.bind_of_ret (t := s) rfl, hd]
  dsimp only
  rw [if_neg (not_or.2 ⟨BitVec.not_lt.2 hlo, BitVec.not_le.2 hhi⟩), hg]
  dsimp only
  rw [if_pos or_pteV_ne_zero]

/-- A page with the count 1 becomes writable. -/
lemma wpPage_sole (hm : Mapped table) (hlow : p2v lowMem ≤ pte2va (s.mem table i))
    (hlt : mapNr (pte2va (s.mem table i)) < pagingPages)
    (h1 : s.memMap (mapNr (pte2va (s.mem table i))) = 1) :
    wpPage trapped c dir address table i s = .ret ((), setW s table i) := by
  rw [wpPage, if_pos hm, Prog.bind_of_ret (t := s) rfl]
  rw [if_neg fun h => Nat.not_le.2 hlt h.2, if_pos ⟨hlow, h1⟩]
  rfl

/-- A page with another count is copied. -/
lemma wpPage_copies (hm : Mapped table) (hlt : mapNr (pte2va (s.mem table i)) < pagingPages)
    (h1 : s.memMap (mapNr (pte2va (s.mem table i))) ≠ 1) :
    wpPage trapped c dir address table i s =
      copyOnWrite trapped c dir address table i (pte2va (s.mem table i)) s := by
  rw [wpPage, if_pos hm, Prog.bind_of_ret (t := s) rfl]
  rw [if_neg fun h => Nat.not_le.2 hlt h.2, if_neg fun h => h1 h.2]

/-! ## The copying branch -/

/-- Without a free page the task is killed. -/
lemma copyOnWrite_full (h : findFree s.memMap 0 pagingPages = none) :
    copyOnWrite trapped c dir address table i old s = doExit c s := by
  rw [copyOnWrite, Prog.bind_of_ret (getFreePage_none h)]

/-- `map_page` where all tables are there. -/
lemma mapPage_present {va pa perm t u : BitVec 64} (hd : Mapped dir) (hv : valid (s.mem dir (px 2 va)) = true)
    (e : pte2va (s.mem dir (px 2 va)) = t) (ht : Mapped t) (hv' : valid (s.mem t (px 1 va)) = true)
    (e' : pte2va (s.mem t (px 1 va)) = u) :
    mapPage dir va pa perm 2 0 s =
      .ret (0, { s with mem := update s.mem u (update (s.mem u) (px 0 va) (pa2pte pa ||| perm)) }) := by
  have hwalk : mapPageWalk va 2 0 2 dir (fun _ => 0) s = .ret (some u, s) := by
    rw [mapPageWalk, Prog.bind_of_ret (readPte_eq hd), if_pos hv, e, mapPageWalk, Prog.bind_of_ret (readPte_eq ht),
      if_pos hv', e']
    rfl
  rw [mapPage, Prog.bind_of_ret hwalk]
  rfl

/-- The old page loses a reference and the entry becomes writable before the load of `memcpy` traps. -/
lemma copyOnWrite_traps (hf : findFree s.memMap 0 pagingPages = some k)
    (hmap : mapPage dir (pageAddr k) address userPerm 2 0
      { s with memMap := update s.memMap k 1, mem := update s.mem (pageAddr k) fun _ => 0 } = .ret (0, s₁))
    (hlt : mapNr old < pagingPages) (hm : Mapped table)
    (hread : readable (s₁.unshared table i old).mem dir address = false) :
    copyOnWrite trapped c dir address table i old s = trapped (s₁.unshared table i old) := by
  rw [copyOnWrite, Prog.bind_of_ret (getFreePage_some hf)]
  dsimp only
  rw [Prog.bind_of_ret hmap, if_neg (not_not.2 rfl), if_neg (Nat.not_le.2 hlt), Prog.bind_of_ret (readMap_eq hlt)]
  show (readPte table i >>= _) { s₁ with memMap := update s₁.memMap (mapNr old) _ } = _
  rw [Prog.bind_of_ret (readPte_eq hm)]
  show (if readable (s₁.unshared table i old).mem dir address = true then _ else trapped : Prog Memory Unit) _ = _
  rw [hread]
  rfl

/-! ## The load of `memcpy` -/

/-- `do_page_fault` kills the task. -/
lemma memcpyTraps_exits {s' : Memory} (e : pageFault (memcpyTraps c address n) c address s = .ret ((), s'))
    (h : s'.pgd c = none) : memcpyTraps c address (n + 1) s = .ret ((), s') := by
  rw [memcpyTraps, Prog.bind_of_ret e, Prog.bind_of_ret (t := s') rfl, if_pos h]
  rfl

/-- `do_page_fault` finds the entry as it has left it, and the load is made again. -/
lemma memcpyTraps_forever (hd : s.pgd c = some dir) (hlo : pageSize ≤ address &&& ~~~0xFFF#64)
    (hhi : address &&& ~~~0xFFF#64 < taskSize)
    (hg : getPte s.mem dir (address &&& ~~~0xFFF#64) = .entry table i) (hm : Mapped table)
    (hlow : p2v lowMem ≤ pte2va (s.mem table i)) (hlt : mapNr (pte2va (s.mem table i)) < pagingPages)
    (h1 : s.memMap (mapNr (pte2va (s.mem table i))) = 1) (hw : s.mem table i ||| pteW = s.mem table i) :
    memcpyTraps c address n s = .fault := by
  have hsame : setW s table i = s := by
    rw [setW, hw, update_eq_self, update_eq_self]
  induction n with
  | zero => rfl
  | succ n ih =>
    have e : pageFault (memcpyTraps c address n) c address s = .ret ((), s) := by
      rw [pageFault_entry hd hlo hhi hg, wpPage_sole hm hlow hlt h1, hsame]
    rw [memcpyTraps, Prog.bind_of_ret e, Prog.bind_of_ret (t := s) rfl, if_neg (by rw [hd]; exact nofun)]
    exact ih

/-- A `memcpy` that has trapped does not come back, but by `do_exit`. -/
lemma memcpyTraps_ends : Prog.wp (memcpyTraps c address n) (fun _ s' => s'.pgd c = none) s := by
  induction n generalizing s with
  | zero => exact Prog.wp_fault
  | succ n ih =>
    rw [memcpyTraps, Prog.wp_bind]
    intro _ s₁ _
    rw [Prog.wp_bind, Prog.wp_get]
    split
    · next h =>
      rw [Prog.wp_pure]
      exact h
    · exact ih

end OldLinux.Mm
