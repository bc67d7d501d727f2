import OldLinux.Mm.Page

/-!
# Address spaces

Model of `free_page_tables`, `copy_page_tables`, `get_pte`, `map_page` and the page fault handler
(`mm/memory.c`) for the task in slot `c`, with the part of `do_exit` (`kernel/exit.c`) that concerns
the memory. The loops over the entries of a table are cut into one function for each level.

A load or store of the handler through a pointer that is not mapped traps; `do_page_fault` then runs
for that kernel address and calls `do_exit(SIGSEGV)`. The copying branch of `do_wp_page` calls
`map_page` with the two addresses exchanged and so changes an entry of the direct map; the model
takes the direct map to be intact afterwards. Its `memcpy` reads a page of the user, which the kernel may not
do: `handle_exception` clears `SR_SUM`, and nothing sets it again. The load traps into `do_page_fault`, once
more whenever that comes back (`memcpyTraps`).
-/

namespace OldLinux.Mm
open Lib Function

/-- The entries of a page directory below `NPTE / 2`. -/
def lowerHalf : List (Fin 512) := (List.finRange 256).map (Fin.castLE (by decide))

/-! ## Freeing -/

/-- The innermost loop body of `free_one_table`. -/
def freeLeaf (l0 : BitVec 64) (k : Fin 512) : Prog Memory PUnit := do
  let pte ← readPte l0 k
  if valid pte then freePage (pte2va pte) else pure ()

/-- The outer loop body of `free_one_table`. -/
def freeL0 (l1 : BitVec 64) (j : Fin 512) : Prog Memory PUnit := do
  let pte ← readPte l1 j
  if valid pte then do
    forM (List.finRange 512) (freeLeaf (pte2va pte))
    freePage (pte2va pte)
  else pure ()

/-- `free_one_table(&dir[i])`. -/
def freeOneTable (dir : BitVec 64) (i : Fin 512) : Prog Memory PUnit := do
  let pte ← readPte dir i
  if valid pte then do
    forM (List.finRange 512) (freeL0 (pte2va pte))
    freePage (pte2va pte)
  else pure ()

/-- `free_page_tables(tsk)`. -/
def freePageTables (c : Fin 64) : Prog Memory Unit := do
  let s ← Prog.get
  match s.pgd c with
  | none => pure ()
  | some dir =>
    if c = 0 then Prog.panic "Trying to free up swapper memory space"
    else if dir = s.swapperPgDir then pure ()
    else do
      forM lowerHalf (freeOneTable dir)
      freePage dir

/-- `do_exit(code)` on the memory. -/
def doExit (c : Fin 64) : Prog Memory Unit := do
  if c = 0 then Prog.panic "Try to do_exit on TASK 0."
  else
    freePageTables c
    Prog.modify fun s => { s with pgd := update s.pgd c none }

/-! ## Sharing -/

/-- `mem_map[MAP_NR(addr)]++`. -/
def addCount (addr : BitVec 64) : Prog Memory Unit := do
  let n ← readMap (mapNr addr)
  writeMap (mapNr addr) (n + 1)

/-- The `perm` of `reference_count_one_table`. -/
def sharedPerm : BitVec 64 := pteU ||| pteX ||| pteR ||| pteV

/-- The innermost loop body of `reference_count_one_table`. -/
def shareLeaf (l0 : BitVec 64) (k : Fin 512) : Prog Memory PUnit := do
  let pte ← readPte l0 k
  if valid pte then do
    writePte l0 k (setFlags pte sharedPerm)
    addCount (pte2va (setFlags pte sharedPerm))
  else pure ()

/-- The outer loop body of `reference_count_one_table`. -/
def shareL0 (l1 : BitVec 64) (j : Fin 512) : Prog Memory PUnit := do
  let pte ← readPte l1 j
  if valid pte then do
    addCount (pte2va pte)
    forM (List.finRange 512) (shareLeaf (pte2va pte))
  else pure ()

/-- `reference_count_one_table(&dir[i])`. -/
def referenceCountOneTable (dir : BitVec 64) (i : Fin 512) : Prog Memory PUnit := do
  let pte ← readPte dir i
  if valid pte then do
    addCount (pte2va pte)
    forM (List.finRange 512) (shareL0 (pte2va pte))
  else pure ()

def enomem : Int := 12

/-- `copy_page_tables(tsk)` for the task in slot `nr`. -/
def copyPageTables (c nr : Fin 64) : Prog Memory Int := do
  let s ← Prog.get
  match s.pgd c with
  | none => Prog.fault
  | some oldPgDir =>
    match ← getFreePage with
    | none => pure (-enomem)
    | some newPgDir =>
      Prog.modify fun s => { s with pgd := update s.pgd nr (some newPgDir) }
      copyPage newPgDir oldPgDir
      forM lowerHalf (referenceCountOneTable oldPgDir)
      pure 0

/-! ## Mapping -/

/-- The loop of `map_page` that gives pages back, from `level` on with `n` turns to go. -/
def rollback (va : BitVec 64) (pteRecord : Nat → BitVec 64) (level : Nat) : Nat → Prog Memory Unit
  | 0 => pure ()
  | n + 1 => do
    if pteRecord level ≠ 0 then do
      let pte ← readPte (pteRecord (level - 1)) (px level va)
      freePage (pte2va pte)
      rollback va pteRecord (level + 1) n
    else rollback va pteRecord (level + 1) n

/-- The walk of `map_page`, `n` levels above the leaf: the table that holds the leaf, or nothing if
    there was no free page. -/
def mapPageWalk (va : BitVec 64) (topLevel leafLevel : Nat) :
    Nat → BitVec 64 → (Nat → BitVec 64) → Prog Memory (Option (BitVec 64))
  | 0, table, _ => pure (some table)
  | n + 1, table, pteRecord => do
    let level := leafLevel + (n + 1)
    let pte ← readPte table (px level va)
    if valid pte then mapPageWalk va topLevel leafLevel n (pte2va pte) pteRecord
    else
      match ← getFreePage with
      | none =>
        rollback va pteRecord level (topLevel - level)
        pure none
      | some newPage =>
        let pte := va2pte newPage ||| pteV
        writePte table (px level va) pte
        mapPageWalk va topLevel leafLevel n (pte2va pte) (update pteRecord (level - 1) newPage)

/-- `map_page(page_table, va, pa, perm, top_level, leaf_level)`. -/
def mapPage (pageTable va pa perm : BitVec 64) (topLevel leafLevel : Nat) : Prog Memory Int := do
  match ← mapPageWalk va topLevel leafLevel (topLevel - leafLevel) pageTable fun _ => 0 with
  | none => pure (-1)
  | some table =>
    writePte table (px leafLevel va) (pa2pte pa ||| perm)
    pure 0

/-! ## The hardware -/

/-- The entry has all the flags `perm`. -/
def allows (pte perm : BitVec 64) : Bool := pte &&& perm == perm

/-- The entry points to a table of the next level. -/
def pointer (pte : BitVec 64) : Bool := valid pte && pte &&& (pteR ||| pteW ||| pteX) == 0

/-- The level-0 entry for an address, from a table of level `n`. Superpages, which the kernel does not
    make, are not followed. -/
def walk (m : BitVec 64 → Fin 512 → BitVec 64) (va : BitVec 64) : Nat → BitVec 64 → Option (BitVec 64)
  | 0, table => some (m table (px 0 va))
  | n + 1, table =>
    if pointer (m table (px (n + 1) va)) then walk m va n (pte2va (m table (px (n + 1) va))) else none

/-- The kernel can read at an address of the lower half; with `SR_SUM` clear it cannot if the page is one of
    the user. -/
def readable (m : BitVec 64 → Fin 512 → BitVec 64) (dir va : BitVec 64) : Bool :=
  match walk m va 2 dir with
  | none => false
  | some pte => allows pte (pteV ||| pteR) && pte &&& pteU == 0

/-! ## Page faults -/

/-- What `get_pte` comes to: a null pointer, a trap on the way, or the place of an entry. -/
inductive PteRef where
  | null
  | trap
  | entry (table : BitVec 64) (i : Fin 512)
deriving DecidableEq

/-- The walk of `get_pte` from a table of level `n`. The test `current_table[index] & PTE_V == 0` of the
    source is `current_table[index] & (PTE_V == 0)`. -/
def getPteWalk (mem : BitVec 64 → Fin 512 → BitVec 64) (va : BitVec 64) : Nat → BitVec 64 → PteRef
  | 0, table => .entry table (px 0 va)
  | n + 1, table =>
    if Mapped table then
      let pte := mem table (px (n + 1) va)
      if pte &&& (if pteV = 0 then 1 else 0) ≠ 0 then .null
      else getPteWalk mem va n (pte2va pte)
    else .trap

/-- `get_pte(page_table, va)`. -/
def getPte (mem : BitVec 64 → Fin 512 → BitVec 64) (pageTable va : BitVec 64) : PteRef :=
  getPteWalk mem va 2 pageTable

/-- The `perm` of the page fault handler. -/
def userPerm : BitVec 64 := pteU ||| pteX ||| pteW ||| pteR ||| pteV

/-- The copying branch of `do_wp_page`, for the entry `table[i]` that names `oldPage`. The direct map
    takes `new_page` to the physical address `address` when `memcpy` writes there. `trapped` is what becomes
    of `memcpy` if it cannot read at `address`. -/
def copyOnWrite (trapped : Prog Memory Unit) (c : Fin 64) (dir address table : BitVec 64) (i : Fin 512)
    (oldPage : BitVec 64) : Prog Memory Unit := do
  match ← getFreePage with
  | none => doExit c
  | some newPage =>
    let r ← mapPage dir newPage address userPerm 2 0
    if r ≠ 0 then doExit c
    else if mapNr oldPage ≥ pagingPages then doExit c
    else do
      let n ← readMap (mapNr oldPage)
      writeMap (mapNr oldPage) (n - 1)
      let pte ← readPte table i
      writePte table i (pte ||| pteW)
      let s ← Prog.get
      if readable s.mem dir address then
        if Mapped (p2v address) then copyPage (p2v address) oldPage else doExit c
      else trapped

/-- The body of `do_wp_page(address, &table[i])`. -/
def wpPage (trapped : Prog Memory Unit) (c : Fin 64) (dir address table : BitVec 64) (i : Fin 512) :
    Prog Memory Unit := do
  if Mapped table then
    let s ← Prog.get
    let pte := s.mem table i
    let oldPage := pte2va pte
    if p2v lowMem ≤ oldPage ∧ mapNr oldPage ≥ pagingPages then doExit c
    else if p2v lowMem ≤ oldPage ∧ s.memMap (mapNr oldPage) = 1 then writePte table i (pte ||| pteW)
    else copyOnWrite trapped c dir address table i oldPage
  else doExit c

/-- `do_no_page(address, ..)`. -/
def doNoPage (c : Fin 64) (dir address : BitVec 64) : Prog Memory Unit := do
  match ← getFreePage with
  | none => doExit c
  | some tmp =>
    let r ← mapPage dir tmp address userPerm 2 0
    if r = 0 then pure () else doExit c

/-- The body of `do_page_fault(regs)`; the test `*table_entry | PTE_V` of the source is always true. -/
def pageFault (trapped : Prog Memory Unit) (c : Fin 64) (badaddr : BitVec 64) : Prog Memory Unit := do
  let badaddr := badaddr &&& ~~~0xFFF#64
  let s ← Prog.get
  match s.pgd c with
  | none => Prog.fault
  | some dir =>
    if badaddr < pageSize ∨ taskSize ≤ badaddr then doExit c
    else
      match getPte s.mem dir badaddr with
      | .null => doNoPage c dir badaddr
      | .trap => doExit c
      | .entry table i =>
        if s.mem table i ||| pteV ≠ 0 then wpPage trapped c dir badaddr table i
        else doNoPage c dir badaddr

/-- A load of `memcpy` at `address` has trapped: `do_page_fault` runs for it, and unless it ends in `do_exit`
    the load is made again and traps again, as `do_page_fault` sets no flag of the entry but `PTE_W`. The model
    follows `n` of these traps. -/
def memcpyTraps (c : Fin 64) (address : BitVec 64) : Nat → Prog Memory Unit
  | 0 => Prog.fault
  | n + 1 => do
    pageFault (memcpyTraps c address n) c address
    let s ← Prog.get
    if s.pgd c = none then pure () else memcpyTraps c address n

/-- More traps than there are pages: a trap that takes no page ends in `do_exit`, or its load traps for ever. -/
def maxTraps : Nat := pagingPages + 1

/-- `do_wp_page(address, &table[i])`. -/
def doWpPage (c : Fin 64) (dir address table : BitVec 64) (i : Fin 512) : Prog Memory Unit :=
  wpPage (memcpyTraps c address maxTraps) c dir address table i

/-- `do_page_fault(regs)`. -/
def doPageFault (c : Fin 64) (badaddr : BitVec 64) : Prog Memory Unit :=
  pageFault (memcpyTraps c (badaddr &&& ~~~0xFFF#64) maxTraps) c badaddr

/-- The test of `do_page_fault` always sees an entry. -/
lemma or_pteV_ne_zero {pte : BitVec 64} : pte ||| pteV ≠ 0 := by
  intro h0
  have hb := congrArg (fun b : BitVec 64 => b.getLsbD 0) h0
  simp [pteV] at hb

/-- The test of `get_pte` never finds a missing table. -/
lemma getPte_test (pte : BitVec 64) : ¬ (pte &&& (if pteV = 0 then 1 else 0) ≠ 0) := by
  rw [if_neg (by decide), not_not]
  exact BitVec.and_zero

end OldLinux.Mm
