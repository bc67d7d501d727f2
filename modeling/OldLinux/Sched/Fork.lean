import OldLinux.Mm.Memory
import OldLinux.Mm.Allocator
import OldLinux.Mm.Walk
import OldLinux.Trap.Frame

/-!
# Fork

Model of `find_empty_process` and `copy_process` (`kernel/fork.c`) with `copy_page_tables`
(`mm/memory.c`), on the words of the kernel memory. A `task_struct` lies at the start of a page, and
its fields are words of that page; the offsets are those of `include/linux/sched.h`.

`task_pt_regs(tsk)` adds to a `struct task_struct *`, so that the compiler scales the offset by the
size of the structure, and `copy_process` sets neither `thread.ra` nor `thread.sp`. The contract of a
fork (`ForkContract`) therefore holds exactly when the fork fails: `fork_contract_iff`.
-/

namespace OldLinux.Sched
open Lib Function Mm

/-! ## Task structures -/

/-- `sizeof(struct task_struct)` in words. -/
def taskWords : Nat := 134

def fieldState : Fin 512 := 4

def fieldStack : Fin 512 := 5

def fieldCounter : Fin 512 := 6

def fieldPriority : Fin 512 := 7

def fieldSignal : Fin 512 := 8

def fieldPgd : Fin 512 := 43

def fieldPid : Fin 512 := 48

def fieldFather : Fin 512 := 49

def fieldLeader : Fin 512 := 52

def fieldAlarm : Fin 512 := 55

def fieldUtime : Fin 512 := 56

def fieldStime : Fin 512 := 57

def fieldCutime : Fin 512 := 58

def fieldCstime : Fin 512 := 59

def fieldStartTime : Fin 512 := 60

def fieldThreadRa : Fin 512 := 86

def fieldThreadSp : Fin 512 := 87

/-- `THREAD_SIZE - sizeof(struct pt_regs)`. -/
def ptRegsOffset : Nat := 8192 - 288

/-- `task_pt_regs(tsk)`: the offset counts task structures. -/
def taskPtRegs (tsk : BitVec 64) : BitVec 64 := tsk + .ofNat 64 (ptRegsOffset * (8 * taskWords))

/-- The memory, `task[]`, `last_pid`, the running task and `jiffies`. -/
structure ForkState where
  memory : Memory
  task : Fin 64 → BitVec 64
  lastPid : BitVec 64
  current : BitVec 64
  jiffies : BitVec 64

namespace ForkState

/-- The word `w` of the page at `p`. -/
def word (s : ForkState) (p : BitVec 64) (w : Fin 512) : BitVec 64 := s.memory.mem p w

/-- Sets the word `w` of the page at `p`. -/
def setWord (s : ForkState) (p : BitVec 64) (w : Fin 512) (v : BitVec 64) : ForkState :=
  { s with memory := { s.memory with mem := update s.memory.mem p (update (s.memory.mem p) w v) } }

/-- The page of an address. -/
def pageOf (a : BitVec 64) : BitVec 64 := (a >>> 12) <<< 12

/-- The word at an address. -/
def wordAt (s : ForkState) (a : BitVec 64) : BitVec 64 := s.word (pageOf a) (wordOf a)

/-! ## `find_empty_process` -/

/-- `if ((++last_pid)<0) last_pid=1`. -/
def nextPid (pid : BitVec 64) : BitVec 64 := if (pid + 1).slt 0 then 1 else pid + 1

/-- Some task has the pid. -/
def pidInUse (s : ForkState) (pid : BitVec 64) : Bool :=
  (List.finRange 64).any fun i => s.task i ≠ 0 ∧ s.word (s.task i) fieldPid = pid

/-- The loop behind `repeat`: the first of the next pids that is not `used`, with `n` turns to go. -/
def search (used : BitVec 64 → Bool) : Nat → BitVec 64 → Option (BitVec 64)
  | 0, _ => none
  | n + 1, pid => if used (nextPid pid) then search used n (nextPid pid) else some (nextPid pid)

/-- The search for a pid. -/
def findPid (s : ForkState) : Nat → BitVec 64 → Option (BitVec 64) := search s.pidInUse

/-- The first slot behind slot 0 that is `free`. -/
def firstSlot (free : Fin 64 → Bool) : Option (Fin 64) := (List.finRange 64).tail.find? free

/-- The first free slot. -/
def freeSlot (s : ForkState) : Option (Fin 64) := firstSlot fun i => s.task i = 0

end ForkState

open ForkState

/-- `find_empty_process()`. There are 64 tasks, so 65 turns are enough for the search. -/
def findEmptyProcess : Prog ForkState (Option (Fin 64)) := do
  let s ← Prog.get
  match s.findPid 65 s.lastPid with
  | none => Prog.fault
  | some pid =>
    Prog.modify fun s => { s with lastPid := pid }
    pure s.freeSlot

/-! ## `copy_process` -/

/-- Runs code of the memory manager. -/
def onMemory {α : Type} (m : Prog Memory α) : Prog ForkState α :=
  Prog.zoom ForkState.memory (fun s k => { s with memory := k }) m

/-- `tsk->field = v`. -/
def setField (tsk : BitVec 64) (field : Fin 512) (v : BitVec 64) : Prog ForkState Unit :=
  Prog.modify fun s => s.setWord tsk field v

/-- `*p = *current`. -/
def copyTask (p : BitVec 64) : Prog ForkState Unit :=
  Prog.modify fun s =>
    { s with memory := { s.memory with
      mem := update s.memory.mem p fun w =>
        if w.val < taskWords then s.memory.mem s.current w else s.memory.mem p w } }

/-- The part of `copy_process` that builds the child's `task_struct`. -/
def buildChild (p : BitVec 64) : Prog ForkState Unit := do
  copyTask p
  let s ← Prog.get
  setField p fieldState 0
  setField p fieldStack (p + 8192)
  setField p fieldPid s.lastPid
  setField p fieldFather (s.word s.current fieldPid)
  setField p fieldCounter (s.word p fieldPriority)
  setField p fieldSignal 0
  setField p fieldAlarm 0
  setField p fieldLeader 0
  setField p fieldStime 0
  setField p fieldUtime 0
  setField p fieldCstime 0
  setField p fieldCutime 0
  setField p fieldStartTime s.jiffies

/-- `copy_page_tables(tsk)`. -/
def copyPageTablesTo (tsk : BitVec 64) : Prog ForkState Int := do
  let s ← Prog.get
  let oldPgDir := s.word s.current fieldPgd
  match ← onMemory getFreePage with
  | none => pure (-enomem)
  | some newPgDir =>
    setField tsk fieldPgd newPgDir
    onMemory (copyPage newPgDir oldPgDir)
    onMemory (forM lowerHalf (referenceCountOneTable oldPgDir))
    pure 0

/-- The load of the word at an address, which traps outside the direct map. -/
def loadWord (a : BitVec 64) : Prog ForkState (BitVec 64) := do
  let s ← Prog.get
  if Mapped a then pure (s.wordAt a) else Prog.fault

/-- The store to an address. -/
def storeWord (a v : BitVec 64) : Prog ForkState Unit := do
  if Mapped a then Prog.modify fun s => s.setWord (pageOf a) (wordOf a) v else Prog.fault

/-- The part of `copy_process` that corresponds to `copy_thread`. -/
def copyThread (p : BitVec 64) : Prog ForkState Unit := do
  let s ← Prog.get
  let childregs := taskPtRegs p
  forM (List.range 12) fun k => setField p (Fin.ofNat 512 (88 + k)) 0
  forM (List.range 36) fun k => do
    let v ← loadWord (taskPtRegs s.current + .ofNat 64 (8 * k))
    storeWord (childregs + .ofNat 64 (8 * k)) v
  storeWord (childregs + 80) 0
  setField p 88 0

/-- What `copy_process` comes to: an error, or a child in the slot `nr` at `p` and the value returned
    to the parent. -/
inductive ForkResult where
  | failed (r : BitVec 32)
  | forked (nr : Fin 64) (p : BitVec 64) (r : BitVec 32)

/-- `copy_process(regs)`. -/
def copyProcess : Prog ForkState ForkResult := do
  match ← findEmptyProcess with
  | none => pure (.failed (-11))
  | some nr =>
    match ← onMemory getTwoFreePages with
    | none => pure (.failed (-11))
    | some p =>
      buildChild p
      let r ← copyPageTablesTo p
      if r ≠ 0 then do
        onMemory (freeTwoPages p)
        pure (.failed (-11))
      else do
        Prog.modify fun s => { s with task := update s.task nr p }
        copyThread p
        let s ← Prog.get
        pure (.forked nr p (s.lastPid.setWidth 32))

/-! ## The contract -/

/-- What a fork that succeeds should leave: nothing is changed but the child's two pages, its page
    directory (which was free), flag bits of entries, `mem_map`, `task[nr]` and `last_pid`; the frame at
    the top of the child's stack is the parent's with `a0 = 0`; the child starts in `ret_from_fork` on
    that stack; and the value returned is the child's pid. -/
structure Forked (retFromFork : BitVec 64) (s s' : ForkState) (nr : Fin 64) (p : BitVec 64)
    (r : BitVec 32) : Prop where
  memory : ∀ page w, page ≠ p → page ≠ p + 4096 → page ≠ s'.word p fieldPgd →
    s'.word page w >>> 10 = s.word page w >>> 10
  pgd : s.memory.memMap (mapNr (s'.word p fieldPgd)) = 0
  task : s'.task = update s.task nr p
  frame : ∀ k < 36, s'.wordAt (p + .ofNat 64 (ptRegsOffset + 8 * k)) =
    if k = 10 then 0 else s.wordAt (s.current + .ofNat 64 (ptRegsOffset + 8 * k))
  threadRa : s'.word p fieldThreadRa = retFromFork
  threadSp : s'.word p fieldThreadSp = p + .ofNat 64 ptRegsOffset
  result : r.signExtend 64 = s'.word p fieldPid

/-- `copy_process` returns; if it fails, `task[]` and `mem_map` are as before, and if it succeeds,
    the child is as it should be. -/
def ForkContract (retFromFork : BitVec 64) (s : ForkState) : Prop :=
  Prog.returns copyProcess (fun out s' =>
    match out with
    | .failed _ => s'.task = s.task ∧ s'.memory.memMap = s.memory.memMap
    | .forked nr p r => Forked retFromFork s s' nr p r) s

/-- There is no free slot, there are no two adjacent free pages, or there is no further one for the page
    directory. -/
def CannotFork (s : ForkState) : Prop :=
  s.freeSlot = none ∨
  match findTwoFree s.memory.memMap (pagingPages - 1) with
  | none => True
  | some i => findFree (update (update s.memory.memMap i 1) (i + 1) 1) 0 pagingPages = none

variable {s s' : ForkState} {m : Memory} {p : BitVec 64}

/-! ## The search for a pid -/

namespace ForkState

/-- The pids that the search tries, in order. -/
def candidates : Nat → BitVec 64 → List (BitVec 64)
  | 0, _ => []
  | n + 1, pid => nextPid pid :: candidates n (nextPid pid)

/-- The number of candidates. -/
lemma length_candidates (n : Nat) (pid : BitVec 64) : (candidates n pid).length = n := by
  induction n generalizing pid with
  | zero => rfl
  | succ n ih => rw [candidates, List.length_cons, ih]

/-- The position of a pid in the cycle `1, 2, .., 2 ^ 63 - 1` that `nextPid` runs through. -/
lemma nextPid_toNat (pid : BitVec 64) :
    (nextPid pid).toNat < 2 ^ 63 ∧
    (nextPid pid).toNat = if pid.toNat + 1 < 2 ^ 63 then pid.toNat + 1
      else if pid.toNat + 1 = 2 ^ 64 then 0 else 1 := by
  have hlt := pid.isLt
  have hadd : (pid + 1).toNat = (pid.toNat + 1) % 2 ^ 64 := by
    rw [BitVec.toNat_add]
    rfl
  have hneg : (pid + 1).slt 0 = decide (2 ^ 63 ≤ (pid + 1).toNat) :=
    BitVec.slt_zero_eq_msb.trans (BitVec.msb_eq_decide _)
  have h1 : (1 : BitVec 64).toNat = 1 := rfl
  rw [nextPid, hneg]
  split
  · next h =>
    rw [decide_eq_true_eq] at h
    rw [h1]
    split_ifs <;> omega
  · next h =>
    rw [decide_eq_true_eq] at h
    split_ifs <;> omega

/-- Among the next pids, fewer than there are, none comes twice. -/
lemma candidates_nodup {n : Nat} (hn : n < 2 ^ 62) (pid : BitVec 64) : (candidates n pid).Nodup := by
  -- the k-th candidate after a pid below 2 ^ 63, counted along the cycle
  have mem : ∀ (n : Nat) (pid x : BitVec 64), n < 2 ^ 62 → pid.toNat < 2 ^ 63 →
      x ∈ candidates n pid → ∃ k, 1 ≤ k ∧ k ≤ n ∧ x.toNat < 2 ^ 63 ∧
        (x.toNat = pid.toNat + k ∨ x.toNat + (2 ^ 63 - 1) = pid.toNat + k) := by
    intro n
    induction n with
    | zero => exact fun _ _ _ _ h => nomatch h
    | succ n ih =>
      intro pid x hn hpid hx
      obtain ⟨hb, hv⟩ := nextPid_toNat pid
      rcases List.mem_cons.1 hx with rfl | hx
      · refine ⟨1, le_rfl, by omega, hb, ?_⟩
        split_ifs at hv <;> omega
      · obtain ⟨k, h1, hk, hxb, he⟩ := ih (nextPid pid) x (by omega) hb hx
        refine ⟨k + 1, by omega, by omega, hxb, ?_⟩
        split_ifs at hv <;> omega
  induction n generalizing pid with
  | zero => exact List.nodup_nil
  | succ n ih =>
    refine List.nodup_cons.2 ⟨?_, ih (by omega) _⟩
    intro hx
    obtain ⟨k, h1, hk, _, he⟩ := mem n (nextPid pid) (nextPid pid) (by omega) (nextPid_toNat pid).1 hx
    omega

/-- The next pid is positive. -/
lemma nextPid_pos {pid : BitVec 64} (h : 0 ≤ pid.toInt) : 0 < (nextPid pid).toInt := by
  obtain ⟨hlt, hv⟩ := nextPid_toNat pid
  have hpid := pid.isLt
  have hle : pid.toNat < 2 ^ 63 := by
    rw [BitVec.toInt_eq_toNat_cond] at h
    split at h <;> omega
  rw [BitVec.toInt_eq_toNat_of_lt (by omega)]
  split_ifs at hv <;> omega

section
variable {used : BitVec 64 → Bool} {n : Nat} {pid pid' : BitVec 64}

/-- A search that finds nothing has tried pids in use. -/
lemma search_none (h : search used n pid = none) : ∀ x ∈ candidates n pid, used x = true := by
  induction n generalizing pid with
  | zero => exact nofun
  | succ n ih =>
    rw [search] at h
    split at h
    · next hu =>
      intro x hx
      rcases List.mem_cons.1 hx with rfl | hx
      · exact hu
      · exact ih h x hx
    · cases h

/-- The search ends at a pid that is not used, which is positive if the search starts from a pid that
    is not negative. -/
lemma search_some (h : search used n pid = some pid') :
    used pid' = false ∧ (0 ≤ pid.toInt → 0 < pid'.toInt) := by
  induction n generalizing pid with
  | zero => cases h
  | succ n ih =>
    rw [search] at h
    split at h
    · obtain ⟨hfree, hpos⟩ := ih h
      exact ⟨hfree, fun h0 => hpos (nextPid_pos h0).le⟩
    · next hu =>
      cases h
      exact ⟨Bool.eq_false_iff.2 hu, nextPid_pos⟩

/-- More turns make no difference. -/
lemma search_mono (h : search used n pid = some pid') {k : Nat} (hk : n ≤ k) :
    search used k pid = some pid' := by
  induction n generalizing pid k with
  | zero => cases h
  | succ n ih =>
    obtain ⟨k, rfl⟩ := Nat.exists_eq_add_of_le' (Nat.lt_of_lt_of_le n.succ_pos hk)
    rw [search] at h ⊢
    split
    · next hu =>
      rw [if_pos hu] at h
      exact ih h (Nat.le_of_succ_le_succ hk)
    · next hu => rwa [if_neg hu] at h

/-- With fewer pids in use than there are turns, one of the pids that are tried is free. -/
lemma exists_search {l : List (BitVec 64)} (hl : ∀ x, used x = true → x ∈ l) (hlen : l.length < n)
    (hn : n < 2 ^ 62) (pid : BitVec 64) : ∃ pid', search used n pid = some pid' := by
  cases h : search used n pid with
  | some pid' => exact ⟨pid', rfl⟩
  | none =>
    have hsub : candidates n pid ⊆ l := fun x hx => hl x (search_none h x hx)
    have hle := ((candidates_nodup hn pid).subperm hsub).length_le
    rw [length_candidates] at hle
    omega

end

/-- With 64 tasks, one of 65 pids is free. -/
lemma findPid_some (s : ForkState) (pid : BitVec 64) : ∃ pid', s.findPid 65 pid = some pid' := by
  refine exists_search (l := (List.finRange 64).map fun i => s.word (s.task i) fieldPid) ?_ ?_ ?_ pid
  · intro x hx
    obtain ⟨i, hi, hp⟩ := List.any_eq_true.1 hx
    rw [decide_eq_true_eq] at hp
    exact List.mem_map.2 ⟨i, hi, hp.2⟩
  · rw [List.length_map, List.length_finRange]
    decide
  · decide

end ForkState

/-- `find_empty_process` gives the free slot and changes the last pid only. -/
lemma findEmptyProcess_returns (s : ForkState) :
    Prog.returns findEmptyProcess (fun r s' => r = s.freeSlot ∧ ∃ pid, s' = { s with lastPid := pid }) s := by
  obtain ⟨pid, hpid⟩ := findPid_some s s.lastPid
  apply Prog.returns_bind
  apply Prog.returns_get
  rw [hpid]
  apply Prog.returns_bind
  apply Prog.returns_modify
  exact Prog.returns_pure ⟨rfl, pid, rfl⟩

/-! ## The saved stack pointer of the child -/

/-- The address of the frame at the top of the stack of the task at `p`. -/
def topFrame (p : BitVec 64) : BitVec 64 := p + .ofNat 64 ptRegsOffset

/-- The stack pointer saved in the task at `p` is not the one its first switch-in needs. -/
def Astray (p : BitVec 64) (m : Memory) : Prop := m.mem p fieldThreadSp ≠ topFrame p

/-- The address of the frame. -/
lemma topFrame_toNat {i : Nat} (hi : i < pagingPages) :
    (topFrame (pageAddr i)).toNat = 0xFFFFFFC000400000 + i * 4096 + 7904 := by
  have h31 : i < 31232 := hi
  rw [topFrame, BitVec.toNat_add, pageAddr_toNat hi, lowMemory_toNat, BitVec.toNat_ofNat, ptRegsOffset]
  omega

/-- It is not 0. -/
lemma topFrame_ne_zero {i : Nat} (hi : i < pagingPages) : topFrame (pageAddr i) ≠ 0 := by
  intro h
  have he := congrArg BitVec.toNat h
  rw [topFrame_toNat hi] at he
  cases he

/-- A page table entry in use is no address of a frame. -/
lemma valid_topFrame {i : Nat} (hi : i < pagingPages) : valid (topFrame (pageAddr i)) = false := by
  rw [valid, BitVec.getLsbD, topFrame_toNat hi, Nat.testBit_zero, decide_eq_false_iff_not]
  omega

/-- A store elsewhere leaves the task astray. -/
lemma astray_update {q : BitVec 64} {w : Fin 512} {v : BitVec 64} (h : Astray p m)
    (hv : q = p → w = fieldThreadSp → v ≠ topFrame p) :
    Astray p { m with mem := update m.mem q (update (m.mem q) w v) } := by
  show update m.mem q (update (m.mem q) w v) p fieldThreadSp ≠ topFrame p
  by_cases hq : p = q
  · subst hq
    rw [update_self]
    by_cases hw : fieldThreadSp = w
    · subst hw
      rw [update_self]
      exact hv rfl rfl
    · rw [update_of_ne hw]
      exact h
  · rw [update_of_ne hq]
    exact h

/-- Filling another page leaves the task astray. -/
lemma astray_page {q : BitVec 64} {words : Fin 512 → BitVec 64} {memMap : Nat → BitVec 16} (hne : p ≠ q)
    (h : Astray p m) : Astray p { m with memMap := memMap, mem := update m.mem q words } := by
  show update m.mem q words p fieldThreadSp ≠ topFrame p
  rw [update_of_ne hne]
  exact h

/-- Zero is no address of a frame. -/
lemma setField_astray {i : Nat} (hi : i < pagingPages) {q : BitVec 64} {w : Fin 512}
    (h : Astray (pageAddr i) s.memory) :
    Prog.wp (setField q w 0) (fun _ s' => Astray (pageAddr i) s'.memory) s := by
  rw [setField, Prog.wp_modify]
  exact astray_update h fun _ _ => (topFrame_ne_zero hi).symm

/-- The entries that are shared are no addresses of frames. -/
lemma shareLeaf_astray {i : Nat} (hi : i < pagingPages) {l0 : BitVec 64} {k : Fin 512}
    (h : Astray (pageAddr i) m) : Prog.wp (shareLeaf l0 k) (fun _ => Astray (pageAddr i)) m := by
  rw [shareLeaf, Prog.wp_bind]
  refine readPte_wp.mono ?_
  rintro pte m₁ ⟨_, rfl⟩
  split
  · rw [Prog.wp_bind, writePte, Prog.wp_modify]
    refine addCount_wp.mono ?_
    intro _ m₂ h₂
    rw [Astray, h₂]
    apply astray_update h
    intro _ _ he
    have hv : valid (setFlags pte sharedPerm) = true := valid_setFlags (by decide)
    rw [he, valid_topFrame hi] at hv
    cases hv
  · rw [Prog.wp_pure]
    exact h

/-- Sharing a table leaves the task astray. -/
lemma shareL0_astray {i : Nat} (hi : i < pagingPages) {l1 : BitVec 64} {j : Fin 512}
    (h : Astray (pageAddr i) m) : Prog.wp (shareL0 l1 j) (fun _ => Astray (pageAddr i)) m := by
  rw [shareL0, Prog.wp_bind]
  refine readPte_wp.mono ?_
  rintro pte m₁ ⟨_, rfl⟩
  split
  · rw [Prog.wp_bind]
    refine addCount_wp.mono ?_
    intro _ m₂ h₂
    rw [Astray, ← h₂] at h
    exact Prog.wp_forM (I := fun _ => Astray (pageAddr i)) (fun _ _ _ h => shareLeaf_astray hi h) h
  · rw [Prog.wp_pure]
    exact h

/-- Sharing an entry of the directory leaves the task astray. -/
lemma referenceCountOneTable_astray {i : Nat} (hi : i < pagingPages) {dir : BitVec 64} {k : Fin 512}
    (h : Astray (pageAddr i) m) :
    Prog.wp (referenceCountOneTable dir k) (fun _ => Astray (pageAddr i)) m := by
  rw [referenceCountOneTable, Prog.wp_bind]
  refine readPte_wp.mono ?_
  rintro pte m₁ ⟨_, rfl⟩
  split
  · rw [Prog.wp_bind]
    refine addCount_wp.mono ?_
    intro _ m₂ h₂
    rw [Astray, ← h₂] at h
    exact Prog.wp_forM (I := fun _ => Astray (pageAddr i)) (fun _ _ _ h => shareL0_astray hi h) h
  · rw [Prog.wp_pure]
    exact h

/-- The word that is stored. -/
lemma word_setWord (s : ForkState) (p q : BitVec 64) (w x : Fin 512) (v : BitVec 64) :
    (s.setWord q w v).word p x = if p = q ∧ x = w then v else s.word p x := by
  show update s.memory.mem q (update (s.memory.mem q) w v) p x = _
  by_cases hp : p = q
  · subst hp
    rw [update_self, update_apply]
    simp [word]
  · rw [update_of_ne hp]
    simp [hp, word]

/-- The child gets the parent's saved stack pointer. -/
lemma buildChild_returns (s : ForkState) (p : BitVec 64) :
    Prog.returns (buildChild p) (fun _ s' =>
      s'.memory.memMap = s.memory.memMap ∧ s'.task = s.task ∧
      s'.word p fieldThreadSp = s.word s.current fieldThreadSp) s := by
  refine ⟨(), _, rfl, rfl, rfl, ?_⟩
  -- none of the fields set is the one in question
  iterate 13 rw [word_setWord, if_neg (fun h => absurd h.2 (by decide))]
  show update s.memory.mem p _ p fieldThreadSp = _
  rw [update_self]
  rfl

/-- Without a free page the tables are not copied. -/
lemma copyPageTablesTo_none (h : findFree s.memory.memMap 0 pagingPages = none) :
    copyPageTablesTo p s = .ret (-enomem, s) := by
  have e : onMemory getFreePage s = .ret (none, s) := by
    rw [onMemory, Prog.zoom, getFreePage_none h]
  exact (Prog.bind_of_ret rfl).trans (Prog.bind_of_ret e)

/-- With one they are, and the task is astray still. -/
lemma copyPageTablesTo_astray {i j : Nat} (hi : i < pagingPages)
    (hj : findFree s.memory.memMap 0 pagingPages = some j) (h1 : s.memory.memMap i ≠ 0)
    (h : Astray (pageAddr i) s.memory) :
    Prog.wp (copyPageTablesTo (pageAddr i)) (fun r s' => r = 0 ∧ Astray (pageAddr i) s'.memory) s := by
  obtain ⟨h0, hlt⟩ := findFree_some hj
  rw [Nat.zero_add] at hlt
  have hne : pageAddr i ≠ pageAddr j := by
    intro e
    have hij := congrArg mapNr e
    rw [mapNr_pageAddr hi, mapNr_pageAddr hlt] at hij
    rw [hij] at h1
    exact h1 h0
  rw [copyPageTablesTo, Prog.wp_bind, Prog.wp_get, Prog.wp_bind, onMemory, Prog.wp_zoom]
  intro r m₁ hr
  rw [getFreePage_some hj] at hr
  cases hr
  show Prog.wp (_ >>= _) _ _
  rw [Prog.wp_bind, setField, Prog.wp_modify, Prog.wp_bind, onMemory, Prog.wp_zoom, copyPage,
    Prog.wp_modify, Prog.wp_bind, onMemory, Prog.wp_zoom]
  refine (Prog.wp_forM (I := fun _ => Astray (pageAddr i))
    (fun _ _ _ h => referenceCountOneTable_astray hi h) ?_).mono ?_
  · -- the new page directory is another page than the child's
    apply astray_page hne
    apply astray_update (astray_page hne h)
    exact fun _ hw => absurd hw (by decide)
  · intro _ m₂ h₂
    rw [Prog.wp_pure]
    exact ⟨rfl, h₂⟩

/-- The frame that `copy_process` writes is more than 2000 pages above the child. -/
lemma pageOf_childregs {i k : Nat} (hi : i < pagingPages) (hk : k < 36) :
    pageOf (taskPtRegs (pageAddr i) + .ofNat 64 (8 * k)) ≠ pageAddr i := by
  intro e
  have h31 : i < 31232 := hi
  have he := congrArg BitVec.toNat e
  rw [pageOf, BitVec.toNat_shiftLeft, BitVec.toNat_ushiftRight, Nat.shiftRight_eq_div_pow,
    Nat.shiftLeft_eq, taskPtRegs, BitVec.toNat_add, BitVec.toNat_add, pageAddr_toNat hi, lowMemory_toNat,
    BitVec.toNat_ofNat, BitVec.toNat_ofNat, ptRegsOffset, taskWords] at he
  omega

/-- A store of another word leaves it astray. -/
lemma storeWord_astray {i : Nat} {a v : BitVec 64}
    (hv : pageOf a = pageAddr i → v ≠ topFrame (pageAddr i))
    (h : Astray (pageAddr i) s.memory) :
    Prog.wp (storeWord a v) (fun _ s' => Astray (pageAddr i) s'.memory) s := by
  rw [storeWord]
  split
  · rw [Prog.wp_modify]
    exact astray_update h fun hq _ => hv hq
  · exact Prog.wp_fault

/-- `copy_thread` leaves the task astray. -/
lemma copyThread_astray {i : Nat} (hi : i < pagingPages) (h : Astray (pageAddr i) s.memory) :
    Prog.wp (copyThread (pageAddr i)) (fun _ s' => Astray (pageAddr i) s'.memory) s := by
  rw [copyThread, Prog.wp_bind, Prog.wp_get, Prog.wp_bind]
  refine (Prog.wp_forM (I := fun _ s => Astray (pageAddr i) s.memory)
    (fun _ _ _ h => setField_astray hi h) h).mono ?_
  intro _ s₁ h₁
  rw [Prog.wp_bind]
  refine (Prog.wp_forM (I := fun l s => (∀ k ∈ l, k < 36) ∧ Astray (pageAddr i) s.memory) ?_
    ⟨fun k hk => List.mem_range.1 hk, h₁⟩).mono ?_
  · rintro k l s₂ ⟨hl, h₂⟩
    rw [Prog.wp_bind, loadWord, Prog.wp_bind, Prog.wp_get]
    split
    · rw [Prog.wp_pure]
      refine (storeWord_astray ?_ h₂).mono ?_
      · exact fun e => absurd e (pageOf_childregs hi (hl k List.mem_cons_self))
      · exact fun _ s₃ h₃ => ⟨fun k hk => hl k (List.mem_cons_of_mem _ hk), h₃⟩
    · exact Prog.wp_fault
  · rintro _ s₂ ⟨_, h₂⟩
    rw [Prog.wp_bind]
    refine (storeWord_astray (fun _ => (topFrame_ne_zero hi).symm) h₂).mono ?_
    intro _ s₃ h₃
    exact setField_astray hi h₃

/-! ## A fork that succeeds -/

/-- The stack pointer that the running task has saved lies in no free page where a new task would have
    its frame. -/
def SavedSpElsewhere (s : ForkState) : Prop :=
  ∀ i < pagingPages, s.memory.memMap i = 0 → s.word s.current fieldThreadSp ≠ topFrame (pageAddr i)

/-- Whenever `copy_process` makes a child, its stack pointer is astray. -/
lemma copyProcess_astray (hsp : SavedSpElsewhere s) {nr : Fin 64} {i j : Nat}
    (hnr : s.freeSlot = some nr) (hf : findTwoFree s.memory.memMap (pagingPages - 1) = some i)
    (hj : findFree (update (update s.memory.memMap i 1) (i + 1) 1) 0 pagingPages = some j) :
    Prog.wp copyProcess
      (fun out s' => ∃ r, out = .forked nr (pageAddr i) r ∧ Astray (pageAddr i) s'.memory) s := by
  obtain ⟨h0, h0', hlt⟩ := findTwoFree_some hf
  have hi : i < pagingPages := by omega
  rw [copyProcess, Prog.wp_bind]
  intro r s₁ e
  obtain ⟨rfl, pid, rfl⟩ := (findEmptyProcess_returns s).elim e
  rw [hnr]
  show Prog.wp (_ >>= _) _ _
  rw [Prog.wp_bind, onMemory, Prog.wp_zoom]
  intro q m₂ e₂
  rw [getTwoFreePages_some hf] at e₂
  cases e₂
  show Prog.wp (_ >>= _) _ _
  rw [Prog.wp_bind]
  intro _ s₃ e₃
  obtain ⟨hm₃, _, hw₃⟩ := (buildChild_returns _ _).elim e₃
  -- the parent's page is filled with zeros if it was counted as free, and is as before otherwise
  have h₃ : Astray (pageAddr i) s₃.memory := by
    show s₃.word (pageAddr i) fieldThreadSp ≠ _
    rw [hw₃]
    show update (update s.memory.mem _ _) _ _ s.current fieldThreadSp ≠ _
    rw [update_apply, update_apply]
    split_ifs
    · exact (topFrame_ne_zero hi).symm
    · exact (topFrame_ne_zero hi).symm
    · exact hsp i hi h0
  have hj₃ : findFree s₃.memory.memMap 0 pagingPages = some j := by
    rw [hm₃]
    exact hj
  have hone : s₃.memory.memMap i = 1 := by
    rw [hm₃]
    exact (update_of_ne (Nat.succ_ne_self i).symm _ _).trans (update_self _ _ _)
  rw [Prog.wp_bind]
  refine (copyPageTablesTo_astray hi hj₃ (by rw [hone]; decide) h₃).mono ?_
  rintro r s₄ ⟨rfl, h₄⟩
  rw [if_neg (not_not_intro rfl), Prog.wp_bind, Prog.wp_modify, Prog.wp_bind]
  refine Prog.wp.mono (copyThread_astray hi ?_) ?_
  · exact h₄
  intro _ s₅ h₅
  rw [Prog.wp_bind, Prog.wp_get, Prog.wp_pure]
  exact ⟨_, rfl, h₅⟩

/-! ## A fork that fails -/

/-- Two pages that are taken and given back leave `mem_map` as it was. -/
lemma subAll_taken {f : Nat → BitVec 16} {i : Nat} (hi : i + 1 < pagingPages) (h0 : f i = 0)
    (h0' : f (i + 1) = 0) :
    subAll (update (update f i 1) (i + 1) 1) [pageAddr i, pageAddr i + pageSize] = f := by
  funext k
  rw [pageAddr_succ, ← List.singleton_append, subAll_append, subAll_singleton, subAll_singleton,
    mapNr_pageAddr hi, mapNr_pageAddr (Nat.lt_of_succ_lt hi)]
  by_cases hk : k = i + 1
  · subst hk
    simp [h0']
  by_cases hk' : k = i
  · subst hk'
    simp [h0]
  · simp [hk, hk']

/-- The two pages that were taken can be given back. -/
lemma freeable_taken {m m' : Memory} {i : Nat} (hf : findTwoFree m.memMap (pagingPages - 1) = some i)
    (hm : m'.memMap = update (update m.memMap i 1) (i + 1) 1) :
    Freeable [pageAddr i, pageAddr i + pageSize] m' := by
  rcases getTwoFreePages_takes.elim (getTwoFreePages_some hf) with ⟨h, _⟩ | ⟨addr, h, ht⟩
  · cases h
  · cases h
    refine ⟨ht.nodup, fun x hx => (ht.free x hx).1, ?_⟩
    intro x hx
    have hone : m'.memMap (mapNr x) = 1 := by
      rw [hm]
      exact (ht.memMap x (ht.free x hx).1).trans (if_pos hx)
    rw [hone]
    decide

/-- Without a page for the page directory the two pages are given back. -/
lemma copyProcess_noMem {nr : Fin 64} {i : Nat} (hnr : s.freeSlot = some nr)
    (hf : findTwoFree s.memory.memMap (pagingPages - 1) = some i)
    (hj : findFree (update (update s.memory.memMap i 1) (i + 1) 1) 0 pagingPages = none) :
    Prog.returns copyProcess (fun out s' =>
      out = .failed (-11) ∧ s'.task = s.task ∧ s'.memory.memMap = s.memory.memMap) s := by
  obtain ⟨h0, h0', hlt⟩ := findTwoFree_some hf
  have hi : i < pagingPages := by omega
  have hi' : i + 1 < pagingPages := by omega
  apply Prog.returns_bind
  refine (findEmptyProcess_returns s).mono ?_
  rintro _ s₁ ⟨rfl, pid, rfl⟩
  rw [hnr]
  apply Prog.returns_bind
  apply Prog.returns_zoom
  refine ⟨_, _, getTwoFreePages_some hf, ?_⟩
  apply Prog.returns_bind
  refine (buildChild_returns _ _).mono ?_
  rintro _ s₂ ⟨hm₂, ht₂, _⟩
  have hj₂ : findFree s₂.memory.memMap 0 pagingPages = none := by
    rw [hm₂]
    exact hj
  apply Prog.returns_bind
  refine ⟨_, _, copyPageTablesTo_none hj₂, ?_⟩
  dsimp only
  rw [if_pos (by decide)]
  apply Prog.returns_bind
  apply Prog.returns_zoom
  refine (freeTwoPages_returns (freeable_taken hf hm₂)).mono ?_
  intro _ m₃ hm₃
  apply Prog.returns_pure
  refine ⟨rfl, ht₂, ?_⟩
  show m₃.memMap = _
  rw [hm₃.memMap, hm₂]
  exact subAll_taken hi' h0 h0'

/-- Without two free pages the fork fails. -/
lemma copyProcess_noPair {nr : Fin 64} (hnr : s.freeSlot = some nr)
    (hf : findTwoFree s.memory.memMap (pagingPages - 1) = none) :
    Prog.returns copyProcess (fun out s' =>
      out = .failed (-11) ∧ s'.task = s.task ∧ s'.memory.memMap = s.memory.memMap) s := by
  apply Prog.returns_bind
  refine (findEmptyProcess_returns s).mono ?_
  rintro _ s₁ ⟨rfl, pid, rfl⟩
  rw [hnr]
  apply Prog.returns_bind
  apply Prog.returns_zoom
  refine ⟨_, _, getTwoFreePages_none hf, ?_⟩
  exact Prog.returns_pure ⟨rfl, rfl, rfl⟩

/-- Without a free slot the fork fails. -/
lemma copyProcess_noSlot (hnr : s.freeSlot = none) :
    Prog.returns copyProcess (fun out s' =>
      out = .failed (-11) ∧ s'.task = s.task ∧ s'.memory.memMap = s.memory.memMap) s := by
  apply Prog.returns_bind
  refine (findEmptyProcess_returns s).mono ?_
  rintro _ s₁ ⟨rfl, pid, rfl⟩
  rw [hnr]
  exact Prog.returns_pure ⟨rfl, rfl, rfl⟩

/-- A fork that cannot succeed leaves `task[]` and `mem_map` as they were. -/
lemma copyProcess_failed (h : CannotFork s) :
    Prog.returns copyProcess (fun out s' =>
      out = .failed (-11) ∧ s'.task = s.task ∧ s'.memory.memMap = s.memory.memMap) s := by
  rw [CannotFork] at h
  cases hnr : s.freeSlot with
  | none => exact copyProcess_noSlot hnr
  | some nr =>
    cases hf : findTwoFree s.memory.memMap (pagingPages - 1) with
    | none => exact copyProcess_noPair hnr hf
    | some i =>
      rw [hnr, hf] at h
      exact copyProcess_noMem hnr hf (h.resolve_left nofun)

/-! ## The contract holds when the fork fails -/

/-- A fork that can be made breaks the contract. -/
lemma not_forkContract {retFromFork : BitVec 64} (hsp : SavedSpElsewhere s) (h : ¬ CannotFork s) :
    ¬ ForkContract retFromFork s := by
  rintro ⟨out, s', e, hout⟩
  rw [CannotFork, not_or] at h
  obtain ⟨nr, hnr⟩ := Option.ne_none_iff_exists'.1 h.1
  cases hf : findTwoFree s.memory.memMap (pagingPages - 1) with
  | none =>
    rw [hf] at h
    exact h.2 trivial
  | some i =>
    rw [hf] at h
    obtain ⟨j, hj⟩ := Option.ne_none_iff_exists'.1 h.2
    obtain ⟨r, rfl, ha⟩ := copyProcess_astray hsp hnr hf hj out s' e
    exact ha hout.threadSp

/-- `copy_process` meets its contract exactly when it cannot make a child: every child it makes has a
    saved context that does not lead to `ret_from_fork` on its own stack. -/
theorem fork_contract_iff {retFromFork : BitVec 64} (hsp : SavedSpElsewhere s) :
    ForkContract retFromFork s ↔ CannotFork s := by
  constructor
  · intro h
    by_contra hc
    exact not_forkContract hsp hc h
  · intro h
    refine (copyProcess_failed h).mono ?_
    rintro _ s' ⟨rfl, hs'⟩
    exact hs'

/-- A task in the first two pages, which has slept with its stack pointer in the second one. -/
def oneTask (memMap : Nat → BitVec 16) : ForkState where
  memory :=
    { mem := update (fun _ _ => 0) (pageAddr 0) (update (fun _ => 0) fieldThreadSp (pageAddr 0 + 7600))
      memMap := memMap
      pgd := fun _ => none
      swapperPgDir := 0 }
  task := update (fun _ => 0) 0 (pageAddr 0)
  lastPid := 0
  current := pageAddr 0
  jiffies := 0

/-- The sample has saved another stack pointer. -/
lemma oneTask_elsewhere (memMap : Nat → BitVec 16) : SavedSpElsewhere (oneTask memMap) := by
  intro i hi _ h
  have hword : (oneTask memMap).word (oneTask memMap).current fieldThreadSp = pageAddr 0 + 7600 := by
    show (oneTask memMap).memory.mem (pageAddr 0) fieldThreadSp = _
    simp [oneTask]
  have hsp : (pageAddr 0 + 7600).toNat = 0xFFFFFFC000400000 + 7600 := by decide
  have he := congrArg BitVec.toNat (hword.symm.trans h)
  rw [hsp, topFrame_toNat hi] at he
  omega

/-- Two pages are free, so that there is none for the page directory. -/
theorem fork_contract_iff_noPage :
    SavedSpElsewhere (oneTask fun i => if i < 31230 then 1 else 0) ∧
    ForkContract vaKernel (oneTask fun i => if i < 31230 then 1 else 0) := by
  have hsp := oneTask_elsewhere fun i => if i < 31230 then 1 else 0
  refine ⟨hsp, (fork_contract_iff hsp).2 (.inr ?_)⟩
  have hf : findTwoFree (fun i => if i < 31230 then 1 else 0) (pagingPages - 1) = some 31230 := rfl
  show match findTwoFree (fun i => if i < 31230 then 1 else 0) (pagingPages - 1) with
    | none => True
    | some i => findFree (update (update _ i 1) (i + 1) 1) 0 pagingPages = none
  rw [hf]
  -- a page that the search finds is counted after all
  refine Option.eq_none_iff_forall_ne_some.2 ?_
  intro k hk
  obtain ⟨h0, hlt⟩ := findFree_some hk
  have hk' : k < 31232 := (Nat.zero_add _).subst hlt
  have h1 : update (update (fun i => if i < 31230 then (1 : BitVec 16) else 0) 31230 1) 31231 1 k = 1 := by
    rw [update_apply, update_apply]
    split_ifs <;> first | rfl | omega
  cases h1.symm.trans h0

/-- Only the task itself holds pages: the frame of its first child is written far above the child. -/
theorem fork_contract_first_child :
    ¬ ForkContract vaKernel (oneTask fun i => if i < 2 then 1 else 0) := by
  apply not_forkContract (oneTask_elsewhere _)
  rintro (h | h)
  · exact absurd h (by decide)
  · have hf : findTwoFree (fun i => if i < 2 then 1 else 0) (pagingPages - 1) = some 31230 := rfl
    have hj : findFree (update (update (fun i => if i < 2 then 1 else 0) 31230 1) 31231 1) 0 pagingPages =
        some 2 := rfl
    change match findTwoFree (fun i => if i < 2 then 1 else 0) (pagingPages - 1) with
      | none => True
      | some i => findFree (update (update _ i 1) (i + 1) 1) 0 pagingPages = none at h
    rw [hf] at h
    cases hj.symm.trans h

end OldLinux.Sched
