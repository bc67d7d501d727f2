import OldLinux.Lib.System
import OldLinux.Lib.StructLayout
import OldLinux.Trap.Entry

/-!
# Context switch

Model of `__switch_to` (`kernel/entry.S`) on the machine of the trap code, and of the runs of the tasks
that it switches between. A register is saved at an offset of `asm_offsets.h` from the `thread` member of
a `task_struct`; where that member is, the code reads from the variable `OFFSET_TASK_THREAD`.

A state records, besides the machine, the registers of each task at its last call (`State.called`). The
invariant is `Kept`: what a task had at its call is in its thread area until it is switched in again. The
headline is `switch_keeps_context`, over every run.
-/

namespace OldLinux.Sched.Switch
open Function Lib Trap

/-! ## Layout -/

/-- Members of `struct thread_info`. -/
inductive ThreadInfo
  | flags | kernelSp | userSp | cpu
  deriving DecidableEq

/-- Members of `struct riscv_d_ext_state`. -/
inductive DExtState
  | f | fcsr
  deriving DecidableEq

/-- Members of `struct thread_struct`. -/
inductive ThreadStruct
  | ra | sp | s | fstate | badCause
  deriving DecidableEq

/-- Members of `struct task_struct`. -/
inductive TaskMember
  | threadInfo | state | stack | counter | priority | signal | sigRestorer | sigFn | exitCode | pgd
  | endCode | endData | brk | startStack | pid | father | pgrp | session | leader | uid | euid | suid
  | gid | egid | sgid | alarm | utime | stime | cutime | cstime | startTime | usedMath | tty | umask
  | pwd | root | closeOnExec | filp | thread
  deriving DecidableEq

/-- `struct thread_info`. -/
def threadInfo : Struct ThreadInfo where
  members := [.flags, .kernelSp, .userSp, .cpu]
  type
    | .flags => .ulong
    | .kernelSp | .userSp => .long
    | .cpu => .int

/-- `struct riscv_d_ext_state`. -/
def dExtState : Struct DExtState where
  members := [.f, .fcsr]
  type
    | .f => .array 32 .ulong
    | .fcsr => .int

/-- `struct thread_struct`. -/
def threadStruct : Struct ThreadStruct where
  members := [.ra, .sp, .s, .fstate, .badCause]
  type
    | .ra | .sp | .badCause => .ulong
    | .s => .array 12 .ulong
    | .fstate => dExtState.ctype

/-- `struct task_struct`. -/
def taskStruct : Struct TaskMember where
  members := [.threadInfo, .state, .stack, .counter, .priority, .signal, .sigRestorer, .sigFn, .exitCode,
    .pgd, .endCode, .endData, .brk, .startStack, .pid, .father, .pgrp, .session, .leader, .uid, .euid,
    .suid, .gid, .egid, .sgid, .alarm, .utime, .stime, .cutime, .cstime, .startTime, .usedMath, .tty,
    .umask, .pwd, .root, .closeOnExec, .filp, .thread]
  type
    | .threadInfo => threadInfo.ctype
    | .state | .counter | .priority | .signal | .pid | .father | .pgrp | .session | .leader => .long
    | .alarm | .utime | .stime | .cutime | .cstime | .startTime => .long
    | .endCode | .endData | .brk | .startStack | .closeOnExec => .ulong
    | .stack | .sigRestorer | .pgd | .pwd | .root => .pointer
    | .sigFn => .array 32 .pointer
    | .filp => .array 20 .pointer
    | .exitCode | .tty => .int
    | .uid | .euid | .suid | .gid | .egid | .sgid | .usedMath | .umask => .ushort
    | .thread => threadStruct.ctype

/-- What `main` stores in `OFFSET_TASK_THREAD`. -/
def threadOffset : Nat := taskStruct.offset .thread

/-! ## The code -/

/-- The registers that `__switch_to` saves and loads, in its order, with `THREAD_RA` to `THREAD_S11`. -/
def threadRegs : List (Fin 32 × Nat) :=
  [(1, 0), (2, 8), (8, 16), (9, 24), (18, 32), (19, 40), (20, 48), (21, 56), (22, 64), (23, 72),
    (24, 80), (25, 88), (26, 96), (27, 104)]

/-- `__switch_to` up to its `ret`; `offsetVar` is the address of `OFFSET_TASK_THREAD`. -/
def switchTo (offsetVar : BitVec 64) (m : Machine) : Machine :=
  let m := m.set 14 offsetVar
  let m := m.regL 14 0 14
  let m := m.set 13 (m.x 10 + m.x 14)
  let m := m.set 14 (m.x 11 + m.x 14)
  let m := m.savesAt 13 threadRegs
  let m := m.restoresAt 14 threadRegs
  m.set 4 (m.x 11)

/-! ## Runs -/

/-- The task structures and the variable `OFFSET_TASK_THREAD` are objects in memory, none overlapping
    another. -/
structure Tasks where
  tasks : Set (BitVec 64)
  offsetVar : BitVec 64
  fits : ∀ t ∈ tasks, t.toNat + taskStruct.sizeof ≤ 2 ^ 64
  apart : ∀ t ∈ tasks, ∀ u ∈ tasks, t ≠ u →
    t.toNat + taskStruct.sizeof ≤ u.toNat ∨ u.toNat + taskStruct.sizeof ≤ t.toNat
  varApart : ∀ t ∈ tasks, t.toNat + taskStruct.sizeof ≤ offsetVar.toNat ∨ offsetVar.toNat + 8 ≤ t.toNat

/-- The address of a word of the thread area of a task. -/
def slot (t : BitVec 64) (off : Nat) : BitVec 64 := t + .ofNat 64 threadOffset + .ofNat 64 off

/-- The thread area of a task, by words. -/
def area (m : Machine) (t : BitVec 64) (k : Fin (threadStruct.sizeof / 8)) : BitVec 64 :=
  m.mem (slot t (8 * k))

/-- The machine, with the address at which it goes on, and for each task the registers at its last call
    of `__switch_to`. -/
structure State where
  m : Machine
  pc : BitVec 64
  called : BitVec 64 → Option (Fin 32 → BitVec 64)

/-- The running task: `current` is `tp`. -/
def State.current (s : State) : BitVec 64 := s.m.x 4

/-- The state when `__switch_to` has returned: `ret` jumps to `ra`. -/
def State.switch (T : Tasks) (s : State) : State where
  m := switchTo T.offsetVar s.m
  pc := (switchTo T.offsetVar s.m).x 1
  called := update s.called s.current (some s.m.x)

inductive Label
  | run
  | fork (child : BitVec 64)
  | switch (next : BitVec 64)

/-- Code of the running task between two calls, which leaves alone `tp`, the variable and the areas of
    the tasks that have called `__switch_to`. -/
structure Ran (T : Tasks) (s s' : State) : Prop where
  tp : s'.current = s.current
  var : s'.m.mem T.offsetVar = s.m.mem T.offsetVar
  area : ∀ t ∈ T.tasks, t ≠ s.current → s'.called t ≠ none → area s'.m t = area s.m t

/-- One step. A task that is forked has not called `__switch_to` yet, also where its structure has been
    that of a task before. -/
inductive Step (T : Tasks) : State → Label → State → Prop
  | run {s s' : State} : s'.called = s.called → Ran T s s' → Step T s .run s'
  | fork {s s' : State} {child : BitVec 64} : child ∈ T.tasks → child ≠ s.current →
    s'.called = update s.called child none → Ran T s s' → Step T s (.fork child) s'
  | switch {s : State} {next : BitVec 64} : next ∈ T.tasks → s.m.x 10 = s.current → s.m.x 11 = next →
    Step T s (.switch next) (s.switch T)

/-- `init_task` or any other task runs and no task has called `__switch_to`. -/
structure Init (T : Tasks) (s : State) : Prop where
  current : s.current ∈ T.tasks
  var : s.m.mem T.offsetVar = .ofNat 64 threadOffset
  called : ∀ t, s.called t = none

/-- The runs of a set of tasks. -/
def system (T : Tasks) : System State Label where
  init := Init T
  step := Step T

/-- `ra`, `sp` and `s0` to `s11`. -/
def calleeSaved : List (Fin 32) := [1, 2, 8, 9, 18, 19, 20, 21, 22, 23, 24, 25, 26, 27]

/-- What a call of `__switch_to` guarantees: the next task runs, goes on where it called and has its
    registers back, `a0` is the task that ran before, and the areas of the other tasks are unchanged. -/
structure Switched (T : Tasks) (s : State) (next : BitVec 64) (s' : State) : Prop where
  tp : s'.current = next
  prev : s'.m.x 10 = s.current
  context : ∀ x, s'.called next = some x → s'.pc = x 1 ∧ ∀ i ∈ calleeSaved, s'.m.x i = x i
  others : ∀ t ∈ T.tasks, t ≠ s.current → area s'.m t = area s.m t

/-- Every call of `__switch_to` gives its guarantee. -/
def KeepsContext (T : Tasks) (s : State) : Label → State → Prop
  | .switch next, s' => Switched T s next s'
  | _, _ => True

variable {T : Tasks} {s s' : State} {m : Machine} {t u next : BitVec 64}

/-! ## Offsets -/

/-- The registers are within the structure. -/
lemma threadRegs_lt : ∀ p ∈ threadRegs, p.2 < threadStruct.sizeof := by
  decide

/-- Each register is in its own place. -/
lemma threadRegs_offsets_nodup : (threadRegs.map Prod.snd).Nodup := by
  decide

/-- Each register is there once. -/
lemma threadRegs_nodup : (threadRegs.map Prod.fst).Nodup := by
  decide

/-- A register that is not among them is another one. -/
lemma ne_of_threadRegs {p : Fin 32 × Nat} (hp : p ∈ threadRegs) {i : Fin 32}
    (hi : i ∉ threadRegs.map Prod.fst) : p.1 ≠ i :=
  fun h => hi (h ▸ List.mem_map_of_mem hp)

/-- Each register is saved at an offset. -/
lemma calleeSaved_mem : ∀ i ∈ calleeSaved, ∃ p ∈ threadRegs, p.1 = i := by
  decide

example : threadOffset = 688 ∧ taskStruct.sizeof = 1072 := by
  decide +kernel

/-- The thread area of a task lies within its structure. -/
lemma threadOffset_add_le : threadOffset + threadStruct.sizeof ≤ taskStruct.sizeof := by
  have hmem : TaskMember.thread ∈ taskStruct.members := by simp [taskStruct]
  have hle := taskStruct.offset_add_size_le hmem
  rwa [show (taskStruct.type .thread).size = threadStruct.sizeof from rfl, ← threadOffset] at hle

/-- The address of a register that is saved. -/
lemma slot_toNat (ht : t ∈ T.tasks) {o : Nat} (ho : o < threadStruct.sizeof) :
    (slot t o).toNat = t.toNat + threadOffset + o := by
  have hfits := T.fits t ht
  have hin := threadOffset_add_le
  rw [slot, BitVec.toNat_add, BitVec.toNat_add, BitVec.toNat_ofNat, BitVec.toNat_ofNat]
  have hsum : t.toNat + threadOffset + o < 2 ^ 64 := by omega
  rw [Nat.mod_eq_of_lt (a := threadOffset) (by omega), Nat.mod_eq_of_lt (a := o) (by omega),
    Nat.mod_eq_of_lt (a := t.toNat + threadOffset) (by omega), Nat.mod_eq_of_lt hsum]

/-- The areas of two tasks have no word in common. -/
lemma slot_ne (ht : t ∈ T.tasks) (hu : u ∈ T.tasks) (hne : t ≠ u) {o o' : Nat}
    (ho : o < threadStruct.sizeof) (ho' : o' < threadStruct.sizeof) : slot t o ≠ slot u o' := by
  intro e
  have e' := congrArg BitVec.toNat e
  have hin := threadOffset_add_le
  rw [slot_toNat ht ho, slot_toNat hu ho'] at e'
  rcases T.apart t ht u hu hne with h | h <;> omega

/-- The variable is in no area. -/
lemma slot_ne_var (ht : t ∈ T.tasks) {o : Nat} (ho : o < threadStruct.sizeof) :
    T.offsetVar ≠ slot t o := by
  intro e
  have e' := congrArg BitVec.toNat e
  have hin := threadOffset_add_le
  rw [slot_toNat ht ho] at e'
  rcases T.varApart t ht with h | h <;> omega

/-! ## One call -/

/-- The machine before the registers are saved: `a3` and `a4` point to the areas of the two tasks. -/
structure Pointed (prev next : BitVec 64) (m m' : Machine) : Prop where
  mem : m'.mem = m.mem
  x : ∀ i, i ≠ 13 → i ≠ 14 → m'.x i = m.x i
  store : ∀ o, m'.addr 13 o = slot prev o
  load : ∀ o, m'.addr 14 o = slot next o

/-- The first four instructions of `__switch_to`. -/
lemma exists_pointed (hv : m.mem T.offsetVar = .ofNat 64 threadOffset) :
    ∃ m', Pointed (m.x 10) (m.x 11) m m' ∧
      switchTo T.offsetVar m = ((m'.savesAt 13 threadRegs).restoresAt 14 threadRegs).set 4
        (((m'.savesAt 13 threadRegs).restoresAt 14 threadRegs).x 11) := by
  let m₁ := (m.set 14 T.offsetVar).regL 14 0 14
  let m₂ := m₁.set 13 (m₁.x 10 + m₁.x 14)
  let m₃ := m₂.set 14 (m₂.x 11 + m₂.x 14)
  have h14 : m₁.x 14 = .ofNat 64 threadOffset := by
    rw [← hv]
    refine (Machine.set_self _ _ _).trans (congrArg m.mem ?_)
    rw [Machine.addr, Machine.set_self]
    exact BitVec.add_zero _
  have h1 : ∀ i, i ≠ 14 → m₁.x i = m.x i :=
    fun i hi => (Machine.set_of_ne hi _).trans (Machine.set_of_ne hi _)
  refine ⟨m₃, ⟨rfl, ?_, ?_, ?_⟩, rfl⟩
  · intro i h13 hi
    exact ((Machine.set_of_ne hi _).trans (Machine.set_of_ne h13 _)).trans (h1 i hi)
  · intro o
    have ha3 : m₃.x 13 = m.x 10 + .ofNat 64 threadOffset := by
      refine (Machine.set_of_ne (by decide) _).trans ((Machine.set_self _ _ _).trans ?_)
      rw [h14, h1 10 (by decide)]
    rw [Machine.addr, ha3, slot]
  · intro o
    have ha4 : m₃.x 14 = m.x 11 + .ofNat 64 threadOffset := by
      refine (Machine.set_self _ _ _).trans ?_
      rw [Machine.set_of_ne (by decide), Machine.set_of_ne (by decide), h14, h1 11 (by decide)]
    rw [Machine.addr, ha4, slot]

/-- What a call of `__switch_to` from `prev` to `next` does. -/
structure SwitchSpec (prev next : BitVec 64) (m m' : Machine) : Prop where
  tp : m'.x 4 = next
  a0 : m'.x 10 = prev
  loaded : ∀ p ∈ threadRegs, m'.x p.1 = m'.mem (slot next p.2)
  saved : ∀ p ∈ threadRegs, m'.mem (slot prev p.2) = m.x p.1
  frame : ∀ a, (∀ p ∈ threadRegs, a ≠ slot prev p.2) → m'.mem a = m.mem a

/-- `__switch_to` saves the registers and loads the others. -/
lemma switchTo_spec (hv : m.mem T.offsetVar = .ofNat 64 threadOffset) :
    SwitchSpec (m.x 10) (m.x 11) m (switchTo T.offsetVar m) := by
  obtain ⟨m', hp, e⟩ := exists_pointed hv
  obtain ⟨hx, -⟩ := Machine.savesAt_fields 13 threadRegs m'
  obtain ⟨hm, -⟩ := Machine.restoresAt_fields 14 threadRegs (m'.savesAt 13 threadRegs)
  -- neither `a0` nor `a1` is among the registers that are loaded
  have hkeep : ∀ i, i ∉ threadRegs.map Prod.fst → i ≠ 13 → i ≠ 14 →
      ((m'.savesAt 13 threadRegs).restoresAt 14 threadRegs).x i = m.x i := by
    intro i hi h13 h14
    rw [Machine.restoresAt_x_of_not_mem threadRegs _ hi, hx, hp.x i h13 h14]
  have hmem : (switchTo T.offsetVar m).mem = (m'.savesAt 13 threadRegs).mem := by
    rw [e]
    exact hm
  refine ⟨?_, ?_, ?_, ?_, ?_⟩
  · rw [e, Machine.set_self]
    exact hkeep 11 (by decide) (by decide) (by decide)
  · rw [e, Machine.set_of_ne (by decide)]
    exact hkeep 10 (by decide) (by decide) (by decide)
  · intro p hmemp
    have h4 := ne_of_threadRegs hmemp (i := 4) (by decide)
    have hload := Machine.restoresAt_x_of_mem 14 threadRegs_nodup (by decide)
      (m'.savesAt 13 threadRegs) p hmemp
    rw [hmem, e, Machine.set_of_ne h4, hload, Machine.addr, hx, ← hp.load, Machine.addr]
  · intro p hmemp
    have h13 := ne_of_threadRegs hmemp (i := 13) (by decide)
    have h14 := ne_of_threadRegs hmemp (i := 14) (by decide)
    have hlt : ∀ q ∈ threadRegs, q.2 < 2 ^ 64 := by decide
    have hsave := Machine.savesAt_mem_of_mem 13 threadRegs_offsets_nodup hlt m' p hmemp
    rw [hmem, ← hp.store, hsave, hp.x p.1 h13 h14]
  · intro a ha
    rw [hmem, Machine.savesAt_mem_of_ne threadRegs m' fun p hmemp => hp.store p.2 ▸ ha p hmemp, hp.mem]

/-! ## Runs -/

/-- What the runs keep: the running task is one of the tasks, the variable has the offset, and what any
    other task had at its last call is in its area. -/
structure Kept (T : Tasks) (s : State) : Prop where
  current : s.current ∈ T.tasks
  var : s.m.mem T.offsetVar = .ofNat 64 threadOffset
  saved : ∀ t ∈ T.tasks, t ≠ s.current → ∀ x, s.called t = some x →
    ∀ p ∈ threadRegs, s.m.mem (slot t p.2) = x p.1

/-- A word of `threadRegs` as a word of the area. -/
lemma area_threadRegs {m m' : Machine} (h : area m' t = area m t) {p : Fin 32 × Nat}
    (hp : p ∈ threadRegs) : m'.mem (slot t p.2) = m.mem (slot t p.2) := by
  have hk : ∀ p ∈ threadRegs, ∃ k : Fin (threadStruct.sizeof / 8), p.2 = 8 * k.val := by
    decide
  obtain ⟨k, e⟩ := hk p hp
  rw [e]
  exact congrFun h k

/-- Code of the running task keeps the invariant, where no task gets a call that it has not made. -/
lemma Kept.ran (h : Kept T s) (hr : Ran T s s')
    (hc : ∀ t x, s'.called t = some x → s.called t = some x) : Kept T s' := by
  refine ⟨hr.tp ▸ h.current, hr.var.trans h.var, ?_⟩
  intro t ht hne x hx p hp
  rw [hr.tp] at hne
  have ha := hr.area t ht hne (by rw [hx]; exact Option.some_ne_none x)
  exact (area_threadRegs ha hp).trans (h.saved t ht hne x (hc t x hx) p hp)

/-- The areas of the tasks other than the caller. -/
lemma Kept.others (h : Kept T s) (h0 : s.m.x 10 = s.current) (ht : t ∈ T.tasks) (hne : t ≠ s.current) :
    area (switchTo T.offsetVar s.m) t = area s.m t := by
  funext k
  have hk : 8 * k.val < threadStruct.sizeof := by omega
  refine (switchTo_spec h.var).frame _ fun p hp => ?_
  rw [h0]
  exact slot_ne ht h.current hne hk (threadRegs_lt p hp)

/-- What a task had at its last call, the present one included, is in its area after the call. -/
lemma Kept.saved_switch (h : Kept T s) (h0 : s.m.x 10 = s.current) (ht : t ∈ T.tasks)
    {x : Fin 32 → BitVec 64} (hx : update s.called s.current (some s.m.x) t = some x)
    {p : Fin 32 × Nat} (hp : p ∈ threadRegs) :
    (switchTo T.offsetVar s.m).mem (slot t p.2) = x p.1 := by
  have hcall : update s.called s.current (some s.m.x) t = some x := hx
  obtain rfl | hne := eq_or_ne t s.current
  · rw [update_self] at hcall
    cases hcall
    rw [← h0]
    exact (switchTo_spec h.var).saved p hp
  · rw [update_of_ne hne] at hcall
    exact (area_threadRegs (h.others h0 ht hne) hp).trans (h.saved t ht hne x hcall p hp)

/-- A call of `__switch_to` keeps the invariant. -/
lemma Kept.switch (h : Kept T s) (hn : next ∈ T.tasks) (h0 : s.m.x 10 = s.current)
    (h1 : s.m.x 11 = next) : Kept T (s.switch T) := by
  have hspec := switchTo_spec h.var
  refine ⟨?_, ?_, ?_⟩
  · have htp : (s.switch T).current = next := hspec.tp.trans h1
    rwa [htp]
  · refine (hspec.frame _ fun p hp => ?_).trans h.var
    rw [h0]
    exact slot_ne_var h.current (threadRegs_lt p hp)
  · exact fun t ht _ x hx p hp => h.saved_switch h0 ht hx hp

/-- A call of `__switch_to` gives its guarantee. -/
lemma Kept.switched (h : Kept T s) (hn : next ∈ T.tasks) (h0 : s.m.x 10 = s.current)
    (h1 : s.m.x 11 = next) : Switched T s next (s.switch T) := by
  have hspec := switchTo_spec h.var
  have hregs : ∀ x, (s.switch T).called next = some x →
      ∀ i ∈ calleeSaved, (switchTo T.offsetVar s.m).x i = x i := by
    intro x hx i hi
    obtain ⟨p, hp, rfl⟩ := calleeSaved_mem i hi
    have hload : (switchTo T.offsetVar s.m).x p.1 = (switchTo T.offsetVar s.m).mem (slot next p.2) :=
      h1 ▸ hspec.loaded p hp
    exact hload.trans (h.saved_switch h0 hn hx hp)
  refine ⟨hspec.tp.trans h1, hspec.a0.trans h0, ?_, fun t ht hne => h.others h0 ht hne⟩
  exact fun x hx => ⟨hregs x hx 1 (by decide), hregs x hx⟩

/-- At first nothing is saved. -/
lemma Init.kept (h : Init T s) : Kept T s :=
  ⟨h.current, h.var, fun t _ _ x hx => absurd (h.called t ▸ hx) (Option.some_ne_none x).symm⟩

/-- One step keeps the invariant, and a call of `__switch_to` gives its guarantee. -/
lemma Kept.step {l : Label} (h : Kept T s) (st : Step T s l s') : Kept T s' ∧ KeepsContext T s l s' := by
  cases st with
  | run hc hr => exact ⟨h.ran hr fun t x hx => hc ▸ hx, trivial⟩
  | @fork _ child _ _ hc hr =>
    refine ⟨h.ran hr fun t x hx => ?_, trivial⟩
    rw [hc] at hx
    obtain rfl | hne := eq_or_ne t child
    · rw [update_self] at hx
      cases hx
    · rwa [update_of_ne hne] at hx
  | switch hn h0 h1 => exact ⟨h.switch hn h0 h1, h.switched hn h0 h1⟩

/-- In every run of every set of tasks, a task that is switched in again has the registers of its last
    call, `a0` is the task that ran before, and the areas of the other tasks are unchanged. -/
theorem switch_keeps_context {tr : List (Label × State)} (ex : (system T).Exec s tr)
    (h0 : (system T).init s) : Along (KeepsContext T) s tr := by
  have hinit : Init T s := h0
  have hrun := ex.along_of_inv (I := Kept T) (C := fun _ _ _ => True) (Q := KeepsContext T)
    (fun _ _ _ h st _ => h.step st) hinit.kept (Along.of_forall fun _ _ _ => trivial)
  exact hrun.2

/-- Two tasks. -/
def pair : Tasks where
  tasks := {t | t = 0x10000 ∨ t = 0x20000}
  offsetVar := 0x8000
  fits := by
    rintro t (rfl | rfl) <;> decide +kernel
  apart := by
    rintro t (rfl | rfl) u (rfl | rfl) <;> decide +kernel
  varApart := by
    rintro t (rfl | rfl) <;> decide +kernel

/-- The first task is about to switch to the second. -/
def pairStart : State where
  m :=
    { x := update (update (update (fun _ => 7) 4 0x10000) 10 0x10000) 11 0x20000
      mem := update (fun _ => 0) 0x8000 (.ofNat 64 threadOffset)
      sscratch := 0
      sepc := 0
      stval := 0
      scause := 0
      sstatus := 0 }
  pc := 0
  called := fun _ => none

/-- The second task has been switched in, and is about to switch back. -/
def pairBack : State :=
  let s := pairStart.switch pair
  { s with m := (s.m.set 10 0x20000).set 11 0x10000 }

/-- The sample is initial. -/
lemma pairStart_init : Init pair pairStart :=
  ⟨.inl rfl, rfl, fun _ => rfl⟩

/-- It switches to the second task. -/
lemma pairStart_switch_current : (pairStart.switch pair).current = 0x20000 :=
  (switchTo_spec pairStart_init.var).tp

/-- It switches back. -/
lemma pairBack_current : pairBack.current = 0x20000 := by
  refine (Machine.set_of_ne (by decide) _).trans ((Machine.set_of_ne (by decide) _).trans ?_)
  exact pairStart_switch_current

/-- There and back. -/
theorem switch_keeps_context_pair :
    Along (KeepsContext pair) pairStart
      [(.switch 0x20000, pairStart.switch pair), (.run, pairBack),
        (.switch 0x10000, pairBack.switch pair)] := by
  refine switch_keeps_context ?_ pairStart_init
  have hmem : pairBack.m.mem = (pairStart.switch pair).m.mem := rfl
  have hran : Ran pair (pairStart.switch pair) pairBack := by
    refine ⟨pairBack_current.trans pairStart_switch_current.symm, congrFun hmem _, ?_⟩
    exact fun t _ _ _ => funext fun k => congrFun hmem _
  refine .cons (.switch (.inr rfl) rfl rfl) (.cons (.run rfl hran) (.cons (.switch (.inl rfl) ?_ ?_) .nil))
  · rw [pairBack_current]
    exact (Machine.set_of_ne (by decide) _).trans (Machine.set_self _ _ _)
  · exact Machine.set_self _ _ _

end OldLinux.Sched.Switch
