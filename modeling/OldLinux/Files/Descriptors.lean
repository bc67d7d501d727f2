import OldLinux.Files.Count

/-!
# Failing calls and the descriptor tables

What `do_open`, `sys_pipe` and `sys_dup2` do to `current->filp`, `current->close_on_exec` and the `f_count`
of the file table. `do_open` and `sys_pipe` give back what they have taken when they fail
(`openPipe_atomic`). `sys_dup2` closes the new descriptor before `dupfd` looks at the old one, so that a
call that fails can have closed a file: `sysDup2_iff` says when it has not.

`Descs` names the three tables in a state; each function is specified by how it changes them.
-/

namespace OldLinux.Files
open Lib Fs Function

variable {κ : Type} {sv : Services κ} {c : Fin 64} {s s' : Tables κ}
variable {F : Fin 20 → Option (Fin 64)} {x : BitVec 64} {N : Fin 64 → Nat}

/-- `filp` and `close_on_exec` of the task in slot `c`, and every `f_count`. -/
structure Descs (c : Fin 64) (F : Fin 20 → Option (Fin 64)) (x : BitVec 64) (N : Fin 64 → Nat)
    (s : Tables κ) : Prop where
  filp : (s.task c).map Task.filp = some F
  closeOnExec : (s.task c).map Task.closeOnExec = some x
  fCount : ∀ f, (s.fileTable f).fCount = N f

/-- `filp`, `close_on_exec` and every `f_count` are as before. -/
structure SameDescriptors (c : Fin 64) (s s' : Tables κ) : Prop where
  filp : (s'.task c).map Task.filp = (s.task c).map Task.filp
  closeOnExec : (s'.task c).map Task.closeOnExec = (s.task c).map Task.closeOnExec
  fCount : ∀ f, (s'.fileTable f).fCount = (s.fileTable f).fCount

/-- The entry of the file table that a descriptor of the task in slot `c` names. -/
def fileOf (s : Tables κ) (c : Fin 64) (fd : Nat) : Option (Fin 64) :=
  (s.task c).bind fun t => if h : fd < 20 then t.filp ⟨fd, h⟩ else none

/-- The descriptors as they are. -/
lemma Descs.start {t : Task} (ht : s.task c = some t) :
    Descs c t.filp t.closeOnExec (fun f => (s.fileTable f).fCount) s :=
  ⟨by rw [ht]; rfl, by rw [ht]; rfl, fun _ => rfl⟩

/-- What has the same description is the same. -/
lemma Descs.same (h : Descs c F x N s) (h' : Descs c F x N s') : SameDescriptors c s s' :=
  ⟨h'.filp.trans h.filp.symm, h'.closeOnExec.trans h.closeOnExec.symm,
    fun f => (h'.fCount f).trans (h.fCount f).symm⟩

/-- The task that the tables belong to. -/
lemma Descs.task (h : Descs c F x N s) :
    ∃ t, s.task c = some t ∧ t.filp = F ∧ t.closeOnExec = x := by
  obtain ⟨t, ht, hF⟩ := Option.map_eq_some_iff.1 h.filp
  have hx := h.closeOnExec
  rw [ht] at hx
  exact ⟨t, ht, hF, Option.some.inj hx⟩

/-- The entry of a descriptor is what the description says. -/
lemma Descs.fileOf_eq (h : Descs c F x N s) {fd : Nat} :
    fileOf s c fd = if hfd : fd < 20 then F ⟨fd, hfd⟩ else none := by
  obtain ⟨t, ht, rfl, -⟩ := h.task
  rw [fileOf, ht]
  rfl

/-- The tables are those of any state with the same task and the same files. -/
lemma Descs.congr (h : Descs c F x N s) (ht : s'.task = s.task) (hf : s'.fileTable = s.fileTable) :
    Descs c F x N s' := by
  constructor
  · rw [ht]
    exact h.filp
  · rw [ht]
    exact h.closeOnExec
  · rw [hf]
    exact h.fCount

/-! ## The steps of the calls -/

/-- `current` has the descriptors of the description. -/
lemma current_descs (h : Descs c F x N s) {Q : Task → Tables κ → Prop}
    (hQ : ∀ t, t.filp = F → t.closeOnExec = x → Q t s) : Prog.wp (current c) Q s := by
  apply wp_current
  intro t ht
  obtain ⟨t', ht', hF, hx⟩ := h.task
  rw [ht] at ht'
  cases ht'
  exact hQ t hF hx

/-- Fields of `current` are set. -/
lemma setCurrent_descs {f : Task → Task} {F' : Fin 20 → Option (Fin 64)} {x' : BitVec 64}
    (h : Descs c F x N s) (hF : ∀ t, t.filp = F → (f t).filp = F')
    (hx : ∀ t, t.closeOnExec = x → (f t).closeOnExec = x') :
    Prog.wp (setCurrent c f) (fun _ => Descs c F' x' N) s := by
  obtain ⟨t, ht, htF, htx⟩ := h.task
  rw [setCurrent, Prog.wp_modify]
  constructor
  · show (update s.task c ((s.task c).map f) c).map _ = _
    rw [update_self, ht]
    exact congrArg some (hF t htF)
  · show (update s.task c ((s.task c).map f) c).map _ = _
    rw [update_self, ht]
    exact congrArg some (hx t htx)
  · exact h.fCount

/-- The bit of a descriptor is cleared. -/
lemma clearCloseOnExec_descs (fd : Fin 20) (h : Descs c F x N s) :
    Prog.wp (clearCloseOnExec c fd) (fun _ => Descs c F (x &&& ~~~(1#64 <<< fd.val)) N) s := by
  refine setCurrent_descs h ?_ ?_
  · exact fun _ e => e
  · intro t e
    show t.closeOnExec &&& _ = _
    rw [e]

/-- A descriptor is bound. -/
lemma setFd_descs {fd : Fin 20} {f : Option (Fin 64)} (h : Descs c F x N s) :
    Prog.wp (setFd c fd f) (fun _ => Descs c (update F fd f) x N) s := by
  refine setCurrent_descs h ?_ ?_
  · intro t e
    show update t.filp fd f = _
    rw [e]
  · exact fun _ e => e

/-- Fields of an entry of the file table are set. -/
lemma setFile_descs {f : Fin 64} {g : File (Fin 32) → File (Fin 32)} {n : Nat} (h : Descs c F x N s)
    (hg : ∀ file : File (Fin 32), file.fCount = N f → (g file).fCount = n) :
    Prog.wp (setFile f g) (fun _ => Descs c F x (update N f n)) s := by
  rw [setFile, Prog.wp_modify]
  refine ⟨h.filp, h.closeOnExec, ?_⟩
  intro f'
  show (update s.fileTable f (g (s.fileTable f)) f').fCount = update N f n f'
  by_cases hf : f' = f
  · subst hf
    rw [update_self, update_self]
    exact hg _ (h.fCount f')
  · rw [update_of_ne hf, update_of_ne hf, h.fCount]

/-- Fields other than the count are set. -/
lemma setFile_keeps {f : Fin 64} {g : File (Fin 32) → File (Fin 32)} (h : Descs c F x N s)
    (hg : ∀ file : File (Fin 32), (g file).fCount = file.fCount) :
    Prog.wp (setFile f g) (fun _ => Descs c F x N) s := by
  have hs := setFile_descs (f := f) (g := g) (n := N f) h fun file e => (hg file).trans e
  rwa [update_eq_self] at hs

/-- The count of an entry is set. -/
lemma setFCount_descs {f : Fin 64} {n : Nat} (h : Descs c F x N s) :
    Prog.wp (setFCount f n) (fun _ => Descs c F x (update N f n)) s :=
  setFile_descs h fun _ _ => rfl

/-- The count of an entry is incremented. -/
lemma addFCount_descs {f : Fin 64} {n : Nat} (h : Descs c F x N s) (hf : N f = n) :
    Prog.wp (addFCount f) (fun _ => Descs c F x (update N f (n + 1))) s :=
  setFile_descs h fun file e => by
    show file.fCount + 1 = n + 1
    rw [e, hf]

/-- A function that only counts references leaves the descriptors alone. -/
lemma wp_descs {α : Type} {m : Prog (Tables κ) α} {R : α → Fin 32 → Nat} (h : Descs c F x N s)
    (hm : Prog.wp m (fun a => Holds s (R a)) s) : Prog.wp m (fun _ => Descs c F x N) s :=
  hm.mono fun _ _ hw => h.congr hw.task hw.file

/-- `iput` leaves the descriptors alone. -/
lemma iput_descs {r : Option (Fin 32)} (h : Descs c F x N s) :
    Prog.wp (iput sv r) (fun _ => Descs c F x N) s := by
  cases r with
  | none =>
    rw [iput, Prog.wp_pure]
    exact h
  | some i =>
    by_cases h0 : (s.inodeTable i).iCount = 0
    · rw [iput, Prog.wp_bind, wp_inodeAt, if_pos h0]
      exact Prog.wp_panic
    · -- the reference that is given back is one of those counted
      have hc : (fun j => (s.inodeTable j).iCount) =
          (fun j => (s.inodeTable j).iCount - ref (some i) j) + ref (some i) := by
        funext j
        show (s.inodeTable j).iCount = (s.inodeTable j).iCount - ref (some i) j + ref (some i) j
        by_cases hj : j = i
        · subst hj
          rw [ref_self]
          omega
        · rw [ref_of_ne hj]
          rfl
      have hs : Holds s _ s := .start
      rw [hc] at hs
      exact wp_descs h (iput_spec hs)

/-! ## Free descriptors -/

/-- The descriptor that a search from 0 on finds is the lowest free one. -/
lemma freeFd_lowest {t : Task} {fd : Fin 20} (h : freeFd t 0 = some fd) :
    t.filp fd = none ∧ ∀ fd' < fd, t.filp fd' ≠ none := by
  refine ⟨freeFd_free h, ?_⟩
  intro fd' hlt hn
  obtain ⟨-, i, hi, hfd, hbefore⟩ := List.find?_eq_some_iff_getElem.1 h
  rw [List.getElem_finRange] at hfd
  have hi' : i = fd.val := congrArg Fin.val hfd
  have hlt' : fd'.val < i := hi' ▸ hlt
  have := hbefore fd'.val hlt'
  rw [List.getElem_finRange] at this
  simp [hn] at this

/-- Clearing a bit changes nothing exactly when it is clear already. -/
lemma clear_bit {fd : Nat} (hfd : fd < 64) : x &&& ~~~(1#64 <<< fd) = x ↔ x.getLsbD fd = false := by
  constructor
  · intro h
    rw [← h]
    simp [hfd]
  · intro h
    ext i hi
    rw [BitVec.getElem_and, BitVec.getElem_not, BitVec.getElem_shiftLeft]
    by_cases he : i = fd
    · subst he
      rw [BitVec.getLsbD_eq_getElem hi] at h
      rw [h, Bool.false_and]
    · simp
      omega

/-! ## Dup -/

/-- `do_close` clears the descriptor and its bit, and takes it from the count of the entry. -/
lemma doClose_descs {fd : Nat} (hfd : fd < 20) (h : Descs c F x N s) :
    Prog.wp (doClose sv c fd) (fun _ s' => ∃ N',
      Descs c (update F ⟨fd, hfd⟩ none) (x &&& ~~~(1#64 <<< fd)) N' s') s := by
  rw [doClose, dif_pos hfd, Prog.wp_bind]
  refine (clearCloseOnExec_descs _ h).mono ?_
  intro _ s₁ h₁
  rw [Prog.wp_bind]
  refine current_descs h₁ ?_
  intro t htF _
  cases hf : t.filp ⟨fd, hfd⟩ with
  | none =>
    have he : update F ⟨fd, hfd⟩ none = F := update_none (htF ▸ hf)
    rw [Prog.wp_pure, he]
    exact ⟨N, h₁⟩
  | some f =>
    show Prog.wp (_ >>= _) _ s₁
    rw [Prog.wp_bind]
    refine (setFd_descs h₁).mono ?_
    intro _ s₂ h₂
    rw [Prog.wp_bind, wp_fileAt]
    split
    · exact Prog.wp_panic
    · rw [Prog.wp_bind]
      refine (setFCount_descs h₂).mono ?_
      intro _ s₃ h₃
      split
      · rw [Prog.wp_pure]
        exact ⟨_, h₃⟩
      · rw [Prog.wp_bind]
        refine (iput_descs h₃).mono ?_
        intro _ s₄ h₄
        rw [Prog.wp_pure]
        exact ⟨_, h₄⟩

/-- `current` can be read. -/
lemma current_returns (h : Descs c F x N s) {Q : Task → Tables κ → Prop}
    (hQ : ∀ t, t.filp = F → t.closeOnExec = x → Q t s) : Prog.returns (current c) Q s := by
  obtain ⟨t, ht, hF, hx⟩ := h.task
  refine ⟨t, s, ?_, hQ t hF hx⟩
  rw [current, Prog.bind_of_ret (a := s) (t := s) rfl, ht]
  rfl

variable (sv) in
/-- `do_close` of a descriptor that is closed only clears its bit. -/
lemma doClose_closed {fd : Nat} (hfd : fd < 20) (h : Descs c F x N s) (hn : F ⟨fd, hfd⟩ = none) :
    Prog.returns (doClose sv c fd)
      (fun _ s' => Descs c F (x &&& ~~~(1#64 <<< fd)) N s') s := by
  rw [doClose, dif_pos hfd]
  apply Prog.returns_bind
  refine ⟨(), _, rfl, ?_⟩
  have h₁ := clearCloseOnExec_descs ⟨fd, hfd⟩ h _ _ rfl
  apply Prog.returns_bind
  refine current_returns h₁ ?_
  intro t htF _
  rw [htF, hn]
  exact Prog.returns_pure h₁

/-- `dupfd` of a descriptor that is closed. -/
lemma dupfd_closed {fd : Nat} (arg : Nat) (h : Descs c F x N s) (hn : fileOf s c fd = none) :
    Prog.returns (dupfd c fd arg) (fun r s' => r = -ebadf ∧ s' = s) s := by
  rw [h.fileOf_eq] at hn
  rw [dupfd]
  apply Prog.returns_bind
  refine current_returns h ?_
  intro t htF _
  split
  · next hfd =>
    rw [dif_pos hfd] at hn
    rw [htF, hn]
    exact Prog.returns_pure ⟨rfl, rfl⟩
  · exact Prog.returns_pure ⟨rfl, rfl⟩

/-- `dupfd` that asks for a descriptor there is not. -/
lemma dupfd_large {fd arg : Nat} (h : Descs c F x N s) (harg : 20 ≤ arg) :
    Prog.wp (dupfd c fd arg) (fun r s' => r < 0 ∧ s' = s) s := by
  rw [dupfd, Prog.wp_bind]
  refine current_descs h ?_
  intro t htF _
  split
  · split
    · rw [Prog.wp_pure]
      exact ⟨by decide, rfl⟩
    · rw [Prog.wp_pure]
      exact ⟨by decide, rfl⟩
  · rw [Prog.wp_pure]
    exact ⟨by decide, rfl⟩

/-- `freeFd` starts with the descriptor that is asked for. -/
lemma freeFd_self {t : Task} {fd : Fin 20} (h : t.filp fd = none) : freeFd t fd = some fd := by
  refine List.find?_eq_some_iff_getElem.2 ⟨by simp [h], fd.val, by simp, by simp, ?_⟩
  intro j hj
  rw [List.getElem_finRange]
  simp
  omega

/-- `dupfd` of an open descriptor to one that is free. -/
lemma dupfd_free {fd : Nat} (new : Fin 20) {f : Fin 64} (h : Descs c F x N s)
    (hf : fileOf s c fd = some f) (hn : F new = none) :
    Prog.wp (dupfd c fd new) (fun r s' => r = (new.val : Int) ∧ ∃ x' N',
      Descs c (update F new (some f)) x' N' s') s := by
  rw [h.fileOf_eq] at hf
  rw [dupfd, Prog.wp_bind]
  refine current_descs h ?_
  intro t htF _
  split
  · next hfd =>
    rw [dif_pos hfd] at hf
    rw [htF, hf]
    show Prog.wp (if _ then _ else _) _ s
    rw [if_neg (Nat.not_le.2 new.isLt), freeFd_self (htF ▸ hn)]
    show Prog.wp (_ >>= _) _ s
    rw [Prog.wp_bind]
    refine (clearCloseOnExec_descs _ h).mono ?_
    intro _ s₁ h₁
    rw [Prog.wp_bind]
    refine (setFd_descs h₁).mono ?_
    intro _ s₂ h₂
    rw [Prog.wp_bind]
    refine (addFCount_descs h₂ rfl).mono ?_
    intro _ s₃ h₃
    rw [Prog.wp_pure]
    exact ⟨rfl, _, _, h₃⟩
  · next hfd =>
    rw [dif_neg hfd] at hf
    cases hf

/-- An error of `sys_dup2` leaves the descriptors as they are; otherwise it returns `newfd`, which names
    the file of `oldfd`, and the other descriptors are as before. An open descriptor is its own
    duplicate. -/
structure Dup2Law (sv : Services κ) (c : Fin 64) (oldfd newfd : Nat) (s : Tables κ) : Prop where
  outcome : Prog.wp (sysDup2 sv c oldfd newfd) (fun r s' =>
    (r < 0 → SameDescriptors c s s') ∧
      (0 ≤ r → r = newfd ∧ (fileOf s c oldfd).isSome ∧ fileOf s' c newfd = fileOf s c oldfd ∧
        ∀ fd, fd ≠ newfd → fileOf s' c fd = fileOf s c fd)) s
  same : oldfd = newfd → (fileOf s c oldfd).isSome →
    Prog.returns (sysDup2 sv c oldfd newfd) (fun r s' => r = newfd ∧ SameDescriptors c s s') s

/-- There is no descriptor `newfd`, or `oldfd` is open and another one; or `newfd` is closed and its bit of
    `close_on_exec` clear; or another descriptor is asked for whose close does not return. -/
def Dup2Safe (sv : Services κ) (c : Fin 64) (oldfd newfd : Nat) (s : Tables κ) : Prop :=
  20 ≤ newfd ∨ (oldfd ≠ newfd ∧ (fileOf s c oldfd).isSome) ∨
    (fileOf s c newfd = none ∧ ∀ t, s.task c = some t → t.closeOnExec.getLsbD newfd = false) ∨
      (oldfd ≠ newfd ∧ Prog.halts (doClose sv c newfd) s = false)

/-- The old descriptor turns out to be closed after `newfd` has been. -/
lemma sysDup2_fails {oldfd newfd : Nat} {a : Int} {s₁ : Tables κ} (h₁ : Descs c F x N s₁)
    (hrun : doClose sv c newfd s = .ret (a, s₁)) (hn : fileOf s₁ c oldfd = none) :
    sysDup2 sv c oldfd newfd s = .ret (-ebadf, s₁) := by
  obtain ⟨r, s', hd, rfl, rfl⟩ := dupfd_closed newfd h₁ hn
  rw [sysDup2, Prog.bind_of_ret hrun, hd]

/-- A descriptor other than the one that is cleared. -/
lemma Descs.fileOf_update {fd newfd : Nat} {hfd : newfd < 20} {f : Option (Fin 64)} {x' : BitVec 64}
    {N' : Fin 64 → Nat} (h : Descs c F x N s) (h' : Descs c (update F ⟨newfd, hfd⟩ f) x' N' s')
    (hne : fd ≠ newfd) : fileOf s' c fd = fileOf s c fd := by
  rw [h.fileOf_eq, h'.fileOf_eq]
  split
  · rw [update_of_ne fun e => hne (congrArg Fin.val e)]
  · rfl

/-- The descriptor that was bound is bound. -/
lemma Descs.fileOf_self {newfd : Nat} {hfd : newfd < 20} {f : Option (Fin 64)}
    (h : Descs c (update F ⟨newfd, hfd⟩ f) x N s) : fileOf s c newfd = f := by
  rw [h.fileOf_eq, dif_pos hfd, update_self]

/-- An open descriptor is duplicated. -/
lemma sysDup2_open {oldfd newfd : Nat} (h : Descs c F x N s) (hfd : newfd < 20) (hne : oldfd ≠ newfd)
    (ho : (fileOf s c oldfd).isSome) : Dup2Law sv c oldfd newfd s := by
  refine ⟨?_, fun e => absurd e hne⟩
  obtain ⟨f, hf⟩ := Option.isSome_iff_exists.1 ho
  rw [sysDup2, Prog.wp_bind]
  refine (doClose_descs hfd h).mono ?_
  rintro _ s₁ ⟨N₁, h₁⟩
  have hf₁ : fileOf s₁ c oldfd = some f := (h.fileOf_update h₁ hne).trans hf
  refine (dupfd_free ⟨newfd, hfd⟩ h₁ hf₁ (update_self ..)).mono ?_
  rintro r s₂ ⟨rfl, x₂, N₂, h₂⟩
  refine ⟨fun hr => absurd hr (Int.not_lt.2 (Int.natCast_nonneg _)), fun _ => ⟨rfl, ho, ?_, ?_⟩⟩
  · rw [h₂.fileOf_self, hf]
  · intro fd hfd'
    rw [h₁.fileOf_update h₂ hfd', h.fileOf_update h₁ hfd']

/-- A law that holds of a closed `newfd`: its bit is clear, or `oldfd` is open. -/
lemma Dup2Law.closed {oldfd newfd : Nat} (hlaw : Dup2Law sv c oldfd newfd s) (h : Descs c F x N s)
    (hfd : newfd < 20) (hn : fileOf s c newfd = none) :
    (fileOf s c oldfd).isSome ∨ x.getLsbD newfd = false := by
  cases ho : fileOf s c oldfd with
  | some f => exact .inl rfl
  | none =>
    refine .inr ?_
    have hn' : F ⟨newfd, hfd⟩ = none := by rwa [h.fileOf_eq, dif_pos hfd] at hn
    obtain ⟨a, s₁, hrun, h₁⟩ := doClose_closed sv hfd h hn'
    rw [h.fileOf_eq, ← h₁.fileOf_eq] at ho
    have hx := ((hlaw.outcome _ _ (sysDup2_fails h₁ hrun ho)).1 (by decide)).closeOnExec
    rw [h₁.closeOnExec, h.closeOnExec] at hx
    exact (clear_bit (by omega)).1 (Option.some.inj hx)

/-- A law that holds of an open `newfd` that `do_close` returns from: `oldfd` is open and another one. -/
lemma Dup2Law.open {oldfd newfd : Nat} {f : Fin 64} (hlaw : Dup2Law sv c oldfd newfd s)
    (h : Descs c F x N s) (hfd : newfd < 20) (hn : fileOf s c newfd = some f)
    (hhalts : oldfd ≠ newfd → Prog.halts (doClose sv c newfd) s = true) :
    oldfd ≠ newfd ∧ (fileOf s c oldfd).isSome := by
  by_cases he : oldfd = newfd
  · -- the descriptor itself is closed first
    obtain ⟨r, s', hrun, rfl, -⟩ := hlaw.same he (by rw [he, hn]; rfl)
    obtain ⟨a, s₁, hclose, -⟩ := Prog.bind_ret_iff.1 hrun
    obtain ⟨N₁, h₁⟩ := doClose_descs hfd h _ _ hclose
    rw [sysDup2_fails h₁ hclose (he ▸ h₁.fileOf_self)] at hrun
    have hret : -ebadf = (newfd : Int) := congrArg Prod.fst (Result.ret.inj hrun)
    have hneg : -ebadf < 0 := by decide
    omega
  · refine ⟨he, ?_⟩
    cases ho : fileOf s c oldfd with
    | some f => rfl
    | none =>
      obtain ⟨a, hclose⟩ := Prog.ret_after (hhalts he)
      obtain ⟨N₁, h₁⟩ := doClose_descs hfd h _ _ hclose
      have hsame := (hlaw.outcome _ _ (sysDup2_fails h₁ hclose ((h.fileOf_update h₁ he).trans ho))).1
        (by decide)
      have hF := hsame.filp
      rw [h₁.filp, h.filp] at hF
      rw [h.fileOf_eq, dif_pos hfd, ← congrFun (Option.some.inj hF), update_self] at hn
      cases hn

/-- What the law says of the state before. -/
lemma Dup2Law.safe {oldfd newfd : Nat} {t : Task} (hlaw : Dup2Law sv c oldfd newfd s) (ht : s.task c = some t) :
    Dup2Safe sv c oldfd newfd s := by
  have h := Descs.start ht
  by_cases hfd : newfd < 20
  swap
  · exact .inl (Nat.le_of_not_lt hfd)
  cases hn : fileOf s c newfd with
  | none =>
    obtain ho | hbit := hlaw.closed h hfd hn
    · refine .inr (.inl ⟨?_, ho⟩)
      rintro rfl
      rw [hn] at ho
      cases ho
    · refine .inr (.inr (.inl ⟨hn, ?_⟩))
      intro t' ht'
      cases ht.symm.trans ht'
      exact hbit
  | some f =>
    by_cases hhalts : oldfd ≠ newfd ∧ Prog.halts (doClose sv c newfd) s = false
    · exact .inr (.inr (.inr hhalts))
    · refine .inr (.inl (hlaw.open h hfd hn ?_))
      intro hne
      exact Bool.eq_true_of_not_eq_false fun e => hhalts ⟨hne, e⟩

/-- There is no descriptor `newfd`. -/
lemma sysDup2_large {oldfd newfd : Nat} (h : Descs c F x N s) (hfd : 20 ≤ newfd) :
    Dup2Law sv c oldfd newfd s := by
  have hnone : fileOf s c newfd = none := by rw [h.fileOf_eq, dif_neg (Nat.not_lt.2 hfd)]
  refine ⟨?_, fun e ho => ?_⟩
  · rw [sysDup2, Prog.wp_bind, doClose, dif_neg (Nat.not_lt.2 hfd), Prog.wp_pure]
    refine (dupfd_large h hfd).mono ?_
    rintro r s' ⟨hr, rfl⟩
    exact ⟨fun _ => h.same h, fun hr' => absurd hr (Int.not_lt.2 hr')⟩
  · rw [e, hnone] at ho
    cases ho

/-- Neither descriptor is open, and nothing is closed. -/
lemma sysDup2_closed {oldfd newfd : Nat} (h : Descs c F x N s) (hfd : newfd < 20)
    (hn : fileOf s c newfd = none) (hbit : x.getLsbD newfd = false) (ho : fileOf s c oldfd = none) :
    Dup2Law sv c oldfd newfd s := by
  refine ⟨?_, fun _ ho' => ?_⟩
  · have hn' : F ⟨newfd, hfd⟩ = none := by rwa [h.fileOf_eq, dif_pos hfd] at hn
    rw [sysDup2, Prog.wp_bind]
    refine (doClose_closed sv hfd h hn').wp.mono ?_
    intro _ s₁ h₁
    rw [(clear_bit (by omega)).2 hbit] at h₁
    have ho₁ : fileOf s₁ c oldfd = none := by rw [h₁.fileOf_eq, ← h.fileOf_eq, ho]
    refine (dupfd_closed _ h₁ ho₁).wp.mono ?_
    rintro r s₂ ⟨rfl, rfl⟩
    exact ⟨fun _ => h.same h₁, fun hr => absurd hr (by decide)⟩
  · rw [ho] at ho'
    cases ho'

/-- The close does not return. -/
lemma sysDup2_halts {oldfd newfd : Nat} (hne : oldfd ≠ newfd)
    (hhalts : Prog.halts (doClose sv c newfd) s = false) : Dup2Law sv c oldfd newfd s := by
  refine ⟨?_, fun e => absurd e hne⟩
  intro r s' hrun
  obtain ⟨a, s₁, hclose, -⟩ := Prog.bind_ret_iff.1 hrun
  rw [Prog.halts, hclose] at hhalts
  cases hhalts

/-- `sys_dup2` keeps its law exactly when it has not to give an error after it has closed something. -/
theorem sysDup2_iff (sv : Services κ) {c : Fin 64} {s : Tables κ} {t : Task} (ht : s.task c = some t)
    (oldfd newfd : Nat) : Dup2Law sv c oldfd newfd s ↔ Dup2Safe sv c oldfd newfd s := by
  have h := Descs.start ht
  constructor
  · intro hlaw
    exact hlaw.safe ht
  · intro hsafe
    by_cases hfd : newfd < 20
    swap
    · exact sysDup2_large h (Nat.le_of_not_lt hfd)
    obtain hbad | ⟨hne, ho⟩ | ⟨hn, hbit⟩ | ⟨hne, hhalts⟩ := hsafe
    · omega
    · exact sysDup2_open h hfd hne ho
    · cases ho : fileOf s c oldfd with
      | some f =>
        refine sysDup2_open h hfd ?_ (Option.isSome_of_eq_some ho)
        rintro rfl
        rw [hn] at ho
        cases ho
      | none => exact sysDup2_closed h hfd hn (hbit t ht) ho
    · exact sysDup2_halts hne hhalts

/-- Task 0 with a pipe. -/
def piped : Tables Unit := after 0 .pipe mounted

/-- The read end, duplicated to descriptor 5. -/
theorem sysDup2_read_end : Dup2Law emptyDisk 0 0 5 piped := by
  obtain ⟨t, ht⟩ : ∃ t, piped.task 0 = some t := ⟨_, rfl⟩
  exact (sysDup2_iff emptyDisk ht 0 5).2 (.inr (.inl ⟨by decide, rfl⟩))

/-- The duplicate of the read end onto itself closes it. -/
theorem sysDup2_closes_itself : ¬ Dup2Law emptyDisk 0 0 0 piped := by
  intro h
  obtain ⟨r, s', hrun, hr, -⟩ := h.same rfl rfl
  have hclosed : (sysDup2 emptyDisk 0 0 0 piped).map Prod.fst = .ret (-ebadf) := rfl
  rw [hrun] at hclosed
  have hret : r = -ebadf := Result.ret.inj hclosed
  rw [hr] at hret
  cases hret

/-! ## Open and pipe -/

/-- `do_open` gives an error and the descriptors are as before; or it returns the lowest free descriptor,
    which now points to an entry that was free, with `f_count` 1. -/
structure OpenOutcome (c : Fin 64) (s : Tables κ) (r : Int) (s' : Tables κ) : Prop where
  error : r < 0 → SameDescriptors c s s'
  opened : 0 ≤ r → ∃ t t' fd f, s.task c = some t ∧ s'.task c = some t' ∧ r = (fd.val : Int) ∧
    (t.filp fd = none ∧ ∀ fd' < fd, t.filp fd' ≠ none) ∧ (s.fileTable f).fCount = 0 ∧
    t'.filp = update t.filp fd (some f) ∧ t'.closeOnExec = t.closeOnExec ∧
    (fun f' => (s'.fileTable f').fCount) = update (fun f' => (s.fileTable f').fCount) f 1

/-- The number of inodes in use. -/
def inodesInUse (s : Tables κ) : Nat := (Finset.univ.filter fun i => (s.inodeTable i).iCount ≠ 0).card

/-- `sys_pipe` gives an error and the descriptors and the number of inodes in use are as before; or it
    returns 0 and two free descriptors point to two entries that were free, the read and the write end of
    a pipe in a free inode, with `i_count` 2. -/
structure PipeOutcome (c : Fin 64) (s : Tables κ) (r : Int) (s' : Tables κ) : Prop where
  error : r < 0 → SameDescriptors c s s' ∧ inodesInUse s' = inodesInUse s
  made : r = 0 → ∃ t t' fd₀ fd₁ f₀ f₁ i, s.task c = some t ∧ s'.task c = some t' ∧
    fd₀ ≠ fd₁ ∧ t.filp fd₀ = none ∧ t.filp fd₁ = none ∧
    f₀ ≠ f₁ ∧ (s.fileTable f₀).fCount = 0 ∧ (s.fileTable f₁).fCount = 0 ∧
    t'.filp = update (update t.filp fd₀ (some f₀)) fd₁ (some f₁) ∧ t'.closeOnExec = t.closeOnExec ∧
    (fun f => (s'.fileTable f).fCount) =
      update (update (fun f => (s.fileTable f).fCount) f₀ 1) f₁ 1 ∧
    ((s'.fileTable f₀).fMode = 1 ∧ (s'.fileTable f₀).fInode = some i ∧ (s'.fileTable f₀).fPos = 0) ∧
    ((s'.fileTable f₁).fMode = 2 ∧ (s'.fileTable f₁).fInode = some i ∧ (s'.fileTable f₁).fPos = 0) ∧
    (s.inodeTable i).iCount = 0 ∧ (s'.inodeTable i).iPipe = true ∧ (s'.inodeTable i).iCount = 2

/-- An error of `open_namei` is negative. -/
def NegError (r : Except Int (Fin 32)) : Prop := ∀ e, r = .error e → e < 0

/-- A negative number is an error. -/
lemma negError_error {e : Int} (h : e < 0) : NegError (.error e) := fun _ he => by
  cases he
  exact h

/-- An inode is none. -/
lemma negError_ok {i : Fin 32} : NegError (.ok i) := nofun

/-- An inode is given back, and then an error. -/
lemma iput_negError {r : Option (Fin 32)} {e : Int} (h : e < 0) :
    Prog.wp (iput sv r >>= fun _ => pure (.error e)) (fun r _ => NegError r) s := by
  rw [Prog.wp_bind]
  intro _ s₁ _
  rw [Prog.wp_pure]
  exact negError_error h

/-- The errors of creating are negative. -/
lemma openCreate_negError {dir : Fin 32} {name : List Char} {flag : BitVec 32} {mode : BitVec 16} :
    Prog.wp (openCreate sv c dir name flag mode) (fun r _ => NegError r) s := by
  rw [openCreate, Prog.wp_bind, wp_inodeAt, Prog.wp_bind]
  apply wp_current
  intro t _
  show Prog.wp (if _ then _ else _) _ s
  split
  · exact iput_negError (by decide)
  · split
    · exact iput_negError (by decide)
    · rw [Prog.wp_bind]
      intro r s₁ _
      cases r with
      | none => exact iput_negError (by decide)
      | some i =>
        show Prog.wp (_ >>= _) _ s₁
        rw [Prog.wp_bind]
        intro _ s₂ _
        rw [Prog.wp_bind, wp_inodeAt, Prog.wp_bind]
        intro found s₃ _
        cases found with
        | true =>
          show Prog.wp (_ >>= _) _ s₃
          rw [Prog.wp_bind]
          intro _ s₄ _
          rw [Prog.wp_pure]
          exact negError_ok
        | false =>
          show Prog.wp (_ >>= _) _ s₃
          rw [Prog.wp_bind]
          intro _ s₄ _
          rw [Prog.wp_bind]
          intro _ s₅ _
          exact iput_negError (by decide)

/-- The errors of opening what is there are negative. -/
lemma openFound_negError {dev inr : Nat} {flag : BitVec 32} :
    Prog.wp (openFound sv c dev inr flag) (fun r _ => NegError r) s := by
  rw [openFound]
  split
  · rw [Prog.wp_pure]
    exact negError_error (by decide)
  · rw [Prog.wp_bind]
    intro i s₁ _
    rw [Prog.wp_bind, wp_inodeAt, Prog.wp_bind]
    apply wp_current
    intro t _
    show Prog.wp (if _ then _ else _) _ s₁
    split
    · exact iput_negError (by decide)
    · rw [Prog.wp_bind, wp_currentTime, Prog.wp_bind]
      intro _ s₂ _
      split
      · rw [Prog.wp_bind]
        intro _ s₃ _
        rw [Prog.wp_pure]
        exact negError_ok
      · rw [Prog.wp_pure]
        exact negError_ok

/-- All errors of `open_namei` are negative. -/
lemma openNamei_negError {pathname : List Char} {flag : BitVec 32} {mode : BitVec 16} :
    Prog.wp (openNamei sv c pathname flag mode) (fun r _ => NegError r) s := by
  rw [openNamei, Prog.wp_bind]
  apply wp_current
  intro t _
  rw [Prog.wp_bind]
  intro r s₁ _
  cases r with
  | none =>
    rw [Prog.wp_pure]
    exact negError_error (by decide)
  | some dir =>
    show Prog.wp (if _ then _ else _) _ s₁
    split
    · split
      · rw [Prog.wp_pure]
        exact negError_ok
      · exact iput_negError (by decide)
    · rw [Prog.wp_bind, wp_inodeAt, Prog.wp_bind]
      intro r s₂ _
      cases r with
      | none => exact openCreate_negError
      | some inr =>
        show Prog.wp (_ >>= _) _ s₂
        rw [Prog.wp_bind]
        intro _ s₃ _
        exact openFound_negError

/-- The descriptor and the entry that were taken are given back. -/
lemma undo_descs {fd : Fin 20} {f : Fin 64} {a : Int} (hF : F fd = none) (hN : N f = 0)
    (h : Descs c (update F fd (some f)) x (update N f 1) s) :
    Prog.wp (setFd c fd none >>= fun _ => setFCount f 0 >>= fun _ => pure a)
      (fun r s' => r = a ∧ Descs c F x N s') s := by
  rw [Prog.wp_bind]
  refine (setFd_descs h).mono ?_
  intro _ s₁ h₁
  rw [Prog.wp_bind]
  refine (setFCount_descs h₁).mono ?_
  intro _ s₂ h₂
  rw [Prog.wp_pure]
  rw [update_idem, update_none hF, update_idem, ← hN, update_eq_self] at h₂
  exact ⟨rfl, h₂⟩

/-- The terminal part of `do_open` does not touch the descriptors. -/
lemma openTty_descs {inode : MInode} (h : Descs c F x N s) :
    Prog.wp (openTty c inode) (fun _ => Descs c F x N) s := by
  rw [openTty, Prog.wp_bind]
  refine current_descs h ?_
  intro t _ _
  show Prog.wp (if _ then _ else _) _ s
  split
  · split
    · rw [Prog.wp_bind]
      have h₁ : Prog.wp (setCurrent c fun t => { t with tty := (inode.iZone 0 &&& 0xff).toNat })
          (fun _ => Descs c F x N) s := setCurrent_descs h (fun _ e => e) fun _ e => e
      refine h₁.mono ?_
      intro _ s₁ h₁
      rw [Prog.wp_bind, Prog.wp_modify, Prog.wp_pure]
      exact h₁.congr rfl rfl
    · rw [Prog.wp_pure]
      exact h
  · rw [Prog.wp_pure]
    exact h

/-- `do_open` in terms of the tables. -/
lemma doOpen_descs {filename : List Char} {flag : BitVec 32} {mode : BitVec 16} (h : Descs c F x N s)
    (hx : ∀ fd : Fin 20, F fd = none → x.getLsbD fd = false) :
    Prog.wp (doOpen sv c filename flag mode) (fun r s' =>
      (r < 0 ∧ Descs c F x N s') ∨
        ∃ fd f, r = (fd.val : Int) ∧ (F fd = none ∧ ∀ fd' < fd, F fd' ≠ none) ∧ N f = 0 ∧
          Descs c (update F fd (some f)) x (update N f 1) s') s := by
  rw [doOpen, Prog.wp_bind]
  refine current_descs h ?_
  intro t htF _
  cases hfd : freeFd t 0 with
  | none =>
    rw [Prog.wp_pure]
    exact .inl ⟨by decide, h⟩
  | some fd =>
    have hlow := freeFd_lowest hfd
    rw [htF] at hlow
    show Prog.wp (_ >>= _) _ s
    rw [Prog.wp_bind]
    refine (clearCloseOnExec_descs _ h).mono ?_
    intro _ s₁ h₁
    rw [(clear_bit (by omega)).2 (hx fd hlow.1)] at h₁
    rw [Prog.wp_bind, Prog.wp_get]
    cases hf : freeFile s₁ with
    | none =>
      rw [Prog.wp_pure]
      exact .inl ⟨by decide, h₁⟩
    | some f =>
      have hN : N f = 0 := (h₁.fCount f).symm.trans (freeFile_free hf)
      show Prog.wp (_ >>= _) _ s₁
      rw [Prog.wp_bind]
      refine (setFd_descs h₁).mono ?_
      intro _ s₂ h₂
      rw [Prog.wp_bind]
      refine (addFCount_descs h₂ hN).mono ?_
      intro _ s₃ h₃
      rw [Prog.wp_bind]
      intro r s₄ hrun
      have h₄ := wp_descs h₃ (openNamei_spec .start) _ _ hrun
      cases r with
      | error e =>
        refine (undo_descs hlow.1 hN h₄).mono ?_
        rintro r s₅ ⟨rfl, h₅⟩
        exact .inl ⟨openNamei_negError _ _ hrun _ rfl, h₅⟩
      | ok i =>
        show Prog.wp (_ >>= _) _ s₄
        rw [Prog.wp_bind, wp_inodeAt, Prog.wp_bind]
        refine (openTty_descs h₄).mono ?_
        intro go s₅ h₅
        cases go with
        | true =>
          show Prog.wp (_ >>= _) _ s₅
          rw [Prog.wp_bind]
          refine (setFile_descs (n := 1) h₅ fun _ _ => rfl).mono ?_
          intro _ s₆ h₆
          rw [update_idem] at h₆
          rw [Prog.wp_pure]
          exact .inr ⟨fd, f, rfl, hlow, hN, h₆⟩
        | false =>
          show Prog.wp (_ >>= _) _ s₅
          rw [Prog.wp_bind]
          refine (iput_descs h₅).mono ?_
          intro _ s₆ h₆
          refine (undo_descs hlow.1 hN h₆).mono ?_
          rintro r s₇ ⟨rfl, h₇⟩
          exact .inl ⟨by decide, h₇⟩

/-! The steps of `sys_pipe` leave the inodes alone. -/

/-- Binding a descriptor leaves the inodes. -/
lemma setFd_inodes {fd : Fin 20} {f : Option (Fin 64)} :
    Prog.wp (setFd c fd f) (fun _ s' => s'.inodeTable = s.inodeTable) s := by
  rw [setFd, setCurrent, Prog.wp_modify]

/-- Changing an entry leaves the inodes. -/
lemma setFile_inodes {f : Fin 64} {g : File (Fin 32) → File (Fin 32)} :
    Prog.wp (setFile f g) (fun _ s' => s'.inodeTable = s.inodeTable) s := by
  rw [setFile, Prog.wp_modify]

/-- A changed entry is what it was changed to. -/
lemma setFile_at {f : Fin 64} {g : File (Fin 32) → File (Fin 32)} :
    Prog.wp (setFile f g) (fun _ s' => s'.fileTable = update s.fileTable f (g (s.fileTable f))) s := by
  rw [setFile, Prog.wp_modify]

/-- The only entry that was free is given back, in an error. -/
lemma giveFile_descs {f₀ : Fin 64} {a : Int} (h₀ : N f₀ = 0) (h : Descs c F x (update N f₀ 1) s) :
    Prog.wp (setFCount f₀ 0 >>= fun _ => pure a)
      (fun r s' => r = a ∧ Descs c F x N s' ∧ s'.inodeTable = s.inodeTable) s := by
  rw [Prog.wp_bind]
  intro _ s₁ hrun₁
  have hd₁ := setFCount_descs h _ _ hrun₁
  rw [update_idem, update_eq_self_iff.2 h₀.symm] at hd₁
  rw [Prog.wp_pure]
  exact ⟨rfl, hd₁, setFile_inodes _ _ hrun₁⟩

/-- The two entries that were taken are given back, in an error. -/
lemma giveFiles_descs {f₀ f₁ : Fin 64} {a : Int} (h₀ : N f₀ = 0) (h₁ : update N f₀ 1 f₁ = 0)
    (h : Descs c F x (update (update N f₀ 1) f₁ 1) s) :
    Prog.wp (setFCount f₁ 0 >>= fun _ => setFCount f₀ 0 >>= fun _ => pure a)
      (fun r s' => r = a ∧ Descs c F x N s' ∧ s'.inodeTable = s.inodeTable) s := by
  rw [Prog.wp_bind]
  intro _ s₁ hrun₁
  have hd₁ := setFCount_descs h _ _ hrun₁
  have hi₁ := setFile_inodes _ _ hrun₁
  rw [Prog.wp_bind]
  intro _ s₂ hrun₂
  have hd₂ := setFCount_descs hd₁ _ _ hrun₂
  have hi₂ := setFile_inodes _ _ hrun₂
  have e₁ : update (update N f₀ 1) f₁ 0 = update N f₀ 1 := update_eq_self_iff.2 h₁.symm
  have e₀ : update N f₀ 0 = N := update_eq_self_iff.2 h₀.symm
  rw [update_idem, e₁, update_idem, e₀] at hd₂
  rw [Prog.wp_pure]
  exact ⟨rfl, hd₂, hi₂.trans hi₁⟩

/-- The only descriptor that was free is given back with the two entries. -/
lemma giveFd_descs {fd₀ : Fin 20} {f₀ f₁ : Fin 64} {a : Int} (hF : F fd₀ = none) (h₀ : N f₀ = 0)
    (h₁ : update N f₀ 1 f₁ = 0) (h : Descs c (update F fd₀ (some f₀)) x (update (update N f₀ 1) f₁ 1) s) :
    Prog.wp (setFd c fd₀ none >>= fun _ => setFCount f₁ 0 >>= fun _ => setFCount f₀ 0 >>= fun _ => pure a)
      (fun r s' => r = a ∧ Descs c F x N s' ∧ s'.inodeTable = s.inodeTable) s := by
  rw [Prog.wp_bind]
  intro _ s₁ hrun₁
  have hd₁ := setFd_descs h _ _ hrun₁
  have hi₁ := setFd_inodes _ _ hrun₁
  rw [update_idem, update_none hF] at hd₁
  refine (giveFiles_descs h₀ h₁ hd₁).mono ?_
  rintro r s₂ ⟨rfl, h₂, hi₂⟩
  exact ⟨rfl, h₂, hi₂.trans hi₁⟩

/-- Two descriptors are given back with the two entries. -/
lemma giveFds_descs {fd₀ fd₁ : Fin 20} {f₀ f₁ : Fin 64} {a : Int} (hF₀ : F fd₀ = none)
    (hF₁ : update F fd₀ (some f₀) fd₁ = none) (h₀ : N f₀ = 0) (h₁ : update N f₀ 1 f₁ = 0)
    (h : Descs c (update (update F fd₀ (some f₀)) fd₁ (some f₁)) x (update (update N f₀ 1) f₁ 1) s) :
    Prog.wp (setFd c fd₁ none >>= fun _ => setFd c fd₀ none >>= fun _ => setFCount f₁ 0 >>= fun _ =>
        setFCount f₀ 0 >>= fun _ => pure a)
      (fun r s' => r = a ∧ Descs c F x N s' ∧ s'.inodeTable = s.inodeTable) s := by
  rw [Prog.wp_bind]
  intro _ s₁ hrun₁
  have hd₁ := setFd_descs h _ _ hrun₁
  have hi₁ := setFd_inodes _ _ hrun₁
  rw [update_idem, update_none hF₁] at hd₁
  refine (giveFd_descs hF₀ h₀ h₁ hd₁).mono ?_
  rintro r s₂ ⟨rfl, h₂, hi₂⟩
  exact ⟨rfl, h₂, hi₂.trans hi₁⟩

/-- The inode of a pipe was free. -/
lemma getPipeInode_pipe : Prog.wp (getPipeInode sv) (fun r s' => ∀ i, r = some i →
    (s.inodeTable i).iCount = 0 ∧ (s'.inodeTable i).iPipe = true) s := by
  rw [getPipeInode, Prog.wp_bind]
  refine (getEmptyInode_spec (HoldsMod.start (m := 0))).mono ?_
  rintro i s₁ ⟨_, h0⟩
  rw [Prog.wp_bind]
  intro page s₂ _
  cases page with
  | none =>
    rw [Prog.wp_bind]
    intro _ s₃ _
    rw [Prog.wp_pure]
    rintro i' ⟨⟩
  | some page =>
    rw [Prog.wp_bind, setInode, Prog.wp_modify, Prog.wp_pure]
    rintro i' ⟨⟩
    refine ⟨(Nat.modEq_zero_iff.1 h0).symm, ?_⟩
    show (update s₂.inodeTable i _ i).iPipe = true
    rw [update_self]

/-- The number of inodes in use only depends on the counts. -/
lemma inodesInUse_congr (h : ∀ i, (s'.inodeTable i).iCount = (s.inodeTable i).iCount) :
    inodesInUse s' = inodesInUse s := by
  rw [inodesInUse, inodesInUse]
  simp only [h]

/-- An exit that gives everything back, from a state `s₁` in which no inode is in use that was not before. -/
lemma PipeOutcome.of_error {a r : Int} {s₁ : Tables κ} (ha : a < 0) (h : Descs c F x N s)
    (hi : ∀ i, (s₁.inodeTable i).iCount = (s.inodeTable i).iCount)
    (hr : r = a ∧ Descs c F x N s' ∧ s'.inodeTable = s₁.inodeTable) : PipeOutcome c s r s' := by
  obtain ⟨rfl, h', hi'⟩ := hr
  exact ⟨fun _ => ⟨h.same h', inodesInUse_congr fun i => by rw [hi', hi]⟩, fun e => absurd e ha.ne⟩

/-- Two ends of a pipe are bound. -/
lemma bindPipe_outcome {t : Task} {fd₀ fd₁ : Fin 20} {f₀ f₁ : Fin 64} {i : Fin 32} {s₁ : Tables κ}
    (ht : s.task c = some t) (hfd₀ : t.filp fd₀ = none) (hfd₁ : t.filp fd₁ = none) (hne : fd₀ ≠ fd₁)
    (hf₀ : (s.fileTable f₀).fCount = 0) (hf₁ : (s.fileTable f₁).fCount = 0) (hnf : f₀ ≠ f₁)
    (h : Descs c (update (update t.filp fd₀ (some f₀)) fd₁ (some f₁)) t.closeOnExec
      (update (update (fun f => (s.fileTable f).fCount) f₀ 1) f₁ 1) s₁)
    (hi : (s.inodeTable i).iCount = 0) (hp : (s₁.inodeTable i).iPipe = true)
    (hc : (s₁.inodeTable i).iCount = 2) :
    Prog.wp (setFile f₀ (fun file => { file with fInode := some i, fPos := 0, fMode := 1 }) >>= fun _ =>
        setFile f₁ (fun file => { file with fInode := some i, fPos := 0, fMode := 2 }) >>= fun _ => pure 0)
      (PipeOutcome c s) s₁ := by
  rw [Prog.wp_bind]
  intro _ s₂ hrun₂
  have h₂ := (setFile_keeps h fun _ => by rfl) _ _ hrun₂
  have hi₂ := setFile_inodes _ _ hrun₂
  rw [Prog.wp_bind]
  intro _ s₃ hrun₃
  have h₃ := (setFile_keeps h₂ fun _ => by rfl) _ _ hrun₃
  have hi₃ := (setFile_inodes _ _ hrun₃).trans hi₂
  have e₂ := setFile_at _ _ hrun₂
  have e₃ := setFile_at _ _ hrun₃
  rw [Prog.wp_pure]
  refine ⟨fun hr => absurd hr (by decide), fun _ => ?_⟩
  obtain ⟨t', ht', hF, hx⟩ := h₃.task
  refine ⟨t, t', fd₀, fd₁, f₀, f₁, i, ht, ht', hne, hfd₀, hfd₁, hnf, hf₀, hf₁, hF, hx,
    funext h₃.fCount, ?_, ?_, hi, hi₃ ▸ hp, hi₃ ▸ hc⟩
  · rw [e₃, update_of_ne hnf, e₂, update_self]
    exact ⟨rfl, rfl, rfl⟩
  · rw [e₃, update_self]
    exact ⟨rfl, rfl, rfl⟩

/-- `sys_pipe` in terms of the tables. -/
lemma sysPipe_outcome {t : Task} (ht : s.task c = some t) : Prog.wp (sysPipe sv c) (PipeOutcome c s) s := by
  have h := Descs.start ht
  rw [sysPipe, Prog.wp_bind, Prog.wp_get]
  cases hf₀ : freeFile s with
  | none =>
    rw [Prog.wp_pure]
    exact .of_error (by decide) h (fun _ => rfl) ⟨rfl, h, rfl⟩
  | some f₀ =>
    have hN₀ : (s.fileTable f₀).fCount = 0 := freeFile_free hf₀
    show Prog.wp (_ >>= _) _ s
    rw [Prog.wp_bind]
    intro _ s₁ hrun₁
    have h₁ := addFCount_descs h hN₀ _ _ hrun₁
    have hi₁ := setFile_inodes _ _ hrun₁
    rw [Prog.wp_bind, Prog.wp_get]
    cases hf₁ : freeFile s₁ with
    | none =>
      exact (giveFile_descs hN₀ h₁).mono fun _ _ => .of_error (by decide) h fun i => by rw [hi₁]
    | some f₁ =>
      have hN₁ := (h₁.fCount f₁).symm.trans (freeFile_free hf₁)
      have hnf : f₀ ≠ f₁ := by
        rintro rfl
        rw [update_self] at hN₁
        cases hN₁
      show Prog.wp (_ >>= _) _ s₁
      rw [Prog.wp_bind]
      intro _ s₂ hrun₂
      have h₂ := addFCount_descs h₁ hN₁ _ _ hrun₂
      have hi₂ := (setFile_inodes _ _ hrun₂).trans hi₁
      rw [Prog.wp_bind]
      refine current_descs h₂ ?_
      intro t₂ htF₂ _
      cases hfd₀ : freeFd t₂ 0 with
      | none =>
        exact (giveFiles_descs hN₀ hN₁ h₂).mono fun _ _ => .of_error (by decide) h fun i => by rw [hi₂]
      | some fd₀ =>
        have hF₀ : t.filp fd₀ = none := htF₂ ▸ freeFd_free hfd₀
        show Prog.wp (_ >>= _) _ s₂
        rw [Prog.wp_bind]
        intro _ s₃ hrun₃
        have h₃ := setFd_descs h₂ _ _ hrun₃
        have hi₃ := (setFd_inodes _ _ hrun₃).trans hi₂
        rw [Prog.wp_bind]
        refine current_descs h₃ ?_
        intro t₃ htF₃ _
        cases hfd₁ : freeFd t₃ 0 with
        | none =>
          exact (giveFd_descs hF₀ hN₀ hN₁ h₃).mono fun _ _ => .of_error (by decide) h fun i => by rw [hi₃]
        | some fd₁ =>
          have hF₁ : update t.filp fd₀ (some f₀) fd₁ = none := htF₃ ▸ freeFd_free hfd₁
          have hne : fd₀ ≠ fd₁ := by
            rintro rfl
            rw [update_self] at hF₁
            cases hF₁
          show Prog.wp (_ >>= _) _ s₃
          rw [Prog.wp_bind]
          intro _ s₄ hrun₄
          have h₄ := setFd_descs h₃ _ _ hrun₄
          have hi₄ := (setFd_inodes _ _ hrun₄).trans hi₃
          rw [Prog.wp_bind]
          intro r s₅ hrun₅
          have hw := getPipeInode_spec (HoldsMod.start (m := 0)) _ _ hrun₅
          have h₅ := h₄.congr hw.task hw.file
          cases r with
          | none =>
            refine (giveFds_descs hF₀ hF₁ hN₀ hN₁ h₅).mono fun _ _ => .of_error (by decide) h fun i => ?_
            rw [hw.exact, hi₄]
            rfl
          | some i =>
            obtain ⟨hi, hp⟩ := getPipeInode_pipe _ _ hrun₅ i rfl
            have hc := hw.exact i
            rw [Pi.add_apply, Pi.add_apply, ref_self, hi] at hc
            rw [hi₄] at hi
            rw [update_of_ne hne.symm] at hF₁
            rw [update_of_ne hnf.symm] at hN₁
            exact bindPipe_outcome ht hF₀ hF₁ hne hN₀ hN₁ hnf h₅ hi hp hc

/-- A failing `do_open` or `sys_pipe` leaves the descriptors as they were; one that succeeds binds what was
    free. -/
theorem openPipe_atomic (sv : Services κ) {c : Fin 64} {s : Tables κ} {t : Task} (ht : s.task c = some t)
    (hclear : ∀ fd : Fin 20, t.filp fd = none → t.closeOnExec.getLsbD fd = false) :
    (∀ filename flag mode, Prog.wp (doOpen sv c filename flag mode) (OpenOutcome c s) s) ∧
      Prog.wp (sysPipe sv c) (PipeOutcome c s) s := by
  refine ⟨?_, sysPipe_outcome ht⟩
  intro filename flag mode
  have h := Descs.start ht
  refine (doOpen_descs h hclear).mono ?_
  rintro r s' (⟨hr, h'⟩ | ⟨fd, f, rfl, hlow, hN, h'⟩)
  · exact ⟨fun _ => h.same h', fun hr' => absurd hr (Int.not_lt.2 hr')⟩
  · refine ⟨fun hr => absurd hr (Int.not_lt.2 (Int.natCast_nonneg _)), fun _ => ?_⟩
    obtain ⟨t', ht', hF, hx⟩ := h'.task
    exact ⟨t, t', fd, f, ht, ht', rfl, hlow, hN, hF, hx, funext h'.fCount⟩

/-- Task 0, which has no descriptor open. -/
theorem openPipe_atomic_mounted :
    (∀ filename flag mode, Prog.wp (doOpen emptyDisk 0 filename flag mode) (OpenOutcome 0 mounted) mounted) ∧
      Prog.wp (sysPipe emptyDisk 0) (PipeOutcome 0 mounted) mounted :=
  openPipe_atomic emptyDisk (t := initTask) rfl (by decide)

end OldLinux.Files
