import OldLinux.Files.View

/-!
# Reference counts

In every run of the system calls the counts `f_count` and `i_count` stay right exactly as long as no
task that holds a descriptor, a `pwd` or a `root` forks (`descriptor_counts_iff`): `copy_process` copies
the pointers of the parent into the child, and the lines that would count them are commented out.
Every other system call keeps the tables balanced.
-/

namespace OldLinux.Files
open Lib Fs Function

variable {κ : Type} {sv : Services κ} {c : Fin 64} {s s' : Tables κ}
variable {F : Fin 64 × Fin 20 → Option (Fin 64)} {I : Holder → Option (Fin 32)}
variable {N : Fin 64 → Nat} {R : Fin 32 → Nat}

/-! ## System calls -/

/-- A descriptor the tables show as free. -/
lemma freeFd_free {t : Task} {arg : Nat} {fd : Fin 20} (h : freeFd t arg = some fd) :
    t.filp fd = none := by
  have hf := List.find?_some h
  rw [decide_eq_true_eq] at hf
  exact hf.2

/-- An entry of the file table that the tables show as free is unused. -/
lemma freeFile_free {f : Fin 64} (h : freeFile s = some f) : (s.fileTable f).fCount = 0 := by
  have hf := List.find?_some h
  rwa [decide_eq_true_eq] at hf

/-- A file table entry that is not in use points to no inode. -/
lemma View.file_none (h : View c F I N R s) {f : Fin 64} (hf : N f = 0) : I (.file f) = none := by
  rw [h.file, if_pos hf]

/-- `iput`, and then a value. -/
lemma iput_view {α : Type} {r : Option (Fin 32)} {a : α} (h : View c F I N (R + ref r) s) :
    Prog.wp (iput sv r >>= fun _ => pure a) (fun _ => View c F I N R) s := by
  rw [Prog.wp_bind]
  refine (wp_view iput_spec h).mono ?_
  intro _ s₁ h₁
  rw [Prog.wp_pure]
  exact h₁

/-- `do_close` clears a descriptor. -/
lemma doClose_spec {fd : Nat} (h : Balanced c F I s) :
    Prog.wp (doClose sv c fd)
      (fun _ s' => ∃ F' I', Balanced c F' I' s' ∧
        ∀ fd' : Fin 20, F' (c, fd') = if fd'.val = fd then none else F (c, fd')) s := by
  rw [doClose]
  split
  · next hfd =>
    rw [Prog.wp_bind]
    refine (clearCloseOnExec_spec h).mono ?_
    intro _ s₁ h₁
    rw [Prog.wp_bind]
    apply wp_current
    intro t ht
    have hF := (h₁.current ht).1 ⟨fd, hfd⟩
    cases hf : t.filp ⟨fd, hfd⟩ with
    | none =>
      -- the descriptor is free already
      rw [Prog.wp_pure]
      refine ⟨F, I, h₁, ?_⟩
      intro fd'
      split
      · next e =>
        subst e
        exact hF.trans hf
      · rfl
    | some f =>
      rw [hf] at hF
      have hupd : ∀ fd' : Fin 20, update F (c, ⟨fd, hfd⟩) none (c, fd') =
          if fd'.val = fd then none else F (c, fd') := by
        intro fd'
        split
        · next e =>
          subst e
          rw [update_self]
        · next e => rw [update_of_ne fun e' => e (congrArg Fin.val (Prod.mk.inj e').2)]
      have hpos : 0 < tally F f := tally_pos hF
      show Prog.wp (_ >>= _) _ s₁
      rw [Prog.wp_bind]
      refine (setFd_spec h₁).mono ?_
      intro _ s₂ h₂
      have hcount := h₂.fCount f
      have hfile := h₂.file f
      rw [if_neg hpos.ne'] at hfile
      rw [Prog.wp_bind, wp_fileAt]
      split
      · exact Prog.wp_panic
      · rw [hcount, Prog.wp_bind]
        by_cases h1 : tally F f - 1 = 0
        · -- the last descriptor: the entry gives its inode back
          refine (setFCount_spec h₂).mono ?_
          intro _ s₄ h₄
          rw [if_pos h1, ← tally_clear_some hF, ← tally_clear I (.file f), hfile] at h₄
          rw [if_neg (not_not.2 h1)]
          refine (iput_view h₄).mono ?_
          intro _ s₅ h₅
          exact ⟨_, _, h₅, hupd⟩
        · -- other descriptors still point to the entry
          refine (setFCount_spec h₂).mono ?_
          intro _ s₄ h₄
          rw [if_pos h1, Prog.wp_pure]
          rw [if_neg h1, ← tally_clear_some hF, ← hfile, update_eq_self] at h₄
          exact ⟨_, _, h₄, hupd⟩
  · next hfd =>
    rw [Prog.wp_pure]
    refine ⟨F, I, h, ?_⟩
    intro fd'
    rw [if_neg]
    have := fd'.isLt
    omega

/-- `dupfd` points a free descriptor to the same entry. -/
lemma dupfd_spec {fd arg : Nat} (h : Balanced c F I s) :
    Prog.wp (dupfd c fd arg) (fun _ => Tables.Counted) s := by
  rw [dupfd, Prog.wp_bind]
  apply wp_current
  intro t ht
  split
  · next hfd =>
    cases hf : t.filp ⟨fd, hfd⟩ with
    | none =>
      rw [Prog.wp_pure]
      exact h.counted
    | some f =>
      show Prog.wp (if _ then _ else _) _ s
      split
      · rw [Prog.wp_pure]
        exact h.counted
      · cases hn : freeFd t arg with
        | none =>
          rw [Prog.wp_pure]
          exact h.counted
        | some new =>
          have hnew : F (c, new) = none := ((h.current ht).1 new).trans (freeFd_free hn)
          have hpos : 0 < tally F f := tally_pos (((h.current ht).1 ⟨fd, hfd⟩).trans hf)
          show Prog.wp (_ >>= _) _ s
          rw [Prog.wp_bind]
          refine (clearCloseOnExec_spec h).mono ?_
          intro _ s₁ h₁
          rw [Prog.wp_bind]
          refine (setFd_spec h₁).mono ?_
          intro _ s₂ h₂
          have hfile := h₂.file f
          rw [if_neg hpos.ne'] at hfile
          rw [Prog.wp_bind]
          refine (addFCount_spec h₂).mono ?_
          intro _ s₃ h₃
          rw [Prog.wp_pure]
          rw [← hfile, update_eq_self, ← tally_set_some hnew] at h₃
          exact Balanced.counted h₃
  · rw [Prog.wp_pure]
    exact h.counted

/-- `sys_dup2` points a descriptor to an entry, and the entry counts it. -/
lemma sysDup2_spec {oldfd newfd : Nat} (h : Balanced c F I s) :
    Prog.wp (sysDup2 sv c oldfd newfd) (fun _ => Tables.Counted) s := by
  rw [sysDup2, Prog.wp_bind]
  refine (doClose_spec h).mono ?_
  rintro _ s₁ ⟨F', I', h₁, _⟩
  exact dupfd_spec h₁

/-- So does `sys_fcntl` with `F_DUPFD`. -/
lemma sysFcntl_spec {fd cmd : Nat} {arg : BitVec 64} (h : Balanced c F I s) :
    Prog.wp (sysFcntl c fd cmd arg) (fun _ => Tables.Counted) s := by
  rw [sysFcntl, Prog.wp_bind]
  apply wp_current
  intro t ht
  split
  · next hfd =>
    cases hf : t.filp ⟨fd, hfd⟩ with
    | none =>
      rw [Prog.wp_pure]
      exact h.counted
    | some f =>
      dsimp only
      split
      · exact dupfd_spec h
      · rw [Prog.wp_pure]
        exact h.counted
      · rw [Prog.wp_bind]
        refine (setCurrent_keep h ?_ ?_ ?_ ?_).mono ?_
        · exact fun _ => rfl
        · exact fun _ => rfl
        · exact fun _ => rfl
        · exact fun _ => rfl
        · intro _ s₁ h₁
          rw [Prog.wp_pure]
          exact Balanced.counted h₁
      · rw [Prog.wp_bind, wp_fileAt, Prog.wp_pure]
        exact h.counted
      · rw [Prog.wp_bind]
        refine (setFile_keep h ?_ ?_).mono ?_
        · exact fun _ => rfl
        · exact fun _ => rfl
        · intro _ s₁ h₁
          rw [Prog.wp_pure]
          exact Balanced.counted h₁
      · rw [Prog.wp_pure]
        exact h.counted
  · rw [Prog.wp_pure]
    exact h.counted

/-- Clearing what is clear already. -/
lemma update_none {α β : Type} [DecidableEq α] {g : α → Option β} {a : α} (h : g a = none) :
    update g a none = g := by
  rw [← h, update_eq_self]

/-- A free entry of the file table is taken. -/
lemma takeFile_spec {f : Fin 64} (h : View c F I N R s) (hf : N f = 0) :
    Prog.wp (addFCount f) (fun _ s' => ∃ x, View c F (update I (.file f) x) (update N f 1) R s') s := by
  refine (addFCount_spec h).mono ?_
  intro _ s₁ h₁
  rw [hf] at h₁
  exact ⟨_, h₁⟩

/-- An entry of the file table that was taken is given back. -/
lemma giveFile_spec {f : Fin 64} {x : Option (Fin 32)} {n : Nat}
    (h : View c F (update I (.file f) x) (update N f n) R s) (hI : I (.file f) = none) (hN : N f = 0) :
    Prog.wp (setFCount f 0) (fun _ => View c F I N R) s := by
  refine (setFCount_spec h).mono ?_
  intro _ s₁ h₁
  rw [update_idem, update_idem, if_pos rfl, update_none hI, ← hN, update_eq_self] at h₁
  exact h₁

/-- A free descriptor that was set is cleared. -/
lemma clearFd_spec {fd : Fin 20} {x : Option (Fin 64)} (h : View c (update F (c, fd) x) I N R s)
    (hF : F (c, fd) = none) : Prog.wp (setFd c fd none) (fun _ => View c F I N R) s := by
  refine (setFd_spec h).mono ?_
  intro _ s₁ h₁
  rw [update_idem, update_none hF] at h₁
  exact h₁

/-- `current->filp[fd]=NULL; f->f_count=0`, after `current->filp[fd]=f; f->f_count++`. -/
lemma undo_spec {fd : Fin 20} {f : Fin 64} {x : Option (Fin 64)} {y : Option (Fin 32)} {n : Nat}
    {α : Type} {a : α} (h : View c (update F (c, fd) x) (update I (.file f) y) (update N f n) R s)
    (hF : F (c, fd) = none) (hI : I (.file f) = none) (hN : N f = 0) :
    Prog.wp (setFd c fd none >>= fun _ => setFCount f 0 >>= fun _ => pure a)
      (fun _ => View c F I N R) s := by
  rw [Prog.wp_bind]
  refine (clearFd_spec h hF).mono ?_
  intro _ s₁ h₁
  rw [Prog.wp_bind]
  refine (giveFile_spec h₁ hI hN).mono ?_
  intro _ s₂ h₂
  rw [Prog.wp_pure]
  exact h₂

/-- The terminal part of `do_open` changes no pointer. -/
lemma openTty_spec {inode : MInode} (h : View c F I N R s) :
    Prog.wp (openTty c inode) (fun _ => View c F I N R) s := by
  rw [openTty, Prog.wp_bind]
  apply wp_current
  intro t ht
  show Prog.wp (if _ then _ else _) _ s
  split
  · split
    · rw [Prog.wp_bind]
      refine (setCurrent_keep h ?_ ?_ ?_ ?_).mono ?_
      · exact fun _ => rfl
      · exact fun _ => rfl
      · exact fun _ => rfl
      · exact fun _ => rfl
      · intro _ s₁ h₁
        rw [Prog.wp_bind, Prog.wp_modify, Prog.wp_pure]
        exact ⟨h₁.live, h₁.fileRef, h₁.inodeRef, h₁.fCount, h₁.iCount, h₁.small⟩
    · rw [Prog.wp_pure]
      exact h
  · rw [Prog.wp_pure]
    exact h

/-- `do_open` points a free descriptor to a free entry, and the entry to an inode, or nothing. -/
lemma doOpen_spec {filename : List Char} {flag : BitVec 32} {mode : BitVec 16} (h : Balanced c F I s) :
    Prog.wp (doOpen sv c filename flag mode) (fun _ => Tables.Counted) s := by
  rw [doOpen, Prog.wp_bind]
  apply wp_current
  intro t ht
  cases hfd : freeFd t 0 with
  | none =>
    rw [Prog.wp_pure]
    exact h.counted
  | some fd =>
    have hF : F (c, fd) = none := ((h.current ht).1 fd).trans (freeFd_free hfd)
    show Prog.wp (_ >>= _) _ s
    rw [Prog.wp_bind]
    refine (clearCloseOnExec_spec h).mono ?_
    intro _ s₁ h₁
    rw [Prog.wp_bind, Prog.wp_get]
    cases hf : freeFile s₁ with
    | none =>
      rw [Prog.wp_pure]
      exact Balanced.counted h₁
    | some f =>
      have hN : tally F f = 0 := (h₁.fCount f).symm.trans (freeFile_free hf)
      have hI : I (.file f) = none := h₁.file_none hN
      show Prog.wp (_ >>= _) _ s₁
      rw [Prog.wp_bind]
      refine (setFd_spec h₁).mono ?_
      intro _ s₂ h₂
      rw [Prog.wp_bind]
      refine (addFCount_spec h₂).mono ?_
      intro _ s₃ h₃
      rw [Prog.wp_bind]
      refine (wp_view openNamei_spec h₃).mono ?_
      intro r s₄ h₄
      cases r with
      | error e =>
        -- the descriptor and the entry are taken back
        refine (undo_spec h₄ hF hI hN).mono ?_
        intro _ s₅ h₅
        exact Balanced.counted h₅
      | ok i =>
        show Prog.wp (_ >>= _) _ s₄
        rw [Prog.wp_bind, wp_inodeAt, Prog.wp_bind]
        refine (openTty_spec h₄).mono ?_
        intro go s₅ h₅
        cases go with
        | true =>
          -- the reference that `open_namei` returned passes to the entry
          show Prog.wp (_ >>= _) _ s₅
          rw [Prog.wp_bind]
          refine (setFile_spec h₅ rfl rfl).mono ?_
          intro _ s₆ h₆
          rw [Prog.wp_pure]
          rw [update_idem, update_idem, if_neg Nat.one_ne_zero] at h₆
          have eN : update (tally F) f 1 = tally (update F (c, fd) (some f)) := by
            rw [tally_set_some hF, hN]
          have eR : tally I + ref (some i) = tally (update I (.file f) (some i)) :=
            (tally_set hI _).symm
          have h₇ : Balanced c (update F (c, fd) (some f)) (update I (.file f) (some i)) s₆ := by
            rw [Balanced, ← eN, ← eR]
            exact h₆
          exact h₇.counted
        | false =>
          show Prog.wp (_ >>= _) _ s₅
          rw [Prog.wp_bind]
          refine (wp_view iput_spec h₅).mono ?_
          intro _ s₆ h₆
          refine (undo_spec h₆ hF hI hN).mono ?_
          intro _ s₇ h₇
          exact Balanced.counted h₇

/-- `sys_chdir` moves the `pwd` pointer. -/
lemma sysChdir_spec {filename : List Char} (h : Balanced c F I s) :
    Prog.wp (sysChdir sv c filename) (fun _ => Tables.Counted) s := by
  rw [sysChdir, Prog.wp_bind]
  refine (wp_view namei_spec h).mono ?_
  intro r s₁ h₁
  cases r with
  | none =>
    rw [Prog.wp_pure]
    exact Balanced.counted h₁
  | some i =>
    show Prog.wp (_ >>= _) _ s₁
    rw [Prog.wp_bind, wp_inodeAt]
    split
    · refine (iput_view h₁).mono ?_
      intro _ s₂ h₂
      exact Balanced.counted h₂
    · rw [Prog.wp_bind]
      apply wp_current
      intro t ht
      have hp := (h₁.current ht).2.1
      have eR : tally I + ref (some i) = tally (update I (.pwd c) (some i)) + ref t.pwd := by
        rw [← hp]
        exact (tally_update I (.pwd c) (some i)).symm
      rw [eR] at h₁
      rw [Prog.wp_bind]
      refine (wp_view iput_spec h₁).mono ?_
      intro _ s₂ h₂
      rw [Prog.wp_bind]
      refine (setPwd_spec h₂).mono ?_
      intro _ s₃ h₃
      rw [Prog.wp_pure]
      exact Balanced.counted h₃

/-- Two entries of the file table are given back, and the call fails. -/
lemma giveFiles_spec {f₀ f₁ : Fin 64} {x₀ x₁ : Option (Fin 32)} {a : Int}
    (h : View c F (update (update I (.file f₀) x₀) (.file f₁) x₁) (update (update N f₀ 1) f₁ 1) R s)
    (hI₀ : I (.file f₀) = none) (hN₀ : N f₀ = 0)
    (hI₁ : update I (.file f₀) x₀ (.file f₁) = none) (hN₁ : update N f₀ 1 f₁ = 0) :
    Prog.wp (setFCount f₁ 0 >>= fun _ => setFCount f₀ 0 >>= fun _ => pure a)
      (fun _ => View c F I N R) s := by
  rw [Prog.wp_bind]
  refine (giveFile_spec h hI₁ hN₁).mono ?_
  intro _ s₁ h₁
  rw [Prog.wp_bind]
  refine (giveFile_spec h₁ hI₀ hN₀).mono ?_
  intro _ s₂ h₂
  rw [Prog.wp_pure]
  exact h₂

/-- A descriptor is given back with the two entries. -/
lemma giveFd_spec {fd₀ : Fin 20} {f₀ f₁ : Fin 64} {x₀ x₁ : Option (Fin 32)} {y : Option (Fin 64)} {a : Int}
    (h : View c (update F (c, fd₀) y) (update (update I (.file f₀) x₀) (.file f₁) x₁)
      (update (update N f₀ 1) f₁ 1) R s) (hF₀ : F (c, fd₀) = none)
    (hI₀ : I (.file f₀) = none) (hN₀ : N f₀ = 0)
    (hI₁ : update I (.file f₀) x₀ (.file f₁) = none) (hN₁ : update N f₀ 1 f₁ = 0) :
    Prog.wp (setFd c fd₀ none >>= fun _ => setFCount f₁ 0 >>= fun _ => setFCount f₀ 0 >>= fun _ => pure a)
      (fun _ => View c F I N R) s := by
  rw [Prog.wp_bind]
  refine (clearFd_spec h hF₀).mono ?_
  intro _ s₁ h₁
  exact giveFiles_spec h₁ hI₀ hN₀ hI₁ hN₁

/-- Two descriptors are given back with their two entries. -/
lemma giveFds_spec {fd₀ fd₁ : Fin 20} {f₀ f₁ : Fin 64} {x₀ x₁ : Option (Fin 32)} {y₀ y₁ : Option (Fin 64)} {a : Int}
    (h : View c (update (update F (c, fd₀) y₀) (c, fd₁) y₁) (update (update I (.file f₀) x₀) (.file f₁) x₁)
      (update (update N f₀ 1) f₁ 1) R s)
    (hF₀ : F (c, fd₀) = none) (hF₁ : update F (c, fd₀) y₀ (c, fd₁) = none)
    (hI₀ : I (.file f₀) = none) (hN₀ : N f₀ = 0)
    (hI₁ : update I (.file f₀) x₀ (.file f₁) = none) (hN₁ : update N f₀ 1 f₁ = 0) :
    Prog.wp (setFd c fd₁ none >>= fun _ => setFd c fd₀ none >>= fun _ => setFCount f₁ 0 >>= fun _ =>
      setFCount f₀ 0 >>= fun _ => pure a) (fun _ => View c F I N R) s := by
  rw [Prog.wp_bind]
  refine (clearFd_spec h hF₁).mono ?_
  intro _ s₁ h₁
  exact giveFd_spec h₁ hF₀ hI₀ hN₀ hI₁ hN₁

/-- A file table entry in use is pointed to an inode. -/
lemma pointFile_spec {f : Fin 64} {i : Fin 32} {g : File (Fin 32) → File (Fin 32)}
    (h : View c F I N R s) (hN : N f ≠ 0) (hc : ∀ x, (g x).fCount = x.fCount)
    (hi : ∀ x, (g x).fInode = some i) :
    Prog.wp (setFile f g) (fun _ => View c F (update I (.file f) (some i)) N R) s := by
  have hx : (if N f = 0 then none else (g (s.fileTable f)).fInode) = some i := by
    rw [if_neg hN, hi]
  have hset := setFile_spec h ((hc _).trans (h.fCount f)) hx
  rwa [update_eq_self] at hset

/-- The counts of the two entries of a pipe are those of their descriptors. -/
lemma pipe_files {fd₀ fd₁ : Fin 20} {f₀ f₁ : Fin 64} (hF₀ : F (c, fd₀) = none)
    (hF₁ : update F (c, fd₀) (some f₀) (c, fd₁) = none) (hN₀ : tally F f₀ = 0)
    (hN₁ : update (tally F) f₀ 1 f₁ = 0) :
    update (update (tally F) f₀ 1) f₁ 1 =
      tally (update (update F (c, fd₀) (some f₀)) (c, fd₁) (some f₁)) := by
  rw [tally_set_some hF₁, tally_set_some hF₀, hN₀, hN₁]

/-- The two entries of a pipe point to its inode. -/
lemma pipe_inodes {f₀ f₁ : Fin 64} {x₀ x₁ : Option (Fin 32)} {i : Fin 32} (hne : f₁ ≠ f₀) :
    update (update (update (update I (.file f₀) x₀) (.file f₁) x₁) (.file f₀) (some i)) (.file f₁)
      (some i) = update (update I (.file f₀) (some i)) (.file f₁) (some i) := by
  have hne' : Holder.file f₁ ≠ Holder.file f₀ := by simpa using hne
  rw [update_comm hne', update_idem, update_idem]

/-- The count of the inode of a pipe is that of its two entries. -/
lemma pipe_refs {f₀ f₁ : Fin 64} {x₀ : Option (Fin 32)} (hne : f₁ ≠ f₀) (hI₀ : I (.file f₀) = none)
    (hI₁ : update I (.file f₀) x₀ (.file f₁) = none) (i : Fin 32) :
    tally I + ref (some i) + ref (some i) =
      tally (update (update I (.file f₀) (some i)) (.file f₁) (some i)) := by
  have hne' : Holder.file f₁ ≠ Holder.file f₀ := by simpa using hne
  rw [update_of_ne hne'] at hI₁
  rw [tally_set, tally_set hI₀]
  rwa [update_of_ne hne']

/-- Two descriptors are bound to the ends of a pipe: the count 2 of its inode pays for the two entries. -/
lemma bindPipe_spec {fd₀ fd₁ : Fin 20} {f₀ f₁ : Fin 64} {x₀ x₁ : Option (Fin 32)} {i : Fin 32}
    (h : View c (update (update F (c, fd₀) (some f₀)) (c, fd₁) (some f₁))
      (update (update I (.file f₀) x₀) (.file f₁) x₁) (update (update (tally F) f₀ 1) f₁ 1)
      (tally I + ref (some i) + ref (some i)) s)
    (hF₀ : F (c, fd₀) = none) (hF₁ : update F (c, fd₀) (some f₀) (c, fd₁) = none)
    (hI₀ : I (.file f₀) = none) (hN₀ : tally F f₀ = 0)
    (hI₁ : update I (.file f₀) x₀ (.file f₁) = none) (hN₁ : update (tally F) f₀ 1 f₁ = 0) (hne : f₁ ≠ f₀) :
    Prog.wp (setFile f₀ (fun file => { file with fInode := some i, fPos := 0, fMode := 1 }) >>= fun _ =>
        setFile f₁ (fun file => { file with fInode := some i, fPos := 0, fMode := 2 }) >>= fun _ => pure (0 : Int))
      (fun _ => Tables.Counted) s := by
  have hc₀ : update (update (tally F) f₀ 1) f₁ 1 f₀ ≠ 0 := by
    rw [update_of_ne hne.symm, update_self]
    exact Nat.one_ne_zero
  have hc₁ : update (update (tally F) f₀ 1) f₁ 1 f₁ ≠ 0 := by
    rw [update_self]
    exact Nat.one_ne_zero
  rw [Prog.wp_bind]
  refine (pointFile_spec (i := i) h hc₀ ?_ ?_).mono ?_
  · exact fun _ => rfl
  · exact fun _ => rfl
  intro _ s₁ h₁
  rw [Prog.wp_bind]
  refine (pointFile_spec (i := i) h₁ hc₁ ?_ ?_).mono ?_
  · exact fun _ => rfl
  · exact fun _ => rfl
  intro _ s₂ h₂
  rw [Prog.wp_pure]
  rw [pipe_files hF₀ hF₁ hN₀ hN₁, pipe_inodes hne, pipe_refs hne hI₀ hI₁ i] at h₂
  exact Balanced.counted h₂

/-- `sys_pipe` points two free descriptors to two free entries, and both to a new inode, or nothing. -/
lemma sysPipe_spec (h : Balanced c F I s) : Prog.wp (sysPipe sv c) (fun _ => Tables.Counted) s := by
  rw [sysPipe, Prog.wp_bind, Prog.wp_get]
  cases hf₀ : freeFile s with
  | none =>
    rw [Prog.wp_pure]
    exact h.counted
  | some f₀ =>
    have hN₀ : tally F f₀ = 0 := (h.fCount f₀).symm.trans (freeFile_free hf₀)
    have hI₀ : I (.file f₀) = none := View.file_none h hN₀
    show Prog.wp (_ >>= _) _ s
    rw [Prog.wp_bind]
    refine (takeFile_spec h hN₀).mono ?_
    rintro _ s₁ ⟨x₀, h₁⟩
    rw [Prog.wp_bind, Prog.wp_get]
    cases hf₁ : freeFile s₁ with
    | none =>
      -- only one entry is free: it is given back
      show Prog.wp (_ >>= _) _ s₁
      rw [Prog.wp_bind]
      refine (giveFile_spec h₁ hI₀ hN₀).mono ?_
      intro _ s₂ h₂
      rw [Prog.wp_pure]
      exact Balanced.counted h₂
    | some f₁ =>
      have hN₁ : update (tally F) f₀ 1 f₁ = 0 := (h₁.fCount f₁).symm.trans (freeFile_free hf₁)
      have hI₁ := h₁.file_none hN₁
      have hne : f₁ ≠ f₀ := by
        rintro rfl
        rw [update_self] at hN₁
        cases hN₁
      show Prog.wp (_ >>= _) _ s₁
      rw [Prog.wp_bind]
      refine (takeFile_spec h₁ hN₁).mono ?_
      rintro _ s₂ ⟨x₁, h₂⟩
      rw [Prog.wp_bind]
      apply wp_current
      intro t ht
      cases hfd₀ : freeFd t 0 with
      | none =>
        exact (giveFiles_spec h₂ hI₀ hN₀ hI₁ hN₁).mono fun _ _ h₃ => Balanced.counted h₃
      | some fd₀ =>
        have hF₀ : F (c, fd₀) = none := ((h₂.current ht).1 fd₀).trans (freeFd_free hfd₀)
        show Prog.wp (_ >>= _) _ s₂
        rw [Prog.wp_bind]
        refine (setFd_spec h₂).mono ?_
        intro _ s₃ h₃
        rw [Prog.wp_bind]
        apply wp_current
        intro t' ht'
        cases hfd₁ : freeFd t' 0 with
        | none =>
          exact (giveFd_spec h₃ hF₀ hI₀ hN₀ hI₁ hN₁).mono fun _ _ h₄ => Balanced.counted h₄
        | some fd₁ =>
          have hF₁ := ((h₃.current ht').1 fd₁).trans (freeFd_free hfd₁)
          show Prog.wp (_ >>= _) _ s₃
          rw [Prog.wp_bind]
          refine (setFd_spec h₃).mono ?_
          intro _ s₄ h₄
          rw [Prog.wp_bind]
          refine (wp_view getPipeInode_spec h₄).mono ?_
          intro r s₅ h₅
          cases r with
          | none =>
            exact (giveFds_spec h₅ hF₀ hF₁ hI₀ hN₀ hI₁ hN₁).mono fun _ _ h₆ => Balanced.counted h₆
          | some i => exact bindPipe_spec h₅ hF₀ hF₁ hI₀ hN₀ hI₁ hN₁ hne

/-! ## Exit -/

/-- Tables with the same pointers and the same counts. -/
lemma Tables.Counted.congr (h : s.Counted) (hs : ∀ i, SameSlot (s.task i) (s'.task i))
    (hf : s'.fileTable = s.fileTable) (hi : s'.inodeTable = s.inodeTable) (hu : s'.sIsup = s.sIsup)
    (hm : s'.sImount = s.sImount) : s'.Counted := by
  obtain ⟨hF, hI⟩ := refs_congr hs hf hu hm
  constructor
  · intro f
    rw [hf, hF]
    exact h.file f
  · intro i
    rw [hi, hI]
    exact h.inode i

/-- The current task is changed, in any table that is counted right. -/
lemma setCurrent_counted {f : Task → Task} (h : s.Counted)
    (hs : SameSlot (s.task c) ((s.task c).map f)) :
    Prog.wp (setCurrent c f) (fun _ => Tables.Counted) s := by
  rw [setCurrent, Prog.wp_modify]
  refine h.congr ?_ rfl rfl rfl rfl
  intro i
  show SameSlot (s.task i) (update s.task c ((s.task c).map f) i)
  by_cases hi : i = c
  · subst hi
    rw [update_self]
    exact hs
  · rw [update_of_ne hi]
    exact .refl _

/-- A task without pointers. -/
structure Task.Bare (t : Task) : Prop where
  filp : ∀ fd, t.filp fd = none
  pwd : t.pwd = none
  root : t.root = none

/-- The pointers of a slot that holds none. -/
lemma liveTask_bare {t : Task} (h : t.Bare) :
    (∀ fd, ((liveTask (some t)).bind fun t => t.filp fd) = none) ∧
      (liveTask (some t)).bind Task.pwd = none ∧ (liveTask (some t)).bind Task.root = none := by
  by_cases hl : t.Live
  · rw [liveTask_some hl]
    exact ⟨h.filp, h.pwd, h.root⟩
  · rw [liveTask_exited hl]
    exact ⟨fun _ => rfl, rfl, rfl⟩

/-- Slots that hold no pointers. -/
lemma SameSlot.bare {t t' : Task} (h : t.Bare) (h' : t'.Bare) : SameSlot (some t) (some t') := by
  obtain ⟨hf, hp, hr⟩ := liveTask_bare h
  obtain ⟨hf', hp', hr'⟩ := liveTask_bare h'
  exact ⟨fun fd => (hf' fd).trans (hf fd).symm, hp'.trans hp.symm, hr'.trans hr.symm⟩

/-- Signals are no pointers. -/
lemma doKill_spec {pid : BitVec 64} {sig : Int} {priv : Bool} (h : s.Counted) :
    Prog.wp (doKill c pid sig priv) (fun _ => Tables.Counted) s := by
  have hsend : ∀ (t p : Task), (sendSig t sig priv p).state = p.state ∧
      (sendSig t sig priv p).filp = p.filp ∧ (sendSig t sig priv p).pwd = p.pwd ∧
      (sendSig t sig priv p).root = p.root := by
    intro t p
    rw [sendSig]
    split
    · exact ⟨rfl, rfl, rfl, rfl⟩
    · split
      · exact ⟨rfl, rfl, rfl, rfl⟩
      · exact ⟨rfl, rfl, rfl, rfl⟩
  rw [doKill, Prog.wp_bind]
  apply wp_current
  intro t ht
  rw [Prog.wp_modify]
  refine h.congr ?_ rfl rfl rfl rfl
  intro i
  apply SameSlot.map
  · intro p
    split
    · exact (hsend t p).1
    · rfl
  · intro p
    split
    · exact (hsend t p).2.1
    · rfl
  · intro p
    split
    · exact (hsend t p).2.2.1
    · rfl
  · intro p
    split
    · exact (hsend t p).2.2.2
    · rfl

/-- The loop of `do_exit` closes all descriptors. -/
lemma closeAll_spec (h : Balanced c F I s) :
    Prog.wp (closeAll sv c)
      (fun _ s' => ∃ F' I', Balanced c F' I' s' ∧ ∀ fd, F' (c, fd) = none) s := by
  have hloop : Prog.wp (closeAll sv c)
      (fun _ s' => ∃ F' I', Balanced c F' I' s' ∧ ∀ fd : Fin 20, fd ∉ [] → F' (c, fd) = none) s := by
    apply Prog.wp_forM
      (I := fun l s => ∃ F' I', Balanced c F' I' s ∧ ∀ fd : Fin 20, fd ∉ l → F' (c, fd) = none)
    · rintro fd l s₁ ⟨F₁, I₁, h₁, hc⟩
      rw [Prog.wp_bind]
      apply wp_current
      intro t ht
      split
      · rw [Prog.wp_bind]
        refine (doClose_spec h₁).mono ?_
        rintro _ s₂ ⟨F₂, I₂, h₂, hF₂⟩
        rw [Prog.wp_pure]
        refine ⟨F₂, I₂, h₂, ?_⟩
        intro fd' hfd'
        rw [hF₂]
        split
        · rfl
        · next hne =>
          apply hc
          rw [List.mem_cons, not_or]
          exact ⟨fun e => hne (congrArg Fin.val e), hfd'⟩
      · next hnone =>
        rw [Prog.wp_pure]
        refine ⟨F₁, I₁, h₁, ?_⟩
        intro fd' hfd'
        by_cases e : fd' = fd
        · subst e
          rw [(View.current h₁ ht).1]
          exact Option.not_isSome_iff_eq_none.1 hnone
        · apply hc
          rw [List.mem_cons, not_or]
          exact ⟨e, hfd'⟩
    · refine ⟨F, I, h, ?_⟩
      intro fd hfd
      exact absurd (List.mem_finRange fd) hfd
  refine hloop.mono ?_
  rintro _ s₁ ⟨F', I', h₁, hF'⟩
  exact ⟨F', I', h₁, fun fd => hF' fd List.not_mem_nil⟩

/-- Tasks that lose their father keep their pointers. -/
lemma orphan_spec {pid : BitVec 64} (h : View c F I N R s) :
    Prog.wp (orphan pid) (fun _ => View c F I N R) s := by
  have hp : ∀ p : Task, (if p.father = pid then { p with father := 0 } else p).state = p.state ∧
      (if p.father = pid then { p with father := 0 } else p).filp = p.filp ∧
      (if p.father = pid then { p with father := 0 } else p).pwd = p.pwd ∧
      (if p.father = pid then { p with father := 0 } else p).root = p.root := by
    intro p
    split
    · exact ⟨rfl, rfl, rfl, rfl⟩
    · exact ⟨rfl, rfl, rfl, rfl⟩
  obtain ⟨t, ht, hl⟩ := h.live
  rw [orphan, Prog.wp_modify]
  refine h.congr ?_ ⟨if t.father = pid then { t with father := 0 } else t, ?_, ?_⟩ rfl h.iCount h.small rfl rfl
  · intro i
    exact SameSlot.map _ (fun p => (hp p).1) (fun p => (hp p).2.1) (fun p => (hp p).2.2.1)
      fun p => (hp p).2.2.2
  · show (s.task c).map _ = _
    rw [ht]
    rfl
  · rw [Task.Live, (hp t).1]
    exact hl

/-- `do_exit` gives all pointers of the task back. -/
lemma doExit_spec {code : Int} (h : Balanced c F I s) :
    Prog.wp (doExit sv c code) (fun _ => Tables.Counted) s := by
  rw [doExit]
  split
  · exact Prog.wp_panic
  · rw [Prog.wp_bind]
    refine (wp_view service_spec h).mono ?_
    intro _ s₁ h₁
    rw [Prog.wp_bind]
    apply wp_current
    intro t₁ ht₁
    rw [Prog.wp_bind]
    refine (orphan_spec h₁).mono ?_
    intro _ s₂ h₂
    rw [Prog.wp_bind]
    refine (closeAll_spec h₂).mono ?_
    rintro _ s₃ ⟨F₃, I₃, h₃, hF₃⟩
    rw [Prog.wp_bind]
    apply wp_current
    intro t₃ ht₃
    have h₃' := h₃
    rw [Balanced, ← tally_clear I₃ (.pwd c), (View.current h₃ ht₃).2.1] at h₃'
    rw [Prog.wp_bind]
    refine (wp_view iput_spec h₃').mono ?_
    intro _ s₄ h₄
    rw [Prog.wp_bind]
    refine (setPwd_spec h₄).mono ?_
    intro _ s₅ h₅
    rw [Prog.wp_bind]
    apply wp_current
    intro t₅ ht₅
    have h₅' := h₅
    rw [← tally_clear (update I₃ (.pwd c) none) (.root c), (View.current h₅ ht₅).2.2] at h₅'
    rw [Prog.wp_bind]
    refine (wp_view iput_spec h₅').mono ?_
    intro _ s₆ h₆
    rw [Prog.wp_bind]
    refine (setRoot_spec h₆).mono ?_
    intro _ s₇ h₇
    rw [Prog.wp_bind]
    apply wp_current
    intro t₇ ht₇
    obtain ⟨hf₇, hp₇, hr₇⟩ := h₇.current ht₇
    -- nothing is left that the task points to
    have hbare : t₇.Bare := by
      refine ⟨fun fd => (hf₇ fd).symm.trans (hF₃ fd), ?_, ?_⟩
      · rw [← hp₇, update_of_ne (by simp), update_self]
      · rw [← hr₇, update_self]
    rw [Prog.wp_bind, Prog.wp_modify]
    have h₈ : Tables.Counted { s₇ with
        ttyPgrp := if t₇.leader ∧ t₇.tty ≥ 0 then update s₇.ttyPgrp t₇.tty 0 else s₇.ttyPgrp } :=
      (Balanced.counted h₇).congr (fun _ => .refl _) rfl rfl rfl rfl
    have hslot : ∀ st : TaskState,
        SameSlot (s₇.task c) ((s₇.task c).map fun t => { t with state := st }) := by
      intro st
      rw [ht₇]
      exact .bare hbare ⟨hbare.filp, hbare.pwd, hbare.root⟩
    split
    · rw [Prog.wp_bind]
      refine (setCurrent_counted h₈ (hslot .zombie)).mono ?_
      intro _ s₉ h₉
      rw [Prog.wp_bind]
      refine (doKill_spec h₉).mono ?_
      intro _ s₁₀ h₁₀
      apply setCurrent_counted h₁₀
      exact SameSlot.map _ (fun _ => rfl) (fun _ => rfl) (fun _ => rfl) fun _ => rfl
    · exact setCurrent_counted h₈ (hslot .dead)

/-! ## Fork -/

/-- A fork of the task in slot `c` would succeed: there is a free slot and enough memory. -/
def CanFork (sv : Services κ) (c : Fin 64) (s : Tables κ) : Prop :=
  ∃ nr k k', freeTask s = some nr ∧ sv.getTwoFreePages s.kernel = .ret (true, k) ∧
    sv.copyPageTables c nr k = .ret (true, k')

/-- The same tasks, files and inodes. -/
structure SameTables (s s' : Tables κ) : Prop where
  task : s'.task = s.task
  file : s'.fileTable = s.fileTable
  inode : s'.inodeTable = s.inodeTable
  isup : s'.sIsup = s.sIsup
  imount : s'.sImount = s.sImount

/-- Two steps that leave the tables leave them together. -/
lemma SameTables.trans {s'' : Tables κ} (h : SameTables s s') (h' : SameTables s' s'') :
    SameTables s s'' :=
  ⟨h'.task.trans h.task, h'.file.trans h.file, h'.inode.trans h.inode, h'.isup.trans h.isup,
    h'.imount.trans h.imount⟩

/-- A service leaves the tables. -/
lemma service_same {α : Type} {m : Prog κ α} :
    Prog.wp (service m) (fun a s' => m s.kernel = .ret (a, s'.kernel) ∧ SameTables s s') s :=
  Prog.wp_zoom.2 fun _ _ hm => ⟨hm, rfl, rfl, rfl, rfl, rfl⟩

/-- `find_empty_process` leaves the tables and gives the first free slot. -/
lemma findEmptyProcess_spec :
    Prog.wp findEmptyProcess
      (fun r s' => r = freeTask s ∧ s'.kernel = s.kernel ∧ SameTables s s') s := by
  rw [findEmptyProcess, Prog.wp_bind, Prog.wp_get, Prog.wp_bind, Prog.wp_modify, Prog.wp_pure]
  exact ⟨rfl, rfl, rfl, rfl, rfl, rfl, rfl⟩

/-- A child with the pointers of the task `t` is put into a free slot. -/
structure Forked (t : Task) (s s' : Tables κ) : Prop where
  child : ∃ nr p, s.task nr = none ∧ p.Live ∧ p.filp = t.filp ∧ p.pwd = t.pwd ∧ p.root = t.root ∧
    s'.task = update s.task nr (some p)
  file : s'.fileTable = s.fileTable
  inode : s'.inodeTable = s.inodeTable
  isup : s'.sIsup = s.sIsup
  imount : s'.sImount = s.sImount

/-- The slot is free. -/
lemma freeTask_free {nr : Fin 64} (h : freeTask s = some nr) : s.task nr = none := by
  have hf := List.find?_some h
  rw [decide_eq_true_eq] at hf
  exact Option.isNone_iff_eq_none.1 hf.2

/-- `copy_process` makes a child exactly when it can, and otherwise changes no pointer. -/
lemma copyProcess_spec {t : Task} (ht : s.task c = some t) :
    Prog.wp (copyProcess sv c)
      (fun _ s' => (CanFork sv c s ∧ Forked t s s') ∨ (¬ CanFork sv c s ∧ SameTables s s')) s := by
  rw [copyProcess, Prog.wp_bind]
  refine findEmptyProcess_spec.mono ?_
  rintro r s₁ ⟨rfl, hk₁, h₁⟩
  cases hnr : freeTask s with
  | none =>
    -- all slots of `task` are in use
    rw [Prog.wp_pure]
    refine .inr ⟨?_, h₁⟩
    rintro ⟨nr, k, k', h, _⟩
    rw [hnr] at h
    cases h
  | some nr =>
    show Prog.wp (_ >>= _) _ s₁
    rw [Prog.wp_bind]
    refine service_same.mono ?_
    rintro pages s₂ ⟨hk₂, h₂⟩
    rw [hk₁] at hk₂
    cases pages with
    | false =>
      -- no pages for the child
      show Prog.wp (pure _) _ s₂
      rw [Prog.wp_pure]
      refine .inr ⟨?_, h₁.trans h₂⟩
      rintro ⟨nr', k, k', _, h, _⟩
      rw [hk₂] at h
      cases h
    | true =>
      show Prog.wp (_ >>= _) _ s₂
      rw [Prog.wp_bind]
      apply wp_current
      intro t' ht'
      rw [(h₁.trans h₂).task, ht] at ht'
      cases ht'
      rw [Prog.wp_bind, Prog.wp_get, Prog.wp_bind]
      refine service_same.mono ?_
      rintro copied s₃ ⟨hk₃, h₃⟩
      have h₁₃ := (h₁.trans h₂).trans h₃
      cases copied with
      | false =>
        -- the page tables cannot be copied, and the pages are freed again
        show Prog.wp (_ >>= _) _ s₃
        rw [Prog.wp_bind]
        refine service_same.mono ?_
        rintro _ s₄ ⟨_, h₄⟩
        rw [Prog.wp_pure]
        refine .inr ⟨?_, h₁₃.trans h₄⟩
        rintro ⟨nr', k, k', h, h', h''⟩
        rw [hnr] at h
        cases h
        rw [hk₂] at h'
        cases h'
        rw [hk₃] at h''
        cases h''
      | true =>
        show Prog.wp (_ >>= _) _ s₃
        rw [Prog.wp_bind, Prog.wp_modify, Prog.wp_pure]
        refine .inl ⟨⟨nr, _, _, hnr, hk₂, hk₃⟩, ?_, h₁₃.file, h₁₃.inode, h₁₃.isup, h₁₃.imount⟩
        let p := { t with
          state := .running, pid := s₂.lastPid, father := t.pid, signal := 0, leader := false }
        refine ⟨nr, p, freeTask_free hnr, ⟨nofun, nofun⟩, rfl, rfl, rfl, ?_⟩
        show update s₃.task nr _ = _
        rw [h₁₃.task]

/-- Who is live after a fork: the child, and those that were. -/
lemma Forked.live {t : Task} (hf : Forked t s s') : ∃ nr p, s.live nr = none ∧ p.filp = t.filp ∧ p.pwd = t.pwd ∧
    p.root = t.root ∧ ∀ i, s'.live i = if i = nr then some p else s.live i := by
  obtain ⟨nr, p, hnr, hl, hfp, hpp, hrp, hs'⟩ := hf.child
  refine ⟨nr, p, ?_, hfp, hpp, hrp, fun i => ?_⟩
  · rw [Tables.live, hnr, liveTask_none]
  · rw [Tables.live, hs']
    by_cases hi : i = nr
    · subst hi
      rw [update_self, liveTask_some hl, if_pos rfl]
    · rw [update_of_ne hi, if_neg hi]
      rfl

/-- What a task points to it points to after a fork. -/
lemma Forked.bind_live {t : Task} {α : Type} {g : Task → Option α} {i : Fin 64} {x : α} (hf : Forked t s s')
    (h : (s.live i).bind g = some x) : (s'.live i).bind g = some x := by
  obtain ⟨nr, p, hnone, _, _, _, hlive⟩ := hf.live
  rw [hlive, if_neg]
  · exact h
  · rintro rfl
    rw [hnone] at h
    cases h

/-- A fork takes no pointer away. -/
lemma Forked.inodeRef {t : Task} {x : Holder} {i : Fin 32} (hf : Forked t s s') (h : s.inodeRef x = some i) :
    s'.inodeRef x = some i := by
  cases x with
  | file f =>
    rw [Tables.inodeRef, hf.file]
    exact h
  | pwd j => exact hf.bind_live h
  | root j => exact hf.bind_live h
  | isup => exact hf.isup.trans h
  | imount => exact hf.imount.trans h

/-- The counts stay, so that they are right if and only if there are no new pointers. -/
lemma Forked.counted_iff_refs {t : Task} (h : s.Counted) (hf : Forked t s s') :
    s'.Counted ↔ s'.fileRef = s.fileRef ∧ s'.inodeRef = s.inodeRef := by
  have extF : ∀ d f, s.fileRef d = some f → s'.fileRef d = some f := fun d f => hf.bind_live
  have extI : ∀ x i, s.inodeRef x = some i → s'.inodeRef x = some i := fun x i => hf.inodeRef
  rw [← tally_extends_iff extF, ← tally_extends_iff extI]
  constructor
  · intro h'
    refine ⟨fun f => ?_, fun i => ?_⟩
    · rw [← h'.file, hf.file, h.file]
    · rw [← h'.inode, hf.inode, h.inode]
  · rintro ⟨hF, hI⟩
    refine ⟨fun f => ?_, fun i => ?_⟩
    · rw [hF, hf.file, h.file]
    · rw [hI, hf.inode, h.inode]

/-- Without new pointers the child has none. -/
lemma Forked.bare {t : Task} (hf : Forked t s s') (hF : s'.fileRef = s.fileRef) (hI : s'.inodeRef = s.inodeRef) :
    t.Bare := by
  obtain ⟨nr, p, hnone, hfp, hpp, hrp, hlive⟩ := hf.live
  have hb : ∀ {α : Type} {g : Task → Option α}, (s'.live nr).bind g = (s.live nr).bind g → g p = none := by
    intro α g e
    rw [hlive, if_pos rfl, hnone] at e
    exact e
  refine ⟨fun fd => ?_, ?_, ?_⟩
  · rw [← hfp]
    exact hb (g := fun t => t.filp fd) (congrFun hF (nr, fd))
  · rw [← hpp]
    exact hb (congrFun hI (.pwd nr))
  · rw [← hrp]
    exact hb (congrFun hI (.root nr))

/-- A child without pointers adds none. -/
lemma Forked.refs_eq {t : Task} (hf : Forked t s s') (hb : t.Bare) :
    s'.fileRef = s.fileRef ∧ s'.inodeRef = s.inodeRef := by
  obtain ⟨nr, p, hnr, hl, hfp, hpp, hrp, hs'⟩ := hf.child
  apply refs_congr _ hf.file hf.isup hf.imount
  intro i
  rw [hs']
  by_cases hi : i = nr
  · subst hi
    have hbare : p.Bare := by
      refine ⟨fun fd => ?_, ?_, ?_⟩
      · rw [hfp]
        exact hb.filp fd
      · rw [hpp]
        exact hb.pwd
      · rw [hrp]
        exact hb.root
    rw [update_self, hnr]
    obtain ⟨hf, hp, hr⟩ := liveTask_bare hbare
    exact ⟨hf, hp, hr⟩
  · rw [update_of_ne hi]
    exact .refl _

/-- After a fork the counts are right exactly if the child has no pointers. -/
lemma Forked.counted_iff {t : Task} (h : s.Counted) (hf : Forked t s s') : s'.Counted ↔ t.Bare := by
  rw [hf.counted_iff_refs h]
  constructor
  · rintro ⟨hF, hI⟩
    exact hf.bare hF hI
  · exact hf.refs_eq

/-! ## Runs -/

/-- A step that is no fork, or a fork that cannot succeed, or one of a task without pointers. -/
def ForksBare (sv : Services κ) (s : Tables κ) : Event → Tables κ → Prop
  | .call c .fork, _ => CanFork sv c s → ∀ t, s.task c = some t → t.Bare
  | _, _ => True

/-- Every system call but `fork` keeps the counts right. -/
lemma systemCall_counted {t : Task} {k : Call} (h : s.Counted) (ht : s.task c = some t) (hl : t.Live)
    (hk : k ≠ .fork) : Prog.wp (systemCall sv c k) (fun _ => Tables.Counted) s := by
  have hb := h.balanced ht hl
  have hdrop : ∀ {m : Prog (Tables κ) Int}, Prog.wp m (fun _ => Tables.Counted) s →
      Prog.wp (do let _ ← m) (fun _ => Tables.Counted) s := by
    intro m hm
    rw [Prog.wp_bind]
    refine hm.mono ?_
    intro _ s₁ h₁
    rw [Prog.wp_pure]
    exact h₁
  cases k with
  | «open» filename flag mode => exact hdrop (doOpen_spec hb)
  | creat pathname mode => exact hdrop (doOpen_spec hb)
  | close fd =>
    apply hdrop
    refine (doClose_spec hb).mono ?_
    rintro _ s₁ ⟨F', I', h₁, _⟩
    exact h₁.counted
  | dup fildes => exact hdrop (dupfd_spec hb)
  | dup2 oldfd newfd => exact hdrop (sysDup2_spec hb)
  | fcntl fd cmd arg => exact hdrop (sysFcntl_spec hb)
  | pipe => exact hdrop (sysPipe_spec hb)
  | chdir filename => exact hdrop (sysChdir_spec hb)
  | fork => exact absurd rfl hk
  | exit code => exact doExit_spec hb

/-- A step keeps the counts right exactly if it is not the fork of a task with pointers. -/
lemma Step.counted_iff {l : Event} (h : s.Counted) (st : Step sv s l s') :
    s'.Counted ↔ ForksBare sv s l s' := by
  cases st with
  | @call _ c t k ht hl he =>
    by_cases hk : k = .fork
    · subst hk
      have hspec : Prog.wp (systemCall sv c .fork) (fun _ s' => (CanFork sv c s ∧ Forked t s s') ∨
          (¬ CanFork sv c s ∧ SameTables s s')) s := by
        rw [systemCall, Prog.wp_bind]
        refine (copyProcess_spec ht).mono ?_
        intro _ s₁ h₁
        rw [Prog.wp_pure]
        exact h₁
      obtain ⟨hcan, hf⟩ | ⟨hcan, hs⟩ := hspec _ _ he
      · rw [hf.counted_iff h]
        constructor
        · intro hb _ t' ht'
          rw [ht] at ht'
          cases ht'
          exact hb
        · intro hc
          exact hc hcan t ht
      · constructor
        · intro _ hc
          exact absurd hc hcan
        · intro _
          refine h.congr (fun i => ?_) hs.file hs.inode hs.isup hs.imount
          rw [hs.task]
          exact .refl _
    · have hbare : ForksBare sv s (.call c k) s' := by
        cases k with
        | fork => exact absurd rfl hk
        | _ => trivial
      exact iff_of_true (systemCall_counted h ht hl hk _ _ he) hbare
  | @release p t ht hl =>
    refine iff_of_true (h.congr (fun i => ?_) rfl rfl rfl rfl) trivial
    show SameSlot (s.task i) (update s.task p none i)
    by_cases hi : i = p
    · subst hi
      rw [update_self, ht]
      constructor
      · intro fd
        rw [liveTask_exited hl, liveTask_none]
      · rw [liveTask_exited hl, liveTask_none]
      · rw [liveTask_exited hl, liveTask_none]
    · rw [update_of_ne hi]
      exact .refl _
  | other => exact iff_of_true (h.congr (fun _ => .refl _) rfl rfl rfl rfl) trivial

/-- In a run from tables that are counted right, every `f_count` and `i_count` stays right exactly if no
    task that has a descriptor, a `pwd` or a `root` forks. -/
theorem descriptor_counts_iff {tr : List (Event × Tables κ)} (h0 : s.Counted)
    (ex : (system sv).Exec s tr) :
    Always Tables.Counted s tr ↔ Along (ForksBare sv) s tr := by
  have hiff : Along (fun _ _ s' => s'.Counted) s tr ↔ Along (ForksBare sv) s tr := by
    apply System.Exec.along_iff _ _ ex h0
    · intro s l s' h st hc
      have h' := (Step.counted_iff h st).2 hc
      exact ⟨h', h'⟩
    · intro s l s' h st h'
      exact (Step.counted_iff h st).1 h'
  rw [← hiff]
  exact ⟨fun h => h.2, fun h => ⟨h0, h⟩⟩

/-- Task 0 after `mount_root`: its `pwd` and its `root` are the root inode. -/
def initTask : Task where
  state := .running
  signal := 0
  exitCode := 0
  pid := 0
  father := -1
  pgrp := 0
  leader := false
  uid := 0
  euid := 0
  gid := 0
  egid := 0
  tty := -1
  umask := 0o133#16
  pwd := some 0
  root := some 0
  closeOnExec := 0
  filp := fun _ => none

/-- The root inode, which `mount_root` counts four times. -/
def rootInode : MInode :=
  { MInode.zero with iMode := 0o40755#16, iNlinks := 2, iDev := 0x301, iNum := 1, iCount := 4 }

/-- The tables after `mount_root`. -/
def mounted : Tables Unit where
  task := update (fun _ => none) 0 (some initTask)
  fileTable := fun _ => ⟨0, 0, 0, none, 0⟩
  inodeTable := update (fun _ => .zero) 0 rootInode
  lastAllocatedInode := 0
  sIsup := some 0
  sImount := some 0
  ttyPgrp := fun _ => 0
  lastPid := 0
  currentTime := 0
  kernel := ()

/-- An empty disk and enough memory. -/
def emptyDisk : Services Unit where
  readInode _ _ := pure MInode.zero.toDInode
  writeInode _ _ _ := pure ()
  findEntry _ _ _ := pure none
  addEntry _ dir _ _ := pure (false, dir)
  freeZones _ _ := pure ()
  freeInodeBit _ _ := pure ()
  newInodeBit _ := pure none
  getFreePage := pure (some 0x80400000)
  freePage _ := pure ()
  getTwoFreePages := pure true
  freeTwoPages _ := pure ()
  copyPageTables _ _ := pure true
  freePageTables _ := pure ()

/-- The tables after a call that returns. -/
def after (c : Fin 64) (k : Call) (s : Tables Unit) : Tables Unit :=
  match systemCall emptyDisk c k s with
  | .ret (_, s') => s'
  | _ => s

/-- No descriptor is open after mounting. -/
lemma mounted_fileRef : mounted.fileRef = fun _ => none := by
  funext ⟨t, fd⟩
  by_cases ht : t = 0
  · subst ht
    rfl
  · rw [Tables.fileRef, Tables.live]
    show (liveTask (update (fun _ => none) 0 (some initTask) t)).bind _ = _
    rw [update_of_ne ht]
    rfl

/-- The counts are right then. -/
lemma mounted_counted : mounted.Counted := by
  constructor
  · intro f
    rw [mounted_fileRef, tally_none]
    rfl
  · decide

/-- A call of task 0 is a run. -/
lemma mounted_call {k : Call} (h : systemCall emptyDisk 0 k mounted = .ret ((), after 0 k mounted)) :
    (system emptyDisk).Exec mounted [(.call 0 k, after 0 k mounted)] :=
  .cons (.call (t := initTask) rfl ⟨nofun, nofun⟩ h) .nil

/-- Task 0 makes a pipe. -/
theorem descriptor_counts_pipe :
    Always Tables.Counted mounted [(Event.call 0 .pipe, after 0 .pipe mounted)] :=
  (descriptor_counts_iff mounted_counted (mounted_call rfl)).2 ⟨trivial, trivial⟩

/-- Task 0 forks: its child points to the root inode too, and is not counted. -/
theorem descriptor_counts_fail_fork :
    mounted.Counted ∧
      (system emptyDisk).Exec mounted [(.call 0 .fork, after 0 .fork mounted)] ∧
        ¬ Always Tables.Counted mounted [(Event.call 0 .fork, after 0 .fork mounted)] := by
  have ex : (system emptyDisk).Exec mounted [(.call 0 .fork, after 0 .fork mounted)] :=
    mounted_call rfl
  refine ⟨mounted_counted, ex, ?_⟩
  rintro ⟨h0, h, _⟩
  cases ex with
  | cons st _ =>
    have hb := (Step.counted_iff h0 st).1 h ⟨1, (), (), rfl, rfl, rfl⟩ initTask rfl
    have hp : initTask.pwd = none := hb.pwd
    cases hp

end OldLinux.Files
