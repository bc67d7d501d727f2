import OldLinux.Files.Syscalls

/-!
# Pointers and counts

The tables as the system calls change them: `View c F I N R` says that the live tasks point to files
as `F`, that the files, tasks and the super block point to inodes as `I`, and that the counts are `N`
and `R`. The setters change one pointer or one count of it, and the functions on inodes change `R` as
`Holds` says (`wp_view`). The tables are `Balanced` when `N` and `R` are the tallies of `F` and `I`.
-/

namespace OldLinux.Files
open Lib Fs Function

variable {κ : Type} {sv : Services κ} {c : Fin 64} {s s' : Tables κ}
variable {F : Fin 64 × Fin 20 → Option (Fin 64)} {I : Holder → Option (Fin 32)}
variable {N : Fin 64 → Nat} {R : Fin 32 → Nat}

/-! ## Pointers of the tables -/

/-- Slots of `task[]` with the same pointers. -/
structure SameSlot (o o' : Option Task) : Prop where
  filp : ∀ fd, ((liveTask o').bind fun t => t.filp fd) = (liveTask o).bind fun t => t.filp fd
  pwd : (liveTask o').bind Task.pwd = (liveTask o).bind Task.pwd
  root : (liveTask o').bind Task.root = (liveTask o).bind Task.root

/-- A slot is the same as itself. -/
lemma SameSlot.refl (o : Option Task) : SameSlot o o := ⟨fun _ => rfl, rfl, rfl⟩

/-- A task is changed in a field that is no pointer. -/
lemma SameSlot.map {f : Task → Task} (o : Option Task) (hl : ∀ t, (f t).state = t.state)
    (hf : ∀ t, (f t).filp = t.filp) (hp : ∀ t, (f t).pwd = t.pwd) (hr : ∀ t, (f t).root = t.root) :
    SameSlot o (o.map f) := by
  cases o with
  | none => exact .refl none
  | some t =>
    have hlive : (f t).Live ↔ t.Live := by rw [Task.Live, Task.Live, hl]
    rw [Option.map_some]
    by_cases ht : t.Live
    · constructor
      · intro fd
        rw [liveTask_some ht, liveTask_some (hlive.2 ht), Option.bind_some, Option.bind_some, hf]
      · rw [liveTask_some ht, liveTask_some (hlive.2 ht), Option.bind_some, Option.bind_some, hp]
      · rw [liveTask_some ht, liveTask_some (hlive.2 ht), Option.bind_some, Option.bind_some, hr]
    · have ht' : ¬ (f t).Live := fun h => ht (hlive.1 h)
      constructor
      · intro fd
        rw [liveTask_exited ht, liveTask_exited ht']
      · rw [liveTask_exited ht, liveTask_exited ht']
      · rw [liveTask_exited ht, liveTask_exited ht']

/-- Tables whose slots have the same pointers. -/
lemma refs_congr (h : ∀ i, SameSlot (s.task i) (s'.task i)) (hf : s'.fileTable = s.fileTable)
    (hs : s'.sIsup = s.sIsup) (hm : s'.sImount = s.sImount) :
    s'.fileRef = s.fileRef ∧ s'.inodeRef = s.inodeRef := by
  constructor
  · funext d
    exact (h d.1).filp d.2
  · funext x
    cases x with
    | file f => rw [Tables.inodeRef, Tables.inodeRef, hf]
    | pwd t => exact (h t).pwd
    | root t => exact (h t).root
    | isup => exact hs
    | imount => exact hm

/-- There are less holders than an `unsigned short` can count. -/
lemma tally_small {i : Fin 32} : tally I i < 65536 :=
  Nat.lt_of_le_of_lt tally_le (by decide +kernel)

/-- The tables, with a live task in slot `c`, as pointers and counts. -/
structure View (c : Fin 64) (F : Fin 64 × Fin 20 → Option (Fin 64)) (I : Holder → Option (Fin 32))
    (N : Fin 64 → Nat) (R : Fin 32 → Nat) (s : Tables κ) : Prop where
  live : ∃ t, s.task c = some t ∧ t.Live
  fileRef : s.fileRef = F
  inodeRef : s.inodeRef = I
  fCount : ∀ f, (s.fileTable f).fCount = N f
  iCount : ∀ i, Nat.ModEq 65536 (s.inodeTable i).iCount (R i)
  small : ∀ i, (s.inodeTable i).iCount < 65536

/-- The counts are those of the pointers. -/
def Balanced (c : Fin 64) (F : Fin 64 × Fin 20 → Option (Fin 64)) (I : Holder → Option (Fin 32))
    (s : Tables κ) : Prop :=
  View c F I (tally F) (tally I) s

/-- Balanced tables have the counts of their references. -/
lemma Balanced.counted (h : Balanced c F I s) : s.Counted := by
  constructor
  · intro f
    rw [h.fCount, h.fileRef]
  · intro i
    have hc := h.iCount i
    rw [← h.inodeRef] at hc
    exact hc.eq_of_lt_of_lt (h.small i) tally_small

/-- Tables with the right counts are balanced. -/
lemma Tables.Counted.balanced {t : Task} (h : s.Counted) (ht : s.task c = some t) (hl : t.Live) :
    Balanced c s.fileRef s.inodeRef s :=
  ⟨⟨t, ht, hl⟩, rfl, rfl, h.file, fun i => by rw [h.inode], fun i => by rw [h.inode]; exact tally_small⟩

/-- The pointers of the current task. -/
lemma View.current (h : View c F I N R s) {t : Task} (ht : s.task c = some t) :
    (∀ fd, F (c, fd) = t.filp fd) ∧ I (.pwd c) = t.pwd ∧ I (.root c) = t.root := by
  obtain ⟨t', ht', hl⟩ := h.live
  rw [ht] at ht'
  cases ht'
  have hlive : s.live c = some t := by rw [Tables.live, ht, liveTask_some hl]
  refine ⟨?_, ?_, ?_⟩
  · intro fd
    rw [← h.fileRef, Tables.fileRef, hlive]
    rfl
  · rw [← h.inodeRef, Tables.inodeRef, hlive]
    rfl
  · rw [← h.inodeRef, Tables.inodeRef, hlive]
    rfl

/-- The inode of a file table entry. -/
lemma View.file (h : View c F I N R s) (f : Fin 64) :
    I (.file f) = if N f = 0 then none else (s.fileTable f).fInode := by
  rw [← h.inodeRef, ← h.fCount]
  rfl

/-- Tables that differ in what is no pointer and in the counts of inodes. -/
lemma View.congr {R' : Fin 32 → Nat} (h : View c F I N R s) (hs : ∀ i, SameSlot (s.task i) (s'.task i))
    (hl : ∃ t, s'.task c = some t ∧ t.Live) (hf : s'.fileTable = s.fileTable)
    (hi : ∀ i, Nat.ModEq 65536 (s'.inodeTable i).iCount (R' i)) (hsmall : ∀ i, (s'.inodeTable i).iCount < 65536)
    (hu : s'.sIsup = s.sIsup) (hm : s'.sImount = s.sImount) : View c F I N R' s' := by
  obtain ⟨hF, hI⟩ := refs_congr hs hf hu hm
  refine ⟨hl, hF.trans h.fileRef, hI.trans h.inodeRef, ?_, hi, hsmall⟩
  rw [hf]
  exact h.fCount

/-- The functions on inodes change the counts of inodes only. -/
lemma wp_view {α : Type} {m : Prog (Tables κ) α} {R' : α → Fin 32 → Nat}
    (spec : ∀ {t s : Tables κ}, Holds t R s → Prog.wp m (fun a => Holds t (R' a)) s)
    (h : View c F I N R s) : Prog.wp m (fun a => View c F I N (R' a)) s := by
  have h0 : Holds s R s := ⟨rfl, rfl, rfl, rfl, h.iCount, fun _ _ => h.small⟩
  refine (spec h0).mono ?_
  intro a s' h'
  refine h.congr ?_ ?_ h'.file h'.count (h'.small (by decide) h.small) h'.isup h'.imount
  · intro i
    rw [h'.task]
    exact .refl _
  · rw [h'.task]
    exact h.live

/-! ## Setters -/

/-- Fields of the current task that are no pointers. -/
lemma setCurrent_keep {f : Task → Task} (h : View c F I N R s) (hl : ∀ t, (f t).state = t.state)
    (hf : ∀ t, (f t).filp = t.filp) (hp : ∀ t, (f t).pwd = t.pwd) (hr : ∀ t, (f t).root = t.root) :
    Prog.wp (setCurrent c f) (fun _ => View c F I N R) s := by
  obtain ⟨t, ht, htl⟩ := h.live
  rw [setCurrent, Prog.wp_modify]
  refine h.congr ?_ ⟨f t, ?_, ?_⟩ rfl h.iCount h.small rfl rfl
  · intro i
    show SameSlot (s.task i) (update s.task c ((s.task c).map f) i)
    by_cases hi : i = c
    · subst hi
      rw [update_self]
      exact .map _ hl hf hp hr
    · rw [update_of_ne hi]
      exact .refl _
  · show update s.task c ((s.task c).map f) c = _
    rw [update_self, ht]
    rfl
  · rw [Task.Live, hl]
    exact htl

/-- A live task in place of another. -/
lemma live_update {t : Task} (hl : t.Live) (i : Fin 64) :
    ({ s with task := update s.task c (some t) } : Tables κ).live i =
      if i = c then some t else s.live i := by
  show liveTask (update s.task c (some t) i) = _
  by_cases hi : i = c
  · subst hi
    rw [update_self, if_pos rfl, liveTask_some hl]
  · rw [update_of_ne hi, if_neg hi]
    rfl

/-- The current task is replaced by one with other pointers. -/
lemma setTask_spec {f : Task → Task} {t : Task} (h : View c F I N R s) (ht : s.task c = some t)
    (hl : (f t).Live) :
    Prog.wp (setCurrent c f)
      (fun _ => View c (fun d => if d.1 = c then (f t).filp d.2 else F d)
        (update (update I (.pwd c) (f t).pwd) (.root c) (f t).root) N R) s := by
  rw [setCurrent, Prog.wp_modify, ht, Option.map_some]
  refine ⟨⟨f t, update_self .., hl⟩, ?_, ?_, h.fCount, h.iCount, h.small⟩
  · funext d
    rw [Tables.fileRef, live_update hl, ← h.fileRef]
    split
    · rfl
    · rfl
  · rw [← h.inodeRef]
    funext x
    cases x with
    | file f => rfl
    | pwd i =>
      rw [Tables.inodeRef, live_update hl, update_of_ne (by simp)]
      by_cases hi : i = c
      · subst hi
        rw [if_pos rfl, update_self]
        rfl
      · rw [if_neg hi, update_of_ne (by simpa using hi)]
        rfl
    | root i =>
      rw [Tables.inodeRef, live_update hl]
      by_cases hi : i = c
      · subst hi
        rw [if_pos rfl, update_self]
        rfl
      · rw [if_neg hi, update_of_ne (by simpa using hi), update_of_ne (by simp)]
        rfl
    | isup => rfl
    | imount => rfl

/-- The descriptors of the current task. -/
lemma View.fds (h : View c F I N R s) {t : Task} (ht : s.task c = some t) :
    (fun d : Fin 64 × Fin 20 => if d.1 = c then t.filp d.2 else F d) = F := by
  funext ⟨i, fd⟩
  show (if i = c then t.filp fd else F (i, fd)) = F (i, fd)
  split
  · next hi =>
    subst hi
    exact ((h.current ht).1 fd).symm
  · rfl

/-- A descriptor of the current task is set. -/
lemma setFd_spec {fd : Fin 20} {x : Option (Fin 64)} (h : View c F I N R s) :
    Prog.wp (setFd c fd x) (fun _ => View c (update F (c, fd) x) I N R) s := by
  obtain ⟨t, ht, hl⟩ := h.live
  obtain ⟨hF, hp, hr⟩ := h.current ht
  have hset := setTask_spec (f := fun t => { t with filp := update t.filp fd x }) h ht hl
  refine hset.mono ?_
  intro _ s' h'
  have eF : (fun d : Fin 64 × Fin 20 => if d.1 = c then update t.filp fd x d.2 else F d) =
      update F (c, fd) x := by
    funext ⟨i, fd'⟩
    show (if i = c then update t.filp fd x fd' else F (i, fd')) = _
    by_cases hi : i = c
    · subst hi
      rw [if_pos rfl]
      by_cases hfd : fd' = fd
      · subst hfd
        rw [update_self, update_self]
      · rw [update_of_ne hfd, update_of_ne (fun e => hfd (Prod.mk.inj e).2), hF]
    · rw [if_neg hi, update_of_ne (fun e => hi (Prod.mk.inj e).1)]
  have eI : update (update I (.pwd c) t.pwd) (.root c) t.root = I := by
    rw [← hp, ← hr, update_eq_self, update_eq_self]
  rw [← eF]
  rwa [eI] at h'

/-- The working directory of the current task is set. -/
lemma setPwd_spec {x : Option (Fin 32)} (h : View c F I N R s) :
    Prog.wp (setCurrent c fun t => { t with pwd := x })
      (fun _ => View c F (update I (.pwd c) x) N R) s := by
  obtain ⟨t, ht, hl⟩ := h.live
  obtain ⟨_, _, hr⟩ := h.current ht
  have hset := setTask_spec (f := fun t => { t with pwd := x }) h ht hl
  refine hset.mono ?_
  intro _ s' h'
  have eI : update (update I (.pwd c) x) (.root c) t.root = update I (.pwd c) x := by
    rw [← hr]
    apply update_eq_iff.2
    exact ⟨(update_of_ne (by simp) _ _).symm, fun _ _ => rfl⟩
  rwa [h.fds ht, eI] at h'

/-- The root directory of the current task is set. -/
lemma setRoot_spec {x : Option (Fin 32)} (h : View c F I N R s) :
    Prog.wp (setCurrent c fun t => { t with root := x })
      (fun _ => View c F (update I (.root c) x) N R) s := by
  obtain ⟨t, ht, hl⟩ := h.live
  obtain ⟨_, hp, _⟩ := h.current ht
  have hset := setTask_spec (f := fun t => { t with root := x }) h ht hl
  refine hset.mono ?_
  intro _ s' h'
  have eI : update I (.pwd c) t.pwd = I := by
    rw [← hp, update_eq_self]
  rwa [h.fds ht, eI] at h'

/-- The fields of a file table entry are set. -/
lemma setFile_spec {f : Fin 64} {g : File (Fin 32) → File (Fin 32)} {x : Option (Fin 32)} {n : Nat}
    (h : View c F I N R s) (hn : (g (s.fileTable f)).fCount = n)
    (hx : (if n = 0 then none else (g (s.fileTable f)).fInode) = x) :
    Prog.wp (setFile f g) (fun _ => View c F (update I (.file f) x) (update N f n) R) s := by
  rw [setFile, Prog.wp_modify]
  refine ⟨h.live, h.fileRef, ?_, ?_, h.iCount, h.small⟩
  · rw [← h.inodeRef]
    funext y
    cases y with
    | file f' =>
      show (if (update s.fileTable f (g (s.fileTable f)) f').fCount = 0 then none
        else (update s.fileTable f (g (s.fileTable f)) f').fInode) = _
      by_cases hf : f' = f
      · subst hf
        rw [update_self, update_self, hn, hx]
      · rw [update_of_ne hf, update_of_ne (by simpa using hf)]
        rfl
    | pwd i => rfl
    | root i => rfl
    | isup => rfl
    | imount => rfl
  · intro f'
    show (update s.fileTable f (g (s.fileTable f)) f').fCount = _
    by_cases hf : f' = f
    · subst hf
      rw [update_self, update_self, hn]
    · rw [update_of_ne hf, update_of_ne hf, h.fCount]

/-- Fields of a file table entry that are neither its count nor its inode. -/
lemma setFile_keep {f : Fin 64} {g : File (Fin 32) → File (Fin 32)} (h : View c F I N R s)
    (hc : ∀ x, (g x).fCount = x.fCount) (hi : ∀ x, (g x).fInode = x.fInode) :
    Prog.wp (setFile f g) (fun _ => View c F I N R) s := by
  have hx : (if N f = 0 then none else (g (s.fileTable f)).fInode) = I (.file f) := by
    rw [hi, h.file]
  have hset := setFile_spec h ((hc _).trans (h.fCount f)) hx
  rwa [update_eq_self, update_eq_self] at hset

/-- Clearing a bit of `close_on_exec` keeps the references. -/
lemma clearCloseOnExec_spec {fd : Fin 20} (h : View c F I N R s) :
    Prog.wp (clearCloseOnExec c fd) (fun _ => View c F I N R) s :=
  setCurrent_keep h (fun _ => rfl) (fun _ => rfl) (fun _ => rfl) fun _ => rfl

/-- Setting a count of 0 drops the pointer of the entry. -/
lemma setFCount_spec {f : Fin 64} {n : Nat} (h : View c F I N R s) :
    Prog.wp (setFCount f n)
      (fun _ => View c F (update I (.file f) (if n = 0 then none else (s.fileTable f).fInode))
        (update N f n) R) s :=
  setFile_spec h rfl rfl

/-- One more descriptor points to a file table entry. -/
lemma addFCount_spec {f : Fin 64} (h : View c F I N R s) :
    Prog.wp (addFCount f)
      (fun _ => View c F (update I (.file f) (s.fileTable f).fInode) (update N f (N f + 1)) R) s := by
  apply setFile_spec h
  · show (s.fileTable f).fCount + 1 = _
    rw [h.fCount]
  · exact if_neg (Nat.succ_ne_zero _)

/-- Reading an entry of the file table. -/
@[simp] lemma wp_fileAt {f : Fin 64} {Q : File (Fin 32) → Tables κ → Prop} :
    Prog.wp (fileAt f) Q s ↔ Q (s.fileTable f) s := by
  simp [fileAt]

end OldLinux.Files
