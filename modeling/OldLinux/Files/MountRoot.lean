import OldLinux.Files.AllCalls
import OldLinux.Files.Resolve

/-!
# Mounting the root

Model of `mount_root` (`fs/super.c`) on the tables. What it does to `super_block[]` before and in `do_mount`, but for
`s_isup` and `s_imount`, is the program `doMount`, which says whether there is a super block, and the two loops
that count free blocks and inodes are the program `countFree`.

The root inode is used four times: by the two pointers of its super block and by the `pwd` and the `root` of the
task that mounts it. So the counts are right from then on, as `AllCalls` says.
-/

namespace OldLinux.Files
open Lib Fs Function

/-- `ROOT_DEV`. -/
def rootDev : Nat := 0x301

section
variable {κ : Type} (sv : Services κ) (doMount : Prog κ Bool) (countFree : Prog κ Unit) (c : Fin 64)

/-- `file_table[i].f_count=0` for all entries. -/
def clearFiles : Prog (Tables κ) Unit :=
  Prog.modify fun s => { s with fileTable := fun f => { s.fileTable f with fCount := 0 } }

end

/-- The tables before there is a root: no task has a pointer, and no inode is in use. -/
structure Tables.Unmounted {κ : Type} (s : Tables κ) : Prop where
  bare : ∀ i t, s.task i = some t → t.Live → t.Bare
  free : ∀ i, (s.inodeTable i).iCount = 0

section
variable {κ : Type} {sv : Services κ} {doMount : Prog κ Bool} {countFree : Prog κ Unit} {c : Fin 64}
  {s s' : Tables κ} {F : Fin 64 × Fin 20 → Option (Fin 64)} {I : Holder → Option (Fin 32)}
  {N : Fin 64 → Nat} {R : Fin 32 → Nat} {t : Task}

/-- A task has no file open before the root is mounted. -/
lemma Tables.Unmounted.live (h : s.Unmounted) {i : Fin 64} (hi : s.live i = some t) : t.Bare := by
  obtain ⟨hs, hl⟩ := Option.filter_eq_some_iff.1 hi
  exact h.bare i t hs (of_decide_eq_true hl)

/-- Without tasks that point to inodes, only the mounted root has pointers. -/
lemma Tables.Unmounted.view (h : s.Unmounted) (ht : s.task c = some t) (hl : t.Live) :
    Prog.wp clearFiles (fun _ s' => ∃ I, View c (fun _ => none) I 0 0 s' ∧
      ∀ x, x ≠ .isup → x ≠ .imount → I x = none) s := by
  rw [clearFiles, Prog.wp_modify]
  refine ⟨_, ⟨⟨t, ht, hl⟩, ?_, rfl, fun _ => rfl, fun i => ?_, fun i => ?_⟩, ?_⟩
  · funext d
    show (s.live d.1).bind _ = none
    cases hd : s.live d.1 with
    | none => rfl
    | some t => exact (h.live hd).filp d.2
  · show Nat.ModEq _ (s.inodeTable i).iCount 0
    rw [h.free]
  · show (s.inodeTable i).iCount < 65536
    rw [h.free]
    decide
  · intro x hs hm
    cases x with
    | file f => rfl
    | pwd i =>
      show (s.live i).bind _ = none
      cases hi : s.live i with
      | none => rfl
      | some t => exact (h.live hi).pwd
    | root i =>
      show (s.live i).bind _ = none
      cases hi : s.live i with
      | none => rfl
      | some t => exact (h.live hi).root
    | isup => exact absurd rfl hs
    | imount => exact absurd rfl hm

end

variable {μ : Type} {reads : Nat × Nat → Bool} {sv : EntryServices μ} {c : Fin 64} {s s' : Tables (RootDisk μ)}
  {t : Task}

/-- Task 0 before the mount. -/
def bareTask : Task := { initTask with pwd := none, root := none }

end OldLinux.Files
