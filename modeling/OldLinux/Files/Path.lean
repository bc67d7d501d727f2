import OldLinux.Files.Namei

/-!
# Scanning a path name

`get_dir`, `dir_namei` and `namei` (`fs/namei.c`) with their scans of the characters. A pointer into the path
name is an index, and behind the last character there is a null byte.

The two scans agree: `get_dir` goes through the names before the last slash, and what `dir_namei` finds is the
rest. So the functions are those of `Files.Namei`, which split the path name at the slashes.
-/

namespace OldLinux.Files.Path
open Lib Fs Function

/-- The null byte. -/
def nul : Char := Char.ofNat 0

/-- The characters before the null byte. -/
structure CString where
  chars : List Char
  char : ∀ c ∈ chars, 0 < c.toNat ∧ c.toNat < 256

/-- `*p`. -/
def deref (path : List Char) (p : Nat) : Char := path.getD p nul

/-- `for(namelen=0;(c = *(pathname++))&&(c!='/');namelen++)`: `c`, `pathname` and `namelen` at its end. The first
    number bounds the turns. -/
def scanName (path : List Char) : Nat → Nat → Nat → Char × Nat × Nat
  | 0, p, n => (nul, p, n)
  | k + 1, p, n =>
    let c := deref path p
    let p := p + 1
    if c ≠ nul ∧ c ≠ '/' then scanName path k p (n + 1) else (c, p, n)

/-- `while (c = *(pathname++)) if (c=='/') basename=pathname;`: `pathname` and `basename` at its end. -/
def scanBase (path : List Char) : Nat → Nat → Nat → Nat × Nat
  | 0, p, b => (p, b)
  | k + 1, p, b =>
    let c := deref path p
    let p := p + 1
    if c ≠ nul then scanBase path k p (if c = '/' then p else b) else (p, b)

/-- The `n` characters from `p` on. -/
def slice (path : List Char) (p n : Nat) : List Char := (path.drop p).take n

variable {κ : Type} (sv : Services κ)

/-- The loop of `get_dir` at a directory, with the pointer `pathname`. -/
def getDirLoop (t : Fin 64) (path : List Char) : Nat → Nat → Fin 32 → Prog (Tables κ) (Option (Fin 32))
  | 0, _, _ => Prog.fault
  | k + 1, thisname, i => do
    let inode ← inodeAt i
    let task ← current t
    if ¬ isDir inode.iMode ∨ permission task inode mayExec = 0 then do
      iput sv (some i)
      pure none
    else
      let (c, pathname, namelen) := scanName path (path.length + 1) thisname 0
      if c = nul then pure (some i)
      else
        match ← service (sv.findEntry inode.iDev inode.toDInode (slice path thisname namelen)) with
        | none =>
          iput sv (some i)
          pure none
        | some inr =>
          iput sv (some i)
          let i ← iget sv inode.iDev inr
          getDirLoop t path k pathname i

/-- `get_dir(pathname)`. -/
def getDir (t : Fin 64) (path : CString) : Prog (Tables κ) (Option (Fin 32)) := do
  let task ← current t
  if ← unused task.root then Prog.panic "No root inode"
  else if ← unused task.pwd then Prog.panic "No cwd inode"
  else
    let c := deref path.chars 0
    let (inode, pathname) :=
      if c = '/' then (task.root, 1) else if c ≠ nul then (task.pwd, 0) else (none, 0)
    match inode with
    | none => pure none
    | some i =>
      addCount i
      getDirLoop sv t path.chars (path.chars.length + 1) pathname i

/-- `dir_namei(pathname, &namelen, &name)`: the directory, and the name in it. -/
def dirNamei (t : Fin 64) (path : CString) : Prog (Tables κ) (Option (Fin 32 × List Char)) := do
  match ← getDir sv t path with
  | none => pure none
  | some dir =>
    let (pathname, basename) := scanBase path.chars (path.chars.length + 1) 0 0
    let namelen := pathname - basename - 1
    pure (some (dir, slice path.chars basename namelen))

/-- `namei(pathname)`. -/
def namei (t : Fin 64) (path : CString) : Prog (Tables κ) (Option (Fin 32)) := do
  match ← dirNamei sv t path with
  | none => pure none
  | some (dir, basename) =>
    if basename.length = 0 then pure (some dir)
    else
      let inode ← inodeAt dir
      match ← service (sv.findEntry inode.iDev inode.toDInode basename) with
      | none =>
        iput sv (some dir)
        pure none
      | some inr =>
        iput sv (some dir)
        let i ← iget sv inode.iDev inr
        let now ← currentTime
        setInode i fun inode => { inode with iAtime := now, iDirt := true }
        pure (some i)

/-! ## The scans -/

variable {sv} {path l : List Char} {p n b k : Nat} {c : Char} {t : Fin 64} {i : Fin 32}

/-- The characters of a string are not NUL. -/
lemma CString.ne_nul (s : CString) (h : c ∈ s.chars) : c ≠ nul := by
  rintro rfl
  exact absurd (s.char _ h).1 (lt_irrefl 0)

/-- The character at a position. -/
lemma deref_of_drop (h : path.drop p = c :: l) : deref path p = c ∧ path.drop (p + 1) = l ∧ p < path.length := by
  have hlt : p < path.length := by
    by_contra hge
    rw [List.drop_of_length_le (Nat.le_of_not_lt hge)] at h
    cases h
  rw [List.drop_eq_getElem_cons hlt] at h
  injection h with h1 h2
  refine ⟨?_, h2, hlt⟩
  rw [deref, List.getD_eq_getElem?_getD, List.getElem?_eq_getElem hlt, h1]
  rfl

/-- At the end there is NUL. -/
lemma deref_end (h : path.drop p = []) : deref path p = nul := by
  rw [deref, List.getD_eq_getElem?_getD, List.getElem?_eq_none (List.drop_eq_nil_iff.1 h)]
  rfl

/-- A name ends before the next slash, or with the path name. -/
lemma scanName_eq (hn : nul ∉ path) (hk : path.length - p < k) : scanName path k p n =
    (if '/' ∈ path.drop p then '/' else nul, p + ((path.drop p).takeWhile (· ≠ '/')).length + 1,
      n + ((path.drop p).takeWhile (· ≠ '/')).length) := by
  induction k generalizing p n with
  | zero => exact absurd hk (Nat.not_lt_zero _)
  | succ k ih =>
    rw [scanName]
    cases hd : path.drop p with
    | nil =>
      rw [deref_end hd, if_neg fun h => h.1 rfl, if_neg List.not_mem_nil]
      rfl
    | cons c l =>
      obtain ⟨hc, hl, hlt⟩ := deref_of_drop hd
      have hc0 : c ≠ nul := fun e => hn (e ▸ List.mem_of_mem_drop (hd ▸ List.mem_cons_self))
      rw [hc]
      by_cases hs : c = '/'
      · rw [if_neg fun h => h.2 hs, hs, if_pos List.mem_cons_self]
        rfl
      · have hmem : '/' ∈ c :: l ↔ '/' ∈ l := by
          rw [List.mem_cons]
          exact or_iff_right (Ne.symm hs)
        rw [if_pos ⟨hc0, hs⟩, ih (by omega), hl, List.takeWhile_cons, if_pos (decide_eq_true hs), List.length_cons]
        simp only [hmem]
        rw [Nat.add_right_comm n, Nat.add_assoc p 1, Nat.add_comm 1, Nat.add_assoc n]

/-- A component goes up to the next slash. -/
lemma takeWhile_slash {u v : List Char} (h : '/' ∉ u) : (u ++ '/' :: v).takeWhile (· ≠ '/') = u := by
  have hu : ∀ c ∈ u, decide (c ≠ '/') = true := fun c hc => decide_eq_true fun e => h (e ▸ hc)
  rw [List.takeWhile_append_of_pos hu, List.takeWhile_cons, if_neg (by decide), List.append_nil]

/-- The parts of a path up to its first slash and behind it. -/
lemma splitOn_of_mem (h : '/' ∈ l) : l.splitOn '/' = l.takeWhile (· ≠ '/') ::
    (l.drop ((l.takeWhile (· ≠ '/')).length + 1)).splitOn '/' := by
  obtain ⟨u, v, rfl, hu⟩ := List.eq_append_cons_of_mem h
  rw [takeWhile_slash hu, List.splitOn_append_cons_self_of_not_mem hu, List.drop_length_add_append]
  rfl

/-- The loop of `get_dir` is that over the names before the last slash. -/
lemma getDirLoop_eq (hn : nul ∉ path) (hk : path.length - p < k) :
    getDirLoop sv t path k p i = Files.getDirLoop sv t ((path.drop p).splitOn '/').dropLast i := by
  induction k generalizing p i with
  | zero => exact absurd hk (Nat.not_lt_zero _)
  | succ k ih =>
    rw [getDirLoop, Files.getDirLoop.eq_def, scanName_eq hn (by omega)]
    by_cases hm : '/' ∈ path.drop p
    · have hlt : p < path.length := by
        by_contra hge
        rw [List.drop_of_length_le (Nat.le_of_not_lt hge)] at hm
        cases hm
      have hrest : ∀ m, (path.drop p).drop (m + 1) = path.drop (p + m + 1) := fun m => by rw [List.drop_drop]; rfl
      have hslice : slice path p (0 + ((path.drop p).takeWhile (· ≠ '/')).length) =
          (path.drop p).takeWhile (· ≠ '/') := by
        rw [slice, Nat.zero_add]
        exact (List.prefix_iff_eq_take.1 (List.takeWhile_prefix _)).symm
      rw [splitOn_of_mem hm, List.dropLast_cons_of_ne_nil (List.splitOn_ne_nil _ _), hrest]
      simp only [if_pos hm, hslice, if_neg (by decide : ¬ '/' = nul)]
      have hih : getDirLoop sv t path k (p + ((path.drop p).takeWhile (· ≠ '/')).length + 1) = _ :=
        funext fun _ => ih (by omega)
      exact hih ▸ rfl
    · rw [List.splitOn_eq_singleton hm]
      simp only [if_neg hm]
      rfl

/-- `get_dir` takes the names before the last slash. -/
lemma getDir_eq (s : CString) : getDir sv t s = Files.getDir sv t s.chars := by
  have hn : nul ∉ s.chars := fun h => s.ne_nul h rfl
  have hrun : ∀ p i, getDirLoop sv t s.chars (s.chars.length + 1) p i =
      Files.getDirLoop sv t ((s.chars.drop p).splitOn '/').dropLast i := fun p i => getDirLoop_eq hn (by omega)
  rw [getDir, Files.getDir]
  simp only [hrun]
  cases hs : s.chars with
  | nil => rfl
  | cons c l =>
    rw [hs] at hn
    have hc : deref (c :: l) 0 = c := rfl
    have hc0 : c ≠ nul := fun e => hn (e ▸ List.mem_cons_self)
    rw [hc]
    by_cases h : c = '/'
    · simp only [List.head?_cons, h, dirNames, List.tail_cons]
      rfl
    · have hh : ¬ (c :: l).head? = some '/' := fun e => h (Option.some.inj e)
      have hd : dirNames (c :: l) = ((c :: l).splitOn '/').dropLast := by rw [dirNames, if_neg hh]
      simp only [if_neg h, if_pos hc0, if_neg hh, if_pos (List.cons_ne_nil c l), List.drop_zero]
      exact hd ▸ rfl

/-- The base name is what is behind the last slash. -/
lemma basename_cons : basename (c :: l) = if c = '/' ∨ '/' ∈ l then basename l else c :: l := by
  rw [basename, basename, List.splitOn_cons_eq_if_modifyHead]
  by_cases h : c = '/'
  · rw [if_pos (beq_iff_eq.2 h), if_pos (.inl h)]
    cases hl : l.splitOn '/' with
    | nil => exact absurd hl (List.splitOn_ne_nil _ _)
    | cons a r => rfl
  · rw [if_neg fun e => h (beq_iff_eq.1 e)]
    by_cases hm : '/' ∈ l
    · rw [if_pos (.inr hm), splitOn_of_mem hm]
      cases hr : (l.drop ((l.takeWhile (· ≠ '/')).length + 1)).splitOn '/' with
      | nil => exact absurd hr (List.splitOn_ne_nil _ _)
      | cons a r => rfl
    · rw [if_neg fun e => e.elim h hm, List.splitOn_eq_singleton hm]
      rfl

/-- The scan of `dir_namei` ends behind the null byte, with the name behind the last slash. -/
lemma scanBase_eq (hn : nul ∉ path) (hk : path.length - p < k) (hp : p ≤ path.length) :
    (scanBase path k p b).1 = path.length + 1 ∧ path.drop (scanBase path k p b).2 =
      if '/' ∈ path.drop p then basename (path.drop p) else path.drop b := by
  induction k generalizing p b with
  | zero => exact absurd hk (Nat.not_lt_zero _)
  | succ k ih =>
    rw [scanBase]
    cases hd : path.drop p with
    | nil =>
      have hlen := List.drop_eq_nil_iff.1 hd
      rw [deref_end hd, if_neg (not_not.2 rfl), if_neg List.not_mem_nil]
      exact ⟨by omega, rfl⟩
    | cons c l =>
      obtain ⟨hc, hl, hlt⟩ := deref_of_drop hd
      have hc0 : c ≠ nul := fun e => hn (e ▸ List.mem_of_mem_drop (hd ▸ List.mem_cons_self))
      obtain ⟨h1, h2⟩ := ih (p := p + 1) (b := if c = '/' then p + 1 else b) (by omega) hlt
      rw [hc, if_pos hc0]
      refine ⟨h1, h2.trans ?_⟩
      rw [hl, basename_cons]
      by_cases hm : '/' ∈ l
      · rw [if_pos hm, if_pos (List.mem_cons_of_mem _ hm), if_pos (.inr hm)]
      · rw [if_neg hm]
        by_cases hs : c = '/'
        · rw [if_pos hs, if_pos (hs ▸ List.mem_cons_self), if_pos (.inl hs), hl, basename,
            List.splitOn_eq_singleton hm]
          rfl
        · rw [if_neg hs, if_neg fun h => (List.mem_cons.1 h).elim (fun e => hs e.symm) hm]

/-- `dir_namei` gives what is behind the last slash. -/
lemma dirNamei_eq (s : CString) : dirNamei sv t s =
    Files.dirNamei sv t s.chars >>= fun r => pure (r.map fun dir => (dir, Files.basename s.chars)) := by
  have hn : nul ∉ s.chars := fun h => s.ne_nul h rfl
  have hk : s.chars.length - 0 < s.chars.length + 1 := Nat.lt_succ_self _
  obtain ⟨h1, h2⟩ := scanBase_eq (b := 0) hn hk (Nat.zero_le _)
  have hb : s.chars.drop (scanBase s.chars (s.chars.length + 1) 0 0).2 = Files.basename s.chars := by
    rw [h2, List.drop_zero]
    split
    · rfl
    · next hm => rw [basename, List.splitOn_eq_singleton hm]; rfl
  have hslice : slice s.chars (scanBase s.chars (s.chars.length + 1) 0 0).2
      ((scanBase s.chars (s.chars.length + 1) 0 0).1 - (scanBase s.chars (s.chars.length + 1) 0 0).2 - 1) =
        Files.basename s.chars := by
    rw [slice, ← hb]
    apply List.take_of_length_le
    rw [List.length_drop, h1]
    omega
  rw [dirNamei, getDir_eq, Files.dirNamei]
  refine bind_congr fun r => ?_
  cases r with
  | none => rfl
  | some dir => exact congrArg (fun name => pure (some (dir, name))) hslice

/-- `namei` is that of the parts of the path name. -/
lemma namei_eq (s : CString) : namei sv t s = Files.namei sv t s.chars := by
  rw [namei, dirNamei_eq, Files.namei, bind_assoc]
  refine bind_congr fun r => ?_
  rw [pure_bind]
  cases r with
  | none => rfl
  | some dir =>
    show (if (basename s.chars).length = 0 then _ else _) = if basename s.chars = [] then _ else _
    exact if_congr List.length_eq_zero_iff rfl rfl

end OldLinux.Files.Path
