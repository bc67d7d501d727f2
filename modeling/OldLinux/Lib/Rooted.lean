import OldLinux.Lib.Hierarchy

/-!
# Rooted hierarchies

A well-formed hierarchy may still have directories that refer only to each other. `IsTree H r` says that it
has none: every directory in use is reached from `r` through slots that hold what is in a directory. The four
operations keep that (`IsTree.add` .. `IsTree.removeDir`), since a directory is taken out only when nothing is
in it.

In a tree the way up from any directory ends at `r` (`IsTree.climbs`), never comes back to where it began
(`IsTree.acyclic`), and every directory but `r` has one place (`IsTree.place`).
-/

namespace OldLinux.Lib.Hierarchy
variable {ι : Type*} {H : Hierarchy ι} {r d d' x y z : ι} {k k' m n : Nat}

/-- Reached from `r`, going down. -/
inductive Under (H : Hierarchy ι) (r : ι) : ι → Prop where
  | root : H.live r → Under H r r
  | child {d x : ι} {k : Nat} : Under H r d → 2 ≤ k → H.entry d k x → H.live x → Under H r x

/-- The way up, `n` directories long. -/
def Climbs (H : Hierarchy ι) : Nat → ι → ι → Prop
  | 0, x, y => x = y
  | n + 1, x, y => ∃ d, H.entry x 1 d ∧ Climbs H n d y

/-- All directories are under `r`, which is its own parent and in no directory. -/
structure IsTree (H : Hierarchy ι) (r : ι) : Prop where
  live : H.live r
  top : H.entry r 1 r
  outside : ∀ {d : ι} {k : Nat}, 2 ≤ k → ¬ H.entry d k r
  under : ∀ {d : ι}, H.live d → H.Under r d

/-- What the operations do to a hierarchy. -/
inductive Changes (H : Hierarchy ι) : Hierarchy ι → Prop where
  | same : Changes H H
  | add {d x : ι} {k : Nat} : ¬ H.live x → Changes H (H.add d k x)
  | remove {d x : ι} {k : Nat} : H.entry d k x → ¬ H.live x → Changes H (H.remove d k)
  | addDir {d x : ι} {k : Nat} : H.live d → 2 ≤ k → ¬ H.live x → Changes H (H.addDir d k x)
  | removeDir {d x : ι} {k : Nat} : WellFormed.Empty H d k x → Changes H (H.removeDir d k x)

/-! ## The way up -/

/-- Two climbs are one. -/
lemma Climbs.add (h : H.Climbs m x y) (h' : H.Climbs n y z) : H.Climbs (m + n) x z := by
  induction m generalizing x with
  | zero =>
    obtain rfl : x = y := h
    rwa [Nat.zero_add]
  | succ m ih =>
    obtain ⟨d, he, h⟩ := h
    rw [Nat.succ_add]
    exact ⟨d, he, ih h⟩

/-- A way that comes back can be gone again. -/
lemma Climbs.mul (h : H.Climbs n x x) : H.Climbs (m * n) x x := by
  induction m with
  | zero =>
    rw [Nat.zero_mul]
    exact rfl
  | succ m ih =>
    rw [Nat.succ_mul]
    exact ih.add h

/-- There is one way up. -/
lemma WellFormed.climbs_unique (h : H.WellFormed) (hy : H.Climbs n x y) (hz : H.Climbs n x z) : y = z := by
  induction n generalizing x with
  | zero => exact hy.symm.trans hz
  | succ n ih =>
    obtain ⟨d, he, hy⟩ := hy
    obtain ⟨d', he', hz⟩ := hz
    obtain rfl := h.func he he'
    exact ih hy hz

/-- What is under `r` stays there as long as the slots with directories in use stay. -/
lemma Under.mono {H' : Hierarchy ι} (h : H.Under r x) (hl : ∀ d, H.live d → H'.live d)
    (he : ∀ {d k y}, H.entry d k y → 2 ≤ k → H.live y → H'.entry d k y) : H'.Under r x := by
  induction h with
  | root hr => exact .root (hl _ hr)
  | child _ hk hin hx ih => exact .child ih hk (he hin hk hx) (hl _ hx)

namespace IsTree

/-- The root is above itself. -/
lemma stays (h : H.IsTree r) : H.Climbs n r r := by
  induction n with
  | zero => exact rfl
  | succ n ih => exact ⟨r, h.top, ih⟩

/-- From every directory in use the way up ends at `r`. -/
lemma climbs (h : H.IsTree r) (hw : H.WellFormed) (hd : H.live d) : ∃ n, H.Climbs n d r := by
  have hup := h.under hd
  induction hup with
  | root => exact ⟨0, rfl⟩
  | child _ hk he hx ih =>
    obtain ⟨n, hn⟩ := ih (hw.source he)
    exact ⟨n + 1, _, hw.up he hk hx, hn⟩

/-- No directory but `r` is above itself. -/
lemma acyclic (h : H.IsTree r) (hw : H.WellFormed) (hd : H.live d) (hr : d ≠ r) (hn : 0 < n) :
    ¬ H.Climbs n d d := by
  intro hc
  obtain ⟨m, hm⟩ := h.climbs hw hd
  have hle : m ≤ m * n := Nat.le_mul_of_pos_right m hn
  have hend : H.Climbs (m * n) d r := by
    rw [← Nat.add_sub_of_le hle]
    exact hm.add h.stays
  exact hr (hw.climbs_unique hc.mul hend)

/-- Every directory but `r` is in exactly one slot. -/
lemma place (h : H.IsTree r) (hw : H.WellFormed) (hx : H.live x) (hr : x ≠ r) :
    ∃ d k, 2 ≤ k ∧ H.entry d k x ∧ ∀ d' k', 2 ≤ k' → H.entry d' k' x → d' = d ∧ k' = k := by
  cases h.under hx with
  | root => exact absurd rfl hr
  | @child d _ k _ hk he =>
    refine ⟨d, k, hk, he, fun d' k' hk' he' => ?_⟩
    obtain rfl := hw.func (hw.up he' hk' hx) (hw.up he hk hx)
    exact ⟨rfl, hw.single he' he hk' hk hx⟩

/-! ## Putting in and taking out -/

/-- A leaf is added to the tree. -/
lemma add (h : H.IsTree r) (hx : ¬ H.live x) : (H.add d k x).IsTree r where
  live := h.live
  top := .inl h.top
  outside := by
    rintro d' k' hk' (he | ⟨_, _, rfl⟩)
    · exact h.outside hk' he
    · exact hx h.live
  under hd := (h.under hd).mono (fun _ hl => hl) fun he _ _ => .inl he

/-- A leaf is removed from it. -/
lemma remove (h : H.IsTree r) (hw : H.WellFormed) (he : H.entry d k x) (hx : ¬ H.live x) :
    (H.remove d k).IsTree r where
  live := h.live
  top := by
    refine ⟨h.top, ?_⟩
    rintro ⟨rfl, rfl⟩
    exact hx (hw.func he h.top ▸ h.live)
  outside hk' he' := h.outside hk' he'.1
  under hd := by
    refine (h.under hd).mono (fun _ hl => hl) fun he' _ hl => ⟨he', ?_⟩
    rintro ⟨rfl, rfl⟩
    exact hx (hw.func he he' ▸ hl)

/-- A new directory is under the one that it is put into. -/
lemma addDir (h : H.IsTree r) (hd : H.live d) (hk : 2 ≤ k) (hx : ¬ H.live x) : (H.addDir d k x).IsTree r where
  live := .inl h.live
  top := .inl (.inl (.inl h.top))
  outside := by
    rintro d' k' hk' (((he | ⟨_, _, rfl⟩) | ⟨_, rfl, _⟩) | ⟨_, rfl, _⟩)
    · exact h.outside hk' he
    · exact hx h.live
    · omega
    · omega
  under := by
    have hold : ∀ {y}, H.live y → (H.addDir d k x).Under r y := fun hy =>
      (h.under hy).mono (fun _ hl => .inl hl) fun he _ _ => .inl (.inl (.inl he))
    rintro y (hy | rfl)
    · exact hold hy
    · exact .child (hold hd) hk (.inl (.inl (.inr ⟨rfl, rfl, rfl⟩))) (.inr rfl)

/-- `r` is in no directory, and not empty. -/
lemma ne_of_empty (h : H.IsTree r) (hw : H.WellFormed) (hem : WellFormed.Empty H d k x) : r ≠ x := by
  rintro rfl
  exact h.outside (hem.two_le hw) hem.entry

/-- Nothing is under an empty directory, so that the others stay where they are. -/
lemma removeDir (h : H.IsTree r) (hw : H.WellFormed) (hem : WellFormed.Empty H d k x) :
    (H.removeDir d k x).IsTree r where
  live := ⟨h.live, h.ne_of_empty hw hem⟩
  top := by
    have hr := h.ne_of_empty hw hem
    refine ⟨⟨⟨h.top, ?_⟩, fun e => hr e.1⟩, fun e => hr e.1⟩
    rintro ⟨rfl, rfl⟩
    exact absurd (hem.two_le hw) (by decide)
  outside hk' he' := h.outside hk' he'.1.1.1
  under := by
    rintro y ⟨hy, hyx⟩
    have hr := h.ne_of_empty hw hem
    have hup := h.under hy
    clear hy
    induction hup with
    | root hl => exact .root ⟨hl, hr⟩
    | @child d' y k' _ hk' he hl ih =>
      -- the way down to `y` does not go through `x`
      have hd' : d' ≠ x := by
        rintro rfl
        exact absurd (hem.empty he) (by omega)
      refine .child (ih hd') hk' ⟨⟨⟨he, ?_⟩, fun e => hd' e.1⟩, fun e => hd' e.1⟩ ⟨hl, hyx⟩
      rintro ⟨rfl, rfl⟩
      exact hyx (hw.func he hem.entry)

/-- A tree stays a tree. -/
lemma changes {H' : Hierarchy ι} (h : H.IsTree r) (hw : H.WellFormed) (hc : H.Changes H') : H'.IsTree r := by
  cases hc with
  | same => exact h
  | add hx => exact h.add hx
  | remove he hx => exact h.remove hw he hx
  | addDir hd hk hx => exact h.addDir hd hk hx
  | removeDir hem => exact h.removeDir hw hem

end IsTree

end OldLinux.Lib.Hierarchy
