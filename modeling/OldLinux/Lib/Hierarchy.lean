import Mathlib.Data.Set.Card

/-!
# Directory hierarchies

A hierarchy of directories over arbitrary objects: `live d` says that `d` is a directory in use, and
`entry d k x` that its slot `k` refers to `x`. Slot 0 of a directory refers to itself and slot 1 to
its parent; the other slots hold what is in it. A hierarchy is well-formed if every directory but a
topmost one is in exactly one slot of its parent.

The four operations put an object into a free slot, put a new directory there, and take either out
again; each keeps a hierarchy well-formed. `refs x` is the number of slots that refer to `x`, and the
lemmas `refs_*` say how it changes.
-/

namespace OldLinux.Lib

/-- The directories in use, and what their slots refer to. -/
structure Hierarchy (ι : Type*) where
  live : ι → Prop
  entry : ι → Nat → ι → Prop

namespace Hierarchy
variable {ι : Type*} {H H' : Hierarchy ι} {d d' x y : ι} {k k' : Nat}

/-- A hierarchy is its directories and entries. -/
lemma eq_of_iff (hl : ∀ d, H.live d ↔ H'.live d) (he : ∀ d k x, H.entry d k x ↔ H'.entry d k x) :
    H = H' := by
  cases H with
  | mk live entry =>
    cases H' with
    | mk live' entry' =>
      obtain rfl : live = live' := funext fun d => propext (hl d)
      obtain rfl : entry = entry' := funext fun d => funext fun k => funext fun x => propext (he d k x)
      rfl

/-- The slots that refer to `x`. -/
def slots (H : Hierarchy ι) (x : ι) : Set (ι × Nat) := {p | H.entry p.1 p.2 x}

/-- The number of slots that refer to `x`. -/
noncomputable def refs (H : Hierarchy ι) (x : ι) : Nat := (H.slots x).ncard

structure WellFormed (H : Hierarchy ι) : Prop where
  finite : ∀ x, (H.slots x).Finite
  source : ∀ {d k x}, H.entry d k x → H.live d
  func : ∀ {d k x y}, H.entry d k x → H.entry d k y → x = y
  dot : ∀ {d}, H.live d → H.entry d 0 d
  dotdot : ∀ {d}, H.live d → ∃ y, H.live y ∧ H.entry d 1 y ∧ (y = d ∨ ∃ k, 2 ≤ k ∧ H.entry y k d)
  up : ∀ {d k x}, H.entry d k x → 2 ≤ k → H.live x → H.entry x 1 d
  single : ∀ {d k k' x}, H.entry d k x → H.entry d k' x → 2 ≤ k → 2 ≤ k' → H.live x → k = k'

/-- What has an entry has references. -/
lemma WellFormed.refs_pos (h : H.WellFormed) (he : H.entry d k x) : 0 < H.refs x :=
  (Set.ncard_pos (h.finite x)).2 ⟨(d, k), he⟩

/-- What has none has no entry. -/
lemma WellFormed.refs_eq_zero (h : H.WellFormed) : H.refs x = 0 ↔ ∀ d k, ¬ H.entry d k x := by
  rw [refs, Set.ncard_eq_zero (h.finite x), Set.eq_empty_iff_forall_notMem]
  exact ⟨fun h d k => h (d, k), fun h p => h p.1 p.2⟩

/-! ## Putting in and taking out -/

/-- The slot `k` of `d` refers to `x`. -/
def add (H : Hierarchy ι) (d : ι) (k : Nat) (x : ι) : Hierarchy ι where
  live := H.live
  entry d' k' y := H.entry d' k' y ∨ d' = d ∧ k' = k ∧ y = x

/-- The slot `k` of `d` refers to nothing. -/
def remove (H : Hierarchy ι) (d : ι) (k : Nat) : Hierarchy ι where
  live := H.live
  entry d' k' y := H.entry d' k' y ∧ ¬ (d' = d ∧ k' = k)

/-- The slot `k` of `d` refers to a new directory `x`. -/
def addDir (H : Hierarchy ι) (d : ι) (k : Nat) (x : ι) : Hierarchy ι where
  live y := H.live y ∨ y = x
  entry := (((H.add d k x).add x 0 x).add x 1 d).entry

/-- The directory `x`, in the slot `k` of `d`, is gone. -/
def removeDir (H : Hierarchy ι) (d : ι) (k : Nat) (x : ι) : Hierarchy ι where
  live y := H.live y ∧ y ≠ x
  entry := (((H.remove d k).remove x 0).remove x 1).entry

section refs
open Classical

variable (hf : ∀ x, (H.slots x).Finite)
include hf

/-- There are finitely many entries with one more. -/
lemma finite_add (x : ι) : ((H.add d k y).slots x).Finite := by
  refine ((hf x).insert (d, k)).subset ?_
  rintro ⟨d', k'⟩ (he | ⟨rfl, rfl, _⟩)
  · exact .inr he
  · exact .inl rfl

/-- There are finitely many entries with one less. -/
lemma finite_remove (x : ι) : ((H.remove d k).slots x).Finite :=
  (hf x).subset fun _ he => he.1

/-- One more entry is one more reference. -/
lemma refs_add (hfree : ∀ y, ¬ H.entry d k y) (x : ι) :
    (H.add d k x).refs y = H.refs y + if y = x then 1 else 0 := by
  by_cases hy : y = x
  · subst hy
    have hins : (H.add d k y).slots y = insert (d, k) (H.slots y) := by
      ext ⟨d', k'⟩
      constructor
      · rintro (he | ⟨rfl, rfl, _⟩)
        · exact .inr he
        · exact .inl rfl
      · rintro (he | he)
        · cases he
          exact .inr ⟨rfl, rfl, rfl⟩
        · exact .inl he
    have hout : (d, k) ∉ H.slots y := hfree y
    rw [refs, hins, Set.ncard_insert_of_notMem hout (hf y), if_pos rfl, refs]
  · have hsame : (H.add d k x).slots y = H.slots y := by
      ext ⟨d', k'⟩
      constructor
      · rintro (he | ⟨_, _, e⟩)
        · exact he
        · exact absurd e hy
      · exact .inl
    rw [refs, hsame, if_neg hy, refs, Nat.add_zero]

/-- One entry less is one reference less. -/
lemma refs_remove (hfun : ∀ y, H.entry d k y → y = x) (he : H.entry d k x) (y : ι) :
    (H.remove d k).refs y + (if y = x then 1 else 0) = H.refs y := by
  have hdiff : (H.remove d k).slots y = H.slots y \ {(d, k)} := by
    ext ⟨d', k'⟩
    exact and_congr_right fun _ => not_congr (Prod.mk_inj).symm
  rw [refs, hdiff]
  by_cases hy : y = x
  · subst hy
    have hin : (d, k) ∈ H.slots y := he
    rw [if_pos rfl, Set.ncard_sdiff_singleton_add_one hin (hf y), refs]
  · have hout : (d, k) ∉ H.slots y := fun h => hy (hfun y h)
    rw [if_neg hy, Nat.add_zero, Set.sdiff_singleton_eq_self hout, refs]

end refs

/-! ## Objects that are no directories -/

namespace WellFormed

/-- An object that is no directory is in no slot that a directory needs. -/
lemma two_le (h : H.WellFormed) (he : H.entry d k x) (hx : ¬ H.live x) : 2 ≤ k := by
  have hd := h.source he
  by_contra hk
  obtain rfl | rfl : k = 0 ∨ k = 1 := by omega
  · rw [h.func he (h.dot hd)] at hx
    exact hx hd
  · obtain ⟨y, hy, he', _⟩ := h.dotdot hd
    rw [h.func he he'] at hx
    exact hx hy

/-- A leaf is added. -/
lemma add (h : H.WellFormed) (hd : H.live d) (hfree : ∀ y, ¬ H.entry d k y) (hx : ¬ H.live x) :
    (H.add d k x).WellFormed where
  finite := finite_add h.finite
  source := by
    rintro d' k' y (he | ⟨rfl, _, _⟩)
    · exact h.source he
    · exact hd
  func := by
    rintro d' k' y z (he | ⟨rfl, rfl, rfl⟩) (he' | ⟨e, e', rfl⟩)
    · exact h.func he he'
    · subst e e'
      exact absurd he (hfree y)
    · exact absurd he' (hfree z)
    · rfl
  dot hl := .inl (h.dot hl)
  dotdot := by
    intro d' hl
    obtain ⟨y, hy, he, hup⟩ := h.dotdot hl
    refine ⟨y, hy, .inl he, hup.imp_right ?_⟩
    rintro ⟨k', hk', he'⟩
    exact ⟨k', hk', .inl he'⟩
  up := by
    rintro d' k' y (he | ⟨_, _, rfl⟩) hk hl
    · exact .inl (h.up he hk hl)
    · exact absurd hl hx
  single := by
    rintro d' k₁ k₂ y (he | ⟨_, _, rfl⟩) he₂ h₁ h₂ hl
    · rcases he₂ with he₂ | ⟨_, _, rfl⟩
      · exact h.single he he₂ h₁ h₂ hl
      · exact absurd hl hx
    · exact absurd hl hx

/-- A leaf is removed. -/
lemma remove (h : H.WellFormed) (he : H.entry d k x) (hx : ¬ H.live x) : (H.remove d k).WellFormed where
  finite := finite_remove h.finite
  source he' := h.source he'.1
  func he₁ he₂ := h.func he₁.1 he₂.1
  dot hl := by
    have h2 := h.two_le he hx
    exact ⟨h.dot hl, fun e => by omega⟩
  dotdot := by
    intro d' hl
    have h2 := h.two_le he hx
    obtain ⟨y, hy, he', hup⟩ := h.dotdot hl
    refine ⟨y, hy, ⟨he', fun e => by omega⟩, hup.imp_right ?_⟩
    rintro ⟨k', hk', hin⟩
    refine ⟨k', hk', hin, ?_⟩
    rintro ⟨rfl, rfl⟩
    rw [h.func he hin] at hx
    exact hx hl
  up he' hk hl := by
    have h2 := h.two_le he hx
    exact ⟨h.up he'.1 hk hl, fun e => by omega⟩
  single he₁ he₂ := h.single he₁.1 he₂.1

/-- A new directory, to which nothing refers yet, is put into a free slot. -/
lemma addDir (h : H.WellFormed) (hd : H.live d) (hk : 2 ≤ k) (hfree : ∀ y, ¬ H.entry d k y)
    (hx : ¬ H.live x)
    (href : ∀ d' k', ¬ H.entry d' k' x) : (H.addDir d k x).WellFormed where
  finite := finite_add (finite_add (finite_add h.finite))
  source := by
    rintro d' k' y (((he | ⟨rfl, _, _⟩) | ⟨rfl, _, _⟩) | ⟨rfl, _, _⟩)
    · exact .inl (h.source he)
    · exact .inl hd
    · exact .inr rfl
    · exact .inr rfl
  func := by
    -- the slots that are filled were free: that of the parent, and all of the new directory
    have old : ∀ {k' y}, ¬ H.entry x k' y := fun he => hx (h.source he)
    have hdx : d ≠ x := fun e => hx (e ▸ hd)
    rintro d' k' y z (((he | ⟨rfl, rfl, rfl⟩) | ⟨rfl, rfl, rfl⟩) | ⟨rfl, rfl, rfl⟩)
      (((he' | ⟨e, e', rfl⟩) | ⟨e, e', rfl⟩) | ⟨e, e', rfl⟩)
    all_goals try subst e
    all_goals try subst e'
    · exact h.func he he'
    · exact absurd he (hfree _)
    · exact absurd he old
    · exact absurd he old
    · exact absurd he' (hfree _)
    · rfl
    · exact absurd rfl hdx
    · exact absurd rfl hdx
    · exact absurd he' old
    · exact absurd rfl hdx
    · rfl
    · cases e'
    · exact absurd he' old
    · exact absurd rfl hdx
    · cases e'
    · rfl
  dot := by
    rintro d' (hl | rfl)
    · exact .inl (.inl (.inl (h.dot hl)))
    · exact .inl (.inr ⟨rfl, rfl, rfl⟩)
  dotdot := by
    rintro d' (hl | rfl)
    · obtain ⟨y, hy, he, hup⟩ := h.dotdot hl
      refine ⟨y, .inl hy, .inl (.inl (.inl he)), hup.imp_right ?_⟩
      rintro ⟨k', hk', he'⟩
      exact ⟨k', hk', .inl (.inl (.inl he'))⟩
    · exact ⟨d, .inl hd, .inr ⟨rfl, rfl, rfl⟩, .inr ⟨k, hk, .inl (.inl (.inr ⟨rfl, rfl, rfl⟩))⟩⟩
  up := by
    rintro d' k' y (((he | ⟨rfl, rfl, rfl⟩) | ⟨rfl, rfl, rfl⟩) | ⟨rfl, rfl, rfl⟩) hk' hl
    · rcases hl with hl | rfl
      · exact .inl (.inl (.inl (h.up he hk' hl)))
      · exact absurd he (href _ _)
    · exact .inr ⟨rfl, rfl, rfl⟩
    · omega
    · omega
  single := by
    rintro d' k₁ k₂ y (((he | ⟨rfl, rfl, rfl⟩) | ⟨_, rfl, _⟩) | ⟨_, rfl, _⟩)
      (((he' | ⟨e, e', e''⟩) | ⟨_, rfl, _⟩) | ⟨_, rfl, _⟩) h₁ h₂ hl
    · rcases hl with hl | rfl
      · exact h.single he he' h₁ h₂ hl
      · exact absurd he (href _ _)
    · subst e''
      exact absurd he (href _ _)
    · omega
    · omega
    · exact absurd he' (href _ _)
    · exact e'.symm
    all_goals omega

/-! ## Empty directories -/

/-- A directory `x` other than `d` with nothing in it, in a slot of `d`. -/
structure Empty (H : Hierarchy ι) (d : ι) (k : Nat) (x : ι) : Prop where
  entry : H.entry d k x
  live : H.live x
  ne : x ≠ d
  empty : ∀ {k' y}, H.entry x k' y → k' < 2

variable (h : H.WellFormed) (hem : Empty H d k x)
include h hem

/-- An empty directory is nobody's parent. -/
lemma Empty.not_parent (hd' : d' ≠ x) : ¬ H.entry d' 1 x := by
  intro he
  obtain ⟨y, _, he', hup⟩ := h.dotdot (h.source he)
  obtain rfl := h.func he he'
  rcases hup with rfl | ⟨k', hk', hin⟩
  · exact hd' rfl
  · exact absurd (hem.empty hin) (by omega)

/-- The entry of a directory in its parent is none of the first two. -/
lemma Empty.two_le : 2 ≤ k := by
  by_contra hk
  obtain rfl | rfl : k = 0 ∨ k = 1 := by omega
  · exact hem.ne (h.func hem.entry (h.dot (h.source hem.entry)))
  · exact hem.not_parent h hem.ne.symm hem.entry

/-- Its parent is the directory that it is in. -/
lemma Empty.parent : H.entry x 1 d := h.up hem.entry (hem.two_le h) hem.live

/-- Only its parent and the directory itself refer to it. -/
lemma Empty.only (he : H.entry d' k' x) : d' = d ∧ k' = k ∨ d' = x ∧ k' = 0 := by
  have hd' := h.source he
  by_cases hk' : 2 ≤ k'
  · obtain rfl := h.func (h.up he hk' hem.live) (hem.parent h)
    exact .inl ⟨rfl, h.single he hem.entry hk' (hem.two_le h) hem.live⟩
  obtain rfl | rfl : k' = 0 ∨ k' = 1 := by omega
  · exact .inr ⟨(h.func he (h.dot hd')).symm, rfl⟩
  · by_cases e : d' = x
    · subst e
      exact absurd (h.func he (hem.parent h)) hem.ne
    · exact absurd he (hem.not_parent h e)

/-- An empty directory is removed. -/
lemma removeDir : (H.removeDir d k x).WellFormed where
  finite := finite_remove (finite_remove (finite_remove h.finite))
  source := by
    rintro d' k' y ⟨⟨⟨he, _⟩, h0⟩, h1⟩
    refine ⟨h.source he, ?_⟩
    rintro rfl
    have := hem.empty he
    obtain rfl | rfl : k' = 0 ∨ k' = 1 := by omega
    · exact h0 ⟨rfl, rfl⟩
    · exact h1 ⟨rfl, rfl⟩
  func he he' := h.func he.1.1.1 he'.1.1.1
  dot := by
    rintro d' ⟨hl, hne⟩
    have h2 := hem.two_le h
    exact ⟨⟨⟨h.dot hl, fun e => by omega⟩, fun e => hne e.1⟩, fun e => hne e.1⟩
  dotdot := by
    rintro d' ⟨hl, hne⟩
    have h2 := hem.two_le h
    obtain ⟨y, hy, he, hup⟩ := h.dotdot hl
    have hyx : y ≠ x := by
      rintro rfl
      exact hem.not_parent h hne he
    refine ⟨y, ⟨hy, hyx⟩, ⟨⟨⟨he, fun e => by omega⟩, fun e => hne e.1⟩, fun e => hne e.1⟩,
      hup.imp_right ?_⟩
    rintro ⟨k', hk', hin⟩
    refine ⟨k', hk', ⟨⟨hin, ?_⟩, fun e => hyx e.1⟩, fun e => hyx e.1⟩
    rintro ⟨rfl, rfl⟩
    exact hne (h.func hin hem.entry)
  up := by
    rintro d' k' y he hk' ⟨hl, hne⟩
    have h2 := hem.two_le h
    exact ⟨⟨⟨h.up he.1.1.1 hk' hl, fun e => by omega⟩, fun e => hne e.1⟩, fun e => hne e.1⟩
  single he he' h₁ h₂ hl := h.single he.1.1.1 he'.1.1.1 h₁ h₂ hl.1

end WellFormed

/-! ## The number of references -/

section
open Classical
variable (h : H.WellFormed)
include h

/-- A new directory has two references, and its parent one more. -/
lemma refs_addDir (hd : H.live d) (hfree : ∀ y, ¬ H.entry d k y) (hx : ¬ H.live x) (y : ι) :
    (H.addDir d k x).refs y = H.refs y + (if y = x then 2 else 0) + if y = d then 1 else 0 := by
  have hdx : x ≠ d := fun e => hx (e ▸ hd)
  have old : ∀ k' z, ¬ H.entry x k' z := fun k' z he => hx (h.source he)
  have h0 : ∀ z, ¬ (H.add d k x).entry x 0 z := by
    rintro z (he | ⟨e, _, _⟩)
    · exact old 0 z he
    · exact hdx e
  have h1 : ∀ z, ¬ ((H.add d k x).add x 0 x).entry x 1 z := by
    rintro z ((he | ⟨e, _, _⟩) | ⟨_, e, _⟩)
    · exact old 1 z he
    · exact hdx e
    · cases e
  show (((H.add d k x).add x 0 x).add x 1 d).refs y = _
  rw [refs_add (finite_add (finite_add h.finite)) h1, refs_add (finite_add h.finite) h0,
    refs_add h.finite hfree]
  split_ifs <;> rfl

/-- With it go two references, and one to its parent. -/
lemma refs_removeDir (hem : WellFormed.Empty H d k x) (y : ι) :
    (H.removeDir d k x).refs y + (if y = x then 2 else 0) + (if y = d then 1 else 0) = H.refs y := by
  have hl := hem.live
  have e0 : (H.remove d k).entry x 0 x := ⟨h.dot hl, fun e => hem.ne e.1⟩
  have e1 : ((H.remove d k).remove x 0).entry x 1 d :=
    ⟨⟨hem.parent h, fun e => hem.ne e.1⟩, fun e => absurd e.2 (by decide)⟩
  have r := refs_remove h.finite (fun z hz => h.func hz hem.entry) hem.entry y
  have r0 := refs_remove (finite_remove h.finite) (fun z hz => h.func hz.1 e0.1) e0 y
  have r1 := refs_remove (finite_remove (finite_remove h.finite)) (fun z hz => h.func hz.1.1 e1.1.1) e1 y
  show (((H.remove d k).remove x 0).remove x 1).refs y + _ + _ = _
  split_ifs at r r0 r1 ⊢ <;> omega

end

end Hierarchy

end OldLinux.Lib
