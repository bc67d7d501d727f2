import Mathlib.Data.Set.Insert
import Mathlib.Logic.Function.Basic

/-!
# Write-back caches

A write-back cache holds copies of the blocks of a backing store. A copy is valid when it has been
given contents, and unsaved when a modification of it has not reached the store yet. A copy that is
about to be reused is detached: nobody finds it any more, but it may still be unsaved. The history
variable `latest` gives the contents of the latest modification of every block.

A copy is trusted when it is unsaved, or valid and attached. `Sound` says that trusted copies hold
the latest contents, that no block has two of them, and that the store has the latest contents of
every block without an unsaved copy. Each operation keeps it under the condition its lemma names; the
one that matters is that of `load`: no detached copy of the block is still unsaved.
-/

namespace OldLinux.Lib
open Function

/-- A copy of the block `key`. -/
structure Copy (κ δ : Type*) where
  key : κ
  data : δ
  valid : Prop
  unsaved : Prop

/-- A write-back cache with its store. -/
structure WriteBack (β κ δ : Type*) where
  copies : β → Copy κ δ
  detached : Set β
  store : κ → δ
  latest : κ → δ

namespace WriteBack
variable {β κ δ : Type*}

/-- The contents of the copy count. -/
def Trusted (w : WriteBack β κ δ) (b : β) : Prop :=
  (w.copies b).unsaved ∨ b ∉ w.detached ∧ (w.copies b).valid

/-- Nothing is stale and nothing is lost. Only copies of `live` blocks are ever valid; the others are
    not in use, and there may be many of them. -/
structure Sound (live : κ → Prop) (w : WriteBack β κ δ) : Prop where
  valid_live : ∀ b, (w.copies b).valid → live (w.copies b).key
  unsaved_valid : ∀ b, (w.copies b).unsaved → (w.copies b).valid
  trusted : ∀ b, w.Trusted b → (w.copies b).data = w.latest (w.copies b).key
  unique : ∀ b b', w.Trusted b → w.Trusted b' → (w.copies b).key = (w.copies b').key → b = b'
  single : ∀ b b', b ∉ w.detached → b' ∉ w.detached → live (w.copies b).key →
    (w.copies b).key = (w.copies b').key → b = b'
  stored : ∀ k, (∀ b, (w.copies b).unsaved → (w.copies b).key ≠ k) → w.store k = w.latest k

/-- What a change of the single copy `b` has to respect. -/
structure Changes (live : κ → Prop) (w : WriteBack β κ δ) (b : β) (w' : WriteBack β κ δ) : Prop where
  copies : ∀ b' ≠ b, w'.copies b' = w.copies b'
  detached : ∀ b' ≠ b, b' ∈ w'.detached ↔ b' ∈ w.detached
  latest : ∀ b' ≠ b, w.Trusted b' → w'.latest (w.copies b').key = w.latest (w.copies b').key
  valid_live : (w'.copies b).valid → live (w'.copies b).key
  unsaved_valid : (w'.copies b).unsaved → (w'.copies b).valid
  trusted : w'.Trusted b → (w'.copies b).data = w'.latest (w'.copies b).key
  unique : w'.Trusted b → ∀ b' ≠ b, w.Trusted b' → (w.copies b').key ≠ (w'.copies b).key
  single : b ∉ w'.detached → live (w'.copies b).key →
    ∀ b' ≠ b, b' ∉ w.detached → (w.copies b').key ≠ (w'.copies b).key
  stored : ∀ k, (∀ b', (w'.copies b').unsaved → (w'.copies b').key ≠ k) → w'.store k = w'.latest k

variable {live : κ → Prop} {w w' : WriteBack β κ δ} {b : β}

/-- The latest contents of a block are on the store or in an unsaved copy. -/
theorem Sound.saved_or_unsaved (h : w.Sound live) (k : κ) :
    w.store k = w.latest k ∨
      ∃ b, (w.copies b).unsaved ∧ (w.copies b).key = k ∧ (w.copies b).data = w.latest k := by
  by_cases hk : ∃ b, (w.copies b).unsaved ∧ (w.copies b).key = k
  · obtain ⟨b, hu, e⟩ := hk
    exact .inr ⟨b, hu, e, e ▸ h.trusted b (.inl hu)⟩
  · exact .inl (h.stored k fun b hu e => hk ⟨b, hu, e⟩)

/-- The trust in the other copies stays. -/
lemma Changes.trusted_of_ne (c : Changes live w b w') {b' : β} (hne : b' ≠ b) :
    w'.Trusted b' ↔ w.Trusted b' := by
  rw [Trusted, Trusted, c.copies b' hne, c.detached b' hne]

/-- A change of one copy that respects the others keeps the cache sound. -/
theorem Sound.change (h : w.Sound live) (c : Changes live w b w') : w'.Sound live := by
  constructor
  case valid_live =>
    intro b' hv
    rcases eq_or_ne b' b with rfl | hne
    · exact c.valid_live hv
    · rw [c.copies b' hne] at hv ⊢
      exact h.valid_live b' hv
  case unsaved_valid =>
    intro b' hu
    rcases eq_or_ne b' b with rfl | hne
    · exact c.unsaved_valid hu
    · rw [c.copies b' hne] at hu ⊢
      exact h.unsaved_valid b' hu
  case trusted =>
    intro b' ht
    rcases eq_or_ne b' b with rfl | hne
    · exact c.trusted ht
    · have ht' := (c.trusted_of_ne hne).1 ht
      rw [c.copies b' hne, c.latest b' hne ht']
      exact h.trusted b' ht'
  case unique =>
    -- only a pair with `b` in it is new
    intro b₁ b₂ h₁ h₂ e
    rcases eq_or_ne b₁ b with rfl | hne₁
    · rcases eq_or_ne b₂ b₁ with rfl | hne₂
      · rfl
      · rw [c.copies b₂ hne₂] at e
        exact absurd e.symm (c.unique h₁ b₂ hne₂ ((c.trusted_of_ne hne₂).1 h₂))
    · have h₁' := (c.trusted_of_ne hne₁).1 h₁
      rw [c.copies b₁ hne₁] at e
      rcases eq_or_ne b₂ b with rfl | hne₂
      · exact absurd e (c.unique h₂ b₁ hne₁ h₁')
      · rw [c.copies b₂ hne₂] at e
        exact h.unique b₁ b₂ h₁' ((c.trusted_of_ne hne₂).1 h₂) e
  case single =>
    intro b₁ b₂ h₁ h₂ hl e
    rcases eq_or_ne b₁ b with rfl | hne₁
    · rcases eq_or_ne b₂ b₁ with rfl | hne₂
      · rfl
      · rw [c.copies b₂ hne₂] at e
        exact absurd e.symm (c.single h₁ hl b₂ hne₂ (mt (c.detached b₂ hne₂).2 h₂))
    · have h₁' := mt (c.detached b₁ hne₁).2 h₁
      rcases eq_or_ne b₂ b with rfl | hne₂
      · rw [e] at hl
        rw [c.copies b₁ hne₁] at e
        exact absurd e (c.single h₂ hl b₁ hne₁ h₁')
      · rw [c.copies b₁ hne₁] at e hl
        rw [c.copies b₂ hne₂] at e
        exact h.single b₁ b₂ h₁' (mt (c.detached b₂ hne₂).2 h₂) hl e
  case stored => exact c.stored

section
variable [DecidableEq β]

/-- Copy `b` becomes `c`. -/
def set (w : WriteBack β κ δ) (b : β) (c : Copy κ δ) : WriteBack β κ δ :=
  { w with copies := update w.copies b c }

/-- The contents of the block are fetched from the store. -/
def load (w : WriteBack β κ δ) (b : β) : WriteBack β κ δ :=
  w.set b ⟨(w.copies b).key, w.store (w.copies b).key, True, False⟩

/-- A copy is written back. -/
def save [DecidableEq κ] (w : WriteBack β κ δ) (b : β) : WriteBack β κ δ :=
  { w.set b { w.copies b with unsaved := False } with
    store := update w.store (w.copies b).key (w.copies b).data }

/-- The block is modified in the cache. -/
def modify [DecidableEq κ] (w : WriteBack β κ δ) (b : β) (v : δ) : WriteBack β κ δ :=
  { w.set b ⟨(w.copies b).key, v, True, True⟩ with latest := update w.latest (w.copies b).key v }

/-- A copy is taken away to be reused. -/
def detach (w : WriteBack β κ δ) (b : β) : WriteBack β κ δ :=
  { w with detached := insert b w.detached }

/-- A detached copy comes back for block `k`, without contents. -/
def reuse (w : WriteBack β κ δ) (b : β) (k : κ) : WriteBack β κ δ :=
  { w.set b ⟨k, (w.copies b).data, False, False⟩ with detached := w.detached \ {b} }

/-- The copy that is set. -/
@[simp] lemma set_self (w : WriteBack β κ δ) (b : β) (c : Copy κ δ) : (w.set b c).copies b = c :=
  update_self ..

/-- Setting a copy leaves the others. -/
lemma set_of_ne (w : WriteBack β κ δ) {b b' : β} (h : b' ≠ b) (c : Copy κ δ) :
    (w.set b c).copies b' = w.copies b' :=
  update_of_ne h ..

/-- Setting a copy leaves those that are taken out. -/
@[simp] lemma set_detached (w : WriteBack β κ δ) (b : β) (c : Copy κ δ) :
    (w.set b c).detached = w.detached := rfl

/-- Setting a copy leaves the store. -/
@[simp] lemma set_store (w : WriteBack β κ δ) (b : β) (c : Copy κ δ) :
    (w.set b c).store = w.store := rfl

/-- Setting a copy leaves what was written last. -/
@[simp] lemma set_latest (w : WriteBack β κ δ) (b : β) (c : Copy κ δ) :
    (w.set b c).latest = w.latest := rfl

/-- A load gives the latest contents, provided no detached copy of the block is still unsaved. -/
theorem Sound.load (h : w.Sound live) (hb : b ∉ w.detached) (hl : live (w.copies b).key)
    (hu : ¬(w.copies b).unsaved)
    (hd : ∀ b' ∈ w.detached, (w.copies b').unsaved → (w.copies b').key ≠ (w.copies b).key) :
    (w.load b).Sound live := by
  have hclean : ∀ b', (w.copies b').unsaved → (w.copies b').key ≠ (w.copies b).key := by
    intro b' hu' e
    by_cases hb' : b' ∈ w.detached
    · exact hd b' hb' hu' e
    · exact hu (h.single b b' hb hb' hl e.symm ▸ hu')
  have hfresh := h.stored _ hclean
  refine h.change (b := b) ⟨fun b' hne => set_of_ne w hne _, fun _ _ => Iff.rfl, fun _ _ _ => rfl,
    ?_, ?_, ?_, ?_, ?_, ?_⟩
  · simpa [WriteBack.load] using hl
  · simp [WriteBack.load]
  · simp [WriteBack.load, hfresh]
  · intro _ b' hne ht e
    simp only [WriteBack.load, set_self] at e
    cases ht with
    | inl hu' => exact hclean b' hu' e
    | inr hv => exact hne (h.single b b' hb hv.1 hl e.symm).symm
  · intro _ _ b' hne hb' e
    simp only [WriteBack.load, set_self] at e
    exact hne (h.single b b' hb hb' hl e.symm).symm
  · intro k hk
    refine h.stored k fun b' hu' e => ?_
    have hne : b' ≠ b := fun e' => hu (e' ▸ hu')
    have hs : (w.load b).copies b' = w.copies b' := set_of_ne w hne _
    exact hk b' (by rwa [hs]) (by rwa [hs])

/-- An unsaved copy may be written back at any time. -/
theorem Sound.save [DecidableEq κ] (h : w.Sound live) (hu : (w.copies b).unsaved) :
    (w.save b).Sound live := by
  have htr : w.Trusted b := .inl hu
  have hdata := h.trusted b htr
  refine h.change (b := b) ⟨fun b' hne => set_of_ne w hne _, fun _ _ => Iff.rfl, fun _ _ _ => rfl,
    ?_, ?_, ?_, ?_, ?_, ?_⟩
  · intro _
    simpa [WriteBack.save] using h.valid_live b (h.unsaved_valid b hu)
  · simp [WriteBack.save]
  · intro _
    simpa [WriteBack.save] using hdata
  · intro _ b' hne ht e
    simp only [WriteBack.save, set_self] at e
    exact hne (h.unique b' b ht htr e)
  · intro hb hl b' hne hb' e
    simp only [WriteBack.save, set_self] at e hl
    exact hne (h.single b b' hb hb' hl e.symm).symm
  · intro k hk
    rcases eq_or_ne k (w.copies b).key with rfl | hkb
    · simpa [WriteBack.save] using hdata
    · have hst : (w.save b).store k = w.store k := update_of_ne hkb ..
      rw [hst]
      refine h.stored k fun b' hu' e => ?_
      have hne : b' ≠ b := fun e' => hkb (e ▸ congrArg (fun b => (w.copies b).key) e')
      have hs : (w.save b).copies b' = w.copies b' := set_of_ne w hne _
      exact hk b' (by rwa [hs]) (by rwa [hs])

/-- A valid attached copy may be modified. -/
theorem Sound.modify [DecidableEq κ] (h : w.Sound live) (hb : b ∉ w.detached)
    (hv : (w.copies b).valid) (v : δ) : (w.modify b v).Sound live := by
  have htr : w.Trusted b := .inr ⟨hb, hv⟩
  have hl := h.valid_live b hv
  have hother : ∀ b' ≠ b, w.Trusted b' → (w.copies b').key ≠ (w.copies b).key :=
    fun b' hne ht e => hne (h.unique b' b ht htr e)
  refine h.change (b := b) ⟨fun b' hne => set_of_ne w hne _, fun _ _ => Iff.rfl,
    fun b' hne ht => update_of_ne (hother b' hne ht) .., ?_, ?_, ?_, ?_, ?_, ?_⟩
  · intro _
    simpa [WriteBack.modify] using hl
  · simp [WriteBack.modify]
  · intro _
    simp [WriteBack.modify]
  · intro _ b' hne ht e
    simp only [WriteBack.modify, set_self] at e
    exact hother b' hne ht e
  · intro _ _ b' hne hb' e
    simp only [WriteBack.modify, set_self] at e
    exact hne (h.single b b' hb hb' hl e.symm).symm
  · intro k hk
    have hkb : k ≠ (w.copies b).key := by
      intro e
      exact hk b (by simp [WriteBack.modify]) (by simp [WriteBack.modify, e])
    have hla : (w.modify b v).latest k = w.latest k := update_of_ne hkb ..
    rw [hla]
    refine h.stored k fun b' hu' e => ?_
    have hne : b' ≠ b := fun e' => hkb (e ▸ congrArg (fun b => (w.copies b).key) e')
    have hs : (w.modify b v).copies b' = w.copies b' := set_of_ne w hne _
    exact hk b' (by rwa [hs]) (by rwa [hs])

omit [DecidableEq β] in
/-- Any attached copy may be taken away. -/
theorem Sound.detach (h : w.Sound live) (b : β) : (w.detach b).Sound live := by
  have htr : ∀ b', (w.detach b).Trusted b' → w.Trusted b' := by
    intro b' ht
    exact ht.imp_right fun hv => ⟨fun hb' => hv.1 (.inr hb'), hv.2⟩
  exact
    { valid_live := h.valid_live
      unsaved_valid := h.unsaved_valid
      trusted := fun b' ht => h.trusted b' (htr b' ht)
      unique := fun b₁ b₂ h₁ h₂ => h.unique b₁ b₂ (htr b₁ h₁) (htr b₂ h₂)
      single := fun b₁ b₂ h₁ h₂ =>
        h.single b₁ b₂ (fun hb => h₁ (.inr hb)) (fun hb => h₂ (.inr hb))
      stored := h.stored }

/-- A copy that is saved may be reused for a block without an attached copy. -/
theorem Sound.reuse (h : w.Sound live) (hu : ¬(w.copies b).unsaved) {k : κ}
    (hk : live k → ∀ b' ≠ b, b' ∉ w.detached → (w.copies b').key ≠ k) : (w.reuse b k).Sound live := by
  have hself : (w.reuse b k).copies b = ⟨k, (w.copies b).data, False, False⟩ := set_self w b _
  have hdist : ¬(w.reuse b k).Trusted b := by simp [Trusted, hself]
  refine h.change (b := b) ⟨fun b' hne => set_of_ne w hne _, fun b' hne => ?_, fun _ _ _ => rfl,
    ?_, ?_, fun ht => absurd ht hdist, fun ht => absurd ht hdist, ?_, ?_⟩
  · simp [WriteBack.reuse, hne]
  · simp [hself]
  · simp [hself]
  · rw [hself]
    exact fun _ hl => hk hl
  · intro k' hk'
    refine h.stored k' fun b' hu' e => ?_
    have hne : b' ≠ b := fun e' => hu (e' ▸ hu')
    have hs : (w.reuse b k).copies b' = w.copies b' := set_of_ne w hne _
    exact hk' b' (by rwa [hs]) (by rwa [hs])

end

end WriteBack

end OldLinux.Lib
