import Mathlib.Data.List.Range
import Mathlib.Logic.Function.Basic
import Mathlib.Tactic.Common

/-!
# Tables of slots

A map that is kept in a table. A slot is free or holds a key with its value, the slots below `size` are
in use, and a key is looked up from the front. A pair goes into a free slot, or behind the last one, and
comes out by freeing its slot.

What a lookup gives depends only on which slots hold the key (`find_congr`). So a slot that is filled or
freed changes the lookup of one key and of no other, and a table whose keys are unique is a finite map
(`get_put`, `get_erase`).
-/

namespace OldLinux.Lib
open Function

/-- Slots that are free or hold a key with its value, those below `size` in use. -/
structure SlotTable (κ ν : Type*) where
  size : Nat
  slot : Nat → Option (κ × ν)

namespace SlotTable
variable {κ ν : Type*} {t t' : SlotTable κ ν} {key key' : κ} {v : ν} {i j : Nat}

/-- Slot `i` is in use and holds the key. -/
def Holds (t : SlotTable κ ν) (i : Nat) (key : κ) : Prop :=
  i < t.size ∧ ∃ v, t.slot i = some (key, v)

/-- No key is held by two slots. -/
def Unique (t : SlotTable κ ν) : Prop := ∀ key i j, t.Holds i key → t.Holds j key → i = j

/-- Slot `i` is not in use, or free. -/
def Free (t : SlotTable κ ν) (i : Nat) : Prop := t.size ≤ i ∨ t.slot i = none

/-- The pair in slot `i`. -/
def put (t : SlotTable κ ν) (i : Nat) (key : κ) (v : ν) : SlotTable κ ν where
  size := max t.size (i + 1)
  slot := update t.slot i (some (key, v))

/-- Nothing in slot `i`. -/
def erase (t : SlotTable κ ν) (i : Nat) : SlotTable κ ν :=
  { t with slot := update t.slot i none }

/-- A free slot holds no key. -/
lemma Free.not_holds (h : t.Free i) : ¬ t.Holds i key := by
  rintro ⟨hi, v, hv⟩
  cases h with
  | inl hs => exact absurd hi (Nat.not_lt.2 hs)
  | inr h0 => cases h0.symm.trans hv

/-- A slot holds one key. -/
lemma Holds.inj (h : t.Holds i key) (h' : t.Holds i key') : key' = key := by
  obtain ⟨_, v, hv⟩ := h
  obtain ⟨_, v', hv'⟩ := h'
  exact congrArg Prod.fst (Option.some.inj (hv'.symm.trans hv))

/-! ## What holds a key after a change -/

/-- A slot in use, or the one behind the last, is filled. -/
lemma holds_put (hi : i ≤ t.size) :
    (t.put i key v).Holds j key' ↔ j = i ∧ key' = key ∨ j ≠ i ∧ t.Holds j key' := by
  have hself : (t.put i key v).slot i = some (key, v) := update_self _ _ _
  have hsize : (t.put i key v).size = max t.size (i + 1) := rfl
  rw [Holds, Holds, hsize]
  cases eq_or_ne j i with
  | inl e =>
    subst e
    rw [hself]
    constructor
    · intro ⟨_, w, hw⟩
      exact .inl ⟨rfl, (congrArg Prod.fst (Option.some.inj hw)).symm⟩
    · intro h
      cases h with
      | inl h => exact ⟨by omega, v, by rw [h.2]⟩
      | inr h => exact absurd rfl h.1
  | inr hne =>
    have hslot : (t.put i key v).slot j = t.slot j := update_of_ne hne _ _
    rw [hslot]
    constructor
    · intro ⟨hj, hv⟩
      exact .inr ⟨hne, by omega, hv⟩
    · intro h
      cases h with
      | inl h => exact absurd h.1 hne
      | inr h => exact ⟨by omega, h.2.2⟩

/-- What is held after a slot has been erased. -/
lemma holds_erase : (t.erase i).Holds j key ↔ j ≠ i ∧ t.Holds j key := by
  cases eq_or_ne j i with
  | inl e =>
    subst e
    have hself : (t.erase j).slot j = none := update_self _ _ _
    rw [Holds, hself]
    exact iff_of_false (fun ⟨_, _, hv⟩ => by cases hv) fun h => h.1 rfl
  | inr hne =>
    have hslot : (t.erase i).slot j = t.slot j := update_of_ne hne _ _
    rw [Holds, hslot]
    exact ⟨fun h => ⟨hne, h⟩, fun h => h.2⟩

/-- Keys stay unique. -/
lemma Unique.erase (h : t.Unique) : (t.erase i).Unique := fun key _ _ hi hj =>
  h key _ _ (holds_erase.1 hi).2 (holds_erase.1 hj).2

/-! ## Lookup -/

section
variable [DecidableEq κ]

/-- The first slot that holds the key. -/
def find (t : SlotTable κ ν) (key : κ) : Option Nat :=
  (List.range t.size).find? fun i => (t.slot i).map Prod.fst = some key

/-- The value of a key. -/
def get (t : SlotTable κ ν) (key : κ) : Option ν :=
  (t.find key).bind fun i => (t.slot i).map Prod.snd

omit [DecidableEq κ] in
/-- The key of a slot. -/
lemma map_fst_eq_some : (t.slot i).map Prod.fst = some key ↔ ∃ v, t.slot i = some (key, v) := by
  rw [Option.map_eq_some_iff]
  constructor
  · intro ⟨⟨_, v⟩, hv, e⟩
    exact ⟨v, by rw [hv, ← e]⟩
  · intro ⟨v, hv⟩
    exact ⟨(key, v), hv, rfl⟩

/-- The slot that is found is the first with the key. -/
lemma find_eq_some : t.find key = some i ↔ t.Holds i key ∧ ∀ j < i, ¬ t.Holds j key := by
  rw [find, List.find?_range_eq_some]
  simp only [decide_eq_true_eq, map_fst_eq_some, List.mem_range, Bool.not_eq_true',
    decide_eq_false_iff_not]
  constructor
  · intro ⟨hv, hi, hbefore⟩
    exact ⟨⟨hi, hv⟩, fun j hj h => hbefore j hj h.2⟩
  · intro ⟨⟨hi, hv⟩, hbefore⟩
    exact ⟨hv, hi, fun j hj h => hbefore j hj ⟨hj.trans hi, h⟩⟩

/-- No slot is found exactly if none has the key. -/
lemma find_eq_none : t.find key = none ↔ ∀ i, ¬ t.Holds i key := by
  rw [find, List.find?_range_eq_none]
  simp only [Bool.not_eq_true', decide_eq_false_iff_not, map_fst_eq_some]
  exact ⟨fun h i hi => h i hi.1 hi.2, fun h i hi hv => h i ⟨hi, hv⟩⟩

/-- A lookup depends on the slots that hold the key. -/
lemma find_congr (h : ∀ i, t'.Holds i key ↔ t.Holds i key) : t'.find key = t.find key := by
  cases e : t.find key with
  | none => exact find_eq_none.2 fun i hi => find_eq_none.1 e i ((h i).1 hi)
  | some i =>
    obtain ⟨hi, hbefore⟩ := find_eq_some.1 e
    exact find_eq_some.2 ⟨(h i).2 hi, fun j hj hk => hbefore j hj ((h j).1 hk)⟩

/-! ## A filled slot -/

/-- A new key is found where it was put. -/
lemma find_put_self (hi : i ≤ t.size) (h : t.find key = none) : (t.put i key v).find key = some i := by
  refine find_eq_some.2 ⟨(holds_put hi).2 (.inl ⟨rfl, rfl⟩), fun j hj hk => ?_⟩
  cases (holds_put hi).1 hk with
  | inl h => exact absurd h.1 (Nat.ne_of_lt hj)
  | inr hold => exact find_eq_none.1 h j hold.2

/-- The other keys are found where they were before one is put. -/
lemma find_put_of_ne (hi : i ≤ t.size) (hfree : t.Free i) (hne : key' ≠ key) :
    (t.put i key v).find key' = t.find key' := by
  apply find_congr
  intro j
  rw [holds_put hi]
  constructor
  · intro h
    cases h with
    | inl h => exact absurd h.2 hne
    | inr h => exact h.2
  · intro h
    refine .inr ⟨fun e => ?_, h⟩
    exact hfree.not_holds (e ▸ h)

/-- A new key keeps the keys unique. -/
lemma Unique.put (h : t.Unique) (hi : i ≤ t.size) (hnone : t.find key = none) :
    (t.put i key v).Unique := by
  intro k j j' hj hj'
  cases (holds_put hi).1 hj with
  | inl hnew =>
    cases (holds_put hi).1 hj' with
    | inl hnew' => rw [hnew.1, hnew'.1]
    | inr hold' => exact absurd (hnew.2 ▸ hold'.2) (find_eq_none.1 hnone j')
  | inr hold =>
    cases (holds_put hi).1 hj' with
    | inl hnew' => exact absurd (hnew'.2 ▸ hold.2) (find_eq_none.1 hnone j)
    | inr hold' => exact h k j j' hold.2 hold'.2

/-! ## A freed slot -/

/-- A key that was erased is not found. -/
lemma find_erase_self (hu : t.Unique) (h : t.find key = some i) : (t.erase i).find key = none := by
  refine find_eq_none.2 fun j hj => ?_
  obtain ⟨hne, hold⟩ := holds_erase.1 hj
  exact hne (hu key j i hold (find_eq_some.1 h).1)

/-- The other keys are found where they were before one is erased. -/
lemma find_erase_of_ne (h : t.find key = some i) (hne : key' ≠ key) :
    (t.erase i).find key' = t.find key' := by
  apply find_congr
  intro j
  rw [holds_erase]
  refine ⟨fun h => h.2, fun hj => ⟨fun e => ?_, hj⟩⟩
  exact hne ((find_eq_some.1 h).1.inj (e ▸ hj))

/-! ## The map -/

/-- The value of the key that is found. -/
lemma get_of_find (h : t.find key = some i) (hv : t.slot i = some (key, v)) : t.get key = some v := by
  rw [get, h, Option.bind_some, hv]
  rfl

/-- Tables that find the same have the same value. -/
lemma get_congr (hf : t'.find key = t.find key) (hs : ∀ i, t.find key = some i → t'.slot i = t.slot i) :
    t'.get key = t.get key := by
  rw [get, get, hf]
  cases e : t.find key with
  | none => rfl
  | some i => rw [Option.bind_some, Option.bind_some, hs i e]

/-- A pair with a new key in a free slot is a pair more in the map. -/
theorem get_put (hi : i ≤ t.size) (hfree : t.Free i) (hnone : t.find key = none) :
    (t.put i key v).get = update t.get key (some v) := by
  funext key'
  cases eq_or_ne key' key with
  | inl e =>
    subst e
    rw [update_self]
    exact get_of_find (find_put_self hi hnone) (update_self _ _ _)
  | inr hne =>
    rw [update_of_ne hne]
    apply get_congr (find_put_of_ne hi hfree hne)
    intro j hj
    refine update_of_ne (fun e => ?_) _ _
    exact hfree.not_holds (e ▸ (find_eq_some.1 hj).1)

/-- A freed slot is a pair less in the map. -/
theorem get_erase (hu : t.Unique) (h : t.find key = some i) :
    (t.erase i).get = update t.get key none := by
  funext key'
  cases eq_or_ne key' key with
  | inl e =>
    subst e
    rw [update_self, get, find_erase_self hu h]
    rfl
  | inr hne =>
    rw [update_of_ne hne]
    apply get_congr (find_erase_of_ne h hne)
    intro j hj
    refine update_of_ne (fun e => ?_) _ _
    exact hne ((find_eq_some.1 h).1.inj (e ▸ (find_eq_some.1 hj).1))

end

end SlotTable

end OldLinux.Lib
