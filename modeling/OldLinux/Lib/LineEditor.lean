import Mathlib.Data.List.DropRight

/-!
# Line editors

A text that grows at its end, in which some elements end a line. A key inserts an element, erases the last
one or does nothing, and erasing stops at an element that ends a line (`edit`). `finished` is the text up
to the last such element.

A line that is finished stays as it is: every key leaves `finished` a prefix of what it is afterwards, also
where the beginning of the text has been taken away in the meantime (`finished_edit`).

`drain` feeds inputs to a machine until it is full.
-/

namespace OldLinux.Lib

/-- What a key does. -/
inductive Key (α : Type*) where
  | insert (x : α)
  | erase
  | skip

namespace LineEditor
variable {α β σ : Type*}

section
variable (ends : α → Bool)

/-- The last element can be erased. -/
def erasable (text : List α) : Bool := text.getLast?.any fun x => !ends x

/-- A key on a text. -/
def edit (text : List α) : Key α → List α
  | .insert x => text ++ [x]
  | .erase => if erasable ends text then text.dropLast else text
  | .skip => text

/-- The text up to the last element that ends a line. -/
def finished (text : List α) : List α := text.rdropWhile fun x => !ends x

end

variable {ends : α → Bool}

/-- The last character can be erased unless it ends a line. -/
lemma erasable_concat {l : List α} {x : α} : erasable ends (l ++ [x]) = !ends x := by
  simp [erasable]

/-- A character that ends a line finishes it. -/
lemma finished_concat {l : List α} {x : α} :
    finished ends (l ++ [x]) = if ends x then l ++ [x] else finished ends l := by
  cases hx : ends x with
  | true => exact List.rdropWhile_concat_neg _ l x (by simp [hx])
  | false => exact List.rdropWhile_concat_pos _ l x (by simp [hx])

/-- What is finished is the beginning of all. -/
lemma finished_initial (l : List α) : finished ends l <+: l := List.rdropWhile_prefix _ l

/-- A key only ever adds to the finished lines, whatever text `front` has been taken away from in front
    of the one it works on. -/
theorem finished_edit (front l : List α) (k : Key α) :
    finished ends (front ++ l) <+: finished ends (front ++ edit ends l k) := by
  cases k with
  | insert x =>
    rw [edit, ← List.append_assoc, finished_concat]
    split
    · exact (finished_initial _).trans (List.prefix_append _ _)
    · exact List.prefix_refl _
  | erase =>
    rw [edit]
    split
    case isFalse => exact List.prefix_refl _
    case isTrue h =>
      cases l using List.reverseRecOn with
      | nil => simp [erasable] at h
      | append_singleton l x =>
        rw [erasable_concat] at h
        have hx : ends x ≠ true := by simpa using h
        rw [List.dropLast_concat, ← List.append_assoc, finished_concat]
        split
        · next hends => exact absurd hends hx
        · exact List.prefix_refl _
  | skip => exact List.prefix_refl _

section
variable (full : σ → Bool) (f : σ → β → σ)

/-- The inputs go to the machine one after the other until it is full; the rest is left. -/
def drain : σ → List β → σ × List β
  | s, [] => (s, [])
  | s, x :: l => if full s then (s, x :: l) else drain (f s x) l

end

end LineEditor

end OldLinux.Lib
