import Mathlib.Data.List.Basic
import Mathlib.Logic.Function.Basic

/-!
# Layout of C structures

Members stand in the order of their declaration, each at the first offset that is a multiple of its
alignment; the size of a structure is rounded up to its alignment. The object types are those of the
LP64 rules: a `long` and a pointer take eight bytes.
-/

namespace OldLinux.Lib

/-- A C object type. -/
structure CType where
  size : Nat
  align : Nat
  align_pos : 0 < align

namespace CType

/-- `unsigned char`. -/
def uchar : CType := ⟨1, 1, by decide⟩

/-- `unsigned short`. -/
def ushort : CType := ⟨2, 2, by decide⟩

/-- `int`. -/
def int : CType := ⟨4, 4, by decide⟩

/-- `long`. -/
def long : CType := ⟨8, 8, by decide⟩

/-- `unsigned long`. -/
def ulong : CType := ⟨8, 8, by decide⟩

/-- A pointer. -/
def pointer : CType := ⟨8, 8, by decide⟩

/-- `t x[n]`. -/
def array (n : Nat) (t : CType) : CType := ⟨n * t.size, t.align, t.align_pos⟩

end CType

/-- The first multiple of `a` that is not below `n`. -/
def roundUp (a n : Nat) : Nat := (n + (a - 1)) / a * a

/-- Rounding up goes up. -/
lemma le_roundUp {a : Nat} (n : Nat) (h : 0 < a) : n ≤ roundUp a n := by
  have hdiv := Nat.div_add_mod (n + (a - 1)) a
  have hmod := Nat.mod_lt (n + (a - 1)) h
  rw [Nat.mul_comm] at hdiv
  rw [roundUp]
  omega

/-- A structure type: its members in order, and their types. -/
structure Struct (φ : Type*) where
  members : List φ
  type : φ → CType

namespace Struct
variable {φ ψ : Type*} [DecidableEq φ] [DecidableEq ψ] {S : Struct φ} {f g : φ} {n : Nat}
  {fs : List φ}

/-- Where member `f` begins when the members `fs` are laid out from `n` on. -/
def offsetFrom (S : Struct φ) (f : φ) : Nat → List φ → Nat
  | n, [] => n
  | n, g :: fs =>
    if g = f then roundUp (S.type g).align n
    else S.offsetFrom f (roundUp (S.type g).align n + (S.type g).size) fs

/-- Where the members `fs`, laid out from `n` on, end. -/
def endFrom (S : Struct φ) : Nat → List φ → Nat
  | n, [] => n
  | n, g :: fs => S.endFrom (roundUp (S.type g).align n + (S.type g).size) fs

/-- `offsetof`. -/
def offset (S : Struct φ) (f : φ) : Nat := S.offsetFrom f 0 S.members

/-- The alignment of the structure: that of its most aligned member. -/
def align (S : Struct φ) : Nat := S.members.foldr (fun f a => max (S.type f).align a) 1

/-- `sizeof`. -/
def sizeof (S : Struct φ) : Nat := roundUp S.align (S.endFrom 0 S.members)

omit [DecidableEq φ] in
/-- The end is behind the beginning. -/
lemma le_endFrom : n ≤ S.endFrom n fs := by
  induction fs generalizing n with
  | nil => exact Nat.le_refl n
  | cons g fs ih =>
    have hup := le_roundUp n (S.type g).align_pos
    exact Nat.le_trans (Nat.le_add_right_of_le hup) ih

/-- A member is before the end. -/
lemma offsetFrom_add_size_le (h : f ∈ fs) :
    S.offsetFrom f n fs + (S.type f).size ≤ S.endFrom n fs := by
  induction fs generalizing n with
  | nil => cases h
  | cons g fs ih =>
    rw [offsetFrom, endFrom]
    obtain rfl | hne := eq_or_ne g f
    · rw [if_pos rfl]
      exact le_endFrom
    · rw [if_neg hne]
      exact ih ((List.mem_cons.mp h).resolve_left hne.symm)

omit [DecidableEq φ] in
/-- An alignment is positive. -/
lemma align_pos : 0 < S.align := by
  rw [align]
  induction S.members with
  | nil => exact Nat.one_pos
  | cons f fs ih => exact Nat.lt_of_lt_of_le ih (Nat.le_max_right _ _)

omit [DecidableEq φ] in
/-- A structure as the type of a member. -/
def ctype (S : Struct φ) : CType := ⟨S.sizeof, S.align, align_pos⟩

/-- A member lies within the structure. -/
lemma offset_add_size_le (h : f ∈ S.members) : S.offset f + (S.type f).size ≤ S.sizeof :=
  Nat.le_trans (offsetFrom_add_size_le h) (le_roundUp _ align_pos)

/-- A member is behind the beginning. -/
lemma le_offsetFrom : n ≤ S.offsetFrom f n fs := by
  induction fs generalizing n with
  | nil => exact Nat.le_refl n
  | cons g fs ih =>
    have hup := le_roundUp n (S.type g).align_pos
    rw [offsetFrom]
    split
    · obtain rfl := ‹g = f›
      exact hup
    · exact Nat.le_trans (Nat.le_add_right_of_le hup) ih

/-- Two members do not overlap. -/
lemma offsetFrom_disjoint (hf : f ∈ fs) (hg : g ∈ fs) (hne : f ≠ g) :
    S.offsetFrom f n fs + (S.type f).size ≤ S.offsetFrom g n fs ∨
      S.offsetFrom g n fs + (S.type g).size ≤ S.offsetFrom f n fs := by
  induction fs generalizing n with
  | nil => cases hf
  | cons e fs ih =>
    rw [offsetFrom, offsetFrom]
    obtain rfl | hef := eq_or_ne e f
    · rw [if_pos rfl, if_neg hne]
      exact .inl le_offsetFrom
    · rw [if_neg hef]
      obtain rfl | heg := eq_or_ne e g
      · rw [if_pos rfl]
        exact .inr le_offsetFrom
      · rw [if_neg heg]
        exact ih ((List.mem_cons.mp hf).resolve_left hef.symm) ((List.mem_cons.mp hg).resolve_left heg.symm)

/-- Two members do not overlap. -/
lemma offset_disjoint (hf : f ∈ S.members) (hg : g ∈ S.members) (hne : f ≠ g) :
    S.offset f + (S.type f).size ≤ S.offset g ∨ S.offset g + (S.type g).size ≤ S.offset f :=
  offsetFrom_disjoint hf hg hne

/-- Members of the same types in the same order are in the same places. -/
lemma offsetFrom_map {T : Struct ψ} {e : φ → ψ} {rest : List ψ} (he : Function.Injective e)
    (ht : ∀ g, T.type (e g) = S.type g) (h : f ∈ fs) :
    T.offsetFrom (e f) n (fs.map e ++ rest) = S.offsetFrom f n fs := by
  induction fs generalizing n with
  | nil => cases h
  | cons g fs ih =>
    rw [List.map_cons, List.cons_append, offsetFrom, offsetFrom, ht]
    obtain rfl | hne := eq_or_ne g f
    · rw [if_pos rfl, if_pos rfl]
    · rw [if_neg hne, if_neg (he.ne hne), ih ((List.mem_cons.mp h).resolve_left hne.symm)]

/-- Two structures with a common initial sequence have its members at the same offsets. -/
lemma offset_initial {T : Struct ψ} {e : φ → ψ} {rest : List ψ} (he : Function.Injective e)
    (ht : ∀ g, T.type (e g) = S.type g) (hm : T.members = S.members.map e ++ rest)
    (h : f ∈ S.members) : T.offset (e f) = S.offset f := by
  rw [offset, offset, hm, offsetFrom_map he ht h]

end Struct

end OldLinux.Lib
