import Mathlib.Algebra.Group.Nat.Defs
import Mathlib.Data.List.Induction
import Mathlib.Logic.Function.Basic

/-!
# Emitters

A formatter emits elements one by one and asks how many it has emitted. `Emitter σ α` is what it needs of
the thing it emits to. `text` is the emitter that keeps everything, and an emitter follows the text when it
is a function of it (`Follows`): what the formatter does on such an emitter is determined by the text.

`window start lim` is the emitter into memory whose cursor begins at `start` and moves on with every
element, while elements are stored up to the address `lim` only. `Window.wrote` records the addresses
that have been stored to. The rules say where the cursor is, what has been stored to and what is there
after a text, also where the cursor has wrapped around.
-/

namespace OldLinux.Lib
open Function

/-- What a formatter emits to. -/
structure Emitter (σ α : Type*) where
  put : σ → α → σ
  count : σ → BitVec 64

variable {σ α : Type*}

namespace Emitter

/-- Emits the elements of a list. -/
def puts (out : Emitter σ α) (s : σ) (l : List α) : σ := l.foldl out.put s

/-- The emitter that keeps everything. -/
def text (α : Type*) : Emitter (List α) α where
  put l c := l ++ [c]
  count l := BitVec.ofNat 64 l.length

/-- The emitter is a function of the text. -/
structure Follows (out : Emitter σ α) (f : List α → σ) : Prop where
  put : ∀ l c, out.put (f l) c = f (l ++ [c])
  count : ∀ l, out.count (f l) = BitVec.ofNat 64 l.length

variable {out : Emitter σ α} {f : List α → σ}

/-- Two stretches are put one after the other. -/
lemma puts_append (s : σ) (l l' : List α) : out.puts s (l ++ l') = out.puts (out.puts s l) l' :=
  List.foldl_append

/-- The output follows a stretch. -/
lemma Follows.puts (h : out.Follows f) (l l' : List α) : out.puts (f l) l' = f (l ++ l') := by
  induction l' generalizing l with
  | nil => rw [List.append_nil]; rfl
  | cons c l' ih =>
    show out.puts (out.put (f l) c) l' = _
    rw [h.put, ih, List.append_assoc]
    rfl

/-- The text gets the stretch at its end. -/
lemma text_puts (l l' : List α) : (text α).puts l l' = l ++ l' := by
  induction l' generalizing l with
  | nil => exact (List.append_nil l).symm
  | cons c l' ih =>
    show (text α).puts (l ++ [c]) l' = _
    rw [ih, List.append_assoc]
    rfl

end Emitter

/-- A cursor into memory, with the addresses that have been stored to. -/
structure Window (α : Type*) where
  str : BitVec 64
  mem : BitVec 64 → α
  wrote : List (BitVec 64)

namespace Window

/-- Stores an element. -/
def store (w : Window α) (a : BitVec 64) (c : α) : Window α :=
  { w with mem := update w.mem a c, wrote := a :: w.wrote }

/-- Stores an element at the cursor if that is not past `lim`, and moves the cursor on. -/
def put (lim : BitVec 64) (w : Window α) (c : α) : Window α :=
  let w' := if w.str ≤ lim then w.store w.str c else w
  { w' with str := w.str + 1 }

end Window

/-- The emitter into memory from `start` up to `lim`. -/
def window (α : Type*) (start lim : BitVec 64) : Emitter (Window α) α where
  put := Window.put lim
  count w := w.str - start

section
variable {start lim a : BitVec 64} {w : Window α} {l : List α} {c : α}

/-- The addresses that were written. -/
lemma mem_put_wrote : a ∈ (w.put lim c).wrote ↔ a ∈ w.wrote ∨ w.str ≤ lim ∧ a = w.str := by
  unfold Window.put
  dsimp only
  split
  case isTrue h => simp [Window.store, h, or_comm]
  case isFalse h => simp [h]

/-- The memory after a character. -/
lemma put_mem : (w.put lim c).mem a = if w.str ≤ lim ∧ a = w.str then c else w.mem a := by
  unfold Window.put
  dsimp only
  split
  case isTrue h => simp [Window.store, update_apply, h]
  case isFalse h => simp [h]

/-- The address behind. -/
lemma add_ofNat_succ (b : BitVec 64) (n : Nat) :
    b + BitVec.ofNat 64 (n + 1) = b + BitVec.ofNat 64 n + 1 := by
  rw [BitVec.ofNat_add, BitVec.add_assoc]
  rfl

/-- The cursor after a text. -/
lemma window_str : ((window α start lim).puts w l).str = w.str + BitVec.ofNat 64 l.length := by
  induction l using List.reverseRecOn with
  | nil => exact (BitVec.add_zero _).symm
  | append_singleton l c ih =>
    rw [Emitter.puts_append, List.length_append]
    show ((window α start lim).puts w l).str + 1 = _
    rw [ih]
    exact (add_ofNat_succ _ _).symm

/-- What has been stored to after a text. -/
lemma window_wrote : a ∈ ((window α start lim).puts w l).wrote ↔ a ∈ w.wrote ∨
    ∃ i < l.length, w.str + BitVec.ofNat 64 i ≤ lim ∧ a = w.str + BitVec.ofNat 64 i := by
  induction l using List.reverseRecOn with
  | nil => simp [Emitter.puts]
  | append_singleton l c ih =>
    rw [Emitter.puts_append]
    show a ∈ (((window α start lim).puts w l).put lim c).wrote ↔ _
    rw [mem_put_wrote, ih, window_str, List.length_append, List.length_singleton, or_assoc]
    apply or_congr Iff.rfl
    constructor
    · intro h
      cases h with
      | inl h =>
        obtain ⟨i, hi, ha⟩ := h
        exact ⟨i, Nat.lt_succ_of_lt hi, ha⟩
      | inr h => exact ⟨l.length, Nat.lt_succ_self _, h⟩
    · intro h
      obtain ⟨i, hi, ha⟩ := h
      cases Nat.lt_succ_iff_lt_or_eq.1 hi with
      | inl hi => exact .inl ⟨i, hi, ha⟩
      | inr hi =>
        subst hi
        exact .inr ha

/-- What is in memory after a text, as long as the cursor does not come round. -/
lemma window_mem (hl : l.length ≤ 2 ^ 64) {i : Nat} (hi : i < l.length)
    (hlim : w.str + BitVec.ofNat 64 i ≤ lim) :
    ((window α start lim).puts w l).mem (w.str + BitVec.ofNat 64 i) = l[i] := by
  induction l using List.reverseRecOn with
  | nil => cases hi
  | append_singleton l c ih =>
    rw [List.length_append, List.length_singleton] at hl hi
    rw [Emitter.puts_append]
    show (((window α start lim).puts w l).put lim c).mem _ = _
    rw [put_mem, window_str]
    cases Nat.lt_succ_iff_lt_or_eq.1 hi with
    | inl hi =>
      rw [if_neg, ih (Nat.le_of_succ_le hl) hi, List.getElem_append_left hi]
      intro he
      have hb : BitVec.ofNat 64 i = BitVec.ofNat 64 l.length := (BitVec.add_right_inj _).1 he.2
      have hn := congrArg BitVec.toNat hb
      rw [BitVec.toNat_ofNat, BitVec.toNat_ofNat, Nat.mod_eq_of_lt (Nat.lt_trans hi hl),
        Nat.mod_eq_of_lt hl] at hn
      exact Nat.ne_of_lt hi hn
    | inr hi =>
      subst hi
      rw [if_pos ⟨hlim, rfl⟩, List.getElem_concat_length rfl]

/-- Memory that has not been stored to is as it was. -/
lemma window_kept (ha : a ∉ ((window α start lim).puts w l).wrote) :
    ((window α start lim).puts w l).mem a = w.mem a := by
  induction l using List.reverseRecOn with
  | nil => rfl
  | append_singleton l c ih =>
    rw [Emitter.puts_append] at ha ⊢
    change a ∉ (((window α start lim).puts w l).put lim c).wrote at ha
    show (((window α start lim).puts w l).put lim c).mem a = _
    rw [mem_put_wrote, not_or] at ha
    rw [put_mem, if_neg ha.2, ih ha.1]

/-- The emitter into memory follows the text. -/
lemma window_follows : (window α start lim).Follows
    ((window α start lim).puts { w with str := start }) where
  put l c := (Emitter.puts_append _ l [c]).symm
  count l := by
    show ((window α start lim).puts { w with str := start } l).str - start = _
    rw [window_str, BitVec.add_comm, BitVec.add_sub_cancel]

end

end OldLinux.Lib
