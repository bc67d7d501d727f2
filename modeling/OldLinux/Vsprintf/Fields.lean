import OldLinux.Vsprintf.Pieces

/-!
# The fields the formatter emits

What the loops of `number` and of the conversions `%c` and `%s` give to the text, with the 32-bit
counters they run on, and when that is what `Field.text` says. A counter that is decremented once more at
the end of its loop wraps around if it was the smallest `int`; `number` runs up to three loops on one
counter, and where the last of them would find it wrapped around the field is not what it should be
(`Field.Fits`).
-/

namespace OldLinux.Vsprintf
open Lib

/-! ## The loops -/

section
variable {c : Byte} {k x : BitVec 32} {l : List Byte}

/-- One less as an `int`. -/
lemma toInt_pred (x : BitVec 32) :
    (x - 1).toInt = if x.toInt = -2 ^ 31 then 2 ^ 31 - 1 else x.toInt - 1 := by
  rw [BitVec.toInt_eq_toNat_cond, BitVec.toInt_eq_toNat_cond]
  split <;> split <;> split <;> bv_omega

/-- The range of an `int`. -/
lemma toInt_bounds (x : BitVec 32) : -2 ^ 31 ≤ x.toInt ∧ x.toInt < 2 ^ 31 :=
  ⟨BitVec.le_toInt x, BitVec.toInt_lt⟩

/-- A character at the end of the text. -/
lemma text_put (l : List Byte) (c : Byte) : (Emitter.text Byte).put l c = l ++ [c] := rfl

/-- The padding of some turns. -/
lemma padTurns_text {n : Nat} (hn : n = (x.toInt - k.toInt).toNat) :
    padTurns (.text Byte) c k n x l = (x - BitVec.ofNat 32 n - 1, l ++ List.replicate n c) := by
  induction n generalizing x l with
  | zero =>
    rw [padTurns, BitVec.ofNat_eq_ofNat, BitVec.sub_zero]
    exact congrArg _ (List.append_nil l).symm
  | succ n ih =>
    have hb := toInt_bounds k
    have hp := toInt_pred x
    rw [if_neg (by omega)] at hp
    rw [padTurns, if_pos (by omega), ih (by omega), text_put, List.append_assoc, List.replicate_succ]
    congr 1
    bv_omega

/-- A loop that counts `x` down to `k` emits as many characters as it counts. -/
lemma pad_text : (pad (.text Byte) c k x l).2 = l ++ List.replicate (x.toInt - k.toInt).toNat c := by
  rw [pad, padTurns_text rfl]

/-- The counter of the loop afterwards. -/
lemma pad_counter : (pad (.text Byte) c k x l).1.toInt =
    if k.toInt < x.toInt then k.toInt - 1 + (if k.toInt = -2 ^ 31 then 2 ^ 32 else 0)
    else (x - 1).toInt := by
  rw [pad, padTurns_text rfl]
  have hx := toInt_bounds x
  have hk := toInt_bounds k
  split
  case isTrue h =>
    have he : x - BitVec.ofNat 32 (x.toInt - k.toInt).toNat = k := by
      have hx' := BitVec.toInt_eq_toNat_cond x
      have hk' := BitVec.toInt_eq_toNat_cond k
      split at hx' <;> split at hk' <;> bv_omega
    show (x - BitVec.ofNat 32 (x.toInt - k.toInt).toNat - 1).toInt = _
    rw [he, toInt_pred]
    split <;> omega
  case isFalse h =>
    rw [Int.toNat_of_nonpos (by omega)]
    show (x - BitVec.ofNat 32 0 - 1).toInt = _
    rw [BitVec.ofNat_eq_ofNat, BitVec.sub_zero]

/-- The same for the other loop. -/
lemma prePadTurns_text {n : Nat} (hn : n = (x - 1).toInt.toNat) :
    prePadTurns (.text Byte) c n x l = (x - BitVec.ofNat 32 n - 1, l ++ List.replicate n c) := by
  induction n generalizing x l with
  | zero =>
    rw [prePadTurns, BitVec.ofNat_eq_ofNat, BitVec.sub_zero]
    exact congrArg _ (List.append_nil l).symm
  | succ n ih =>
    have hp := toInt_pred (x - 1)
    rw [if_neg (by omega)] at hp
    rw [prePadTurns, if_pos (by omega), ih (by omega), text_put, List.append_assoc,
      List.replicate_succ]
    congr 1
    bv_omega

/-- Its padding. -/
lemma prePad_text : (prePad (.text Byte) c x l).2 = l ++ List.replicate (x - 1).toInt.toNat c := by
  rw [prePad, prePadTurns_text rfl]

/-- The counter of the padding. -/
lemma prePad_counter : (prePad (.text Byte) c x l).1 = x - BitVec.ofNat 32 (x - 1).toInt.toNat - 1 := by
  rw [prePad, prePadTurns_text rfl]

end

/-! ## Characters and strings -/

/-- A width or a precision in an `int`: -1 if there is none. -/
def intOf : Option Nat → BitVec 32
  | none => -1
  | some n => BitVec.ofNat 32 n

/-- The width and the precision are in the range of an `int`. -/
def Layout.InRange (y : Layout) : Prop := y.width.getD 0 < 2 ^ 31 ∧ y.precision.getD 0 < 2 ^ 31

section
variable {c : Byte} {l : List Byte} {left : Bool} {w : Option Nat} {chars : Nat → Byte} {n i : Nat}

/-- A number below 2^31 as an `int`. -/
lemma toInt_ofNat (h : n < 2 ^ 31) : (BitVec.ofNat 32 n).toInt = n := by
  rw [BitVec.toInt_eq_toNat_cond, BitVec.toNat_ofNat]
  split <;> omega

/-- A width as an `int`, -1 if there is none. -/
lemma toInt_intOf (h : w.getD 0 < 2 ^ 31) :
    (intOf w).toInt = (w.getD 0 : Int) - if w = none then 1 else 0 := by
  cases w with
  | none => rfl
  | some n => exact (toInt_ofNat h).trans (Int.sub_zero _).symm

/-- What is left of a width in the range of an `int`. -/
lemma intOf_sub (h : w.getD 0 < 2 ^ 31) (m : Nat) : ((intOf w).toInt - m).toNat = w.getD 0 - m := by
  rw [toInt_intOf h]
  cases w with
  | none =>
    show (-1 - (m : Int)).toNat = 0 - m
    omega
  | some n =>
    show ((n : Int) - 0 - m).toNat = n - m
    omega

/-- What is left of a width is one less. -/
lemma toInt_intOf_pred (h : w.getD 0 < 2 ^ 31) : (intOf w - 1).toInt = (intOf w).toInt - 1 := by
  have hw := toInt_intOf h
  rw [toInt_pred, if_neg]
  split at hw <;> omega

/-- A character in its field. -/
lemma charField_text (h : w.getD 0 < 2 ^ 31) :
    charField (.text Byte) left (intOf w) c l = l ++ adjust left (w.getD 0) [c] := by
  have hn : (intOf w - 1).toInt.toNat = w.getD 0 - 1 := by
    rw [toInt_intOf_pred h]
    exact intOf_sub h 1
  cases left with
  | true =>
    show (prePad (.text Byte) _ (intOf w) (l ++ [c])).2 = _
    rw [prePad_text, hn, List.append_assoc]
    rfl
  | false =>
    show (prePad (.text Byte) _ (prePad (.text Byte) _ (intOf w) l).1
      ((prePad (.text Byte) _ (intOf w) l).2 ++ [c])).2 = _
    rw [prePad_text, prePad_text, prePad_counter, hn]
    -- the second loop runs on the counter that the first has left: no turn
    have hz : (intOf w - BitVec.ofNat 32 (w.getD 0 - 1) - 1 - 1).toInt.toNat = 0 := by
      cases w with
      | none => rfl
      | some n =>
        have h' : n < 2 ^ 31 := h
        show (BitVec.ofNat 32 n - BitVec.ofNat 32 (n - 1) - 1 - 1).toInt.toNat = 0
        cases n with
        | zero => rfl
        | succ n =>
          rw [show BitVec.ofNat 32 (n + 1) - BitVec.ofNat 32 (n + 1 - 1) - 1 - 1 = -1#32 by
            rw [Nat.add_sub_cancel, BitVec.ofNat_add]
            bv_omega]
          rfl
    rw [hz, List.append_assoc, List.append_assoc]
    rfl

/-- `strnlen` is the length of the string. -/
lemma strnlenFrom_eq : strnlenFrom chars n i = i + (stringFrom chars n i).length := by
  induction n generalizing i with
  | zero => rfl
  | succ n ih =>
    rw [strnlenFrom, stringFrom]
    by_cases h : chars i = 0
    · rw [if_neg (not_not_intro h), if_pos h]
      rfl
    · rw [if_pos h, if_neg h, ih, List.length_cons]
      omega

/-- The loop over a string emits what is before the NUL. -/
lemma putString_text : putString (.text Byte) chars (stringFrom chars n i).length i l =
    l ++ stringFrom chars n i := by
  induction n generalizing i l with
  | zero => exact (List.append_nil l).symm
  | succ n ih =>
    rw [stringFrom]
    split
    case isTrue => exact (List.append_nil l).symm
    case isFalse =>
      rw [List.length_cons, putString, ih, text_put, List.append_assoc]
      rfl

/-- A string in its field. -/
lemma stringField_text (h : w.getD 0 < 2 ^ 31) (hs : (stringFrom chars n 0).length < 2 ^ 31) :
    stringField (.text Byte) left (intOf w) chars
      (BitVec.ofNat 32 (strnlenFrom chars n 0)) l =
      l ++ adjust left (w.getD 0) (stringFrom chars n 0) := by
  rw [strnlenFrom_eq, Nat.zero_add]
  have hk := toInt_ofNat hs
  have hn : ((intOf w).toInt - (BitVec.ofNat 32 (stringFrom chars n 0).length).toInt).toNat =
      w.getD 0 - (stringFrom chars n 0).length := by
    rw [hk]
    exact intOf_sub h _
  have hput : ∀ l, putString (.text Byte) chars
      (BitVec.ofNat 32 (stringFrom chars n 0).length).toInt.toNat 0 l = l ++ stringFrom chars n 0 := by
    intro l
    rw [hk]
    exact putString_text
  cases left with
  | true =>
    show (pad (.text Byte) _ _ (intOf w) (putString _ _ _ _ l)).2 = _
    rw [pad_text, hput, hn, List.append_assoc]
    rfl
  | false =>
    show (pad (.text Byte) _ _ (pad (.text Byte) _ _ (intOf w) l).1 (putString _ _ _ _
      (pad (.text Byte) _ _ (intOf w) l).2)).2 = _
    rw [pad_text, pad_text, hput, hn, pad_counter, hk]
    -- no turn for the second loop here either, as the length is no negative `int`
    have hz : ((if ((stringFrom chars n 0).length : Int) < (intOf w).toInt then
        ((stringFrom chars n 0).length : Int) - 1 +
          (if ((stringFrom chars n 0).length : Int) = -2 ^ 31 then 2 ^ 32 else 0)
        else (intOf w - 1).toInt) - ((stringFrom chars n 0).length : Int)).toNat = 0 := by
      split
      · rw [if_neg (by omega)]
        omega
      · rw [toInt_intOf_pred h]
        omega
    rw [hz, List.append_assoc, List.append_assoc, List.replicate_zero, List.append_nil]
    rfl

end

/-! ## Numbers -/

/-- A base is above 1. -/
lemma Base.one_lt (base : Base) : 1 < base.val := by
  cases base <;> decide

/-- A base fits in an `int`. -/
lemma Base.val_lt (base : Base) : base.val < 2 ^ 32 := by
  cases base <;> decide

section
variable {base : BitVec 32} {large : Bool} {num : BitVec 64} {n : Nat}

/-- The loop finds the digits, the lowest first, and is over when it has them all. -/
lemma digitLoop_eq (hb : 1 < base.toNat) (h : num.toNat < 2 ^ n) : digitLoop large base n num =
    ((Nat.digits base.toNat num.toNat).map (digits large), 0) := by
  induction n generalizing num with
  | zero =>
    obtain rfl : num = 0 := BitVec.eq_of_toNat_eq (Nat.lt_one_iff.1 h)
    exact congrArg (fun l => (List.map (digits large) l, (0 : BitVec 64))) (Nat.digits_zero _).symm
  | succ n ih =>
    rw [digitLoop]
    by_cases h0 : num = 0
    · subst h0
      rw [if_pos rfl]
      exact congrArg (fun l => (List.map (digits large) l, (0 : BitVec 64))) (Nat.digits_zero _).symm
    have hpos : 0 < num.toNat := Nat.pos_of_ne_zero fun he => h0 (BitVec.eq_of_toNat_eq he)
    have hlt := base.isLt
    have hbase : (base.setWidth 64).toNat = base.toNat := by
      rw [BitVec.toNat_setWidth]
      omega
    have hq : (doDiv num base).1.toNat = num.toNat / base.toNat := by
      rw [doDiv, BitVec.toNat_udiv, hbase]
    have hr : (doDiv num base).2.toNat = num.toNat % base.toNat := by
      rw [doDiv, BitVec.toNat_setWidth, BitVec.toNat_umod, hbase]
      have := Nat.mod_lt num.toNat (Nat.zero_lt_of_lt hb)
      omega
    have hle : (doDiv num base).1.toNat < 2 ^ n := by
      rw [hq]
      apply Nat.div_lt_of_lt_mul
      rw [Nat.pow_succ, Nat.mul_comm] at h
      exact Nat.lt_of_lt_of_le h (Nat.mul_le_mul_right _ hb)
    rw [if_neg h0, Nat.digits_def' hb hpos, List.map_cons, ← hr, ← hq]
    exact congrArg (fun r => (digits large _ :: r.1, r.2)) (ih hle)

/-- The loop gives no more digits than it takes turns. -/
lemma length_digitLoop_le : (digitLoop large base n num).1.length ≤ n := by
  induction n generalizing num with
  | zero => exact Nat.le_refl _
  | succ n ih =>
    rw [digitLoop]
    split
    · exact Nat.zero_le _
    · exact Nat.succ_le_succ ih

/-- The digits find room in `tmp`. -/
lemma length_tmpIn_le : (tmpIn large base num).length ≤ 66 := by
  rw [tmpIn]
  split
  · decide
  · exact length_digitLoop_le

end

section
variable {base : Base} {large signed : Bool} {num : BitVec 64} {n : Nat} {v : Int}

/-- `tmp` holds the digits of the number, the lowest first. -/
lemma tmp_reverse : (tmp large base num).reverse = magnitude base large num.toNat := by
  have hval : (BitVec.ofNat 32 base.val).toNat = base.val := Nat.mod_eq_of_lt base.val_lt
  unfold tmp tmpIn magnitude
  by_cases h : num = 0
  · subst h
    rfl
  · rw [if_neg h, if_neg, digitLoop_eq (hval.symm ▸ base.one_lt) (Nat.lt_trans num.isLt (by decide)), hval]
    · rfl
    · intro he
      exact h (BitVec.eq_of_toNat_eq (Int.ofNat.inj he))

/-- The digits of a number find room in `tmp`. -/
lemma length_tmp_le : (tmp large base num).length ≤ 66 := length_tmpIn_le

/-- The sign of `number`, and the magnitude it goes on with. -/
lemma numberSign_eq {y : Layout} {type : Flags} {x : BitVec 32} (hs : type.sign = signed)
    (hp : type.plus = y.plus) (hsp : type.space = y.space)
    (hv : v = if signed then num.toInt else num.toNat) :
    ∃ sign num', numberSign type num x =
        (sign, num', x - BitVec.ofNat 32 (y.sign signed v).length) ∧
      (∀ l, putSign (.text Byte) sign l = l ++ y.sign signed v) ∧ num'.toNat = v.natAbs := by
  have hnone : ∀ l : List Byte, putSign (.text Byte) 0 l = l ++ [] := by
    intro l
    rw [List.append_nil]
    rfl
  unfold numberSign Layout.sign
  rw [hs, hp, hsp]
  cases signed with
  | false =>
    refine ⟨0, num, ?_, hnone, ?_⟩
    · show (0, num, x) = (0, num, x - 0#32)
      rw [BitVec.sub_zero]
    · rw [hv]
      rfl
  | true =>
    have hv' : v = num.toInt := hv
    have hn := BitVec.toInt_eq_toNat_cond num
    rw [← hv'] at hn
    by_cases hneg : v < 0
    · refine ⟨ascii '-', -num, ?_, fun l => ?_, ?_⟩
      · rw [if_pos rfl, if_pos (hv' ▸ hneg), if_pos rfl, if_pos hneg]
        rfl
      · rw [if_pos rfl, if_pos hneg]
        rfl
      · split at hn <;> bv_omega
    · have habs : num.toNat = v.natAbs := by
        split at hn <;> omega
      rw [if_pos rfl, if_neg (hv' ▸ hneg), if_pos rfl, if_neg hneg]
      cases y.plus with
      | true => exact ⟨ascii '+', num, rfl, fun _ => rfl, habs⟩
      | false =>
        cases y.space with
        | true => exact ⟨ascii ' ', num, rfl, fun _ => rfl, habs⟩
        | false =>
          refine ⟨0, num, ?_, hnone, habs⟩
          show (0, num, x) = (0, num, x - 0#32)
          rw [BitVec.sub_zero]

end

/-- The flags of a layout. -/
def Layout.toFlags (y : Layout) (signed large : Bool) : Flags where
  zeropad := y.zeropad
  sign := signed
  plus := y.plus
  space := y.space
  left := y.left
  special := y.special
  large := large

/-- The counter after a loop that counts it down to 0. -/
def counter (s : Int) : Int := if 0 < s then -1 else if s = -2 ^ 31 then 2 ^ 31 - 1 else s - 1

/-- An `int` that has become too small by less than 2^31. -/
def wrapped (s : Int) : Int := if s < -2 ^ 31 then s + 2 ^ 32 else s

namespace Layout
variable (y : Layout) (base : Base) (large signed : Bool) (v : Int)

/-- What `number` computes for its padding: the width less what is printed without it. -/
def room : Int :=
  (intOf y.width).toInt - ((y.sign signed v).length + (y.mark base large).length +
    (y.digits base large v).length : Nat)

/-- The number of characters that the three loops on the counter `s` emit. -/
def padding (s : Int) : Nat × Nat × Nat :=
  let r := if y.zeropad || y.left then (0, s) else (s.toNat, counter s)
  let r' := if y.left then (0, r.2) else (r.2.toNat, counter r.2)
  (r.1, r'.1, r'.2.toNat)

/-- What `number` emits. -/
def emitted : List Byte :=
  let n := y.padding (wrapped (y.room base large signed v))
  List.replicate n.1 (ascii ' ') ++ (y.sign signed v ++ y.mark base large) ++
    List.replicate n.2.1 (if y.zeropad && !y.left then ascii '0' else ascii ' ') ++
    y.digits base large v ++ List.replicate n.2.2 (ascii ' ')

end Layout

section
variable {y : Layout} {base : Base} {large signed skip : Bool} {num : BitVec 64} {v : Int} {c : Byte}
  {k x : BitVec 32} {l : List Byte} {n : Nat} {type : Flags}

/-- The counter after padding to 0. -/
lemma pad_zero_counter : (pad (.text Byte) c 0 x l).1.toInt = counter x.toInt := by
  rw [pad_counter, toInt_pred]
  rfl

/-- Padding that may be skipped. -/
lemma padUnless_text : (padUnless (.text Byte) skip c x l).2 =
    l ++ List.replicate (if skip then 0 else x.toInt.toNat) c := by
  cases skip with
  | true => exact (List.append_nil l).symm
  | false =>
    show (pad _ _ _ _ _).2 = _
    rw [pad_text]
    show _ ++ List.replicate (x.toInt - 0).toNat c = _
    rw [Int.sub_zero]
    rfl

/-- The counter of padding that may be skipped. -/
lemma padUnless_counter : (padUnless (.text Byte) skip c x l).1.toInt =
    if skip then x.toInt else counter x.toInt := by
  cases skip with
  | true => rfl
  | false => exact pad_zero_counter

/-- A difference that may wrap around. -/
lemma toInt_sub_ofNat (h : n < 2 ^ 31 + 68) : (x - BitVec.ofNat 32 n).toInt = wrapped (x.toInt - n) := by
  have hx := BitVec.toInt_eq_toNat_cond x
  have hlt := x.isLt
  rw [BitVec.toInt_eq_toNat_cond, wrapped]
  split at hx <;> split <;> split <;> bv_omega

/-- The number of digits. -/
lemma length_digits : (y.digits base large v).length =
    max (y.precision.getD 0) (magnitude base large v).length := by
  rw [Layout.digits, List.length_append, List.length_replicate]
  omega

/-- A sign is a character. -/
lemma length_sign_le : (y.sign signed v).length ≤ 1 := by
  unfold Layout.sign
  split
  · split
    · exact Nat.le_refl _
    · split
      · exact Nat.le_refl _
      · split
        · exact Nat.le_refl _
        · exact Nat.zero_le _
  · exact Nat.zero_le _

/-- A prefix is two. -/
lemma length_mark_le : (y.mark base large).length ≤ 2 := by
  unfold Layout.mark
  split
  · cases base <;> decide +revert
  · exact Nat.zero_le _

/-- The precision of `number` is the number of digits with the zeros before them. -/
lemma precision_eq (hy : y.InRange) {i : Nat} (hi : i = (magnitude base large v).length) (h66 : i ≤ 66) :
    (if (intOf y.precision).toInt < (BitVec.ofNat 32 i).toInt then BitVec.ofNat 32 i
      else intOf y.precision) = BitVec.ofNat 32 (y.digits base large v).length := by
  have hp := toInt_intOf hy.2
  rw [length_digits, ← hi, toInt_ofNat (by omega)]
  cases hpr : y.precision with
  | none =>
    rw [if_pos]
    · show _ = BitVec.ofNat 32 (max 0 i)
      rw [Nat.zero_max]
    · show (-1 : Int) < i
      omega
  | some p =>
    have hlt : p < 2 ^ 31 := by
      have h := hy.2
      rwa [hpr] at h
    show (if (BitVec.ofNat 32 p).toInt < _ then _ else BitVec.ofNat 32 p) = BitVec.ofNat 32 (max p i)
    rw [toInt_ofNat hlt]
    split
    case isTrue h => rw [Nat.max_eq_right (by omega)]
    case isFalse h => rw [Nat.max_eq_left (by omega)]

/-- The prefix is put. -/
lemma putSpecial_text (hs : type.special = y.special) (hl : type.large = large) :
    putSpecial (.text Byte) base type l = l ++ y.mark base large := by
  unfold putSpecial Layout.mark
  rw [hs, hl]
  split
  · cases base with
    | oct => rfl
    | dec => exact (List.append_nil l).symm
    | hex =>
      show (l ++ [_]) ++ [_] = _
      rw [List.append_assoc]
      cases large <;> rfl
  · exact (List.append_nil l).symm

/-- The prefix is counted. -/
lemma specialSize_eq (large : Bool) (hs : type.special = y.special) :
    specialSize base type x = x - BitVec.ofNat 32 (y.mark base large).length := by
  unfold specialSize Layout.mark
  rw [hs]
  cases y.special with
  | true =>
    cases base with
    | oct => rfl
    | dec => exact (BitVec.sub_zero x).symm
    | hex => rfl
  | false => exact (BitVec.sub_zero x).symm

/-- The digits do not depend on the sign. -/
lemma magnitude_natAbs : magnitude base large (v.natAbs : Int) = magnitude base large v := by
  unfold magnitude
  rw [Int.natAbs_natCast]
  congr 1
  exact propext (by omega)

/-- `-` takes `0` back. -/
lemma toFlags_zeropad : (if (y.toFlags signed large).left then
      { y.toFlags signed large with zeropad := false } else y.toFlags signed large) =
    { y.toFlags signed large with zeropad := y.zeropad && !y.left } := by
  unfold Layout.toFlags
  cases y.left with
  | true => simp
  | false => simp

/-- `number` on the text. -/
lemma number_text (hy : y.InRange) (hv : v = if signed then num.toInt else num.toNat) :
    number (.text Byte) num base (intOf y.width) (intOf y.precision) (y.toFlags signed large) l =
      l ++ y.emitted base large signed v := by
  unfold number
  rw [toFlags_zeropad]
  -- the flags, by their names, so that the loops below see no record
  generalize hT : { y.toFlags signed large with zeropad := y.zeropad && !y.left } = type
  have hleft : type.left = y.left := hT ▸ rfl
  have hzero : type.zeropad = (y.zeropad && !y.left) := hT ▸ rfl
  have hspecial : type.special = y.special := hT ▸ rfl
  have hlarge : type.large = large := hT ▸ rfl
  have hsign : type.sign = signed := hT ▸ rfl
  have hplus : type.plus = y.plus := hT ▸ rfl
  have hspace : type.space = y.space := hT ▸ rfl
  obtain ⟨sign, num', hnum, hput, habs⟩ := numberSign_eq (x := intOf y.width) hsign hplus hspace hv
  have hmag : (tmp large base num').reverse = magnitude base large v := by
    rw [tmp_reverse, habs, magnitude_natAbs]
  have hlen : (tmp large base num').length = (magnitude base large v).length := by
    rw [← hmag, List.length_reverse]
  have hprec := precision_eq (v := v) hy hlen length_tmp_le
  -- the subtractions wrap around at most once
  have hsize : (intOf y.width - BitVec.ofNat 32 (y.sign signed v).length -
      BitVec.ofNat 32 (y.mark base large).length -
      BitVec.ofNat 32 (y.digits base large v).length).toInt = wrapped (y.room base large signed v) := by
    rw [BitVec.sub_sub, ← BitVec.ofNat_add, BitVec.sub_sub, ← BitVec.ofNat_add, toInt_sub_ofNat]
    · rw [Layout.room, Nat.add_assoc]
    · have hs : (y.sign signed v).length ≤ 1 := length_sign_le
      have hm : (y.mark base large).length ≤ 2 := length_mark_le
      have hp := hy.2
      have h66 : (tmp large base num').length ≤ 66 := length_tmp_le
      rw [length_digits]
      omega
  have hzeros : ((BitVec.ofNat 32 (y.digits base large v).length).toInt -
      (BitVec.ofNat 32 (tmp large base num').length).toInt).toNat =
      y.precision.getD 0 - (magnitude base large v).length := by
    have hp := hy.2
    have h66 : (tmp large base num').length ≤ 66 := length_tmp_le
    rw [toInt_ofNat (by rw [length_digits]; omega), toInt_ofNat (by omega), length_digits, hlen]
    omega
  have hskip : (y.zeropad && !y.left || y.left) = (y.zeropad || y.left) := by
    cases y.left <;> simp
  simp only [hnum, hlarge, specialSize_eq large hspecial, hprec, hleft, hzero, hput, hmag,
    putSpecial_text hspecial hlarge, hskip, Emitter.text_puts, pad_text, hzeros]
  generalize intOf y.width - BitVec.ofNat 32 (y.sign signed v).length -
    BitVec.ofNat 32 (y.mark base large).length - BitVec.ofNat 32 (y.digits base large v).length = x
    at hsize ⊢
  simp only [padUnless_text, padUnless_counter, hsize, BitVec.ofNat_eq_ofNat, BitVec.toInt_zero,
    Int.sub_zero]
  unfold Layout.emitted Layout.padding
  cases y.left with
  | true => simp [Layout.digits]
  | false =>
    cases y.zeropad with
    | true => simp [Layout.digits, -List.replicate_append_replicate]
    | false => simp [Layout.digits]

end

/-! ## When the counter stays in range -/

/-- How often the counter is decremented before the last loop looks at it. -/
def Layout.slack (y : Layout) : Nat := if y.left then 0 else if y.zeropad then 1 else 2

/-- The counter of the padding of a number stays in the range of an `int`. -/
def Layout.Fits (y : Layout) (base : Base) (large signed : Bool) (v : Int) : Prop :=
  (y.sign signed v).length + (y.mark base large).length + (y.digits base large v).length + y.slack +
    (if y.width = none then 1 else 0) ≤ y.width.getD 0 + 2 ^ 31

section
variable {y : Layout} {base : Base} {large signed : Bool} {v : Int}

/-- The counter stays in range if there is room. -/
lemma fits_iff (hy : y.InRange) :
    y.Fits base large signed v ↔ -2 ^ 31 + (y.slack : Int) ≤ y.room base large signed v := by
  rw [Layout.Fits, Layout.room, toInt_intOf hy.1]
  split <;> omega

/-- A number has 66 digits at most. -/
lemma length_magnitude_le (hv : v.natAbs < 2 ^ 64) : (magnitude base large v).length ≤ 66 := by
  have h : (tmp large base (BitVec.ofNat 64 v.natAbs)).length ≤ 66 := length_tmp_le
  rwa [← List.length_reverse, tmp_reverse, BitVec.toNat_ofNat, Nat.mod_eq_of_lt hv,
    magnitude_natAbs] at h

/-- The counter wraps around once at most. -/
lemma room_gt (hy : y.InRange) (hv : v.natAbs < 2 ^ 64) : -2 ^ 32 < y.room base large signed v := by
  have hs : (y.sign signed v).length ≤ 1 := length_sign_le
  have hm : (y.mark base large).length ≤ 2 := length_mark_le
  have hd : (magnitude base large v).length ≤ 66 := length_magnitude_le hv
  have hp := hy.2
  rw [Layout.room, toInt_intOf hy.1, length_digits]
  split <;> omega

/-- A counter that was counted down is not positive. -/
lemma counter_toNat {s : Int} (h : -2 ^ 31 < s) : (counter s).toNat = 0 := by
  unfold counter
  split
  · rfl
  · rw [if_neg (by omega)]
    omega

/-- A counter that was counted down is in range. -/
lemma counter_gt {s : Int} (h : -2 ^ 31 + 1 < s) : -2 ^ 31 < counter s := by
  unfold counter
  split
  · omega
  · rw [if_neg (by omega)]
    omega

/-- A number in range stays. -/
lemma wrapped_of_le {s : Int} (h : -2 ^ 31 ≤ s) : wrapped s = s := if_neg (Int.not_lt.2 h)

/-- One below it wraps around. -/
lemma wrapped_of_lt {s : Int} (h : s < -2 ^ 31) : wrapped s = s + 2 ^ 32 := if_pos h

/-- A number whose counter stays in range is padded to its width. -/
lemma emitted_of_fits (hy : y.InRange) (h : y.Fits base large signed v) :
    y.emitted base large signed v = y.number base large signed v := by
  have hroom := (fits_iff hy).1 h
  have hn : (y.room base large signed v).toNat = y.width.getD 0 - ((y.sign signed v).length +
    (y.mark base large).length + (y.digits base large v).length) := intOf_sub hy.1 _
  unfold Layout.emitted Layout.number adjust Layout.padding
  rw [wrapped_of_le (by omega)]
  unfold Layout.slack at hroom
  cases hl : y.left with
  | true => simp [hn, Nat.add_assoc]
  | false =>
    cases hz : y.zeropad with
    | true =>
      have hr : -2 ^ 31 < y.room base large signed v := by
        simp [hl, hz] at hroom ⊢
        omega
      simp [hn, counter_toNat hr]
    | false =>
      have hr : -2 ^ 31 + 1 < y.room base large signed v := by
        simp [hl, hz] at hroom ⊢
        omega
      simp [hn, counter_toNat (counter_gt hr), counter_toNat (Int.lt_trans (by decide) hr),
        Nat.add_assoc]

/-- A counter that leaves the range is taken for room. -/
lemma padding_pos {s : Int} (hlow : -2 ^ 32 < s) (h : s < -2 ^ 31 + (y.slack : Int)) :
    0 < (y.padding (wrapped s)).1 + (y.padding (wrapped s)).2.1 + (y.padding (wrapped s)).2.2 := by
  unfold Layout.slack at h
  unfold Layout.padding
  have hdown : counter (-2 ^ 31) = 2 ^ 31 - 1 := rfl
  by_cases hw : s < -2 ^ 31
  · -- the subtractions have wrapped around, and the first loop that runs sees room
    rw [wrapped_of_lt hw]
    cases y.left with
    | true =>
      simp
      omega
    | false =>
      cases y.zeropad with
      | true =>
        simp
        omega
      | false =>
        simp
        omega
  · -- a loop without a turn wraps around, and the next one sees room
    rw [wrapped_of_le (Int.not_lt.1 hw)]
    cases hl : y.left with
    | true =>
      simp [hl] at h
      omega
    | false =>
      cases hz : y.zeropad with
      | true =>
        have hs : s = -2 ^ 31 := by
          simp [hl, hz] at h
          omega
        rw [hs]
        decide
      | false =>
        simp [hl, hz] at h
        by_cases hs : s = -2 ^ 31
        · rw [hs]
          decide
        · have hs' : s = -2 ^ 31 + 1 := by omega
          rw [hs']
          decide

/-- The number of characters that are emitted. -/
lemma length_emitted : (y.emitted base large signed v).length =
    (y.sign signed v).length + (y.mark base large).length + (y.digits base large v).length +
      ((y.padding (wrapped (y.room base large signed v))).1 +
        (y.padding (wrapped (y.room base large signed v))).2.1 +
        (y.padding (wrapped (y.room base large signed v))).2.2) := by
  unfold Layout.emitted
  simp only [List.length_append, List.length_replicate]
  omega

/-- The number of characters that there should be. -/
lemma length_number : (y.number base large signed v).length =
    max (y.width.getD 0)
      ((y.sign signed v).length + (y.mark base large).length + (y.digits base large v).length) := by
  unfold Layout.number
  dsimp only
  split
  · simp only [List.length_append, List.length_replicate]
    omega
  · rw [length_adjust, List.length_append, List.length_append]

/-- Any other number is printed with more characters than that. -/
lemma number_lt_emitted (hy : y.InRange) (hv : v.natAbs < 2 ^ 64) (h : ¬ y.Fits base large signed v) :
    (y.number base large signed v).length < (y.emitted base large signed v).length := by
  rw [fits_iff hy, Int.not_le] at h
  have hpos := padding_pos (room_gt hy hv) h
  have hw : y.width.getD 0 ≤
      (y.sign signed v).length + (y.mark base large).length + (y.digits base large v).length := by
    have hslack : y.slack ≤ 2 := by
      unfold Layout.slack
      split
      · decide
      · split <;> decide
    rw [Layout.room, toInt_intOf hy.1] at h
    split at h <;> omega
  rw [length_number, length_emitted]
  omega

end

/-! ## Any field -/

namespace Field

/-- The width and the precision, if the field uses them, are in the range of an `int`. -/
def InRange : Field → Prop
  | char y _ => y.InRange
  | string y _ => y.InRange
  | integer y .. => y.InRange
  | _ => True

/-- A number is one that an argument can hold. -/
def IsWord : Field → Prop
  | integer _ _ _ _ v => v.natAbs < 2 ^ 64
  | _ => True

/-- The length of what is printed of a string is in the range of an `int`. -/
def Short : Field → Prop
  | string y chars => (printed chars y.precision).length < 2 ^ 31
  | _ => True

/-- The counter of the padding of a number stays in the range of an `int`. -/
def Fits : Field → Prop
  | integer y base large signed v => y.Fits base large signed v
  | _ => True

/-- What is emitted for the field. -/
def emitted : Field → List Byte
  | integer y base large signed v => y.emitted base large signed v
  | f => f.text

variable {f : Field} {fs : List Field}

/-- What fits is emitted as it should be. -/
lemma emitted_eq (hr : f.InRange) (h : f.Fits) : f.emitted = f.text := by
  cases f with
  | integer y base large signed v => exact emitted_of_fits hr h
  | literal | char | string | count | percent | unknown | cut => rfl

/-- What does not is longer. -/
lemma length_lt (hr : f.InRange) (hw : f.IsWord) (h : ¬ f.Fits) :
    f.text.length < f.emitted.length := by
  cases f with
  | integer y base large signed v => exact number_lt_emitted hr hw h
  | literal | char | string | count | percent | unknown | cut => exact absurd trivial h

/-- It is never shorter. -/
lemma length_le (hr : f.InRange) (hw : f.IsWord) : f.text.length ≤ f.emitted.length := by
  by_cases h : f.Fits
  · rw [emitted_eq hr h]
  · exact Nat.le_of_lt (length_lt hr hw h)

/-- Many fields are never shorter. -/
lemma flatMap_length_le (hr : ∀ f ∈ fs, f.InRange) (hw : ∀ f ∈ fs, f.IsWord) :
    (fs.flatMap text).length ≤ (fs.flatMap emitted).length := by
  induction fs with
  | nil => exact Nat.le_refl _
  | cons f fs ih =>
    rw [List.forall_mem_cons] at hr hw
    rw [List.flatMap_cons, List.flatMap_cons, List.length_append, List.length_append]
    exact Nat.add_le_add (length_le hr.1 hw.1) (ih hr.2 hw.2)

/-- What is emitted for all fields is what they should print exactly when every counter stays in
    range. -/
lemma flatMap_emitted_iff (hr : ∀ f ∈ fs, f.InRange) (hw : ∀ f ∈ fs, f.IsWord) :
    fs.flatMap emitted = fs.flatMap text ↔ ∀ f ∈ fs, f.Fits := by
  induction fs with
  | nil => exact ⟨fun _ => List.forall_mem_nil _, fun _ => rfl⟩
  | cons f fs ih =>
    rw [List.forall_mem_cons] at hr hw ⊢
    rw [List.flatMap_cons, List.flatMap_cons]
    constructor
    · intro he
      have hf : f.Fits := by
        -- no field is printed too short, so a long one makes all of it too long
        by_contra hf
        have hlt := length_lt hr.1 hw.1 hf
        have hle := flatMap_length_le hr.2 hw.2
        have hlen := congrArg List.length he
        rw [List.length_append, List.length_append] at hlen
        omega
      rw [emitted_eq hr.1 hf] at he
      exact ⟨hf, (ih hr.2 hw.2).1 (List.append_cancel_left he)⟩
    · intro h
      rw [emitted_eq hr.1 h.1, (ih hr.2 hw.2).2 h.2]

end Field

end OldLinux.Vsprintf
