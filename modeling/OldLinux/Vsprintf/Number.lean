import OldLinux.Vsprintf.Fields

/-!
# `number` in any base

`number` (`kernel/vsprintf.c`) for all bases that it accepts, with `tmp` filled digit by digit; for the bases
that `vsnprintf` uses it is the `number` of the other modules (`numberIn_eq`). `Formatted` says what it should
emit: a number of characters, a layout, and digits that read back as the magnitude.

The `int`s wrap around. A counter that has come below the smallest `int` is taken for room in the field, so the
output is as it should be exactly when that does not happen (`number_formats_iff`).
-/

namespace OldLinux.Vsprintf
open Lib

/-! ## The code -/

/-- `size` less what `SPECIAL` puts before the digits. -/
def specialSizeIn (base : BitVec 32) (type : Flags) (size : BitVec 32) : BitVec 32 :=
  if type.special then
    if base = 16 then size - 2
    else if base = 8 then size - 1
    else size
  else size

section
variable {σ : Type} (out : Emitter σ Byte)

/-- The emission of what `SPECIAL` puts before the digits. -/
def putSpecialIn (base : BitVec 32) (type : Flags) (s : σ) : σ :=
  if type.special then
    if base = 8 then out.put s (ascii '0')
    else if base = 16 then out.put (out.put s (ascii '0')) (digits type.large 33)
    else s
  else s

/-- `number`; `none` is `NULL`. -/
def numberIn (num : BitVec 64) (base size precision : BitVec 32) (type : Flags) (s : σ) : Option σ :=
  let type := if type.left then { type with zeropad := false } else type
  if base.toInt < 2 ∨ base.toInt > 36 then none
  else
    let c := if type.zeropad then ascii '0' else ascii ' '
    let (sign, num, size) := numberSign type num size
    let size := specialSizeIn base type size
    let tmp := tmpIn type.large base num
    let i := BitVec.ofNat 32 tmp.length
    let precision := if i.toInt > precision.toInt then i else precision
    let size := size - precision
    let r := padUnless out (type.zeropad || type.left) (ascii ' ') size s
    let s := putSpecialIn out base type (putSign out sign r.2)
    let r := padUnless out type.left c r.1 s
    let s := (pad out (ascii '0') i precision r.2).2
    let s := out.puts s tmp.reverse
    some (pad out (ascii ' ') 0 r.1 s).2

end

/-! ## What should be emitted -/

/-- The number, with its sign if `SIGN` is set. -/
def valueOf (type : Flags) (num : BitVec 64) : Int := if type.sign then num.toInt else num.toNat

/-- The sign before a number. -/
def signText (type : Flags) (num : BitVec 64) : List Byte :=
  if type.sign then
    if num.toInt < 0 then [ascii '-'] else if type.plus then [ascii '+'] else if type.space then [ascii ' '] else []
  else []

/-- The prefix of `SPECIAL`. -/
def prefixText (type : Flags) (base : Nat) : List Byte :=
  if type.special then
    if base = 16 then [ascii '0', if type.large then ascii 'X' else ascii 'x']
    else if base = 8 then [ascii '0'] else []
  else []

/-- The digits of a magnitude. -/
def digitText (large : Bool) (base m : Nat) : List Byte :=
  if m = 0 then [ascii '0'] else ((Nat.digits base m).map (digits large)).reverse

/-- The value of a digit. -/
def digitValue (large : Bool) (c : Byte) : Option Nat := (List.range 36).find? fun i => digits large i = c

/-- The number that digits stand for. -/
def readBack (large : Bool) (base : Nat) (l : List Byte) : Option Nat :=
  l.foldlM (fun v c => (digitValue large c).bind fun d => if d < base then some (v * base + d) else none) 0

/-- A call of `number`. -/
structure NumberCall where
  num : BitVec 64
  base : BitVec 32
  size : BitVec 32
  precision : BitVec 32
  type : Flags

namespace NumberCall
variable (k : NumberCall)

/-- The magnitude of the number. -/
def magnitude : Nat := (valueOf k.type k.num).natAbs

/-- The digits of the magnitude. -/
def digits : List Byte := digitText k.type.large k.base.toNat k.magnitude

/-- `s`, 1 for a sign. -/
def s : Nat := if k.type.sign ∧ (k.num.toInt < 0 ∨ k.type.plus ∨ k.type.space) then 1 else 0

/-- `p`, the length of the prefix. -/
def p : Nat :=
  if k.type.special then
    if k.base.toNat = 16 then 2 else if k.base.toNat = 8 then 1 else 0
  else 0

/-- The characters of the number itself. -/
def total : Int := k.s + k.p + max k.precision.toInt k.digits.length

/-- The characters that the field has beside them. -/
def padding : Nat := (k.size.toInt - k.total).toNat

/-- The layout of the field. -/
def layout : List Byte :=
  List.replicate (if k.type.left || k.type.zeropad then 0 else k.padding) (ascii ' ') ++
    signText k.type k.num ++ prefixText k.type k.base.toNat ++
    List.replicate (if k.type.zeropad && !k.type.left then k.padding else 0) (ascii '0') ++
    List.replicate (k.precision.toInt - k.digits.length).toNat (ascii '0') ++ k.digits ++
    List.replicate (if k.type.left then k.padding else 0) (ascii ' ')

/-- The arguments are those that `number` is for. -/
structure InRange : Prop where
  base : 2 ≤ k.base.toInt ∧ k.base.toInt ≤ 36
  size : -1 ≤ k.size.toInt
  precision : -1 ≤ k.precision.toInt

/-- The output is as it should be, and `tmp` has room for the digits. -/
structure Formatted (out : List Byte) : Prop where
  length : (out.length : Int) = max k.size.toInt k.total
  layout : out = k.layout
  value : readBack k.type.large k.base.toNat k.digits = some k.magnitude
  room : ∀ num, num.toNat = k.magnitude →
    (digitLoop k.type.large k.base 66 num).2 = 0 ∧ (tmpIn k.type.large k.base num).length ≤ 66

/-- How often the counter `size` is decremented before the last loop looks at it. -/
def slack : Nat := if k.type.left then 0 else if k.type.zeropad then 1 else 2

/-- The counter `size` does not come below the smallest `int` before the last loop. -/
def Fits : Prop := -2 ^ 31 + (k.slack : Int) ≤ k.size.toInt - k.total

instance : Decidable k.Fits := inferInstanceAs (Decidable (_ ≤ _))

end NumberCall

/-! ## The digits -/

section
variable {large : Bool} {base : BitVec 32} {num : BitVec 64} {n b m : Nat}

/-- `tmp` holds the digits, the lowest first. -/
lemma tmpIn_reverse (hb : 1 < base.toNat) :
    (tmpIn large base num).reverse = digitText large base.toNat num.toNat := by
  rw [tmpIn, digitText, digitLoop_eq hb (Nat.lt_trans num.isLt (by decide))]
  by_cases h : num = 0
  · subst h
    rfl
  · have h' : ¬ num.toNat = 0 := fun he => h (BitVec.eq_of_toNat_eq he)
    rw [if_neg h, if_neg h']

/-- A digit is read back. -/
lemma digitValue_digits (h : n < 36) : digitValue large (digits large n) = some n := by
  revert h n
  cases large <;> decide

/-- Digits are read back from the highest on. -/
lemma readBack_digits {ds : List Nat} (hb : b ≤ 36) (hd : ∀ d ∈ ds, d < b) :
    readBack large b (ds.map (digits large)).reverse = some (Nat.ofDigits b ds) := by
  induction ds with
  | nil => rfl
  | cons d ds ih =>
    have hlt := hd d List.mem_cons_self
    have hrec := ih fun x hx => hd x (List.mem_cons_of_mem _ hx)
    rw [readBack] at hrec ⊢
    rw [List.map_cons, List.reverse_cons, List.foldlM_append, hrec, Nat.ofDigits_cons]
    show (Option.bind _ _).bind _ = _
    rw [digitValue_digits (by omega), Option.bind_some, if_pos hlt, Option.bind_some, Nat.mul_comm, Nat.add_comm]
    rfl

/-- The text of a magnitude stands for it. -/
lemma readBack_digitText (hb : 1 < b) (h36 : b ≤ 36) : readBack large b (digitText large b m) = some m := by
  rw [digitText]
  by_cases h : m = 0
  · subst h
    rw [if_pos rfl]
    have h0 : readBack large b ([0].map (digits large)).reverse = some (Nat.ofDigits b [0]) :=
      readBack_digits h36 fun d hd => by
        rw [List.mem_singleton.1 hd]
        omega
    exact h0
  · rw [if_neg h, readBack_digits h36 fun d hd => Nat.digits_lt_base hb hd, Nat.ofDigits_digits]

end

/-! ## The emission -/

namespace NumberCall
variable {k : NumberCall} {l : List Byte} {x : BitVec 32} {large : Bool} {type : Flags}

/-- The flags that the padding depends on. -/
def frame (k : NumberCall) : Layout :=
  ⟨k.type.left, k.type.zeropad, k.type.plus, k.type.space, k.type.special, none, none⟩

/-- The sign is that of the layout. -/
lemma signText_eq : signText k.type k.num = k.frame.sign k.type.sign (valueOf k.type k.num) := by
  rw [signText, Layout.sign, valueOf]
  cases k.type.sign with
  | true => rfl
  | false => rfl

/-- The sign has `s` characters. -/
lemma length_signText : (signText k.type k.num).length = k.s := by
  rw [signText, s]
  cases k.type.sign with
  | false => rfl
  | true =>
    by_cases hn : k.num.toInt < 0
    · simp [hn]
    · cases k.type.plus <;> cases k.type.space <;> simp [hn]

/-- The prefix has `p`. -/
lemma length_prefixText : (prefixText k.type k.base.toNat).length = k.p := by
  rw [prefixText, p]
  split_ifs <;> rfl

/-- The prefix is counted. -/
lemma specialSizeIn_eq : specialSizeIn k.base k.type x = x - BitVec.ofNat 32 k.p := by
  have h16 : k.base = 16 ↔ k.base.toNat = 16 := BitVec.toNat_inj.symm
  have h8 : k.base = 8 ↔ k.base.toNat = 8 := BitVec.toNat_inj.symm
  rw [specialSizeIn, p]
  simp only [h16, h8]
  split_ifs <;> simp

/-- The prefix is put. -/
lemma putSpecialIn_text : putSpecialIn (.text Byte) k.base k.type l = l ++ prefixText k.type k.base.toNat := by
  have h16 : k.base = 16 ↔ k.base.toNat = 16 := BitVec.toNat_inj.symm
  have h8 : k.base = 8 ↔ k.base.toNat = 8 := BitVec.toNat_inj.symm
  rw [putSpecialIn, prefixText]
  simp only [h16, h8, text_put]
  cases k.type.special with
  | false => exact (List.append_nil l).symm
  | true =>
    rw [if_pos rfl, if_pos rfl]
    by_cases e16 : k.base.toNat = 16
    · have e8 : ¬ k.base.toNat = 8 := by omega
      rw [if_neg e8, if_pos e16, if_pos e16, List.append_assoc]
      cases k.type.large <;> rfl
    · rw [if_neg e16, if_neg e16]
      split
      · rfl
      · exact (List.append_nil l).symm

/-- The magnitude has at most 66 digits. -/
lemma InRange.length_digits_le (h : k.InRange) : k.digits.length ≤ 66 := by
  have hb := BitVec.toInt_eq_toNat_cond k.base
  have hm : k.magnitude < 2 ^ 64 := by
    have hn := BitVec.toInt_eq_toNat_cond k.num
    have hlt := k.num.isLt
    rw [magnitude, valueOf]
    split
    · split at hn <;> omega
    · omega
  have hbase : 1 < k.base.toNat := by
    have := h.base
    split at hb <;> omega
  have hle : (tmpIn k.type.large k.base (.ofNat 64 k.magnitude)).length ≤ 66 := length_tmpIn_le
  rwa [← List.length_reverse, tmpIn_reverse hbase, BitVec.toNat_ofNat, Nat.mod_eq_of_lt hm] at hle

/-- The digits with the zeros before them. -/
def width (k : NumberCall) : Nat := (k.precision.toInt - k.digits.length).toNat + k.digits.length

/-- The width of the digits. -/
lemma width_eq : (k.width : Int) = max k.precision.toInt k.digits.length := by
  rw [width]
  omega

/-- The characters of the number. -/
lemma total_eq : k.total = (k.s + k.p + k.width : Nat) := by
  rw [total, ← width_eq]
  omega

/-- The width is below 2^31. -/
lemma InRange.width_lt (h : k.InRange) : k.width < 2 ^ 31 := by
  have hd := h.length_digits_le
  have hp := toInt_bounds k.precision
  rw [width]
  omega

/-- The precision of `number` is the number of digits with the zeros before them. -/
lemma InRange.precision_eq (h : k.InRange) : (if (BitVec.ofNat 32 k.digits.length).toInt > k.precision.toInt
    then BitVec.ofNat 32 k.digits.length else k.precision) = BitVec.ofNat 32 k.width := by
  have hd := h.length_digits_le
  have hp := BitVec.toInt_eq_toNat_cond k.precision
  have hlt := k.precision.isLt
  rw [toInt_ofNat (by omega), width]
  split
  case isTrue hgt => rw [Int.toNat_of_nonpos (by omega), Nat.zero_add]
  case isFalse hle =>
    apply BitVec.eq_of_toNat_eq
    rw [BitVec.toNat_ofNat]
    split at hp <;> omega

/-- What `number` emits. -/
def emitted (k : NumberCall) : List Byte :=
  let n := k.frame.padding (wrapped (k.size.toInt - k.total))
  List.replicate n.1 (ascii ' ') ++ signText k.type k.num ++ prefixText k.type k.base.toNat ++
    List.replicate n.2.1 (if k.type.zeropad && !k.type.left then ascii '0' else ascii ' ') ++
    List.replicate (k.precision.toInt - k.digits.length).toNat (ascii '0') ++ k.digits ++
    List.replicate n.2.2 (ascii ' ')

/-- `LEFT` takes `ZEROPAD` back. -/
lemma flags_eq : (if type.left then { type with zeropad := false } else type) =
    { type with zeropad := type.zeropad && !type.left } := by
  cases type with
  | mk zeropad sign plus space left special large => cases left <;> simp

/-- `number` emits its parts. -/
lemma numberIn_text (h : k.InRange) :
    numberIn (.text Byte) k.num k.base k.size k.precision k.type l = some (l ++ k.emitted) := by
  have hb := BitVec.toInt_eq_toNat_cond k.base
  have hbase : 1 < k.base.toNat := by
    have := h.base
    split at hb <;> omega
  have hrange : ¬ (k.base.toInt < 2 ∨ k.base.toInt > 36) := by
    have := h.base
    omega
  unfold numberIn
  rw [flags_eq]
  -- the flags, by their names, so that the loops below see no record
  generalize hT : { k.type with zeropad := k.type.zeropad && !k.type.left } = type
  have hleft : type.left = k.type.left := hT ▸ rfl
  have hzero : type.zeropad = (k.type.zeropad && !k.type.left) := hT ▸ rfl
  have hlarge : type.large = k.type.large := hT ▸ rfl
  have hsign : type.sign = k.type.sign := hT ▸ rfl
  have hplus : type.plus = k.frame.plus := hT ▸ rfl
  have hspace : type.space = k.frame.space := hT ▸ rfl
  have hsize : ∀ x, specialSizeIn k.base type x = x - BitVec.ofNat 32 k.p := fun x => by
    rw [← specialSizeIn_eq, ← hT]
    rfl
  have hspecial : ∀ l, putSpecialIn (.text Byte) k.base type l = l ++ prefixText k.type k.base.toNat := fun l => by
    rw [← putSpecialIn_text, ← hT]
    rfl
  obtain ⟨sign, num', hnum, hput, habs⟩ := numberSign_eq (x := k.size) hsign hplus hspace
    (rfl : valueOf k.type k.num = _)
  rw [← signText_eq, length_signText] at hnum
  have hdigits : (tmpIn k.type.large k.base num').reverse = k.digits := by
    rw [tmpIn_reverse hbase, habs]
    rfl
  have hlen : (tmpIn k.type.large k.base num').length = k.digits.length := by
    rw [← hdigits, List.length_reverse]
  -- the subtractions wrap around at most once
  have hroom : (k.size - BitVec.ofNat 32 k.s - BitVec.ofNat 32 k.p - BitVec.ofNat 32 k.width).toInt =
      wrapped (k.size.toInt - k.total) := by
    have hs : k.s ≤ 1 := by
      rw [s]
      split <;> decide
    have hp : k.p ≤ 2 := by
      rw [p]
      split_ifs <;> decide
    have hw := h.width_lt
    rw [BitVec.sub_sub, ← BitVec.ofNat_add, BitVec.sub_sub, ← BitVec.ofNat_add, toInt_sub_ofNat (by omega), total_eq,
      Nat.add_assoc]
  have hzeros : ((BitVec.ofNat 32 k.width).toInt - (BitVec.ofNat 32 k.digits.length).toInt).toNat =
      (k.precision.toInt - k.digits.length).toNat := by
    have hd := h.length_digits_le
    rw [toInt_ofNat h.width_lt, toInt_ofNat (by omega), width_eq]
    omega
  have hskip : (k.type.zeropad && !k.type.left || k.type.left) = (k.type.zeropad || k.type.left) := by
    cases k.type.left <;> simp
  have hput' : ∀ l, putSign (.text Byte) sign l = l ++ signText k.type k.num := fun l => by
    rw [hput, signText_eq]
  simp only [if_neg hrange, hnum, hlarge, hsize, hlen, h.precision_eq, hleft, hzero, hput', hdigits, hspecial, hskip,
    Emitter.text_puts, pad_text, hzeros]
  generalize k.size - BitVec.ofNat 32 k.s - BitVec.ofNat 32 k.p - BitVec.ofNat 32 k.width = x at hroom ⊢
  simp only [padUnless_text, padUnless_counter, hroom, BitVec.ofNat_eq_ofNat, BitVec.toInt_zero, Int.sub_zero]
  unfold emitted Layout.padding frame
  cases k.type.left with
  | true => simp
  | false =>
    cases k.type.zeropad with
    | true => simp [-List.replicate_append_replicate]
    | false => simp

/-! ## When the counter stays in range -/

/-- The counter wraps around once at most. -/
lemma room_gt (h : k.InRange) : -2 ^ 32 < k.size.toInt - k.total := by
  have hs : k.s ≤ 1 := by
    rw [s]
    split <;> decide
  have hp : k.p ≤ 2 := by
    rw [p]
    split_ifs <;> decide
  have hw := h.width_lt
  have := h.size
  rw [total_eq]
  omega

/-- A counter that stays in range gives the layout. -/
lemma emitted_of_fits (h : k.Fits) : k.emitted = k.layout := by
  have hroom : -2 ^ 31 + (k.slack : Int) ≤ k.size.toInt - k.total := h
  unfold slack at hroom
  unfold emitted layout padding Layout.padding frame
  rw [wrapped_of_le (by omega)]
  cases hl : k.type.left with
  | true => simp
  | false =>
    cases hz : k.type.zeropad with
    | true =>
      have hr : -2 ^ 31 < k.size.toInt - k.total := by
        simp [hl, hz] at hroom
        omega
      simp [counter_toNat hr]
    | false =>
      have hr : -2 ^ 31 + 1 < k.size.toInt - k.total := by
        simp [hl, hz] at hroom
        omega
      simp [counter_toNat (counter_gt hr), counter_toNat (Int.lt_trans (by decide) hr)]

/-- The length of what should be emitted. -/
lemma length_layout : (k.layout.length : Int) = max k.size.toInt k.total := by
  have ht := @total_eq k
  have hw : k.width = (k.precision.toInt - k.digits.length).toNat + k.digits.length := rfl
  have hpad : k.padding = (k.size.toInt - k.total).toNat := rfl
  unfold layout
  simp only [List.length_append, List.length_replicate, length_signText, length_prefixText]
  cases k.type.left <;> cases k.type.zeropad <;> simp <;> omega

/-- The length of what is emitted. -/
lemma length_emitted : (k.emitted.length : Int) = k.total +
    ((k.frame.padding (wrapped (k.size.toInt - k.total))).1 +
      (k.frame.padding (wrapped (k.size.toInt - k.total))).2.1 +
      (k.frame.padding (wrapped (k.size.toInt - k.total))).2.2 : Nat) := by
  have ht := @total_eq k
  have hw : k.width = (k.precision.toInt - k.digits.length).toNat + k.digits.length := rfl
  unfold emitted
  simp only [List.length_append, List.length_replicate, length_signText, length_prefixText]
  omega

/-- Any other number is emitted with too many characters. -/
lemma layout_lt_emitted (h : k.InRange) (hf : ¬ k.Fits) : k.layout.length < k.emitted.length := by
  have hlt : k.size.toInt - k.total < -2 ^ 31 + (k.frame.slack : Int) := Int.not_le.1 hf
  have hpos := padding_pos (room_gt h) hlt
  have hslack : k.frame.slack ≤ 2 := by
    rw [Layout.slack]
    split_ifs <;> decide
  have hl := @length_layout k
  have he := @length_emitted k
  omega

/-- Output that is as it should be comes from a counter that stays in range. -/
lemma fits_of_formatted (h : k.InRange) {out : List Byte}
    (he : numberIn (.text Byte) k.num k.base k.size k.precision k.type [] = some out) (hf : k.Formatted out) :
    k.Fits := by
  rw [numberIn_text h] at he
  cases he
  by_contra hn
  exact absurd (congrArg List.length hf.layout) (Nat.ne_of_gt (layout_lt_emitted h hn))

end NumberCall

/-- `number` gives what it should for all arguments, except for those whose counter leaves the range of an
    `int`. -/
theorem number_formats_iff {k : NumberCall} (h : k.InRange) :
    (∃ out, numberIn (.text Byte) k.num k.base k.size k.precision k.type [] = some out ∧ k.Formatted out) ↔
      k.Fits := by
  have hb := BitVec.toInt_eq_toNat_cond k.base
  have hbase : 1 < k.base.toNat ∧ k.base.toNat ≤ 36 := by
    have := h.base
    split at hb <;> omega
  constructor
  · intro ⟨out, he, hf⟩
    exact NumberCall.fits_of_formatted h he hf
  · intro hf
    refine ⟨_, NumberCall.numberIn_text h, ?_, NumberCall.emitted_of_fits hf, readBack_digitText hbase.1 hbase.2, ?_⟩
    · rw [List.nil_append, NumberCall.emitted_of_fits hf]
      exact NumberCall.length_layout
    · intro num _
      rw [digitLoop_eq hbase.1 (Nat.lt_trans num.isLt (by decide))]
      exact ⟨rfl, length_tmpIn_le⟩

/-- For the bases of `vsnprintf`, this is the `number` that it calls. -/
theorem numberIn_eq {σ : Type} {out : Emitter σ Byte} {num : BitVec 64} {base : Base} {size precision : BitVec 32}
    {type : Flags} {st : σ} : numberIn out num (.ofNat 32 base.val) size precision type st =
      some (number out num base size precision type st) := by
  have htmp : ∀ large num, tmpIn large (.ofNat 32 base.val) num = tmp large base num := fun _ _ => rfl
  have hsize : ∀ type x, specialSizeIn (.ofNat 32 base.val) type x = specialSize base type x := fun type x => by
    cases base <;> rfl
  have hspecial : ∀ type s, putSpecialIn out (.ofNat 32 base.val) type s = putSpecial out base type s := by
    intro type s
    cases base <;> rfl
  have hrange : ¬ ((BitVec.ofNat 32 base.val).toInt < 2 ∨ (BitVec.ofNat 32 base.val).toInt > 36) := by
    cases base <;> decide
  unfold numberIn number
  simp only [if_neg hrange, htmp, hsize, hspecial, gt_iff_lt]

/-- `-255` in hexadecimal with `%#10x`, as a signed number. -/
def minus255 : NumberCall := ⟨-255, 16, 10, -1, { sign := true, special := true }⟩

/-- Minus 255 in hexadecimal. -/
theorem number_formats_minus255 : ∃ out, numberIn (.text Byte) minus255.num minus255.base minus255.size
    minus255.precision minus255.type [] = some out ∧ minus255.Formatted out :=
  (number_formats_iff ⟨by decide, by decide, by decide⟩).2 (by decide)

/-- The number 1 with as many zeros before it as the largest precision asks for. -/
def manyZeros : NumberCall := ⟨1, 10, -1, 2147483647, {}⟩

/-- The counter of the padding wraps around. -/
theorem number_formats_overflow : manyZeros.InRange ∧ ¬ ∃ out,
    numberIn (.text Byte) manyZeros.num manyZeros.base manyZeros.size manyZeros.precision manyZeros.type [] =
      some out ∧ manyZeros.Formatted out := by
  have hr : manyZeros.InRange := ⟨by decide, by decide, by decide⟩
  refine ⟨hr, fun ⟨out, he, hf⟩ => ?_⟩
  exact absurd (NumberCall.fits_of_formatted hr he hf) (by decide)

end OldLinux.Vsprintf
