import Mathlib.Data.Nat.Digits.Defs
import OldLinux.Vsprintf.Code

/-!
# What a format means

A format string is a sequence of pieces: characters that stand for themselves, and directives
`%[flags][width][.precision][h|l|ll|L|z|Z]conversion`. `pieces` splits a format into them, and
`Piece.text` gives back what a piece was split from. `fields` hands the arguments out to the pieces in
order, and `Field.text` is what a piece prints. A width and a precision are natural numbers here, and a
number that is printed is an integer.
-/

namespace OldLinux.Vsprintf

/-! ## Pieces -/

/-- A width or a precision in the format. -/
inductive Amount where
  | digits (ds : List Byte)
  | star
  deriving DecidableEq

/-- The parts of a directive. The precision may be a point alone, and the conversion character is
    missing where the format ends. -/
structure Directive where
  flags : List Byte
  width : Option Amount
  precision : Option (Option Amount)
  qualifier : List Byte
  conv : Option Byte
  deriving DecidableEq

/-- A piece of a format. -/
inductive Piece where
  | literal (c : Byte)
  | directive (d : Directive)
  deriving DecidableEq

def Amount.text : Amount → List Byte
  | digits ds => ds
  | star => [ascii '*']

def Directive.text (d : Directive) : List Byte :=
  ascii '%' :: (d.flags ++ (d.width.map Amount.text).getD [] ++
    (d.precision.map fun p => ascii '.' :: (p.map Amount.text).getD []).getD [] ++ d.qualifier ++
    d.conv.toList)

def Piece.text : Piece → List Byte
  | literal c => [c]
  | directive d => d.text

def isFlag (c : Byte) : Bool :=
  c == ascii '-' || c == ascii '+' || c == ascii ' ' || c == ascii '#' || c == ascii '0'

/-- The amount a format begins with, and the rest of it. -/
def splitAmount : List Byte → Option Amount × List Byte
  | [] => (none, [])
  | c :: fmt =>
    if isdigit c then (some (.digits ((c :: fmt).takeWhile isdigit)), (c :: fmt).dropWhile isdigit)
    else if c = ascii '*' then (some .star, fmt)
    else (none, c :: fmt)

/-- The precision a format begins with. -/
def splitPrecision : List Byte → Option (Option Amount) × List Byte
  | [] => (none, [])
  | c :: fmt => if c = ascii '.' then (some (splitAmount fmt).1, (splitAmount fmt).2) else (none, c :: fmt)

def isQualifier (c : Byte) : Bool :=
  c == ascii 'h' || c == ascii 'l' || c == ascii 'L' || c == ascii 'Z' || c == ascii 'z'

/-- The qualifier a format begins with. -/
def splitQualifier : List Byte → List Byte × List Byte
  | [] => ([], [])
  | c :: fmt =>
    if isQualifier c then
      if c = ascii 'l' ∧ fmt.head? = some (ascii 'l') then ([c, c], fmt.tail) else ([c], fmt)
    else ([], c :: fmt)

/-- The directive after a `%`. -/
def splitDirective (fmt : List Byte) : Directive × List Byte :=
  let w := splitAmount (fmt.dropWhile isFlag)
  let p := splitPrecision w.2
  let q := splitQualifier p.2
  ({ flags := fmt.takeWhile isFlag
     width := w.1
     precision := p.1
     qualifier := q.1
     conv := q.2.head? }, q.2.tail)

/-- A width and the rest are the format. -/
lemma splitAmount_text (fmt : List Byte) :
    ((splitAmount fmt).1.map Amount.text).getD [] ++ (splitAmount fmt).2 = fmt := by
  cases fmt with
  | nil => rfl
  | cons c fmt =>
    rw [splitAmount]
    split
    · exact List.takeWhile_append_dropWhile
    · split
      case isTrue h =>
        rw [h]
        rfl
      case isFalse => rfl

/-- So are a precision and the rest. -/
lemma splitPrecision_text (fmt : List Byte) :
    ((splitPrecision fmt).1.map fun p => ascii '.' :: (p.map Amount.text).getD []).getD [] ++
      (splitPrecision fmt).2 = fmt := by
  cases fmt with
  | nil => rfl
  | cons c fmt =>
    rw [splitPrecision]
    split
    case isTrue h =>
      rw [h]
      exact congrArg _ (splitAmount_text fmt)
    case isFalse => rfl

/-- A qualifier and the rest are the text. -/
lemma splitQualifier_text (fmt : List Byte) : (splitQualifier fmt).1 ++ (splitQualifier fmt).2 = fmt := by
  cases fmt with
  | nil => rfl
  | cons c fmt =>
    rw [splitQualifier]
    split
    · split
      case isTrue h =>
        cases fmt with
        | nil => cases h.2
        | cons d fmt =>
          rw [h.1, Option.some.inj h.2]
          rfl
      case isFalse => rfl
    · rfl

/-- A directive is what it was split from. -/
lemma splitDirective_text (fmt : List Byte) :
    (splitDirective fmt).1.text ++ (splitDirective fmt).2 = ascii '%' :: fmt := by
  have hw := splitAmount_text (fmt.dropWhile isFlag)
  have hp := splitPrecision_text (splitAmount (fmt.dropWhile isFlag)).2
  have hq := splitQualifier_text (splitPrecision (splitAmount (fmt.dropWhile isFlag)).2).2
  have hc : ∀ l : List Byte, l.head?.toList ++ l.tail = l := by
    intro l
    cases l with
    | nil => rfl
    | cons => rfl
  rw [splitDirective, Directive.text]
  simp only [List.cons_append, List.append_assoc]
  rw [hc, hq, hp, hw, List.takeWhile_append_dropWhile]

/-- The rest is not longer. -/
lemma splitDirective_length (fmt : List Byte) : (splitDirective fmt).2.length ≤ fmt.length := by
  have h := congrArg List.length (splitDirective_text fmt)
  rw [List.length_append, Directive.text] at h
  simp only [List.length_cons] at h
  omega

/-- The pieces of a format. -/
def pieces : List Byte → List Piece
  | [] => []
  | c :: fmt =>
    if c = ascii '%' then .directive (splitDirective fmt).1 :: pieces (splitDirective fmt).2
    else .literal c :: pieces fmt
  termination_by fmt => fmt.length
  decreasing_by
    · exact Nat.lt_succ_of_le (splitDirective_length fmt)
    · exact Nat.lt_succ_self _

/-- A format is the concatenation of its pieces. -/
theorem pieces_text (fmt : List Byte) : (pieces fmt).flatMap Piece.text = fmt := by
  induction fmt using pieces.induct with
  | case1 => rw [pieces]; rfl
  | case2 fmt ih =>
    rw [pieces, if_pos rfl, List.flatMap_cons, ih]
    exact splitDirective_text fmt
  | case3 c fmt h ih =>
    rw [pieces, if_neg h, List.flatMap_cons, ih]
    rfl

/-! ## Fields -/

/-- How a field is laid out. -/
structure Layout where
  left : Bool
  zeropad : Bool
  plus : Bool
  space : Bool
  special : Bool
  width : Option Nat
  precision : Option Nat

/-- A piece with its arguments. -/
inductive Field where
  | literal (c : Byte)
  | char (y : Layout) (c : Byte)
  | string (y : Layout) (chars : Nat → Byte)
  | integer (y : Layout) (base : Base) (large signed : Bool) (v : Int)
  | count
  | percent
  | unknown (c : Byte)
  | cut

/-- The value of decimal digits. -/
def decimalValue (ds : List Byte) : Nat := ds.foldl (fun v c => v * 10 + (c.toNat - 48)) 0

/-- The arguments for a width: its value, and whether it was negative. -/
def takeWidth (args : List (BitVec 64)) :
    Option Amount → Option ((Option Nat × Bool) × List (BitVec 64))
  | none => some ((none, false), args)
  | some (.digits ds) => some ((some (decimalValue ds), false), args)
  | some .star => (vaArg args).map fun (a, args) =>
    ((some (a.setWidth 32).toInt.natAbs, (a.setWidth 32).toInt < 0), args)

/-- The arguments for a precision: a point alone and a negative argument stand for 0. -/
def takePrecision (args : List (BitVec 64)) :
    Option (Option Amount) → Option (Option Nat × List (BitVec 64))
  | none => some (none, args)
  | some none => some (some 0, args)
  | some (some (.digits ds)) => some (some (decimalValue ds), args)
  | some (some .star) => (vaArg args).map fun (a, args) => (some (a.setWidth 32).toInt.toNat, args)

/-- The width of an integer argument. -/
def argBits (qualifier : List Byte) : Nat :=
  if qualifier = [ascii 'h'] then 16 else if qualifier = [] then 32 else 64

/-- An integer argument. -/
def argInt (qualifier : List Byte) (signed : Bool) (a : BitVec 64) : Int :=
  if signed then (a.setWidth (argBits qualifier)).toInt else (a.setWidth (argBits qualifier)).toNat

/-- The field of a conversion, with its own argument. -/
def takeField (ram : BitVec 64 → Byte) (d : Directive) (y : Layout) (args : List (BitVec 64)) :
    Conversion → Option (Field × List (BitVec 64))
  | .char => (vaArg args).map fun (a, args) => (.char y (a.setWidth 8), args)
  | .string => (vaArg args).map fun (a, args) => (.string y (stringAt ram a), args)
  | .pointer => (vaArg args).map fun (a, args) =>
    let y := if y.width = none then { y with width := some 16, zeropad := true } else y
    (.integer y .hex false false a.toNat, args)
  | .count => (vaArg args).map fun (_, args) => (.count, args)
  | .percent => some (.percent, args)
  | .octal => (vaArg args).map fun (a, args) =>
    (.integer y .oct false false (argInt d.qualifier false a), args)
  | .hex large => (vaArg args).map fun (a, args) =>
    (.integer y .hex large false (argInt d.qualifier false a), args)
  | .decimal => (vaArg args).map fun (a, args) =>
    (.integer y .dec false true (argInt d.qualifier true a), args)
  | .unsigned => (vaArg args).map fun (a, args) =>
    (.integer y .dec false false (argInt d.qualifier false a), args)

/-- The layout of a directive with its width, which may have been negative, and its precision. -/
def Directive.layout (d : Directive) (width : Option Nat × Bool) (precision : Option Nat) : Layout where
  left := d.flags.contains (ascii '-') || width.2
  zeropad := d.flags.contains (ascii '0')
  plus := d.flags.contains (ascii '+')
  space := d.flags.contains (ascii ' ')
  special := d.flags.contains (ascii '#')
  width := width.1
  precision := precision

/-- The field of a directive: the width and the precision take their arguments first. -/
def Directive.field (ram : BitVec 64 → Byte) (d : Directive) (args : List (BitVec 64)) :
    Option (Field × List (BitVec 64)) :=
  (takeWidth args d.width).bind fun (width, args) =>
    (takePrecision args d.precision).bind fun (precision, args) =>
      match d.conv with
      | none => some (.cut, args)
      | some c =>
        match conversion c with
        | none => some (.unknown c, args)
        | some k => takeField ram d (d.layout width precision) args k

/-- The fields of the pieces, and the arguments that are left; `none` if there are too few. -/
def fields (ram : BitVec 64 → Byte) :
    List Piece → List (BitVec 64) → Option (List Field × List (BitVec 64))
  | [], args => some ([], args)
  | .literal c :: ps, args => (fields ram ps args).map fun (fs, args) => (.literal c :: fs, args)
  | .directive d :: ps, args =>
    (d.field ram args).bind fun (f, args) =>
      (fields ram ps args).map fun (fs, args) => (f :: fs, args)

/-! ## What a field prints -/

/-- A text in a field of at least `w` characters. -/
def adjust (left : Bool) (w : Nat) (text : List Byte) : List Byte :=
  if left then text ++ List.replicate (w - text.length) (ascii ' ')
  else List.replicate (w - text.length) (ascii ' ') ++ text

/-- The characters before the NUL, from the character `i` on, `n` at most. -/
def stringFrom (chars : Nat → Byte) : Nat → Nat → List Byte
  | 0, _ => []
  | n + 1, i => if chars i = 0 then [] else chars i :: stringFrom chars n (i + 1)

/-- The characters of a string up to a precision. -/
def printed (chars : Nat → Byte) (precision : Option Nat) : List Byte :=
  stringFrom chars (precision.getD (2 ^ 64 - 1)) 0

/-- The sign of a number. -/
def Layout.sign (y : Layout) (signed : Bool) (v : Int) : List Byte :=
  if signed then
    if v < 0 then [ascii '-'] else if y.plus then [ascii '+'] else if y.space then [ascii ' '] else []
  else []

/-- What `#` puts before the digits. -/
def Layout.mark (y : Layout) (base : Base) (large : Bool) : List Byte :=
  if y.special then
    match base with
    | .oct => [ascii '0']
    | .hex => [ascii '0', if large then ascii 'X' else ascii 'x']
    | .dec => []
  else []

/-- The digits of a number. -/
def magnitude (base : Base) (large : Bool) (v : Int) : List Byte :=
  if v = 0 then [ascii '0'] else ((Nat.digits base.val v.natAbs).map (digits large)).reverse

/-- The digits, with zeros up to the precision. -/
def Layout.digits (y : Layout) (base : Base) (large : Bool) (v : Int) : List Byte :=
  List.replicate (y.precision.getD 0 - (magnitude base large v).length) (ascii '0') ++
    magnitude base large v

/-- A number in its field: a field that is padded with zeros has them after the sign. -/
def Layout.number (y : Layout) (base : Base) (large signed : Bool) (v : Int) : List Byte :=
  let front := y.sign signed v ++ y.mark base large
  let ds := y.digits base large v
  if y.zeropad && !y.left then
    front ++ List.replicate (y.width.getD 0 - (front.length + ds.length)) (ascii '0') ++ ds
  else adjust y.left (y.width.getD 0) (front ++ ds)

/-- What a field prints. -/
def Field.text : Field → List Byte
  | literal c => [c]
  | char y c => adjust y.left (y.width.getD 0) [c]
  | string y chars => adjust y.left (y.width.getD 0) (printed chars y.precision)
  | integer y base large signed v => y.number base large signed v
  | count => []
  | percent => [ascii '%']
  | unknown c => [ascii '%', c]
  | cut => [ascii '%']

/-- The length of an adjusted text. -/
lemma length_adjust (left : Bool) (w : Nat) (text : List Byte) :
    (adjust left w text).length = max w text.length := by
  cases left with
  | true =>
    rw [adjust, if_pos rfl, List.length_append, List.length_replicate]
    omega
  | false =>
    rw [adjust, if_neg Bool.false_ne_true, List.length_append, List.length_replicate]
    omega

/-- The length of a string. -/
lemma length_stringFrom {chars : Nat → Byte} {n m i : Nat} (hn : chars (i + n) = 0)
    (hlt : ∀ j < n, chars (i + j) ≠ 0) : (stringFrom chars m i).length = min n m := by
  induction m generalizing n i with
  | zero => exact (Nat.min_zero n).symm
  | succ m ih =>
    rw [stringFrom]
    cases n with
    | zero =>
      have hi : chars i = 0 := hn
      rw [if_pos hi, List.length_nil, Nat.zero_min]
    | succ n =>
      have hi : chars i ≠ 0 := hlt 0 (Nat.succ_pos n)
      have hlen : (stringFrom chars m (i + 1)).length = min n m := by
        refine ih ?_ fun j hj => ?_
        · rwa [Nat.add_assoc, Nat.add_comm 1 n]
        · rw [Nat.add_assoc, Nat.add_comm 1 j]
          exact hlt (j + 1) (Nat.succ_lt_succ hj)
      rw [if_neg hi, List.length_cons, hlen, Nat.add_min_add_right]

/-- The fields of strings and characters have the sizes they should have. -/
def Field.Sized : Field → Prop
  | char y c => (char y c).text.length = max (y.width.getD 0) 1
  | string y chars => ∀ strlen, chars strlen = 0 → (∀ i < strlen, chars i ≠ 0) →
    (string y chars).text.length = max (y.width.getD 0) (min strlen (y.precision.getD (2 ^ 64 - 1)))
  | _ => True

/-- A field has its size. -/
lemma Field.sized (f : Field) : f.Sized := by
  cases f with
  | char y c => exact length_adjust ..
  | string y chars =>
    intro strlen h hlt
    rw [Field.text, length_adjust, printed, length_stringFrom (n := strlen)]
    · rwa [Nat.zero_add]
    · intro j hj
      rw [Nat.zero_add]
      exact hlt j hj
  | literal | integer | count | percent | unknown | cut => trivial

end OldLinux.Vsprintf
