import OldLinux.Vsprintf.Fields

/-!
# Scanning a format

The loop of `vsnprintf` over a format splits it as `pieces` does and hands out the arguments as `fields`
does. Each part of a directive has a lemma that says what its scanner returns on the rest of a format
with the NUL after it; none of them reads past that. The headline is `vsnprintf_scans`.
-/

namespace OldLinux.Vsprintf
open Lib

/-! ## The parts of a directive -/

section
variable {fmt : List Byte} {flags : Flags} {args : List (BitVec 64)}

/-- Flags with those of some flag characters. -/
def Flags.add (flags : Flags) (cs : List Byte) : Flags where
  zeropad := flags.zeropad || cs.contains (ascii '0')
  sign := flags.sign
  plus := flags.plus || cs.contains (ascii '+')
  space := flags.space || cs.contains (ascii ' ')
  left := flags.left || cs.contains (ascii '-')
  special := flags.special || cs.contains (ascii '#')
  large := flags.large

/-- One flag and the others. -/
lemma Flags.add_cons {c : Byte} {cs : List Byte} : (flags.add [c]).add cs = flags.add (c :: cs) := by
  simp [Flags.add, Bool.or_assoc]

/-- A flag character sets its flag. -/
lemma scanFlags_cons {c : Byte} (h : isFlag c = true) (fmt : Format) :
    scanFlags flags (c :: fmt) = scanFlags (flags.add [c]) fmt := by
  have hc : c = ascii '-' ∨ c = ascii '+' ∨ c = ascii ' ' ∨ c = ascii '#' ∨ c = ascii '0' := by
    simpa [isFlag, or_assoc] using h
  obtain rfl | rfl | rfl | rfl | rfl := hc
  · simp [scanFlags, Flags.add, ascii]
  · simp [scanFlags, Flags.add, ascii]
  · simp [scanFlags, Flags.add, ascii]
  · simp [scanFlags, Flags.add, ascii]
  · simp [scanFlags, Flags.add, ascii]

/-- The scan of the flags ends at another character. -/
lemma scanFlags_other {c : Byte} (h : ¬ isFlag c = true) (fmt : Format) :
    scanFlags flags (c :: fmt) = some (flags, c :: fmt) := by
  simp only [isFlag, Bool.or_eq_true, beq_iff_eq, not_or] at h
  obtain ⟨⟨⟨⟨h1, h2⟩, h3⟩, h4⟩, h5⟩ := h
  rw [scanFlags, if_neg h1, if_neg h2, if_neg h3, if_neg h4, if_neg h5]

/-- It finds the flags. -/
lemma scanFlags_eq : scanFlags flags (fmt ++ [0]) =
    some (flags.add (fmt.takeWhile isFlag), fmt.dropWhile isFlag ++ [0]) := by
  induction fmt generalizing flags with
  | nil => simp [scanFlags, Flags.add, ascii]
  | cons c fmt ih =>
    rw [List.cons_append]
    by_cases hc : isFlag c = true
    · rw [scanFlags_cons hc, ih, Flags.add_cons, List.takeWhile_cons_of_pos hc,
        List.dropWhile_cons_of_pos hc]
    · rw [scanFlags_other hc, List.takeWhile_cons_of_neg hc, List.dropWhile_cons_of_neg hc]
      simp [Flags.add]

/-- `skip_atoi` reads a number. -/
lemma skipAtoi_eq {v : Nat} : skipAtoi (BitVec.ofNat 32 v) (fmt ++ [0]) =
    some (BitVec.ofNat 32 ((fmt.takeWhile isdigit).foldl (fun v c => v * 10 + (c.toNat - 48)) v),
      fmt.dropWhile isdigit ++ [0]) := by
  induction fmt generalizing v with
  | nil => rfl
  | cons c fmt ih =>
    rw [List.cons_append, skipAtoi]
    split
    case isTrue h =>
      have hstep : BitVec.ofNat 32 v * 10 + c.setWidth 32 - 48 =
          BitVec.ofNat 32 (v * 10 + (c.toNat - 48)) := by
        have hle : 48 ≤ c.toNat := by
          have h' := (Bool.and_eq_true_iff.1 h).1
          exact of_decide_eq_true h'
        have hc := c.isLt
        bv_omega
      rw [hstep, ih, List.takeWhile_cons_of_pos h, List.dropWhile_cons_of_pos h]
      rfl
    case isFalse h =>
      rw [List.takeWhile_cons_of_neg h, List.dropWhile_cons_of_neg h]
      rfl

/-- The decimal digits that a format begins with. -/
lemma skipAtoi_zero : skipAtoi 0 (fmt ++ [0]) =
    some (BitVec.ofNat 32 (decimalValue (fmt.takeWhile isdigit)), fmt.dropWhile isdigit ++ [0]) :=
  skipAtoi_eq (v := 0)

/-- An `int` argument whose absolute value is a width. -/
lemma ofNat_natAbs (w : BitVec 32) :
    BitVec.ofNat 32 w.toInt.natAbs = if w.toInt < 0 then -w else w := by
  have h := BitVec.toInt_eq_toNat_cond w
  split <;> split at h <;> bv_omega

/-- The scan finds the width. -/
lemma scanWidth_eq : scanWidth flags args (fmt ++ [0]) =
    (takeWidth args (splitAmount fmt).1).map fun r =>
      (intOf r.1.1, { flags with left := flags.left || r.1.2 }, r.2, (splitAmount fmt).2 ++ [0]) := by
  cases fmt with
  | nil => simp [scanWidth, splitAmount, takeWidth, intOf, isdigit, ascii]
  | cons c fmt =>
    rw [List.cons_append, scanWidth, splitAmount]
    split
    case isTrue h =>
      rw [← List.cons_append, skipAtoi_zero]
      simp [takeWidth, intOf]
    case isFalse =>
      split
      case isTrue =>
        cases args with
        | nil => rfl
        | cons a args =>
          simp only [vaArg, takeWidth, Option.map_some, intOf, ofNat_natAbs]
          by_cases hneg : (a.setWidth 32).toInt < 0
          · rw [if_pos hneg, if_pos hneg, decide_eq_true hneg, Bool.or_true]
          · rw [if_neg hneg, if_neg hneg, decide_eq_false hneg, Bool.or_false]
      case isFalse => simp [takeWidth, intOf]

/-- A precision in the `int` that the source keeps it in. -/
def precInt : Option Nat → BitVec 32
  | none => -1
  | some n => if (BitVec.ofNat 32 n).toInt < 0 then 0 else BitVec.ofNat 32 n

/-- A precision as an `int`. -/
lemma precInt_eq {p : Option Nat} (h : p.getD 0 < 2 ^ 31) : precInt p = intOf p := by
  cases p with
  | none => rfl
  | some n =>
    have hn := toInt_ofNat (n := n) h
    exact if_neg (by omega)

/-- A negative precision is 0. -/
lemma ofNat_toNat (w : BitVec 32) : BitVec.ofNat 32 w.toInt.toNat = if w.toInt < 0 then 0 else w := by
  have h := BitVec.toInt_eq_toNat_cond w
  split <;> split at h <;> bv_omega

/-- The amount after a point. -/
lemma scanPoint_eq : ((scanPoint args (fmt ++ [0])).map fun (p, args, fmt) =>
      ((if p.toInt < 0 then 0 else p), args, fmt)) =
    (takePrecision args (some (splitAmount fmt).1)).map fun r =>
      (precInt r.1, r.2, (splitAmount fmt).2 ++ [0]) := by
  cases fmt with
  | nil => simp [scanPoint, splitAmount, takePrecision, precInt, isdigit, ascii]
  | cons c fmt =>
    rw [List.cons_append, scanPoint, splitAmount]
    split
    case isTrue h =>
      rw [← List.cons_append, skipAtoi_zero]
      rfl
    case isFalse =>
      split
      case isTrue =>
        cases args with
        | nil => rfl
        | cons a args =>
          simp only [vaArg, takePrecision, Option.map_some, precInt, ofNat_toNat]
          split <;> simp_all
      case isFalse => simp [takePrecision, precInt]

/-- The scan finds the precision. -/
lemma scanPrecision_eq : scanPrecision args (fmt ++ [0]) =
    (takePrecision args (splitPrecision fmt).1).map fun r =>
      (precInt r.1, r.2, (splitPrecision fmt).2 ++ [0]) := by
  cases fmt with
  | nil => simp [scanPrecision, splitPrecision, takePrecision, precInt, ascii]
  | cons c fmt =>
    rw [List.cons_append, scanPrecision, splitPrecision]
    split
    case isTrue => exact scanPoint_eq
    case isFalse => rfl

/-- A qualifier as the source keeps it. -/
def qualOf : List Byte → Option Byte
  | [] => none
  | [c] => some c
  | _ => some (ascii 'L')

/-- The scanner finds the qualifier. -/
lemma scanQualifier_eq : scanQualifier (fmt ++ [0]) =
    some (qualOf (splitQualifier fmt).1, (splitQualifier fmt).2 ++ [0]) := by
  cases fmt with
  | nil => simp [scanQualifier, splitQualifier, qualOf, ascii]
  | cons c fmt =>
    rw [List.cons_append]
    unfold scanQualifier splitQualifier
    dsimp only
    have hq : (c = ascii 'h' ∨ c = ascii 'l' ∨ c = ascii 'L' ∨ c = ascii 'Z' ∨ c = ascii 'z') ↔
        isQualifier c = true := by
      simp [isQualifier, or_assoc]
    by_cases h : isQualifier c = true
    · rw [if_pos (hq.2 h), if_pos h]
      cases fmt with
      | nil =>
        by_cases hl : c = ascii 'l'
        · subst hl
          rfl
        · rw [if_neg hl, if_neg fun h => hl h.1]
          rfl
      | cons d fmt =>
        by_cases hl : c = ascii 'l'
        · subst hl
          by_cases hd : d = ascii 'l'
          · subst hd
            rfl
          · rw [if_pos rfl, if_neg fun h => hd (Option.some.inj h.2)]
            show some (if d = ascii 'l' then _ else _) = _
            rw [if_neg hd]
            rfl
        · rw [if_neg hl, if_neg fun h => hl h.1]
          rfl
    · rw [if_neg (mt hq.1 h), if_neg h]
      rfl

/-- What is left of a format at the conversion character. -/
def atConv (fmt : List Byte) : List Byte :=
  (splitQualifier (splitPrecision (splitAmount (fmt.dropWhile isFlag)).2).2).2

/-- The scanners together. -/
lemma scan_eq : scan args (fmt ++ [0]) =
    (takeWidth args (splitDirective fmt).1.width).bind fun (width, args) =>
      (takePrecision args (splitDirective fmt).1.precision).map fun (precision, args) =>
        ({ flags := ((splitDirective fmt).1.layout width precision).toFlags false false
           fieldWidth := intOf width.1
           precision := precInt precision
           qualifier := qualOf (splitDirective fmt).1.qualifier }, args, atConv fmt ++ [0]) := by
  rw [scan, scanFlags_eq, Option.bind_some]
  dsimp only
  rw [scanWidth_eq, Option.bind_map]
  show Option.bind (takeWidth args _) _ = Option.bind (takeWidth args _) _
  congr 1
  funext ⟨width, args⟩
  show Option.bind (scanPrecision args (_ ++ [0])) _ = _
  rw [scanPrecision_eq, Option.bind_map]
  show Option.bind (takePrecision args _) _ = Option.map _
    (takePrecision args (splitPrecision (splitAmount (fmt.dropWhile isFlag)).2).1)
  cases takePrecision args (splitPrecision (splitAmount (fmt.dropWhile isFlag)).2).1 with
  | none => rfl
  | some r =>
    show Option.map _ (scanQualifier (_ ++ [0])) = _
    rw [scanQualifier_eq]
    simp only [Option.map_some, Flags.add, Bool.false_or]
    rfl

/-- A qualifier is nothing, `ll` or a character. -/
lemma splitQualifier_cases (fmt : List Byte) : (splitQualifier fmt).1 = [] ∨
    (splitQualifier fmt).1 = [ascii 'l', ascii 'l'] ∨
    ∃ c, isQualifier c = true ∧ (splitQualifier fmt).1 = [c] := by
  cases fmt with
  | nil => exact .inl rfl
  | cons c fmt =>
    rw [splitQualifier]
    split
    case isTrue hc =>
      split
      case isTrue h => exact .inr (.inl (by rw [h.1]))
      case isFalse => exact .inr (.inr ⟨c, hc, rfl⟩)
    case isFalse => exact .inl rfl

/-- A narrow number in a wide one. -/
lemma toNat_setWidth_self {n : Nat} {a : BitVec 64} (h : n ≤ 64) :
    ((a.setWidth n).setWidth 64).toNat = (a.setWidth n).toNat := by
  rw [BitVec.toNat_setWidth]
  exact Nat.mod_eq_of_lt (Nat.lt_of_lt_of_le (a.setWidth n).isLt (Nat.pow_le_pow_right (by decide) h))

/-- A qualifier but `h` asks for all of the word. -/
lemma qualifier_cases {c : Byte} (h : isQualifier c = true) : c = ascii 'h' ∨
    argBits [c] = 64 ∧ ∀ signed a, argNum (some c) signed a = a := by
  simp only [isQualifier, Bool.or_eq_true, beq_iff_eq] at h
  by_cases hc : c = ascii 'h'
  · exact .inl hc
  · have hor : c = ascii 'l' ∨ c = ascii 'L' ∨ c = ascii 'Z' ∨ c = ascii 'z' := by
      simpa [hc, or_assoc] using h
    refine .inr ⟨?_, fun signed a => ?_⟩
    · rw [argBits, if_neg fun he => hc (List.cons.inj he).1, if_neg (List.cons_ne_nil _ _)]
    · unfold argNum
      simp only [Option.some.injEq]
      by_cases hL : c = ascii 'L'
      · rw [if_pos hL]
      · rw [if_neg hL]
        by_cases hl : c = ascii 'l'
        · rw [if_pos hl]
        · rw [if_neg hl, if_pos ((hor.resolve_left hl).resolve_left hL)]

/-- A wide argument. -/
lemma argInt_wide {q : List Byte} {signed : Bool} {a num : BitVec 64} (hb : argBits q = 64)
    (hn : num = a) : argInt q signed a = if signed then num.toInt else num.toNat := by
  rw [argInt, hb, BitVec.setWidth_eq, hn]

/-- A narrow one. -/
lemma argInt_narrow {q : List Byte} {n : Nat} {signed : Bool} {a num : BitVec 64} (h64 : n ≤ 64)
    (hb : argBits q = n)
    (hn : num = if signed then (a.setWidth n).signExtend 64 else (a.setWidth n).setWidth 64) :
    argInt q signed a = if signed then num.toInt else num.toNat := by
  rw [argInt, hb, hn]
  cases signed with
  | true =>
    show (a.setWidth n).toInt = ((a.setWidth n).signExtend 64).toInt
    rw [BitVec.toInt_signExtend_of_le h64]
  | false =>
    show ((a.setWidth n).toNat : Int) = (((a.setWidth n).setWidth 64).toNat : Int)
    rw [toNat_setWidth_self h64]

/-- The source takes from an argument word the number that the qualifier says. -/
lemma argInt_eq {signed : Bool} {a : BitVec 64} {q : List Byte} (hq : q = (splitQualifier fmt).1) :
    argInt q signed a = if signed then (argNum (qualOf q) signed a).toInt
      else (argNum (qualOf q) signed a).toNat := by
  -- there are no other qualifiers than these
  have hcases := splitQualifier_cases fmt
  rw [← hq] at hcases
  cases hcases with
  | inl h =>
    subst h
    exact argInt_narrow (n := 32) (by decide) rfl (by cases signed <;> rfl)
  | inr h =>
    cases h with
    | inl h =>
      subst h
      exact argInt_wide rfl rfl
    | inr h =>
      obtain ⟨c, hc, rfl⟩ := h
      cases qualifier_cases hc with
      | inl h =>
        subst h
        exact argInt_narrow (n := 16) (by decide) rfl (by cases signed <;> rfl)
      | inr h => exact argInt_wide h.1 (h.2 signed a)

end

/-! ## The pieces -/

section
variable {ram : BitVec 64 → Byte} {fmt : List Byte} {args args' : List (BitVec 64)}
  {f : Field}  {fs : List Field} {y : Layout} {d : Directive} {k : Conversion} {p : Printer (List Byte)}

/-- A conversion has printed its field, if that is in range. -/
def Prints (f : Field) (args : List (BitVec 64)) (p p' : Printer (List Byte)) : Prop :=
  p'.args = args ∧ (f.InRange → f.Short → p'.str = p.str ++ f.emitted)

/-- What a conversion sees of its directive. -/
def specOf (d : Directive) (y : Layout) : Spec where
  flags := y.toFlags false false
  fieldWidth := intOf y.width
  precision := precInt y.precision
  qualifier := qualOf d.qualifier

/-- An integer is printed. -/
lemma integer_text {base : Base} {large signed : Bool} {a : BitVec 64}
    (hq : d.qualifier = (splitQualifier fmt).1) (hp : p.args = a :: args) :
    ∃ p', integer (.text Byte) base { specOf d y with flags := y.toFlags signed large } p = some p' ∧
      Prints (.integer y base large signed (argInt d.qualifier signed a)) args p p' := by
  unfold integer
  rw [hp]
  refine ⟨_, rfl, rfl, fun hr _ => ?_⟩
  show number _ _ _ (intOf y.width) (precInt y.precision) _ _ = _
  rw [precInt_eq hr.2]
  exact number_text hr (argInt_eq hq)

/-- The next argument. -/
lemma vaArg_some {l l' : List (BitVec 64)} {a : BitVec 64} (h : vaArg l = some (a, l')) : l = a :: l' := by
  cases l with
  | nil => cases h
  | cons b l =>
    cases h
    rfl

/-- The most characters that `strnlen` looks at. -/
lemma maxlen_eq {n : Option Nat} (h : n.getD 0 < 2 ^ 31) :
    ((precInt n).signExtend 64).toNat = n.getD (2 ^ 64 - 1) := by
  rw [precInt_eq h]
  cases n with
  | none => decide
  | some n =>
    have hlt : n < 2 ^ 31 := h
    have hmsb : (BitVec.ofNat 32 n).msb = false := by
      rw [BitVec.msb_eq_false_iff_two_mul_lt, BitVec.toNat_ofNat]
      omega
    show ((BitVec.ofNat 32 n).signExtend 64).toNat = n
    rw [BitVec.signExtend_eq_setWidth_of_msb_false hmsb, BitVec.toNat_setWidth, BitVec.toNat_ofNat]
    omega

/-- The layout of a pointer. -/
def pointerLayout (y : Layout) : Layout :=
  if y.width = none then { y with width := some 16, zeropad := true } else y

/-- A pointer is printed. -/
lemma pointer_text {a : BitVec 64} (hp : p.args = a :: args) :
    ∃ p', convert (.text Byte) ram (specOf d y) p .pointer = some p' ∧
      Prints (.integer (pointerLayout y) .hex false false a.toNat) args p p' := by
  unfold convert
  rw [hp]
  refine ⟨_, rfl, rfl, fun hr _ => ?_⟩
  have hnum : number (.text Byte) a .hex (intOf (pointerLayout y).width)
      (intOf (pointerLayout y).precision) ((pointerLayout y).toFlags false false) p.str =
      p.str ++ (pointerLayout y).emitted .hex false false a.toNat := number_text hr rfl
  have hprec : (pointerLayout y).precision = y.precision := by
    unfold pointerLayout
    split <;> rfl
  rw [← precInt_eq hr.2, hprec] at hnum
  rw [Field.emitted, ← hnum]
  cases hw : y.width with
  | none =>
    -- the source tells by the -1 that there is no width
    have hwidth : (specOf d y).fieldWidth = -1 := congrArg intOf hw
    have hy : pointerLayout y = { y with width := some 16, zeropad := true } := if_pos hw
    simp only [hwidth, if_true, hy]
    rfl
  | some n =>
    have hy : pointerLayout y = y := if_neg (by rw [hw]; exact Option.some_ne_none n)
    have hlt : n < 2 ^ 31 := by
      have h := hr.1
      rwa [hy, hw] at h
    have hwidth : (specOf d y).fieldWidth ≠ -1 := by
      -- a width in range is not -1
      have hn := toInt_ofNat hlt
      intro he
      rw [show BitVec.ofNat 32 n = -1 from (congrArg intOf hw).symm.trans he] at hn
      exact absurd hn (by simp)
    simp only [if_neg hwidth, hy]
    rfl

/-- A conversion prints its field. -/
lemma convert_text (hq : d.qualifier = (splitQualifier fmt).1)
    (hf : takeField ram d y p.args k = some (f, args)) :
    ∃ p', convert (.text Byte) ram (specOf d y) p k = some p' ∧ Prints f args p p' := by
  cases k with
  | percent =>
    cases hf
    exact ⟨_, rfl, rfl, fun _ _ => rfl⟩
  | char =>
    obtain ⟨⟨a, rest⟩, ha, he⟩ := Option.map_eq_some_iff.1 hf
    cases he
    rw [convert, ha]
    exact ⟨_, rfl, rfl, fun hr _ => charField_text hr.1⟩
  | string =>
    obtain ⟨⟨a, rest⟩, ha, he⟩ := Option.map_eq_some_iff.1 hf
    cases he
    rw [convert, ha]
    refine ⟨_, rfl, rfl, fun hr hs => ?_⟩
    show stringField _ _ _ _
      (BitVec.ofNat 32 (strnlenFrom _ ((precInt y.precision).signExtend 64).toNat 0)) _ = _
    rw [maxlen_eq hr.2]
    exact stringField_text hr.1 hs
  | pointer =>
    obtain ⟨⟨a, rest⟩, ha, he⟩ := Option.map_eq_some_iff.1 hf
    cases he
    exact pointer_text (vaArg_some ha)
  | count =>
    obtain ⟨⟨a, rest⟩, ha, he⟩ := Option.map_eq_some_iff.1 hf
    cases he
    rw [convert, ha]
    exact ⟨_, rfl, rfl, fun _ _ => (List.append_nil _).symm⟩
  | octal | hex | decimal | unsigned =>
    obtain ⟨⟨a, rest⟩, ha, he⟩ := Option.map_eq_some_iff.1 hf
    cases he
    exact integer_text hq (vaArg_some ha)

/-- The magnitude of a number. -/
lemma natAbs_toInt_lt {n : Nat} (h : n ≤ 64) (a : BitVec n) : a.toInt.natAbs < 2 ^ 64 := by
  have ha := a.isLt
  have hpow : 2 ^ n ≤ 2 ^ 64 := Nat.pow_le_pow_right (by decide) h
  rw [BitVec.toInt_eq_toNat_cond]
  split <;> omega

/-- The magnitude of an argument. -/
lemma natAbs_argInt_lt (q : List Byte) (signed : Bool) (a : BitVec 64) :
    (argInt q signed a).natAbs < 2 ^ 64 := by
  have hb : argBits q ≤ 64 := by
    unfold argBits
    split
    · decide
    · split <;> decide
  unfold argInt
  split
  · exact natAbs_toInt_lt hb _
  · exact Nat.lt_of_lt_of_le (BitVec.isLt _) (Nat.pow_le_pow_right (by decide) hb)

/-- A number that a conversion takes is one that an argument can hold. -/
lemma takeField_isWord (hf : takeField ram d y args k = some (f, args')) : f.IsWord := by
  cases k with
  | percent =>
    cases hf
    trivial
  | char | string | count =>
    obtain ⟨⟨a, rest⟩, -, he⟩ := Option.map_eq_some_iff.1 hf
    cases he
    trivial
  | pointer =>
    obtain ⟨⟨a, rest⟩, -, he⟩ := Option.map_eq_some_iff.1 hf
    cases he
    exact a.isLt
  | octal | hex | decimal | unsigned =>
    obtain ⟨⟨a, rest⟩, -, he⟩ := Option.map_eq_some_iff.1 hf
    cases he
    exact natAbs_argInt_lt _ _ a

/-- A field is of a word. -/
lemma field_isWord (hf : d.field ram args = some (f, args')) : f.IsWord := by
  obtain ⟨⟨width, args₁⟩, -, hf⟩ := Option.bind_eq_some_iff.1 hf
  obtain ⟨⟨precision, args₂⟩, -, hf⟩ := Option.bind_eq_some_iff.1 hf
  dsimp only at hf
  split at hf
  case h_1 =>
    cases hf
    trivial
  case h_2 c _ =>
    split at hf
    case h_1 =>
      cases hf
      trivial
    case h_2 => exact takeField_isWord hf

/-- All fields are of words. -/
lemma fields_isWord {ps : List Piece} (hf : fields ram ps args = some (fs, args')) :
    ∀ f ∈ fs, f.IsWord := by
  induction ps generalizing args fs with
  | nil =>
    cases hf
    exact List.forall_mem_nil _
  | cons piece ps ih =>
    cases piece with
    | literal c =>
      obtain ⟨⟨fs', rest⟩, hfs, he⟩ := Option.map_eq_some_iff.1 hf
      cases he
      exact List.forall_mem_cons.2 ⟨trivial, ih hfs⟩
    | directive d =>
      obtain ⟨⟨f, args₁⟩, hd, hf⟩ := Option.bind_eq_some_iff.1 hf
      obtain ⟨⟨fs', rest⟩, hfs, he⟩ := Option.map_eq_some_iff.1 hf
      cases he
      exact List.forall_mem_cons.2 ⟨field_isWord hd, ih hfs⟩

/-- What is left of a format is part of it. -/
lemma mem_of_mem_atConv {c : Byte} (h : c ∈ atConv fmt) : c ∈ fmt := by
  have hw := splitAmount_text (fmt.dropWhile isFlag)
  have hp := splitPrecision_text (splitAmount (fmt.dropWhile isFlag)).2
  have hq := splitQualifier_text (splitPrecision (splitAmount (fmt.dropWhile isFlag)).2).2
  rw [← List.takeWhile_append_dropWhile (p := isFlag) (l := fmt), ← hw, ← hp, ← hq]
  exact List.mem_append_right _ (List.mem_append_right _ (List.mem_append_right _
    (List.mem_append_right _ h)))

/-- The body of the loop prints the field of its directive. -/
lemma directive_text (h0 : 0 ∉ fmt) (hf : (splitDirective fmt).1.field ram p.args = some (f, args)) :
    ∃ p', directive (.text Byte) ram (fmt ++ [0]) p = some (p', (splitDirective fmt).2 ++ [0]) ∧
      Prints f args p p' := by
  obtain ⟨⟨width, args₁⟩, hw, hf⟩ := Option.bind_eq_some_iff.1 hf
  obtain ⟨⟨precision, args₂⟩, hp, hf⟩ := Option.bind_eq_some_iff.1 hf
  have hscan : scan p.args (fmt ++ [0]) = some (specOf (splitDirective fmt).1
      ((splitDirective fmt).1.layout width precision), args₂, atConv fmt ++ [0]) := by
    rw [scan_eq, hw, Option.bind_some]
    dsimp only
    rw [hp]
    rfl
  have hconv : (splitDirective fmt).1.conv = (atConv fmt).head? := rfl
  unfold directive
  rw [hscan, Option.bind_some, show (splitDirective fmt).2 = (atConv fmt).tail from rfl]
  rw [hconv] at hf
  cases hat : atConv fmt with
  | nil =>
    -- the format ends within the directive
    rw [hat] at hf
    cases hf
    exact ⟨_, rfl, rfl, fun _ _ => rfl⟩
  | cons c rest =>
    -- the conversion character is one of the format, not its NUL
    have hc : c ≠ 0 := by
      rintro rfl
      exact h0 (mem_of_mem_atConv (by rw [hat]; exact List.mem_cons_self))
    rw [hat] at hf
    dsimp only [List.cons_append, List.head?_cons] at hf ⊢
    cases hk : conversion c with
    | none =>
      rw [hk] at hf
      cases hf
      refine ⟨_, congrArg some (if_pos hc), rfl, fun _ _ => ?_⟩
      exact List.append_assoc ..
    | some k =>
      rw [hk] at hf
      obtain ⟨p', hp', hprints⟩ := convert_text (p := { p with args := args₂ }) rfl hf
      exact ⟨p', by simp [hp'], hprints⟩

/-- The loop prints the fields of the pieces. -/
lemma formatTurns_text {n : Nat} (hn : fmt.length < n) (h0 : 0 ∉ fmt)
    (hf : fields ram (pieces fmt) p.args = some (fs, args)) :
    ∃ p', formatTurns (.text Byte) ram n (fmt ++ [0]) p = some p' ∧ p'.args = args ∧
      ((∀ f ∈ fs, f.InRange) → (∀ f ∈ fs, f.Short) → p'.str = p.str ++ fs.flatMap Field.emitted) := by
  induction fmt using pieces.induct generalizing n p fs args with
  | case1 =>
    rw [pieces] at hf
    cases hf
    cases n with
    | zero => cases hn
    | succ n => exact ⟨p, rfl, rfl, fun _ _ => (List.append_nil _).symm⟩
  | case2 fmt ih =>
    rw [pieces, if_pos rfl] at hf
    obtain ⟨⟨f, args₁⟩, hd, hf⟩ := Option.bind_eq_some_iff.1 hf
    obtain ⟨⟨fs', rest⟩, hfs, he⟩ := Option.map_eq_some_iff.1 hf
    cases he
    obtain ⟨p₁, hp₁, hargs, hstr⟩ := directive_text (fun h => h0 (List.mem_cons_of_mem _ h)) hd
    have hlen := splitDirective_length fmt
    -- the next turn begins behind the directive, within the format
    have hrest : 0 ∉ (splitDirective fmt).2 := fun h => h0 (by
      rw [← splitDirective_text fmt]
      exact List.mem_append_right _ h)
    cases n with
    | zero => cases hn
    | succ n =>
      have hn' : (splitDirective fmt).2.length < n := Nat.lt_of_le_of_lt hlen (Nat.lt_of_succ_lt_succ hn)
      rw [← hargs] at hfs
      obtain ⟨p', hp', hargs', hstr'⟩ := ih hn' hrest hfs
      refine ⟨p', ?_, hargs', fun hr hs => ?_⟩
      · rw [List.cons_append, formatTurns, if_neg (by decide), if_neg (fun h => h rfl), hp₁]
        exact hp'
      · rw [List.forall_mem_cons] at hr hs
        rw [hstr' hr.2 hs.2, hstr hr.1 hs.1, List.flatMap_cons, List.append_assoc]
  | case3 c fmt h ih =>
    rw [pieces, if_neg h] at hf
    obtain ⟨⟨fs', rest⟩, hfs, he⟩ := Option.map_eq_some_iff.1 hf
    cases he
    have hc : c ≠ 0 := fun he => h0 (he ▸ List.mem_cons_self)
    cases n with
    | zero => cases hn
    | succ n =>
      obtain ⟨p', hp', hargs', hstr'⟩ := ih (p := { p with str := p.str ++ [c] })
        (Nat.lt_of_succ_lt_succ hn) (fun h => h0 (List.mem_cons_of_mem _ h)) hfs
      refine ⟨p', ?_, hargs', fun hr hs => ?_⟩
      · rw [List.cons_append, formatTurns, if_neg hc, if_pos h]
        exact hp'
      · rw [List.forall_mem_cons] at hr hs
        rw [hstr' hr.2 hs.2, List.flatMap_cons, ← List.append_assoc]
        rfl

/-- The run of a format on the unlimited buffer. -/
lemma unlimited_text (h0 : 0 ∉ fmt) (hf : fields ram (pieces fmt) args = some (fs, args')) :
    ∃ p, unlimited ram fmt args = some p ∧ p.args = args' ∧
      ((∀ f ∈ fs, f.InRange) → (∀ f ∈ fs, f.Short) → p.str = fs.flatMap Field.emitted) :=
  formatTurns_text (p := { str := [], args := args, stores := [] }) (Nat.lt_succ_self _) h0 hf

/-- A format is read up to its NUL, and each piece takes its arguments in turn. If the strings have fewer
    than 2^31 characters, what is printed is what the fields should print exactly when the counter of the
    padding of each number stays in the range of an `int`. -/
theorem vsnprintf_scans (h0 : 0 ∉ fmt) (hf : fields ram (pieces fmt) args = some (fs, args'))
    (hr : ∀ f ∈ fs, f.InRange) :
    (pieces fmt).flatMap Piece.text = fmt ∧ (∀ f ∈ fs, f.Sized) ∧
      ∃ p, unlimited ram fmt args = some p ∧ p.args = args' ∧
        ((∀ f ∈ fs, f.Short) → (p.str = fs.flatMap Field.text ↔ ∀ f ∈ fs, f.Fits)) := by
  obtain ⟨p, hp, hargs, hstr⟩ := unlimited_text h0 hf
  refine ⟨pieces_text fmt, fun f _ => f.sized, p, hp, hargs, fun hs => ?_⟩
  rw [hstr hr hs]
  exact Field.flatMap_emitted_iff hr (fields_isWord hf)

end

/-- `"%*d%"`. -/
def starCut : List Byte := [ascii '%', ascii '*', ascii 'd', ascii '%']

/-- A layout with nothing but a width and a precision, and perhaps a `-`. -/
def plain (left : Bool) (width precision : Option Nat) : Layout :=
  { left, zeropad := false, plus := false, space := false, special := false, width, precision }

/-- A width of -5 is one of 5 on the left, and the directive that the format ends in is a `%`. -/
theorem vsnprintf_scans_cut : ∃ p, unlimited (fun _ => 0) starCut [-5, 42] = some p ∧ p.args = [] ∧
    p.str = [ascii '4', ascii '2', ascii ' ', ascii ' ', ascii ' ', ascii '%'] := by
  have hpieces : pieces starCut =
      [.directive (splitDirective starCut.tail).1, .directive (splitDirective []).1] := by
    decide +kernel
  have hf : fields (fun _ => 0) (pieces starCut) [-5, 42] =
      some ([.integer (plain true (some 5) none) .dec false true 42, .cut], []) := by
    rw [hpieces]
    rfl
  have hr : (plain true (some 5) none).InRange := ⟨by decide, by decide⟩
  have hfits : (plain true (some 5) none).Fits .dec false true 42 := by
    rw [Layout.Fits]
    decide
  obtain ⟨-, -, p, hp, hargs, hstr⟩ := vsnprintf_scans (by decide) hf
    (List.forall_mem_cons.2 ⟨hr, List.forall_mem_cons.2 ⟨trivial, List.forall_mem_nil _⟩⟩)
  refine ⟨p, hp, hargs, ((hstr ?_).2 ?_).trans (by decide)⟩
  · exact List.forall_mem_cons.2 ⟨trivial, List.forall_mem_cons.2 ⟨trivial, List.forall_mem_nil _⟩⟩
  · exact List.forall_mem_cons.2 ⟨hfits, List.forall_mem_cons.2 ⟨trivial, List.forall_mem_nil _⟩⟩

/-- `"%.*d"`. -/
def starPoint : List Byte := [ascii '%', ascii '.', ascii '*', ascii 'd']

/-- With the largest precision there is, `number` emits spaces besides the digits, though no width is
    given. -/
theorem vsnprintf_pads : ∃ y p, y.InRange ∧ y.width = none ∧
    fields (fun _ => 0) (pieces starPoint) [2147483647, 5] = some ([.integer y .dec false true 5], []) ∧
    unlimited (fun _ => 0) starPoint [2147483647, 5] = some p ∧
    p.str ≠ [.integer y .dec false true 5].flatMap Field.text := by
  have hpieces : pieces starPoint = [.directive (splitDirective starPoint.tail).1] := by
    decide +kernel
  have hf : fields (fun _ => 0) (pieces starPoint) [2147483647, 5] =
      some ([.integer (plain false none (some 2147483647)) .dec false true 5], []) := by
    rw [hpieces]
    rfl
  have hr : (plain false none (some 2147483647)).InRange := ⟨by decide, by decide⟩
  have hrs : ∀ f ∈ [Field.integer (plain false none (some 2147483647)) .dec false true 5], f.InRange :=
    List.forall_mem_singleton.2 hr
  have hfits : ¬ (plain false none (some 2147483647)).Fits .dec false true 5 := by
    rw [Layout.Fits, length_digits]
    decide
  obtain ⟨p, hp, -, hstr⟩ := unlimited_text (by decide) hf
  refine ⟨_, p, hr, rfl, hf, hp, fun he => hfits ?_⟩
  rw [hstr hrs (List.forall_mem_singleton.2 trivial)] at he
  exact (Field.flatMap_emitted_iff hrs (fields_isWord hf)).1 he _ List.mem_cons_self

end OldLinux.Vsprintf
