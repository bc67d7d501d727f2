import OldLinux.Lib.Emitter

/-!
# `vsnprintf`

Model of `skip_atoi`, `number` and `vsnprintf` (`kernel/vsprintf.c`) and of `strnlen`
(`lib/string.c`). The two lines `if (str <= end) *str = c;` and `++str;` that stand wherever a character
is emitted are one operation, the `put` of an emitter; `vsnprintf` runs on the emitter into its buffer
(`Window.put`), and the same functions on `Emitter.text` give the output of an unlimited
buffer.

An `int` is a `BitVec 32` and wraps around. A pointer into the format is the list of the characters from
there on, its NUL included; nothing can be read past it, and a run that tries has no result. So has a
run that asks for more arguments than there are. An argument is a 64-bit word. The format and the strings
do not lie in the buffer; what `%n` stores is recorded in `stores`. `number` is only called for the bases
8, 10 and 16, and its test for others is left out.
-/

namespace OldLinux.Vsprintf
open Lib

abbrev Byte : Type := BitVec 8

/-- A character of the source. -/
def ascii (c : Char) : Byte := BitVec.ofNat 8 c.toNat

/-- `isdigit`. -/
def isdigit (c : Byte) : Bool := ascii '0' ≤ c && c ≤ ascii '9'

/-- A pointer into the format. -/
abbrev Format : Type := List Byte

/-- `skip_atoi`. -/
def skipAtoi (i : BitVec 32) : Format → Option (BitVec 32 × Format)
  | [] => none
  | c :: fmt => if isdigit c then skipAtoi (i * 10 + c.setWidth 32 - 48) fmt else some (i, c :: fmt)

/-- The bits of `flags`. -/
structure Flags where
  zeropad : Bool := false
  sign : Bool := false
  plus : Bool := false
  space : Bool := false
  left : Bool := false
  special : Bool := false
  large : Bool := false

/-- The bases `number` is called for. -/
inductive Base where
  | oct
  | dec
  | hex
  deriving DecidableEq

def Base.val : Base → Nat
  | oct => 8
  | dec => 10
  | hex => 16

/-- `do_div`: the quotient and the remainder. -/
def doDiv (n : BitVec 64) (base : BitVec 32) : BitVec 64 × BitVec 32 :=
  (n / base.setWidth 64, (n % base.setWidth 64).setWidth 32)

/-- `large_digits[i]` and `small_digits[i]`. -/
def digits (large : Bool) (i : Nat) : Byte :=
  if i < 10 then ascii '0' + BitVec.ofNat 8 i
  else (if large then ascii 'A' else ascii 'a') + BitVec.ofNat 8 (i - 10)

/-- The loop that fills `tmp`, for `n` turns at most, and what is left of `num` then. -/
def digitLoop (large : Bool) (base : BitVec 32) : Nat → BitVec 64 → List Byte × BitVec 64
  | 0, num => ([], num)
  | n + 1, num =>
    if num = 0 then ([], 0)
    else
      let (num, r) := doDiv num base
      let (l, num) := digitLoop large base n num
      (digits large r.toNat :: l, num)

/-- `tmp[0..i-1]`, where `base` is the one of the call; `tmp` has room for 66 characters. -/
def tmpIn (large : Bool) (base : BitVec 32) (num : BitVec 64) : List Byte :=
  if num = 0 then [ascii '0'] else (digitLoop large base 66 num).1

/-- The same for the bases that `vsnprintf` calls `number` with. -/
def tmp (large : Bool) (base : Base) (num : BitVec 64) : List Byte := tmpIn large (.ofNat 32 base.val) num

/-- The sign of `number`, 0 if there is none, with `num` and `size` afterwards. -/
def numberSign (type : Flags) (num : BitVec 64) (size : BitVec 32) : Byte × BitVec 64 × BitVec 32 :=
  if type.sign then
    if num.toInt < 0 then (ascii '-', -num, size - 1)
    else if type.plus then (ascii '+', num, size - 1)
    else if type.space then (ascii ' ', num, size - 1)
    else (0, num, size)
  else (0, num, size)

/-- `size` less what `SPECIAL` puts before the digits. -/
def specialSize (base : Base) (type : Flags) (size : BitVec 32) : BitVec 32 :=
  if type.special then
    match base with
    | .hex => size - 2
    | .oct => size - 1
    | .dec => size
  else size

/-- `strnlen` from the character `len` on, with `n` characters to go. -/
def strnlenFrom (s : Nat → Byte) : Nat → Nat → Nat
  | 0, len => len
  | n + 1, len => if s len ≠ 0 then strnlenFrom s n (len + 1) else len

/-- `strnlen`. -/
def strnlen (s : Nat → Byte) (maxlen : BitVec 64) : Nat := strnlenFrom s maxlen.toNat 0

section
variable {σ : Type} (out : Emitter σ Byte)

/-- `while (k < x--)` around an emission, for `n` turns. -/
def padTurns (c : Byte) (k : BitVec 32) : Nat → BitVec 32 → σ → BitVec 32 × σ
  | 0, x, s => (x - 1, s)
  | n + 1, x, s => if k.toInt < x.toInt then padTurns c k n (x - 1) (out.put s c) else (x - 1, s)

/-- The same for as many turns as there are. -/
def pad (c : Byte) (k x : BitVec 32) (s : σ) : BitVec 32 × σ :=
  padTurns out c k (x.toInt - k.toInt).toNat x s

/-- `while (--x > 0)` around an emission, for `n` turns. -/
def prePadTurns (c : Byte) : Nat → BitVec 32 → σ → BitVec 32 × σ
  | 0, x, s => (x - 1, s)
  | n + 1, x, s => if 0 < (x - 1).toInt then prePadTurns c n (x - 1) (out.put s c) else (x - 1, s)

/-- The same for as many turns as there are. -/
def prePad (c : Byte) (x : BitVec 32) (s : σ) : BitVec 32 × σ :=
  prePadTurns out c (x - 1).toInt.toNat x s

/-- The loop over the characters of a string, from the character `i` on. -/
def putString (chars : Nat → Byte) : Nat → Nat → σ → σ
  | 0, _, s => s
  | n + 1, i, s => putString chars n (i + 1) (out.put s (chars i))

/-- `while (size-- > 0)` around an emission, unless it is skipped. -/
def padUnless (skip : Bool) (c : Byte) (size : BitVec 32) (s : σ) : BitVec 32 × σ :=
  if skip then (size, s) else pad out c 0 size s

/-- The emission of the sign. -/
def putSign (sign : Byte) (s : σ) : σ := if sign ≠ 0 then out.put s sign else s

/-- The emission of what `SPECIAL` puts before the digits. -/
def putSpecial (base : Base) (type : Flags) (s : σ) : σ :=
  if type.special then
    match base with
    | .oct => out.put s (ascii '0')
    | .hex => out.put (out.put s (ascii '0')) (digits type.large 33)
    | .dec => s
  else s

/-- `number`. -/
def number (num : BitVec 64) (base : Base) (size precision : BitVec 32) (type : Flags) (s : σ) : σ :=
  let type := if type.left then { type with zeropad := false } else type
  let c := if type.zeropad then ascii '0' else ascii ' '
  let (sign, num, size) := numberSign type num size
  let size := specialSize base type size
  let tmp := tmp type.large base num
  let i := BitVec.ofNat 32 tmp.length
  let precision := if precision.toInt < i.toInt then i else precision
  let size := size - precision
  let r := padUnless out (type.zeropad || type.left) (ascii ' ') size s
  let s := putSpecial out base type (putSign out sign r.2)
  let r := padUnless out type.left c r.1 s
  let s := (pad out (ascii '0') i precision r.2).2
  let s := out.puts s tmp.reverse
  (pad out (ascii ' ') 0 r.1 s).2

/-- The emission of a character in its field. -/
def charField (left : Bool) (w : BitVec 32) (c : Byte) (s : σ) : σ :=
  let (w, s) := if left then (w, s) else prePad out (ascii ' ') w s
  (prePad out (ascii ' ') w (out.put s c)).2

/-- The emission of the first `len` characters of a string in their field. -/
def stringField (left : Bool) (w : BitVec 32) (chars : Nat → Byte) (len : BitVec 32) (s : σ) : σ :=
  let (w, s) := if left then (w, s) else pad out (ascii ' ') len w s
  (pad out (ascii ' ') len w (putString out chars len.toInt.toNat 0 s)).2

/-! ## A directive -/

/-- `va_arg`. -/
def vaArg : List (BitVec 64) → Option (BitVec 64 × List (BitVec 64))
  | [] => none
  | a :: args => some (a, args)

/-- What stands between the `%` and the conversion character. -/
structure Spec where
  flags : Flags
  fieldWidth : BitVec 32
  precision : BitVec 32
  qualifier : Option Byte

/-- The flags. -/
def scanFlags (flags : Flags) : Format → Option (Flags × Format)
  | [] => none
  | c :: fmt =>
    if c = ascii '-' then scanFlags { flags with left := true } fmt
    else if c = ascii '+' then scanFlags { flags with plus := true } fmt
    else if c = ascii ' ' then scanFlags { flags with space := true } fmt
    else if c = ascii '#' then scanFlags { flags with special := true } fmt
    else if c = ascii '0' then scanFlags { flags with zeropad := true } fmt
    else some (flags, c :: fmt)

/-- The field width. -/
def scanWidth (flags : Flags) (args : List (BitVec 64)) :
    Format → Option (BitVec 32 × Flags × List (BitVec 64) × Format)
  | [] => none
  | c :: fmt =>
    if isdigit c then (skipAtoi 0 (c :: fmt)).map fun (i, fmt) => (i, flags, args, fmt)
    else if c = ascii '*' then
      (vaArg args).map fun (a, args) =>
        let w : BitVec 32 := a.setWidth 32
        if w.toInt < 0 then (-w, { flags with left := true }, args, fmt) else (w, flags, args, fmt)
    else some (-1, flags, args, c :: fmt)

/-- The precision after its point, -1 if there is none. -/
def scanPoint (args : List (BitVec 64)) : Format → Option (BitVec 32 × List (BitVec 64) × Format)
  | [] => none
  | c :: fmt =>
    if isdigit c then (skipAtoi 0 (c :: fmt)).map fun (i, fmt) => (i, args, fmt)
    else if c = ascii '*' then (vaArg args).map fun (a, args) => (a.setWidth 32, args, fmt)
    else some (-1, args, c :: fmt)

/-- The precision. -/
def scanPrecision (args : List (BitVec 64)) :
    Format → Option (BitVec 32 × List (BitVec 64) × Format)
  | [] => none
  | c :: fmt =>
    if c = ascii '.' then
      (scanPoint args fmt).map fun (p, args, fmt) => (if p.toInt < 0 then 0 else p, args, fmt)
    else some (-1, args, c :: fmt)

/-- The qualifier. -/
def scanQualifier : Format → Option (Option Byte × Format)
  | [] => none
  | c :: fmt =>
    if c = ascii 'h' ∨ c = ascii 'l' ∨ c = ascii 'L' ∨ c = ascii 'Z' ∨ c = ascii 'z' then
      if c = ascii 'l' then
        match fmt with
        | [] => none
        | d :: fmt => some (if d = ascii 'l' then (some (ascii 'L'), fmt) else (some c, d :: fmt))
      else some (some c, fmt)
    else some (none, c :: fmt)

/-- Everything up to the conversion character, with the arguments it takes. -/
def scan (args : List (BitVec 64)) (fmt : Format) : Option (Spec × List (BitVec 64) × Format) :=
  (scanFlags {} fmt).bind fun (flags, fmt) =>
    (scanWidth flags args fmt).bind fun (fieldWidth, flags, args, fmt) =>
      (scanPrecision args fmt).bind fun (precision, args, fmt) =>
        (scanQualifier fmt).map fun (qualifier, fmt) =>
          ({ flags, fieldWidth, precision, qualifier }, args, fmt)

/-- What `%n` stores: the low `size` bytes of the value. -/
structure Store where
  ip : BitVec 64
  size : Nat
  value : BitVec 64

/-- What has been emitted, the arguments that are left, and what `%n` has stored. -/
structure Printer (σ : Type) where
  str : σ
  args : List (BitVec 64)
  stores : List Store

/-- The labels of the `switch` on the conversion character. -/
inductive Conversion where
  | char
  | string
  | pointer
  | count
  | percent
  | octal
  | hex (large : Bool)
  | decimal
  | unsigned

/-- The label of a character, if it has one. -/
def conversion (c : Byte) : Option Conversion :=
  if c = ascii 'c' then some .char
  else if c = ascii 's' then some .string
  else if c = ascii 'p' then some .pointer
  else if c = ascii 'n' then some .count
  else if c = ascii '%' then some .percent
  else if c = ascii 'o' then some .octal
  else if c = ascii 'X' then some (.hex true)
  else if c = ascii 'x' then some (.hex false)
  else if c = ascii 'd' ∨ c = ascii 'i' then some .decimal
  else if c = ascii 'u' then some .unsigned
  else none

/-- The argument of an integer conversion. -/
def argNum (qualifier : Option Byte) (sign : Bool) (a : BitVec 64) : BitVec 64 :=
  if qualifier = some (ascii 'L') then a
  else if qualifier = some (ascii 'l') then a
  else if qualifier = some (ascii 'Z') ∨ qualifier = some (ascii 'z') then a
  else if qualifier = some (ascii 'h') then
    if sign then (a.setWidth 16).signExtend 64 else (a.setWidth 16).setWidth 64
  else if sign then (a.setWidth 32).signExtend 64 else (a.setWidth 32).setWidth 64

/-- `"<NULL>"`. -/
def nullString (i : Nat) : Byte :=
  [ascii '<', ascii 'N', ascii 'U', ascii 'L', ascii 'L', ascii '>'].getD i 0

/-- The characters at an argument of `%s`. -/
def stringAt (ram : BitVec 64 → Byte) (s : BitVec 64) : Nat → Byte :=
  if s.toNat < 4096 then nullString else fun i => ram (s + BitVec.ofNat 64 i)

/-- An integer conversion. -/
def integer (base : Base) (sp : Spec) (p : Printer σ) : Option (Printer σ) :=
  (vaArg p.args).map fun (a, args) =>
    let num := argNum sp.qualifier sp.flags.sign a
    { p with str := number out num base sp.fieldWidth sp.precision sp.flags p.str, args := args }

/-- A conversion. -/
def convert (ram : BitVec 64 → Byte) (sp : Spec) (p : Printer σ) : Conversion → Option (Printer σ)
  | .char =>
    (vaArg p.args).map fun (a, args) =>
      { p with
        str := charField out sp.flags.left sp.fieldWidth (a.setWidth 8) p.str
        args := args }
  | .string =>
    (vaArg p.args).map fun (a, args) =>
      let chars := stringAt ram a
      let len := BitVec.ofNat 32 (strnlen chars (sp.precision.signExtend 64))
      { p with
        str := stringField out sp.flags.left sp.fieldWidth chars len p.str
        args := args }
  | .pointer =>
    (vaArg p.args).map fun (a, args) =>
      let (w, flags) := if sp.fieldWidth = -1 then (16, { sp.flags with zeropad := true })
        else (sp.fieldWidth, sp.flags)
      { p with str := number out a .hex w sp.precision flags p.str, args := args }
  | .count =>
    (vaArg p.args).map fun (ip, args) =>
      let size := if sp.qualifier = some (ascii 'l') ∨ sp.qualifier = some (ascii 'Z') ∨
        sp.qualifier = some (ascii 'z') then 8 else 4
      { p with args := args, stores := p.stores ++ [{ ip, size, value := out.count p.str }] }
  | .percent => some { p with str := out.put p.str (ascii '%') }
  | .octal => integer out .oct sp p
  | .hex large => integer out .hex { sp with flags := { sp.flags with large := large } } p
  | .decimal => integer out .dec { sp with flags := { sp.flags with sign := true } } p
  | .unsigned => integer out .dec sp p

/-- The body of the loop from the character after `%` on, with the pointer for the next turn. -/
def directive (ram : BitVec 64 → Byte) (fmt : Format) (p : Printer σ) : Option (Printer σ × Format) :=
  (scan p.args fmt).bind fun (sp, args, fmt) =>
    let p := { p with args := args }
    match fmt with
    | [] => none
    | c :: fmt =>
      match conversion c with
      | some k => (convert out ram sp p k).map fun p => (p, fmt)
      | none =>
        let p := { p with str := out.put p.str (ascii '%') }
        -- at the NUL, `--fmt` takes back the `++fmt` of the loop
        some (if c ≠ 0 then ({ p with str := out.put p.str c }, fmt) else (p, c :: fmt))

/-- The loop over the format, for `n` turns at most. -/
def formatTurns (ram : BitVec 64 → Byte) : Nat → Format → Printer σ → Option (Printer σ)
  | 0, _, _ => none
  | _ + 1, [], _ => none
  | n + 1, c :: fmt, p =>
    if c = 0 then some p
    else if c ≠ ascii '%' then formatTurns ram n fmt { p with str := out.put p.str c }
    else (directive out ram fmt p).bind fun (p, fmt) => formatTurns ram n fmt p

/-- The loop over a format. A turn moves at least one character on. -/
def format (ram : BitVec 64 → Byte) (fmt : List Byte) (args : List (BitVec 64)) (s : σ) :
    Option (Printer σ) :=
  formatTurns out ram (fmt.length + 1) (fmt ++ [0]) { str := s, args := args, stores := [] }

end

/-- `end` and `size`, with the check that `buf + size` does not wrap around. -/
def limits (buf size : BitVec 64) : BitVec 64 × BitVec 64 :=
  let lim := buf + size - 1
  if lim < buf - 1 then (-1, -1 - buf + 1) else (lim, size)

/-- The return value, the memory with the addresses stored to, and what `%n` has stored. -/
structure Outcome where
  ret : BitVec 32
  mem : BitVec 64 → Byte
  wrote : List (BitVec 64)
  stores : List Store

/-- What comes after the loop: the NUL and the `return`. -/
def finish (buf lim size : BitVec 64) (p : Printer (Window Byte)) : Outcome :=
  let w := p.str
  let w' := if w.str ≤ lim then w.store w.str 0 else if size ≠ 0 then w.store lim 0 else w
  { ret := (w.str - buf).setWidth 32, mem := w'.mem, wrote := w'.wrote, stores := p.stores }

/-- `vsnprintf(buf, size, fmt, args)`. -/
def vsnprintf (ram mem : BitVec 64 → Byte) (buf size : BitVec 64) (fmt : List Byte)
    (args : List (BitVec 64)) : Option Outcome :=
  let (lim, size) := limits buf size
  (format (window Byte buf lim) ram fmt args { str := buf, mem := mem, wrote := [] }).map
    (finish buf lim size)

/-- What the format gives in an unlimited buffer. -/
def unlimited (ram : BitVec 64 → Byte) (fmt : List Byte) (args : List (BitVec 64)) :
    Option (Printer (List Byte)) :=
  format (Emitter.text Byte) ram fmt args []

end OldLinux.Vsprintf
