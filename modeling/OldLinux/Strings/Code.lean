import OldLinux.Lib.CString
import OldLinux.Lib.Turns

/-!
# The functions on strings and memory

Model of the functions of `lib/string.c` on a memory of 64-bit addresses. A `char` is a byte and `NULL` is 0. A
loop has as many turns as there are addresses at most: one that is not over by then has gone through the whole
memory.

The addresses that are stored to are kept, to tell how many bytes a function writes.
-/

namespace OldLinux.Strings
open Lib Function

/-- The memory, the addresses that were stored to, the last one first, and the variable `olds` of `strtok`. -/
structure State where
  byte : Mem
  stored : List (BitVec 64)
  olds : BitVec 64

/-- The number of addresses. -/
def space : Nat := 2 ^ 64

/-- `*p`. -/
def load (p : BitVec 64) : Turns State (BitVec 8) := do
  let s ← Turns.get
  pure (s.byte p)

/-- The state after `*p = b`. -/
def State.store (s : State) (p : BitVec 64) (b : BitVec 8) : State :=
  { s with byte := update s.byte p b, stored := p :: s.stored }

/-- `*p = b`. -/
def store (p : BitVec 64) (b : BitVec 8) : Turns State Unit := Turns.modify fun s => s.store p b

/-! ## Copies of strings -/

/-- A turn of `while (count-- && (*dest++ = *src++) != '\0');` -/
def copyTurn : BitVec 64 × BitVec 64 × BitVec 32 →
    Turns State ((BitVec 64 × BitVec 32) ⊕ BitVec 64 × BitVec 64 × BitVec 32)
  | (dest, src, count) =>
    if count = 0 then pure (.inl (dest, count - 1))
    else do
      let c ← load src
      store dest c
      if c ≠ 0 then pure (.inr (dest + 1, src + 1, count - 1)) else pure (.inl (dest + 1, count - 1))

/-- A turn of `while (count-- > 0) *dest++ = '\0';` -/
def fillTurn : BitVec 64 × BitVec 32 → Turns State (Unit ⊕ BitVec 64 × BitVec 32)
  | (dest, count) =>
    if 0 < count.toInt then do
      store dest 0
      pure (.inr (dest + 1, count - 1))
    else pure (.inl ())

/-- `strncpy(dest, src, count)`. -/
def strncpy (dest src : BitVec 64) (count : BitVec 32) : Turns State (BitVec 64) := do
  let tmp := dest
  let (dest, count) ← Turns.loop copyTurn space (dest, src, count)
  Turns.loop fillTurn space (dest, count)
  pure tmp

/-- A turn of `while (*dest) dest++;` -/
def endTurn (dest : BitVec 64) : Turns State (BitVec 64 ⊕ BitVec 64) := do
  if (← load dest) ≠ 0 then pure (.inr (dest + 1)) else pure (.inl dest)

/-- `strncat(dest, src, count)`. -/
def strncat (dest src : BitVec 64) (count : BitVec 32) : Turns State (BitVec 64) := do
  let tmp := dest
  let dest ← Turns.loop endTurn space dest
  let (dest, _) ← Turns.loop copyTurn space (dest, src, count)
  store dest 0
  pure tmp

/-! ## Tokens -/

/-- A turn of `for (p = ct; *p && *p != *cs; ++p);` -/
def matchTurn (cs p : BitVec 64) : Turns State (BitVec 64 ⊕ BitVec 64) := do
  let x ← load p
  let c ← load cs
  if x ≠ 0 ∧ x ≠ c then pure (.inr (p + 1)) else pure (.inl p)

/-- A turn of the outer loop of `strspn`. -/
def spnTurn (ct cs : BitVec 64) : Turns State (BitVec 64 ⊕ BitVec 64) := do
  if (← load cs) ≠ 0 then
    let p ← Turns.loop (matchTurn cs) space ct
    if (← load p) = 0 then pure (.inl cs) else pure (.inr (cs + 1))
  else pure (.inl cs)

/-- `strspn(cs, ct)`. -/
def strspn (cs ct : BitVec 64) : Turns State (BitVec 64) := do
  let start := cs
  let cs ← Turns.loop (spnTurn ct) space cs
  pure (cs - start)

/-- A turn of the inner loop of `strpbrk`: whether `*cs` is found. -/
def findTurn (cs p : BitVec 64) : Turns State (Bool ⊕ BitVec 64) := do
  let x ← load p
  if x ≠ 0 then
    if x = (← load cs) then pure (.inl true) else pure (.inr (p + 1))
  else pure (.inl false)

/-- A turn of the outer loop of `strpbrk`. -/
def brkTurn (ct cs : BitVec 64) : Turns State (BitVec 64 ⊕ BitVec 64) := do
  if (← load cs) ≠ 0 then
    if ← Turns.loop (findTurn cs) space ct then pure (.inl cs) else pure (.inr (cs + 1))
  else pure (.inl 0)

/-- `strpbrk(cs, ct)`. -/
def strpbrk (cs ct : BitVec 64) : Turns State (BitVec 64) := Turns.loop (brkTurn ct) space cs

/-- `olds = s`. -/
def setOlds (s : BitVec 64) : Turns State Unit := Turns.modify fun t => { t with olds := s }

/-- `strtok(s, ct)`. -/
def strtok (s ct : BitVec 64) : Turns State (BitVec 64) := do
  let t ← Turns.get
  let s := if s = 0 then t.olds else s
  if s = 0 then pure 0
  else
    let n ← strspn s ct
    let s := s + n
    if (← load s) = 0 then
      setOlds 0
      pure 0
    else
      let token := s
      let s ← strpbrk token ct
      if s ≠ 0 then
        store s 0
        setOlds (s + 1)
      else setOlds s
      pure token

/-- `strtok(s, ct)`, `strtok(NULL, ct)`, ..: what the first so many of these calls return. -/
def strtokCalls (ct : BitVec 64) : BitVec 64 → Nat → Turns State (List (BitVec 64))
  | _, 0 => pure []
  | s, k + 1 => do
    let t ← strtok s ct
    let ts ← strtokCalls ct 0 k
    pure (t :: ts)

/-! ## Copies of memory -/

/-- A turn of `while (n--) *dp++ = *sp++;` -/
def upTurn : BitVec 64 × BitVec 64 × BitVec 64 → Turns State (Unit ⊕ BitVec 64 × BitVec 64 × BitVec 64)
  | (dp, sp, n) =>
    if n = 0 then pure (.inl ())
    else do
      store dp (← load sp)
      pure (.inr (dp + 1, sp + 1, n - 1))

/-- A turn of `while (n--) *--dp = *--sp;` -/
def downTurn : BitVec 64 × BitVec 64 × BitVec 64 → Turns State (Unit ⊕ BitVec 64 × BitVec 64 × BitVec 64)
  | (dp, sp, n) =>
    if n = 0 then pure (.inl ())
    else do
      store (dp - 1) (← load (sp - 1))
      pure (.inr (dp - 1, sp - 1, n - 1))

/-- `memcpy(dest, src, n)`. -/
def memcpy (dest src n : BitVec 64) : Turns State (BitVec 64) := do
  Turns.loop upTurn space (dest, src, n)
  pure dest

/-- `memmove(dest, src, n)`. -/
def memmove (dest src n : BitVec 64) : Turns State (BitVec 64) := do
  if dest < src then Turns.loop upTurn space (dest, src, n)
  else Turns.loop downTurn space (dest + n, src + n, n)
  pure dest

/-! ## Searches -/

/-- `(char)c`. -/
def charOf (c : BitVec 32) : BitVec 8 := c.setWidth 8

/-- `strlen(s)`. -/
def strlen (s : BitVec 64) : Turns State (BitVec 64) := do
  let sc ← Turns.loop endTurn space s
  pure (sc - s)

/-- A turn of the loop of `strchr`. -/
def chrTurn (c : BitVec 32) (s : BitVec 64) : Turns State (BitVec 64 ⊕ BitVec 64) := do
  if (← load s) ≠ charOf c then
    if (← load s) = 0 then pure (.inl 0) else pure (.inr (s + 1))
  else pure (.inl s)

/-- `strchr(s, c)`. -/
def strchr (s : BitVec 64) (c : BitVec 32) : Turns State (BitVec 64) := Turns.loop (chrTurn c) space s

/-- A turn of the loop of `strrchr`, on `s` and `last`. -/
def rchrTurn (c : BitVec 32) : BitVec 64 × BitVec 64 → Turns State (BitVec 64 ⊕ BitVec 64 × BitVec 64)
  | (s, last) => do
    let last := if (← load s) = charOf c then s else last
    if (← load s) ≠ 0 then pure (.inr (s + 1, last)) else pure (.inl last)

/-- `strrchr(s, c)`. -/
def strrchr (s : BitVec 64) (c : BitVec 32) : Turns State (BitVec 64) := Turns.loop (rchrTurn c) space (s, 0)

/-- A turn of the outer loop of `strcspn`. -/
def cspnTurn (ct cs : BitVec 64) : Turns State (BitVec 64 ⊕ BitVec 64) := do
  if (← load cs) ≠ 0 then
    if ← Turns.loop (findTurn cs) space ct then pure (.inl cs) else pure (.inr (cs + 1))
  else pure (.inl cs)

/-- `strcspn(cs, ct)`. -/
def strcspn (cs ct : BitVec 64) : Turns State (BitVec 64) := do
  let start := cs
  let cs ← Turns.loop (cspnTurn ct) space cs
  pure (cs - start)

/-- A turn of the inner loop of `strstr`, on `p1` and `p2`. -/
def sameTurn : BitVec 64 × BitVec 64 → Turns State (BitVec 64 ⊕ BitVec 64 × BitVec 64)
  | (p1, p2) => do
    let y ← load p2
    if y ≠ 0 then
      if (← load p1) = y then pure (.inr (p1 + 1, p2 + 1)) else pure (.inl p2)
    else pure (.inl p2)

/-- A turn of the outer loop of `strstr`. -/
def strTurn (ct cs : BitVec 64) : Turns State (BitVec 64 ⊕ BitVec 64) := do
  if (← load cs) ≠ 0 then
    let p2 ← Turns.loop sameTurn space (cs, ct)
    if (← load p2) = 0 then pure (.inl cs) else pure (.inr (cs + 1))
  else pure (.inl 0)

/-- `strstr(cs, ct)`. -/
def strstr (cs ct : BitVec 64) : Turns State (BitVec 64) := do
  if (← load ct) = 0 then pure cs else Turns.loop (strTurn ct) space cs

/-- A turn of the loop of `memchr`. -/
def memchrTurn (c : BitVec 32) : BitVec 64 × BitVec 64 → Turns State (BitVec 64 ⊕ BitVec 64 × BitVec 64)
  | (p, n) =>
    if 0 < n then do
      if (← load p) = charOf c then pure (.inl p) else pure (.inr (p + 1, n - 1))
    else pure (.inl 0)

/-- `memchr(s, c, n)`. -/
def memchr (s : BitVec 64) (c : BitVec 32) (n : BitVec 64) : Turns State (BitVec 64) :=
  Turns.loop (memchrTurn c) space (s, n)

/-! ## Comparisons -/

/-- `(size_t)(x - y)` for two characters. -/
def minus (x y : BitVec 8) : BitVec 64 := (x.setWidth 32 - y.setWidth 32).signExtend 64

/-- A turn of the loop of `strcmp`. -/
def cmpTurn : BitVec 64 × BitVec 64 → Turns State ((BitVec 64 × BitVec 64) ⊕ BitVec 64 × BitVec 64)
  | (cs, ct) => do
    let x ← load cs
    if x ≠ 0 then
      if x = (← load ct) then pure (.inr (cs + 1, ct + 1)) else pure (.inl (cs, ct))
    else pure (.inl (cs, ct))

/-- `strcmp(cs, ct)`. -/
def strcmp (cs ct : BitVec 64) : Turns State (BitVec 64) := do
  let (cs, ct) ← Turns.loop cmpTurn space (cs, ct)
  pure (minus (← load cs) (← load ct))

/-- A turn of the loop of `strncmp`. -/
def ncmpTurn : BitVec 64 × BitVec 64 × BitVec 32 →
    Turns State ((BitVec 64 × BitVec 64) ⊕ BitVec 64 × BitVec 64 × BitVec 32)
  | (cs, ct, count) => do
    let count := count - 1
    if count ≠ 0 then
      let x ← load cs
      if x ≠ 0 then
        if x = (← load ct) then pure (.inr (cs + 1, ct + 1, count)) else pure (.inl (cs, ct))
      else pure (.inl (cs, ct))
    else pure (.inl (cs, ct))

/-- `strncmp(cs, ct, count)`. -/
def strncmp (cs ct : BitVec 64) (count : BitVec 32) : Turns State (BitVec 64) := do
  if count = 0 then pure 0
  else
    let (cs, ct) ← Turns.loop ncmpTurn space (cs, ct, count)
    pure (minus (← load cs) (← load ct))

/-- A turn of the loop of `memcmp`. -/
def memcmpTurn : BitVec 64 × BitVec 64 × BitVec 64 →
    Turns State (BitVec 64 ⊕ BitVec 64 × BitVec 64 × BitVec 64)
  | (p1, p2, count) =>
    if 0 < count then do
      let x ← load p1
      let y ← load p2
      if x ≠ y then pure (.inl (minus x y)) else pure (.inr (p1 + 1, p2 + 1, count - 1))
    else pure (.inl 0)

/-- `memcmp(cs, ct, count)`. -/
def memcmp (cs ct count : BitVec 64) : Turns State (BitVec 64) := Turns.loop memcmpTurn space (cs, ct, count)

/-! ## Unbounded copies -/

/-- A turn of `while ((*dest++ = *src++) != '\0');` -/
def cpyTurn : BitVec 64 × BitVec 64 → Turns State (Unit ⊕ BitVec 64 × BitVec 64)
  | (dest, src) => do
    let c ← load src
    store dest c
    if c ≠ 0 then pure (.inr (dest + 1, src + 1)) else pure (.inl ())

/-- `strcpy(dest, src)`. -/
def strcpy (dest src : BitVec 64) : Turns State (BitVec 64) := do
  let tmp := dest
  Turns.loop cpyTurn space (dest, src)
  pure tmp

/-- `strcat(dest, src)`. -/
def strcat (dest src : BitVec 64) : Turns State (BitVec 64) := do
  let tmp := dest
  let dest ← Turns.loop endTurn space dest
  Turns.loop cpyTurn space (dest, src)
  pure tmp

/-- A turn of the loop of `memset`. -/
def setTurn (c : BitVec 32) : BitVec 64 × BitVec 64 → Turns State (Unit ⊕ BitVec 64 × BitVec 64)
  | (xs, count) =>
    if 0 < count then do
      store xs (charOf c)
      pure (.inr (xs + 1, count - 1))
    else pure (.inl ())

/-- `memset(s, c, count)`. -/
def memset (s : BitVec 64) (c : BitVec 32) (count : BitVec 64) : Turns State (BitVec 64) := do
  Turns.loop (setTurn c) space (s, count)
  pure s

/-! ## Loads and stores -/

/-- The state after `*p++ = b` for these bytes, one after the other. -/
def State.write (s : State) (p : BitVec 64) : List (BitVec 8) → State
  | [] => s
  | b :: data => (s.store p b).write (p + 1) data

variable {β : Type} {s : State} {p q : BitVec 64} {b : BitVec 8} {data data' : List (BitVec 8)}

/-- A byte is loaded. -/
lemma returns_load {f : BitVec 8 → Turns State β} {Q : β → State → Prop}
    (h : Turns.returns (f (s.byte p)) Q s) : Turns.returns (load p >>= f) Q s :=
  Turns.returns_bind ⟨s.byte p, s, rfl, h⟩

/-- A byte is stored. -/
lemma returns_store {f : Unit → Turns State β} {Q : β → State → Prop}
    (h : Turns.returns (f ()) Q (s.store p b)) : Turns.returns (store p b >>= f) Q s :=
  Turns.returns_bind (Turns.returns_modify h)

/-- `olds` is set. -/
lemma returns_setOlds {f : Unit → Turns State β} {Q : β → State → Prop}
    (h : Turns.returns (f ()) Q { s with olds := q }) : Turns.returns (setOlds q >>= f) Q s :=
  Turns.returns_bind (Turns.returns_modify h)

/-- Two stretches are written. -/
lemma write_append : s.write p (data ++ data') =
    (s.write p data).write (p + BitVec.ofNat 64 data.length) data' := by
  induction data generalizing s p with
  | nil =>
    rw [List.length_nil, add_ofNat_zero]
    rfl
  | cons b data ih =>
    rw [List.length_cons, add_ofNat_succ_left]
    exact ih

/-- What has been written. -/
lemma write_byte (h : data.length ≤ 2 ^ 64) : (s.write p data).byte = patch s.byte p data := by
  induction data generalizing s p with
  | nil => rfl
  | cons b data ih => exact (ih (Nat.le_of_succ_le h)).trans (patch_cons h)

/-- As many bytes as there are. -/
lemma length_stored : (s.write p data).stored.length = data.length + s.stored.length := by
  induction data generalizing s p with
  | nil => exact (Nat.zero_add _).symm
  | cons b data ih =>
    rw [State.write, ih, List.length_cons]
    show data.length + (s.stored.length + 1) = _
    omega

end OldLinux.Strings
