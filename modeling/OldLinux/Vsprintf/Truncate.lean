import OldLinux.Vsprintf.Code

/-!
# Truncation

`vsnprintf` leaves the beginning of its output in the buffer and returns the length of all of it. Every
function of the formatter does to its emitter what it does to the text (`number_follows`,
`convert_follows`, `format_follows`): the cursor takes no part in what is emitted next. What is left is
where the cursor of the buffer goes. The headline is `vsnprintf_truncates_iff`.
-/

namespace OldLinux.Vsprintf
open Lib Function

/-- The same printer on another emitter. -/
def Printer.map {σ τ : Type} (f : σ → τ) (p : Printer σ) : Printer τ where
  str := f p.str
  args := p.args
  stores := p.stores

section
variable {σ : Type} {out : Emitter σ Byte} {f : List Byte → σ} {c : Byte} {k x : BitVec 32}
  {l : List Byte}

/-! ## The loops -/

/-- Padding does not depend on where it goes. -/
lemma padTurns_follows (h : out.Follows f) (n : Nat) :
    padTurns out c k n x (f l) = (padTurns (.text Byte) c k n x l).map id f := by
  induction n generalizing x l with
  | zero => rfl
  | succ n ih =>
    rw [padTurns, padTurns]
    split
    case isTrue =>
      rw [h.put, ih]
      rfl
    case isFalse => rfl

/-- All turns of the padding do not depend on where it goes. -/
lemma pad_follows (h : out.Follows f) :
    pad out c k x (f l) = (pad (.text Byte) c k x l).map id f :=
  padTurns_follows h _

/-- The same for the other loop. -/
lemma prePadTurns_follows (h : out.Follows f) (n : Nat) :
    prePadTurns out c n x (f l) = (prePadTurns (.text Byte) c n x l).map id f := by
  induction n generalizing x l with
  | zero => rfl
  | succ n ih =>
    rw [prePadTurns, prePadTurns]
    split
    case isTrue =>
      rw [h.put, ih]
      rfl
    case isFalse => rfl

/-- All turns of the other loop do not depend on it. -/
lemma prePad_follows (h : out.Follows f) :
    prePad out c x (f l) = (prePad (.text Byte) c x l).map id f :=
  prePadTurns_follows h _

/-- A string. -/
lemma putString_follows (h : out.Follows f) {chars : Nat → Byte} (n i : Nat) :
    putString out chars n i (f l) = f (putString (.text Byte) chars n i l) := by
  induction n generalizing i l with
  | zero => rfl
  | succ n ih =>
    rw [putString, putString, h.put, ih]
    rfl

/-- Padding that may be skipped does not depend on where it goes. -/
lemma padUnless_follows (h : out.Follows f) {skip : Bool} :
    padUnless out skip c x (f l) = (padUnless (.text Byte) skip c x l).map id f := by
  cases skip with
  | true => rfl
  | false => exact pad_follows h

/-- A sign does not depend on where it goes. -/
lemma putSign_follows (h : out.Follows f) :
    putSign out c (f l) = f (putSign (.text Byte) c l) := by
  rw [putSign, putSign]
  split
  · exact h.put l c
  · rfl

/-- A prefix does not depend on where it goes. -/
lemma putSpecial_follows (h : out.Follows f) {base : Base} {type : Flags} :
    putSpecial out base type (f l) = f (putSpecial (.text Byte) base type l) := by
  unfold putSpecial
  split
  · cases base with
    | oct => exact h.put l _
    | dec => rfl
    | hex =>
      show out.put (out.put (f l) _) _ = _
      rw [h.put, h.put]
      rfl
  · rfl

/-- A character in its field does not depend on where it goes. -/
lemma charField_follows (h : out.Follows f) {left : Bool} :
    charField out left x c (f l) = f (charField (.text Byte) left x c l) := by
  cases left with
  | true =>
    show (prePad out _ _ (out.put (f l) c)).2 = _
    rw [h.put, prePad_follows h]
    rfl
  | false =>
    simp only [charField, Bool.false_eq_true, if_false, prePad_follows h, Prod.map, id, h.put]
    rfl

/-- A string in its field does not depend on where it goes. -/
lemma stringField_follows (h : out.Follows f) {left : Bool} {chars : Nat → Byte} :
    stringField out left x chars k (f l) = f (stringField (.text Byte) left x chars k l) := by
  cases left with
  | true =>
    show (pad out _ _ _ (putString out _ _ _ (f l))).2 = _
    rw [putString_follows h, pad_follows h]
    rfl
  | false =>
    simp only [stringField, Bool.false_eq_true, if_false, pad_follows h, Prod.map, id,
      putString_follows h]

/-! ## The directives -/

/-- A number does not depend on where it goes. -/
lemma number_follows (h : out.Follows f) {num : BitVec 64} {base : Base} {size precision : BitVec 32}
    {type : Flags} : number out num base size precision type (f l) =
      f (number (.text Byte) num base size precision type l) := by
  simp only [number, padUnless_follows h, Prod.map, id, putSign_follows h, putSpecial_follows h,
    pad_follows h, h.puts, Emitter.text_puts]

/-- The step of a conversion with its argument. -/
lemma vaArg_follows {args : List (BitVec 64)} {g : BitVec 64 × List (BitVec 64) → Printer σ}
    {g' : BitVec 64 × List (BitVec 64) → Printer (List Byte)}
    (hg : ∀ a rest, g (a, rest) = (g' (a, rest)).map f) :
    (vaArg args).map g = ((vaArg args).map g').map (Printer.map f) := by
  rw [Option.map_map]
  congr 1
  funext ⟨a, rest⟩
  exact hg a rest

/-- An integer does not depend on where it goes. -/
lemma integer_follows (h : out.Follows f) {base : Base} {sp : Spec} {p : Printer (List Byte)} :
    integer out base sp (p.map f) = (integer (.text Byte) base sp p).map (Printer.map f) := by
  rw [integer, integer]
  exact vaArg_follows fun a rest => congrArg (Printer.mk · rest p.stores) (number_follows h)

/-- A conversion does to any emitter what it does to the text. -/
lemma convert_follows (h : out.Follows f) {ram : BitVec 64 → Byte} {sp : Spec}
    {p : Printer (List Byte)} {v : Conversion} :
    convert out ram sp (p.map f) v = (convert (.text Byte) ram sp p v).map (Printer.map f) := by
  cases v with
  | char =>
    rw [convert, convert]
    exact vaArg_follows fun a rest => congrArg (Printer.mk · rest p.stores) (charField_follows h)
  | string =>
    rw [convert, convert]
    exact vaArg_follows fun a rest => congrArg (Printer.mk · rest p.stores) (stringField_follows h)
  | pointer =>
    rw [convert, convert]
    exact vaArg_follows fun a rest => congrArg (Printer.mk · rest p.stores) (number_follows h)
  | count =>
    -- the count is the one thing that a conversion reads from what it emits to
    rw [convert, convert]
    refine vaArg_follows fun a rest => ?_
    show Printer.mk (f p.str) rest (p.stores ++ [⟨a, _, out.count (f p.str)⟩]) = _
    rw [h.count]
    rfl
  | percent =>
    show some (Printer.mk (out.put (f p.str) _) _ _) = _
    rw [h.put]
    rfl
  | octal | hex | decimal | unsigned => exact integer_follows h

/-- A directive does not depend on where it goes. -/
lemma directive_follows (h : out.Follows f) {ram : BitVec 64 → Byte} {fmt : Format}
    {p : Printer (List Byte)} : directive out ram fmt (p.map f) =
      (directive (.text Byte) ram fmt p).map fun r => (r.1.map f, r.2) := by
  rw [directive, directive]
  show Option.bind (scan p.args fmt) _ = _
  cases scan p.args fmt with
  | none => rfl
  | some r =>
    obtain ⟨sp, args, fmt'⟩ := r
    cases fmt' with
    | nil => rfl
    | cons c fmt' =>
      dsimp only [Option.bind_some]
      cases conversion c with
      | some v =>
        show Option.map _ (convert out ram sp (Printer.map f { p with args := args }) v) = _
        rw [convert_follows h]
        show Option.map _ (Option.map _ _) = Option.map _ (Option.map _ _)
        rw [Option.map_map, Option.map_map]
        rfl
      | none =>
        show some (if c ≠ 0 then (Printer.mk (out.put (out.put (f p.str) _) c) args p.stores, fmt')
          else (Printer.mk (out.put (f p.str) _) args p.stores, c :: fmt')) = _
        rw [h.put, h.put]
        split <;> rfl

/-- The loop over the format does to any emitter what it does to the text. -/
lemma formatTurns_follows (h : out.Follows f) {ram : BitVec 64 → Byte} (n : Nat) {fmt : Format}
    {p : Printer (List Byte)} : formatTurns out ram n fmt (p.map f) =
      (formatTurns (.text Byte) ram n fmt p).map (Printer.map f) := by
  induction n generalizing fmt p with
  | zero => rfl
  | succ n ih =>
    cases fmt with
    | nil => rfl
    | cons c fmt =>
      rw [formatTurns, formatTurns]
      split
      case isTrue => rfl
      case isFalse =>
        split
        case isTrue =>
          show formatTurns out ram n fmt (Printer.mk (out.put (f p.str) c) p.args p.stores) = _
          rw [h.put]
          exact ih (p := { p with str := p.str ++ [c] })
        case isFalse =>
          rw [directive_follows h]
          cases directive (.text Byte) ram fmt p with
          | none => rfl
          | some r => exact ih

/-- The whole format does not depend on where it goes. -/
lemma format_follows (h : out.Follows f) {ram : BitVec 64 → Byte} {fmt : List Byte}
    {args : List (BitVec 64)} :
    format out ram fmt args (f []) = (unlimited ram fmt args).map (Printer.map f) :=
  formatTurns_follows h _ (p := { str := [], args := args, stores := [] })

end

/-! ## The buffer -/

/-- What a buffer of `n` bytes holds: nothing is stored outside of it, it begins with the first `n - 1`
    characters of the text, these are followed by a NUL, and the length of the text is returned. -/
structure Truncated (buf n : BitVec 64) (mem : BitVec 64 → Byte) (text : List Byte) (o : Outcome) :
    Prop where
  ret : o.ret.toInt = text.length
  inside : ∀ a ∈ o.wrote, ∃ i < n.toNat, a = buf + BitVec.ofNat 64 i
  kept : ∀ a ∉ o.wrote, o.mem a = mem a
  chars : ∀ i (hi : i < text.length), i + 1 < n.toNat → o.mem (buf + BitVec.ofNat 64 i) = text[i]
  nul : n ≠ 0 → o.mem (buf + BitVec.ofNat 64 (min (n.toNat - 1) text.length)) = 0

section
variable {ram mem : BitVec 64 → Byte} {buf n lim size : BitVec 64} {fmt text : List Byte}
  {args : List (BitVec 64)} {p : Printer (List Byte)} {i j : Nat}

/-- The buffer after a text. -/
def filled (mem : BitVec 64 → Byte) (buf lim : BitVec 64) (text : List Byte) : Window Byte :=
  (window Byte buf lim).puts { str := buf, mem := mem, wrote := [] } text

/-- `vsnprintf` puts the text of the format into its buffer, followed by the NUL. -/
lemma vsnprintf_eq (h : unlimited ram fmt args = some p) : vsnprintf ram mem buf n fmt args =
    some (finish buf (limits buf n).1 (limits buf n).2 (p.map (filled mem buf (limits buf n).1))) := by
  have hw : (window Byte buf (limits buf n).1).Follows (filled mem buf (limits buf n).1) :=
    window_follows (w := { str := buf, mem := mem, wrote := [] })
  have hf : format (window Byte buf (limits buf n).1) ram fmt args _ = _ := format_follows hw
  rw [h] at hf
  exact congrArg (Option.map _) hf

/-- The limits of no buffer. -/
lemma limits_zero : limits 0 n = (-1, 0) := by
  unfold limits
  dsimp only
  split
  case isTrue => rfl
  case isFalse h =>
    have hn : n = 0 := by
      bv_omega
    subst hn
    rfl

/-- `end` is the last byte of the buffer. -/
lemma limits_of_ne (hbuf : buf ≠ 0) (hn : buf.toNat + n.toNat < 2 ^ 64) :
    limits buf n = (buf + n - 1, n) := by
  have hlim : ¬ buf + n - 1 < buf - 1 := by bv_omega
  unfold limits
  dsimp only
  rw [if_neg hlim]

/-- Different places in the buffer. -/
lemma place_inj (hi : i < 2 ^ 64) (hj : j < 2 ^ 64)
    (h : buf + BitVec.ofNat 64 i = buf + BitVec.ofNat 64 j) : i = j := by
  have hb := congrArg BitVec.toNat ((BitVec.add_right_inj _).1 h)
  rwa [BitVec.toNat_ofNat, BitVec.toNat_ofNat, Nat.mod_eq_of_lt hi, Nat.mod_eq_of_lt hj] at hb

/-- The end of the text. -/
lemma filled_str : (filled mem buf lim text).str = buf + BitVec.ofNat 64 text.length := window_str

/-- The addresses that were written. -/
lemma filled_wrote {a : BitVec 64} : a ∈ (filled mem buf lim text).wrote ↔
    ∃ i < text.length, buf + BitVec.ofNat 64 i ≤ lim ∧ a = buf + BitVec.ofNat 64 i := by
  rw [filled, window_wrote]
  simp

/-- The value returned is the length of the text. -/
lemma finish_ret (hp : p.str.length < 2 ^ 31) :
    (finish buf lim size (p.map (filled mem buf lim))).ret.toInt = p.str.length := by
  show (((filled mem buf lim p.str).str - buf).setWidth 32).toInt = _
  rw [filled_str, BitVec.add_comm, BitVec.add_sub_cancel, BitVec.toInt_eq_toNat_of_lt]
  · rw [BitVec.toNat_setWidth, BitVec.toNat_ofNat]
    omega
  · rw [BitVec.toNat_setWidth, BitVec.toNat_ofNat]
    omega

/-- The buffer with the NUL that `finish` stores. -/
def ended (w : Window Byte) (lim size : BitVec 64) : Window Byte :=
  if w.str ≤ lim then w.store w.str 0 else if size ≠ 0 then w.store lim 0 else w

/-- The NUL at the place `m`, which ends the text or the buffer. -/
lemma truncated_store {m : Nat} (hp : p.str.length < 2 ^ 31)
    (hin : ∀ i ≤ p.str.length, buf + BitVec.ofNat 64 i ≤ lim ↔ i < n.toNat)
    (hm : m = min (n.toNat - 1) p.str.length) (hn : n ≠ 0)
    (hend : ended (filled mem buf lim p.str) lim size =
      (filled mem buf lim p.str).store (buf + BitVec.ofNat 64 m) 0) :
    Truncated buf n mem p.str (finish buf lim size (p.map (filled mem buf lim))) := by
  have hmem : (finish buf lim size (p.map (filled mem buf lim))).mem =
      ((filled mem buf lim p.str).store (buf + BitVec.ofNat 64 m) 0).mem :=
    congrArg (fun w => w.mem) hend
  have hwrote : (finish buf lim size (p.map (filled mem buf lim))).wrote =
      ((filled mem buf lim p.str).store (buf + BitVec.ofNat 64 m) 0).wrote :=
    congrArg (fun w => w.wrote) hend
  have hpos : 0 < n.toNat := by
    apply Nat.pos_of_ne_zero
    intro h
    exact hn (BitVec.eq_of_toNat_eq h)
  have hmn : m < n.toNat := by omega
  refine ⟨finish_ret hp, fun a ha => ?_, fun a ha => ?_, fun i hi hin' => ?_, fun _ => ?_⟩
  · rw [hwrote] at ha
    cases List.mem_cons.1 ha with
    | inl he => exact ⟨m, hmn, he⟩
    | inr ha =>
      obtain ⟨i, hi, hlim, he⟩ := filled_wrote.1 ha
      exact ⟨i, (hin i (Nat.le_of_lt hi)).1 hlim, he⟩
  · rw [hwrote] at ha
    have ha' := not_or.1 (mt List.mem_cons.2 ha)
    rw [hmem]
    show update _ _ _ a = _
    rw [update_of_ne ha'.1]
    exact window_kept ha'.2
  · rw [hmem]
    show update _ _ _ _ = _
    rw [update_of_ne]
    · exact window_mem (w := { str := buf, mem := mem, wrote := [] }) (by omega) hi
        ((hin i (Nat.le_of_lt hi)).2 (by omega))
    · intro he
      have := place_inj (by omega) (by omega) he
      omega
  · rw [hmem, ← hm]
    exact update_self ..

/-- A cursor that is past `end` exactly when it is past the buffer truncates the text. -/
lemma finish_truncated (hp : p.str.length < 2 ^ 31)
    (hin : ∀ i ≤ p.str.length, buf + BitVec.ofNat 64 i ≤ lim ↔ i < n.toNat)
    (hend : n.toNat ≤ p.str.length → size = n ∧ (n ≠ 0 → lim = buf + BitVec.ofNat 64 (n.toNat - 1))) :
    Truncated buf n mem p.str (finish buf lim size (p.map (filled mem buf lim))) := by
  have hstr : (filled mem buf lim p.str).str = buf + BitVec.ofNat 64 p.str.length := filled_str
  by_cases hlt : p.str.length < n.toNat
  · have hle := (hin _ (Nat.le_refl _)).2 hlt
    have hn : n ≠ 0 := by
      rintro rfl
      cases hlt
    refine truncated_store hp hin (m := p.str.length) (by omega) hn ?_
    rw [ended, hstr, if_pos hle]
  · obtain ⟨rfl, hlim⟩ := hend (Nat.le_of_not_lt hlt)
    have hle : ¬ buf + BitVec.ofNat 64 p.str.length ≤ lim := mt (hin _ (Nat.le_refl _)).1 hlt
    by_cases hn : size = 0
    · -- a buffer of no bytes: nothing is stored
      subst hn
      have hnone : ∀ a, a ∉ (filled mem buf lim p.str).wrote := by
        intro a ha
        obtain ⟨i, hi, hb, -⟩ := filled_wrote.1 ha
        exact Nat.not_lt_zero _ ((hin i (Nat.le_of_lt hi)).1 hb)
      have hend : ended (filled mem buf lim p.str) lim 0 = filled mem buf lim p.str := by
        rw [ended, hstr, if_neg hle, if_neg (not_not_intro rfl)]
      have hmem : (finish buf lim 0 (p.map (filled mem buf lim))).mem = (filled mem buf lim p.str).mem :=
        congrArg (fun w => w.mem) hend
      have hwrote : (finish buf lim 0 (p.map (filled mem buf lim))).wrote =
          (filled mem buf lim p.str).wrote := congrArg (fun w => w.wrote) hend
      refine ⟨finish_ret hp, fun a ha => ?_, fun a ha => ?_, fun i hi h0 => ?_, fun h => absurd rfl h⟩
      · rw [hwrote] at ha
        exact absurd ha (hnone a)
      · rw [hmem]
        exact window_kept (hnone a)
      · cases h0
    · refine truncated_store hp hin (m := size.toNat - 1) (by omega) hn ?_
      rw [ended, hstr, if_neg hle, if_pos hn, ← hlim hn]

/-- A cursor that is not past `end` at the end of the text stores the NUL there. -/
lemma finish_nul (h : buf + BitVec.ofNat 64 p.str.length ≤ lim) :
    buf + BitVec.ofNat 64 p.str.length ∈ (finish buf lim size (p.map (filled mem buf lim))).wrote := by
  have hstr : (p.map (filled mem buf lim)).str.str = buf + BitVec.ofNat 64 p.str.length := filled_str
  rw [finish]
  dsimp only
  rw [hstr, if_pos h]
  exact List.mem_cons_self

end

section
variable {ram mem : BitVec 64 → Byte} {buf n : BitVec 64} {fmt : List Byte}
  {args : List (BitVec 64)} {p : Printer (List Byte)}

/-- `vsnprintf` truncates its output to the buffer exactly when the buffer is not at address 0 or holds
    everything, and the end of the whole output does not wrap around. -/
theorem vsnprintf_truncates_iff (h : unlimited ram fmt args = some p) (hp : p.str.length < 2 ^ 31)
    (hn : buf.toNat + n.toNat < 2 ^ 64) :
    (∃ o, vsnprintf ram mem buf n fmt args = some o ∧ Truncated buf n mem p.str o ∧
      o.stores = p.stores) ↔
    (buf ≠ 0 ∨ p.str.length < n.toNat) ∧ buf.toNat + p.str.length < 2 ^ 64 := by
  rw [vsnprintf_eq h]
  constructor
  · intro h
    obtain ⟨o, ho, ht, -⟩ := h
    obtain rfl := Option.some.inj ho
    -- where the cursor ends before `end`, the NUL tells that it ends in the buffer
    have hfits (hle : buf + BitVec.ofNat 64 p.str.length ≤ (limits buf n).1) :
        p.str.length < n.toNat := by
      obtain ⟨i, hi, he⟩ := ht.inside _ (finish_nul hle)
      have := place_inj (by omega) (by omega) he
      omega
    by_cases hbuf : buf = 0
    · -- `buf - 1` has wrapped around, and `end` is the last address there is
      subst hbuf
      have hlt : p.str.length < n.toNat := by
        apply hfits
        rw [limits_zero]
        bv_omega
      exact ⟨.inr hlt, by simp; omega⟩
    · refine ⟨.inl hbuf, ?_⟩
      rw [limits_of_ne hbuf hn] at hfits
      -- past the last address the cursor is before `end` again
      by_contra hwrap
      have hlt : p.str.length < n.toNat := by
        apply hfits
        bv_omega
      omega
  · intro ⟨hbuf, hwrap⟩
    refine ⟨_, rfl, finish_truncated hp ?_ ?_, rfl⟩
    · intro i hi
      by_cases h0 : buf = 0
      · subst h0
        rw [limits_zero]
        have hlt := hbuf.resolve_left (not_not_intro rfl)
        constructor
        · intro _
          omega
        · intro _
          bv_omega
      · rw [limits_of_ne h0 hn]
        bv_omega
    · intro hle
      have h0 : buf ≠ 0 := hbuf.resolve_right (Nat.not_lt.2 hle)
      rw [limits_of_ne h0 hn]
      refine ⟨rfl, fun hn0 => ?_⟩
      bv_omega

end

/-- Memory in which every string is empty. -/
def emptyRam (_ : BitVec 64) : Byte := 0

/-- Memory that the output goes into. -/
def clearMem (_ : BitVec 64) : Byte := 0

/-- `%4d` in a buffer of three bytes. -/
theorem vsnprintf_truncates_number : ∃ p o,
    unlimited emptyRam [ascii '%', ascii '4', ascii 'd'] [42] = some p ∧
    vsnprintf emptyRam clearMem 100 3 [ascii '%', ascii '4', ascii 'd'] [42] = some o ∧
    p.str = [ascii ' ', ascii ' ', ascii '4', ascii '2'] ∧ Truncated 100 3 clearMem p.str o := by
  have hrun : (unlimited emptyRam [ascii '%', ascii '4', ascii 'd'] [42]).map (fun p => p.str) =
      some [ascii ' ', ascii ' ', ascii '4', ascii '2'] := by decide
  obtain ⟨p, hp, hstr⟩ := Option.map_eq_some_iff.1 hrun
  have hlen : p.str.length = 4 := congrArg List.length hstr
  have htrunc : ∃ o, vsnprintf emptyRam clearMem 100 3 [ascii '%', ascii '4', ascii 'd'] [42] =
      some o ∧ Truncated 100 3 clearMem p.str o ∧ o.stores = p.stores :=
    (vsnprintf_truncates_iff hp (by omega) (by decide)).2 ⟨.inl (by decide), by rw [hlen]; decide⟩
  obtain ⟨o, ho, ht, -⟩ := htrunc
  exact ⟨p, o, hp, ho, hstr, ht⟩

/-- `vsnprintf(NULL, 0, "")` stores its NUL at address 0. -/
theorem vsnprintf_null : ∃ p o, unlimited emptyRam [] [] = some p ∧ p.str = [] ∧
    vsnprintf emptyRam clearMem 0 0 [] [] = some o ∧ o.wrote = [0] ∧
    ¬ Truncated 0 0 clearMem p.str o := by
  refine ⟨_, _, rfl, rfl, rfl, by decide, fun h => ?_⟩
  obtain ⟨i, hi, -⟩ := h.inside 0 (by decide)
  cases hi

end OldLinux.Vsprintf
