import OldLinux.Lib.System
import OldLinux.Tty.Code

/-!
# The line counter

`copy_to_cooked` and `tty_read` on one terminal, interleaved character by character: a turn of the loop
of `copy_to_cooked` is one step, and so is a test of `tty_read` together with the `GETCH` that follows
when it succeeds. In between the other two queues and `stopped` may change in any way, signals may
come and the clock goes on; `tty->write` may be either of the pointers of `tty_table`. Through the null
pointer of the console a turn of `copy_to_cooked` ends at the call (`cookFault`): the task that came in is
killed there, and the others go on with the terminal as it is.

`secondary.data` counts the stored characters that end a line (`TtyStruct.Counted`). The two functions
look at such a character in the same way because the end-of-file character of `tty_table` is below 128:
`copy_to_cooked` compares it as a `signed char`, `tty_read` as a `char`. `copy_to_cooked` counts a character
before it echoes and stores it, so the count is wrong after a turn that ends at the echo of such a
character, and only then (`line_counter_iff`).
-/

namespace OldLinux.Tty
open Lib Function

/-- `data` is the number of the stored characters of a kind. -/
def TtyQueue.Counts (q : TtyQueue) (p : BitVec 8 → Bool) : Prop := q.data.toNat = q.contents.countP p

/-- The terminal where the statements come to one that does not return. -/
def stopsAt (tty : TtyStruct) : List CookStmt → Option TtyStruct
  | [] => none
  | st :: l =>
    match st.run tty with
    | none => some tty
    | some tty' => stopsAt tty' l

namespace TtyStruct
variable (tty : TtyStruct)

/-- A turn of the loop of `copy_to_cooked`, after its test. -/
def cookTurn : Option TtyStruct :=
  let fetched := tty.onQueue .readQ .get
  (fetched.cookStmts (tty.queue .readQ).first).foldlM CookStmt.run fetched

/-- The terminal at the call of a null pointer, if the turn gets to one. -/
def cookFault : Option TtyStruct :=
  let fetched := tty.onQueue .readQ .get
  stopsAt fetched (fetched.cookStmts (tty.queue .readQ).first)

/-- The next character of `read_q` is counted and echoed, and there is no function to echo it with. -/
def CountsUnstored : Prop :=
  tty.write = .null ∧ tty.lEcho ∧
    CookStmt.count ∈ (tty.onQueue .readQ .get).cookStmts (tty.queue .readQ).first

/-- The character is a newline or the end-of-file character. -/
def EndsLine (c : BitVec 8) : Bool := c = 10 ∨ c = tty.eofChar

/-- `secondary.data` is the number of stored characters that end a line. -/
def Counted : Prop := (tty.queue .secondary).Counts tty.EndsLine

end TtyStruct

/-- A test of `tty_read`, with the `GETCH` that follows it when it succeeds. -/
def readTurn (tty : TtyStruct) (jiffies : Int) (cur : Current) (k : ReadState) :
    Option (ReadState × TtyStruct × Current) :=
  (readStep tty jiffies cur k).bind fun (k', tty', cur') =>
    match k' with
    | .getch r => readStep tty' jiffies cur' (.getch r)
    | k' => some (k', tty', cur')

/-- A terminal, `jiffies`, and the calls of `tty_read` on it with their tasks. -/
structure Line (ι : Type*) where
  tty : TtyStruct
  jiffies : Int
  cur : ι → Current
  reader : ι → ReadState

/-- What can happen on the terminal. -/
inductive LineEvent (ι : Type*) where
  | cook
  | fault
  | read (i : ι) (nr : Int)
  | turn (i : ι)
  | others (readQ writeQ : TtyQueue) (stopped : Bool)
  | signal (i : ι) (cur : Current)
  | tick

/-- The call has returned. -/
def ReadState.Over : ReadState → Prop
  | returned _ => True
  | _ => False

/-- The steps of one terminal. -/
inductive LineStep {ι : Type*} [DecidableEq ι] : Line ι → LineEvent ι → Line ι → Prop where
  | cook {s : Line ι} {tty} : s.tty.CookTest → s.tty.cookTurn = some tty →
    LineStep s .cook { s with tty := tty }
  | fault {s : Line ι} {tty} : s.tty.CookTest → s.tty.cookFault = some tty →
    LineStep s .fault { s with tty := tty }
  | read {s : Line ι} {i nr k cur} : (s.reader i).Over →
    ttyRead s.tty s.jiffies (s.cur i) nr = (k, cur) →
    LineStep s (.read i nr) { s with cur := update s.cur i cur, reader := update s.reader i k }
  | turn {s : Line ι} {i k tty cur} :
    readTurn s.tty s.jiffies (s.cur i) (s.reader i) = some (k, tty, cur) →
    LineStep s (.turn i)
      { s with tty := tty, cur := update s.cur i cur, reader := update s.reader i k }
  | others {s : Line ι} {q q' b} :
    LineStep s (.others q q' b) { s with tty := { s.tty with
      stopped := b
      queue := update (update s.tty.queue .readQ q) .writeQ q' } }
  | signal {s : Line ι} {i cur} :
    LineStep s (.signal i cur) { s with cur := update s.cur i cur }
  | tick {s : Line ι} :
    LineStep s .tick { s with jiffies := s.jiffies + 1 }

/-- A terminal with the settings of `tty_table`, nothing in `secondary` and nobody reading. -/
def line (ι : Type*) [DecidableEq ι] : System (Line ι) (LineEvent ι) where
  init s := (∃ ch, s.tty.termios = (ttyTable ch).termios) ∧ s.tty.queue .secondary = .initial 0 ∧
    ∀ i, (s.reader i).Over
  step := LineStep

/-- What the counter promises of a step: it stays the number of stored characters that end a line,
    and so below the size of the queue, and a character that is erased does not end one. -/
structure Tallied {ι : Type*} (s : Line ι) (e : LineEvent ι) (s' : Line ι) : Prop where
  counted : s'.tty.Counted
  bounded : (s'.tty.queue .secondary).data.toNat ≤ 1023
  erased : e = .cook → CookStmt.decHead ∈
      (s.tty.onQueue .readQ .get).cookStmts (s.tty.queue .readQ).first →
    ¬ s.tty.EndsLine (s.tty.queue .secondary).last

/-- No turn of `copy_to_cooked` ends at the echo of a character that it has counted. -/
def Stores {ι : Type*} (s : Line ι) (e : LineEvent ι) (_ : Line ι) : Prop :=
  e = .fault → ¬ s.tty.CountsUnstored

/-! ## One character of `copy_to_cooked` -/

/-- The statements of `copy_to_cooked` one after the other. -/
abbrev CookReaches : CookState × TtyStruct → CookState × TtyStruct → Prop :=
  Relation.ReflTransGen fun x y => cookStep x.2 x.1 = some y

/-- The statements of a turn are reached. -/
lemma stmts_reach {l : List CookStmt} {tty tty' : TtyStruct}
    (h : l.foldlM CookStmt.run tty = some tty') : CookReaches (.stmts l, tty) (.stmts [], tty') := by
  induction l generalizing tty with
  | nil =>
    cases h
    exact .refl
  | cons st l ih =>
    rw [List.foldlM_cons] at h
    obtain ⟨tty1, hst, hrest⟩ := Option.bind_eq_some_iff.1 h
    exact .head (congrArg (Option.map _) hst) (ih hrest)

/-- The statements that stop do so at a call of `tty->write`. -/
lemma stopsAt_reach {l : List CookStmt} {tty tty' : TtyStruct} (h : stopsAt tty l = some tty') :
    ∃ l', CookReaches (.stmts l, tty) (.stmts (.write :: l'), tty') ∧
      cookStep tty' (.stmts (.write :: l')) = none := by
  induction l generalizing tty with
  | nil => cases h
  | cons st l ih =>
    rw [stopsAt] at h
    cases hst : st.run tty with
    | none =>
      rw [hst] at h
      cases h
      cases st with
      | write => exact ⟨l, .refl, congrArg (Option.map _) hst⟩
      | putWrite | decHead | stopped | ttyIntr | count | putSecondary => cases hst
    | some tty1 =>
      rw [hst] at h
      obtain ⟨l', hrest, hstop⟩ := ih h
      exact ⟨l', .head (congrArg (Option.map _) hst) hrest, hstop⟩

/-- A turn is what the statements of `copy_to_cooked` do from one test of its loop to the next. -/
theorem cookTurn_reaches {tty tty' : TtyStruct} (htest : tty.CookTest) (h : tty.cookTurn = some tty') :
    CookReaches (.loop, tty) (.loop, tty') := by
  have hloop : cookStep tty .loop = some (.getch, tty) := by rw [cookStep, if_pos htest]
  have hbody := stmts_reach h
  exact .head hloop (.head rfl (.head rfl (hbody.tail rfl)))

/-- A turn that ends at a null pointer is what the statements do up to the call of `tty->write`, which does
    not return. -/
theorem cookFault_reaches {tty tty' : TtyStruct} (htest : tty.CookTest) (h : tty.cookFault = some tty') :
    ∃ l, CookReaches (.loop, tty) (.stmts (.write :: l), tty') ∧ cookStep tty' (.stmts (.write :: l)) = none := by
  have hloop : cookStep tty .loop = some (.getch, tty) := by rw [cookStep, if_pos htest]
  obtain ⟨l, hbody, hstop⟩ := stopsAt_reach h
  exact ⟨l, .head hloop (.head rfl (.head rfl hbody)), hstop⟩

/-- A control character below 128 is found in a `signed char` as in a `char`. -/
lemma charIs_iff {c cc : BitVec 8} (h : cc.toNat < 128) : CharIs c cc ↔ c = cc := by
  have hc : cc.toInt = cc.toNat := by
    rw [BitVec.toInt_eq_toNat_of_lt (by omega)]
  rw [CharIs, ← hc]
  exact ⟨BitVec.eq_of_toInt_eq, congrArg _⟩

/-- A statement that leaves `secondary` alone. -/
def CookStmt.Quiet : CookStmt → Prop
  | putWrite _ | write | stopped _ | ttyIntr => True
  | _ => False

section
variable {tty tty' : TtyStruct} {c : BitVec 8} {l : List CookStmt}

/-- A quiet statement leaves the cooked queue. -/
lemma CookStmt.Quiet.run {st : CookStmt} (he : st.Quiet) (h : st.run tty = some tty') :
    tty'.queue .secondary = tty.queue .secondary ∧ tty'.termios = tty.termios := by
  cases st with
  | putWrite x =>
    cases h
    refine ⟨?_, rfl⟩
    rw [TtyStruct.queue_onQueue, update_of_ne (by decide)]
  | write =>
    simp only [CookStmt.run, TtyStruct.callWrite] at h
    split at h
    case h_1 => cases h
    case h_2 =>
      cases h
      exact ⟨rfl, rfl⟩
  | stopped b =>
    cases h
    exact ⟨rfl, rfl⟩
  | ttyIntr =>
    cases h
    exact ⟨rfl, rfl⟩
  | decHead | count | putSecondary => cases he

/-- Many quiet statements leave the cooked queue. -/
lemma run_quiet (hl : ∀ st ∈ l, st.Quiet) (h : l.foldlM CookStmt.run tty = some tty') :
    tty'.queue .secondary = tty.queue .secondary ∧ tty'.termios = tty.termios := by
  induction l generalizing tty with
  | nil =>
    cases h
    exact ⟨rfl, rfl⟩
  | cons st l ih =>
    rw [List.foldlM_cons] at h
    obtain ⟨tty1, hst, hrest⟩ := Option.bind_eq_some_iff.1 h
    obtain ⟨hq1, ht1⟩ := (hl st (List.mem_cons_self ..)).run hst
    obtain ⟨hq, ht⟩ := ih (fun st' hst' => hl st' (List.mem_cons_of_mem _ hst')) hrest
    exact ⟨hq.trans hq1, ht.trans ht1⟩

/-- Statements one behind the other stop among the first, or the first return and the others stop. -/
lemma stopsAt_append {l' : List CookStmt} : stopsAt tty (l ++ l') =
    match l.foldlM CookStmt.run tty with
    | none => stopsAt tty l
    | some tty1 => stopsAt tty1 l' := by
  induction l generalizing tty with
  | nil => rfl
  | cons st l ih =>
    rw [List.cons_append, stopsAt, stopsAt, List.foldlM_cons]
    cases hst : st.run tty with
    | none => rfl
    | some tty1 => exact ih

/-- No statement sets `tty->write`. -/
lemma CookStmt.write_run {st : CookStmt} (h : st.run tty = some tty') : tty'.write = tty.write := by
  cases st with
  | write =>
    rw [CookStmt.run, TtyStruct.callWrite] at h
    split at h
    · cases h
    · cases h
      rfl
  | putWrite | decHead | stopped | ttyIntr | count | putSecondary =>
    cases h
    rfl

/-- Statements that leave `secondary` alone do so up to the one that stops as well. -/
lemma stopsAt_quiet (hl : ∀ st ∈ l, st.Quiet) (h : stopsAt tty l = some tty') :
    tty'.queue .secondary = tty.queue .secondary ∧ tty'.termios = tty.termios := by
  induction l generalizing tty with
  | nil => cases h
  | cons st l ih =>
    rw [stopsAt] at h
    cases hst : st.run tty with
    | none =>
      rw [hst] at h
      cases h
      exact ⟨rfl, rfl⟩
    | some tty1 =>
      rw [hst] at h
      obtain ⟨hq1, ht1⟩ := (hl st List.mem_cons_self).run hst
      obtain ⟨hq, ht⟩ := ih (fun st' hst' => hl st' (List.mem_cons_of_mem _ hst')) h
      exact ⟨hq.trans hq1, ht.trans ht1⟩

/-- A last statement that returns does not stop. -/
lemma stopsAt_concat {st : CookStmt} (h : stopsAt tty (l ++ [st]) = some tty')
    (hst : ∀ tty1, st.run tty1 ≠ none) : stopsAt tty l = some tty' := by
  rw [stopsAt_append] at h
  split at h
  · exact h
  · next tty1 _ =>
    rw [stopsAt] at h
    split at h
    · next hnone => exact absurd hnone (hst tty1)
    · cases h

/-- The echo has something to call. -/
lemma echoStmts_quiet : ∀ st ∈ tty.echoStmts c, st.Quiet := by
  unfold TtyStruct.echoStmts
  split
  case isFalse => simp
  case isTrue =>
    split
    · simp [CookStmt.Quiet]
    · split
      · split <;> simp [CookStmt.Quiet]
      · simp [CookStmt.Quiet]

/-- What the erase character does: nothing, or an echo and then the removal of a character that does
    not end a line. -/
lemma eraseStmts_cases (heof : tty.eofChar.toNat < 128) :
    tty.eraseStmts = [] ∨ ∃ l, tty.eraseStmts = l ++ [.decHead] ∧ (∀ st ∈ l, st.Quiet) ∧
      ¬ (tty.queue .secondary).Empty ∧ ¬ tty.EndsLine (tty.queue .secondary).last := by
  unfold TtyStruct.eraseStmts
  dsimp only
  split
  case isTrue => exact .inl rfl
  case isFalse h =>
    simp only [not_or] at h
    obtain ⟨hempty, hnl, hne⟩ := h
    refine .inr ⟨_, rfl, ?_, hempty, ?_⟩
    · split
      · split <;> simp [CookStmt.Quiet]
      · simp
    · rw [charIs_iff heof] at hne
      simp only [TtyStruct.EndsLine, decide_eq_true_eq, not_or]
      exact ⟨hnl, hne⟩

/-- What `copy_to_cooked` can do with a character: nothing to `secondary`, an erasure, or a store,
    counted if the character ends a line. -/
lemma cookStmts_cases (heof : tty.eofChar.toNat < 128) (c : BitVec 8) :
    (∀ st ∈ tty.cookStmts c, st.Quiet) ∨
    (∃ l, tty.cookStmts c = l ++ [.decHead] ∧ (∀ st ∈ l, st.Quiet) ∧
      ¬ (tty.queue .secondary).Empty ∧ ¬ tty.EndsLine (tty.queue .secondary).last) ∨
    ∃ x l, tty.cookStmts c = (if tty.EndsLine x then [.count] else []) ++ l ++ [.putSecondary x] ∧
      ∀ st ∈ l, st.Quiet := by
  unfold TtyStruct.cookStmts
  split
  case h_1 => simp
  case h_2 x _ =>
    split
    · cases eraseStmts_cases heof with
      | inl hnil =>
        rw [hnil]
        simp
      | inr herase => exact .inr (.inl herase)
    · split
      · simp [CookStmt.Quiet]
      · split
        · simp [CookStmt.Quiet]
        · split
          · simp [CookStmt.Quiet]
          · refine .inr (.inr ⟨x, tty.echoStmts x, ?_, echoStmts_quiet⟩)
            congr 2
            exact if_congr (by rw [charIs_iff heof]; simp [TtyStruct.EndsLine]) rfl rfl

end

/-! ## The counter along a step -/

namespace TtyQueue
variable {q : TtyQueue} {p : BitVec 8 → Bool}

/-- The count is that of the queue at most. -/
lemma Counts.le (hc : q.Counts p) : q.data.toNat ≤ 1023 := by
  have hlen : q.contents.countP p ≤ q.contents.length := List.countP_le_length
  exact (le_of_eq hc).trans (hlen.trans q.length_contents_le)

/-- `DEC` removes a character that is not counted. -/
lemma Counts.dec (hc : q.Counts p) (hempty : ¬ q.Empty) (hlast : ¬ p q.last) :
    (q.run .dec).Counts p := by
  rw [Counts, contents_dec hempty, List.countP_append, List.countP_singleton, if_neg hlast,
    Nat.add_zero] at hc
  rw [Counts, data_run, hc]

/-- `PUTCH` stores a character that has been counted before, if it is one to be counted. -/
lemma Counts.put (hc : q.Counts p) (hfull : ¬ q.Full) (x : BitVec 8) :
    (({ q with data := q.data + if p x then 1 else 0 } : TtyQueue).run (.put x)).Counts p := by
  have hle := hc.le
  rw [Counts] at hc
  have hcont := contents_put (q := { q with data := q.data + if p x then 1 else 0 }) hfull x
  rw [Counts, hcont, List.countP_append, List.countP_singleton, ← hc]
  show (q.data + if p x then 1 else 0).toNat = q.data.toNat + _
  split
  · rw [BitVec.toNat_add]
    show (q.data.toNat + 1) % 2 ^ 64 = _
    omega
  · simp

/-- `GETCH` takes a character, and the counter goes down if it is one to be counted. It does not wrap:
    the character was among those counted. -/
lemma Counts.get (hc : q.Counts p) (hempty : ¬ q.Empty) :
    ({ q.run .get with data := q.data - if p q.first then 1 else 0 } : TtyQueue).Counts p := by
  rw [Counts, contents_get hempty, List.countP_cons] at hc
  show (q.data - if p q.first then 1 else 0).toNat = (q.run .get).contents.countP p
  split
  case isTrue h =>
    rw [if_pos h] at hc
    rw [BitVec.toNat_sub]
    show (2 ^ 64 - 1 + q.data.toNat) % 2 ^ 64 = _
    omega
  case isFalse h =>
    rw [if_neg h] at hc
    simpa using hc

end TtyQueue

section
variable {tty tty' : TtyStruct}

/-- What ends a line depends on the settings. -/
lemma endsLine_congr (ht : tty'.termios = tty.termios) : tty'.EndsLine = tty.EndsLine := by
  funext c
  rw [TtyStruct.EndsLine, TtyStruct.EndsLine, TtyStruct.eofChar, TtyStruct.eofChar, ht]

/-- The counter only looks at `secondary` and the settings. -/
lemma counted_congr (hq : tty'.queue .secondary = tty.queue .secondary)
    (ht : tty'.termios = tty.termios) (hc : tty.Counted) : tty'.Counted := by
  rw [TtyStruct.Counted, hq, endsLine_congr ht]
  exact hc

/-- `secondary.data++`, if there is a character to be counted. -/
lemma run_count {b : Bool}
    (h : (if b then [CookStmt.count] else []).foldlM CookStmt.run tty = some tty') :
    tty'.queue .secondary = { tty.queue .secondary with
      data := (tty.queue .secondary).data + if b then 1 else 0 } ∧ tty'.termios = tty.termios := by
  cases b with
  | false =>
    cases h
    simp
  | true =>
    cases h
    simp

/-- The statements that follow a `GETCH` keep the counter. -/
lemma counted_stmts {c : BitVec 8} (heof : tty.eofChar.toNat < 128)
    (hfull : ¬ (tty.queue .secondary).Full) (hc : tty.Counted)
    (h : (tty.cookStmts c).foldlM CookStmt.run tty = some tty') :
    tty'.Counted ∧ tty'.termios = tty.termios := by
  obtain hquiet | ⟨l, hl, hquiet, hempty, hlast⟩ | ⟨x, l, hl, hquiet⟩ := cookStmts_cases heof c
  · obtain ⟨hq, ht⟩ := run_quiet hquiet h
    exact ⟨counted_congr hq ht hc, ht⟩
  · rw [hl, List.foldlM_append] at h
    obtain ⟨tty1, hecho, hdec⟩ := Option.bind_eq_some_iff.1 h
    obtain ⟨hq, ht⟩ := run_quiet hquiet hecho
    cases hdec
    refine ⟨?_, ht⟩
    have hnew : ((tty1.onQueue .secondary .dec).queue .secondary) = (tty.queue .secondary).run .dec := by
      rw [TtyStruct.queue_onQueue, update_self, hq]
    have he : (tty1.onQueue .secondary .dec).EndsLine = tty.EndsLine := endsLine_congr ht
    rw [TtyStruct.Counted, hnew, he]
    exact hc.dec hempty hlast
  · rw [hl, List.foldlM_append, List.foldlM_append] at h
    obtain ⟨tty2, hpre, hput⟩ := Option.bind_eq_some_iff.1 h
    obtain ⟨tty1, hcount, hecho⟩ := Option.bind_eq_some_iff.1 hpre
    obtain ⟨hq1, ht1⟩ := run_count hcount
    obtain ⟨hq2, ht2⟩ := run_quiet hquiet hecho
    cases hput
    have ht : tty2.termios = tty.termios := ht2.trans ht1
    refine ⟨?_, ht⟩
    have he : (tty2.onQueue .secondary (.put x)).EndsLine = tty.EndsLine := endsLine_congr ht
    rw [TtyStruct.Counted, TtyStruct.queue_onQueue, update_self, hq2, hq1, he]
    exact hc.put hfull x

/-- The step lemma for `copy_to_cooked`. -/
lemma counted_cookTurn (heof : tty.eofChar.toNat < 128) (htest : tty.CookTest) (hc : tty.Counted)
    (h : tty.cookTurn = some tty') : tty'.Counted ∧ tty'.termios = tty.termios := by
  have hq : (tty.onQueue .readQ .get).queue .secondary = tty.queue .secondary := by
    rw [TtyStruct.queue_onQueue, update_of_ne (by decide)]
  have heof' : (tty.onQueue .readQ .get).eofChar.toNat < 128 := heof
  have hfull : ¬ ((tty.onQueue .readQ .get).queue .secondary).Full := hq ▸ htest.2
  obtain ⟨hcount, ht⟩ := counted_stmts heof' hfull (counted_congr hq rfl hc) h
  exact ⟨hcount, ht⟩

/-- Up to the statement that stops, the counter goes up if the character is counted. -/
lemma stopsAt_counted {c : BitVec 8} (heof : tty.eofChar.toNat < 128)
    (h : stopsAt tty (tty.cookStmts c) = some tty') :
    tty'.termios = tty.termios ∧ ∃ b : Bool, (b = true ↔ CookStmt.count ∈ tty.cookStmts c) ∧
      tty'.queue .secondary = { tty.queue .secondary with
        data := (tty.queue .secondary).data + if b then 1 else 0 } := by
  have hnot : ∀ {l : List CookStmt}, (∀ st ∈ l, st.Quiet) → CookStmt.count ∉ l := fun hl hmem => hl _ hmem
  obtain hquiet | ⟨l, hl, hquiet, -, -⟩ | ⟨x, l, hl, hquiet⟩ := cookStmts_cases heof c
  · obtain ⟨hq, ht⟩ := stopsAt_quiet hquiet h
    refine ⟨ht, false, by simpa using hnot hquiet, ?_⟩
    simpa using hq
  · rw [hl] at h ⊢
    obtain ⟨hq, ht⟩ := stopsAt_quiet hquiet (stopsAt_concat h fun _ => Option.some_ne_none _)
    refine ⟨ht, false, by simpa using hnot hquiet, ?_⟩
    simpa using hq
  · rw [hl] at h ⊢
    have hstop := stopsAt_concat h fun _ => Option.some_ne_none _
    rw [stopsAt_append] at hstop
    split at hstop
    · split at hstop <;> cases hstop
    · next tty1 hpre =>
      obtain ⟨hq1, ht1⟩ := run_count hpre
      obtain ⟨hq, ht⟩ := stopsAt_quiet hquiet hstop
      refine ⟨ht.trans ht1, tty.EndsLine x, ?_, hq.trans hq1⟩
      have hno := hnot hquiet
      cases tty.EndsLine x <;> simp [hno]

/-- Statements stop at a call of `tty->write` that is a null pointer. -/
lemma stopsAt_null (h : stopsAt tty l = some tty') : tty.write = .null ∧ CookStmt.write ∈ l := by
  induction l generalizing tty with
  | nil => cases h
  | cons st l ih =>
    rw [stopsAt] at h
    cases hst : st.run tty with
    | none =>
      cases st with
      | write =>
        rw [CookStmt.run, TtyStruct.callWrite] at hst
        split at hst
        · exact ⟨‹_›, List.mem_cons_self⟩
        · cases hst
      | putWrite | decHead | stopped | ttyIntr | count | putSecondary => cases hst
    | some tty1 =>
      rw [hst] at h
      obtain ⟨hnull, hmem⟩ := ih h
      exact ⟨(CookStmt.write_run hst).symm.trans hnull, List.mem_cons_of_mem _ hmem⟩

/-- `copy_to_cooked` calls `tty->write` for the echo only. -/
lemma lEcho_of_write {c : BitVec 8} (h : CookStmt.write ∈ tty.cookStmts c) : tty.lEcho = true := by
  unfold TtyStruct.cookStmts TtyStruct.eraseStmts TtyStruct.echoStmts at h
  by_contra hno
  simp only [hno, if_false] at h
  split at h
  · cases h
  · repeat' split at h
    all_goals simp at h

/-- The step lemma for a turn that ends at a null pointer. -/
lemma counted_cookFault (heof : tty.eofChar.toNat < 128) (hc : tty.Counted) (h : tty.cookFault = some tty') :
    tty'.termios = tty.termios ∧ (tty'.Counted ↔ ¬ tty.CountsUnstored) := by
  have hq : (tty.onQueue .readQ .get).queue .secondary = tty.queue .secondary := by
    rw [TtyStruct.queue_onQueue, update_of_ne (by decide)]
  have heof' : (tty.onQueue .readQ .get).eofChar.toNat < 128 := heof
  obtain ⟨hnull, hwrite⟩ := stopsAt_null h
  have hecho : tty.lEcho = true := lEcho_of_write hwrite
  obtain ⟨ht, b, hb, hq'⟩ := stopsAt_counted heof' h
  rw [hq] at hq'
  have hends : tty'.EndsLine = tty.EndsLine := endsLine_congr ht
  have hiff : tty.CountsUnstored ↔ b = true := by
    rw [TtyStruct.CountsUnstored, ← hb]
    exact ⟨fun hu => hu.2.2, fun hm => ⟨hnull, hecho, hm⟩⟩
  refine ⟨ht, ?_⟩
  rw [hiff, TtyStruct.Counted, hq', hends]
  have hle := hc.le
  have hdata := hc
  rw [TtyStruct.Counted, TtyQueue.Counts] at hdata
  show (_ + _ : BitVec 64).toNat = (tty.queue .secondary).contents.countP _ ↔ _
  cases b with
  | false => simpa using hdata
  | true =>
    -- one more than what is stored: the counter is far from its end
    rw [← hdata, BitVec.toNat_add]
    simp
    omega

/-- A `GETCH` of `tty_read` on a queue that is not empty. -/
lemma counted_getch {r : Reader} (hempty : ¬ (tty.queue .secondary).Empty) (hc : tty.Counted) :
    (r.getch tty).2.Counted ∧ (r.getch tty).2.termios = tty.termios := by
  have hq : (r.getch tty).2.queue .secondary = { (tty.queue .secondary).run .get with
      data := (tty.queue .secondary).data -
        if tty.EndsLine (tty.queue .secondary).first then 1 else 0 } := by
    unfold Reader.getch
    dsimp only
    have hends : ((tty.queue .secondary).first = tty.eofChar ∨ (tty.queue .secondary).first = 10) ↔
        tty.EndsLine (tty.queue .secondary).first := by
      rw [TtyStruct.EndsLine, decide_eq_true_eq, or_comm]
    split
    all_goals
      dsimp only
      rw [update_self]
      split
      · rw [if_pos (hends.1 ‹_›)]
        rfl
      · rw [if_neg (mt hends.2 ‹_›)]
        simp [TtyQueue.run]
  have ht : (r.getch tty).2.termios = tty.termios := by
    unfold Reader.getch
    dsimp only
    split <;> rfl
  refine ⟨?_, ht⟩
  rw [TtyStruct.Counted, hq, endsLine_congr ht]
  exact hc.get hempty

/-! ## The reader's turns -/

/-- The state of a call between two turns. -/
def ReadState.AtTurn : ReadState → Prop
  | getch _ => False
  | _ => True

/-- Behind its loop the reader is at a turn. -/
lemma atTurn_afterDo {r : Reader} {j : Int} {cur : Current} : (r.afterDo tty j cur).1.AtTurn := by
  unfold Reader.afterDo
  dsimp only
  -- It comes back to the outer loop or ends, whatever becomes of the alarm.
  repeat' split
  all_goals trivial

/-- `tty_read` goes on to a `GETCH` only when it has found `secondary` not empty. -/
lemma loop_cases {r : Reader} {cur : Current} :
    (r.loop tty cur).1.AtTurn ∨ ¬ (tty.queue .secondary).Empty := by
  unfold Reader.loop
  split
  · exact .inl trivial
  · split
    · exact .inl trivial
    · split
      · exact .inl trivial
      · dsimp only
        split
        case isTrue => exact .inl trivial
        case isFalse h => exact .inr fun he => h (.inl he)

/-- It tests an empty queue, or takes a character. -/
lemma test_cases {r : Reader} {j : Int} {cur : Current} :
    (r.test tty j cur).1.AtTurn ∨ ¬ (tty.queue .secondary).Empty := by
  unfold Reader.test
  split
  case isTrue h => exact .inr h.2
  case isFalse => exact .inl atTurn_afterDo

/-- A step that is not a `GETCH` leaves the terminal. -/
lemma readStep_test {j : Int} {cur cur' : Current} {k k' : ReadState} (hk : k.AtTurn)
    (h : readStep tty j cur k = some (k', tty', cur')) :
    tty' = tty ∧ (k'.AtTurn ∨ ¬ (tty.queue .secondary).Empty) := by
  cases k with
  | loop r =>
    simp only [readStep, Option.some.injEq, Prod.mk.injEq] at h
    obtain ⟨rfl, rfl, rfl⟩ := h
    exact ⟨rfl, loop_cases⟩
  | asleep r =>
    simp only [readStep, Option.some.injEq, Prod.mk.injEq] at h
    obtain ⟨rfl, rfl, rfl⟩ := h
    refine ⟨rfl, .inl ?_⟩
    split <;> trivial
  | test r =>
    simp only [readStep, Option.some.injEq, Prod.mk.injEq] at h
    obtain ⟨rfl, rfl, rfl⟩ := h
    exact ⟨rfl, test_cases⟩
  | getch r => cases hk
  | returned n => cases h

/-- The step lemma for `tty_read`. -/
lemma counted_readTurn {j : Int} {cur cur' : Current} {k k' : ReadState} (hk : k.AtTurn)
    (hc : tty.Counted) (h : readTurn tty j cur k = some (k', tty', cur')) :
    tty'.Counted ∧ tty'.termios = tty.termios ∧ k'.AtTurn := by
  obtain ⟨⟨k1, tty1, cur1⟩, hstep, hrest⟩ := Option.bind_eq_some_iff.1 h
  obtain ⟨rfl, hk1⟩ := readStep_test hk hstep
  cases k1 with
  | getch r =>
    have hempty : ¬ (tty1.queue .secondary).Empty := hk1.resolve_left id
    simp only [readStep, Option.some.injEq, Prod.mk.injEq] at hrest
    obtain ⟨rfl, rfl, rfl⟩ := hrest
    obtain ⟨hcount, ht⟩ := counted_getch (r := r) hempty hc
    refine ⟨hcount, ht, ?_⟩
    unfold Reader.getch
    dsimp only
    split <;> trivial
  | loop r | asleep r | test r | returned n =>
    cases hrest
    exact ⟨hc, rfl, trivial⟩

end

section
variable {ι : Type*} [DecidableEq ι]

/-- The end-of-file character of `tty_table`. -/
lemma eof_of_table {tty : TtyStruct} {ch : Fin 3} (ht : tty.termios = (ttyTable ch).termios) :
    tty.eofChar.toNat < 128 := by
  have heof : ∀ ch, ((ttyTable ch).termios.cc 4).toNat < 128 := by decide
  rw [TtyStruct.eofChar, ht]
  exact heof ch

/-- The counter is right, the calls of `tty_read` are between two turns, and the end-of-file character
    is one that both functions recognise. -/
structure Line.Inv (s : Line ι) : Prop where
  counted : s.tty.Counted
  eof : s.tty.eofChar.toNat < 128
  readers : ∀ i, (s.reader i).AtTurn

omit [DecidableEq ι] in
/-- The guarantee of a step that keeps the invariant. -/
lemma Line.Inv.tallied {s s' : Line ι} {e : LineEvent ι} (hs : s.Inv) (hs' : s'.Inv) :
    Tallied s e s' := by
  refine ⟨hs'.counted, hs'.counted.le, ?_⟩
  rintro - herase hends
  have hq : (s.tty.onQueue .readQ .get).queue .secondary = s.tty.queue .secondary := by
    rw [TtyStruct.queue_onQueue, update_of_ne (by decide)]
  have heof : (s.tty.onQueue .readQ .get).eofChar.toNat < 128 := hs.eof
  obtain hquiet | ⟨l, -, -, -, hlast⟩ | ⟨x, l, hl, hquiet⟩ :=
    cookStmts_cases heof (s.tty.queue .readQ).first
  · exact hquiet _ herase
  · rw [hq] at hlast
    exact hlast hends
  · rw [hl] at herase
    have hmem : CookStmt.decHead ∈ l := by
      split at herase <;> simpa using herase
    exact hquiet _ hmem

/-- A step that gives the guarantee stores what it counts. -/
lemma Line.Inv.stores {s s' : Line ι} {e : LineEvent ι} (hs : s.Inv) (st : LineStep s e s')
    (ht : Tallied s e s') : Stores s e s' := by
  rintro rfl
  cases st with
  | fault _ h => exact (counted_cookFault hs.eof hs.counted h).2.1 ht.counted

/-- The calls stay between two turns when one of them has made one. -/
lemma update_atTurn {f : ι → ReadState} {i : ι} {k : ReadState} (hf : ∀ j, (f j).AtTurn)
    (hk : k.AtTurn) (j : ι) : (update f i k j).AtTurn := by
  by_cases hj : j = i
  · subst hj
    rwa [update_self]
  · rw [update_of_ne hj]
    exact hf j

omit [DecidableEq ι] in
/-- A turn that ends at a null pointer leaves the counter right if it has not counted a character. -/
lemma Line.Inv.fault {s : Line ι} {tty} (hs : s.Inv) (h : s.tty.cookFault = some tty) :
    Line.Inv { s with tty := tty } ↔ ¬ s.tty.CountsUnstored := by
  obtain ⟨ht, hiff⟩ := counted_cookFault hs.eof hs.counted h
  refine ⟨fun hs' => hiff.1 hs'.counted, fun hc => ⟨hiff.2 hc, ?_, hs.readers⟩⟩
  show (tty.termios.cc 4).toNat < 128
  rw [ht]
  exact hs.eof

/-- The step lemma. -/
lemma Line.Inv.step {s s' : Line ι} {e : LineEvent ι} (hs : s.Inv) (st : LineStep s e s')
    (hc : Stores s e s') : s'.Inv := by
  cases st with
  | @fault tty _ h => exact (hs.fault h).2 (hc rfl)
  | @cook tty htest h =>
    obtain ⟨hcount, ht⟩ := counted_cookTurn hs.eof htest hs.counted h
    refine ⟨hcount, ?_, hs.readers⟩
    show (tty.termios.cc 4).toNat < 128
    rw [ht]
    exact hs.eof
  | @read i nr k cur hover h =>
    refine ⟨hs.counted, hs.eof, update_atTurn hs.readers ?_⟩
    unfold ttyRead at h
    split at h
    · cases h
      trivial
    · cases h
      trivial
  | @turn i k tty cur h =>
    obtain ⟨hcount, ht, hk⟩ := counted_readTurn (hs.readers i) hs.counted h
    refine ⟨hcount, ?_, update_atTurn hs.readers hk⟩
    show (tty.termios.cc 4).toNat < 128
    rw [ht]
    exact hs.eof
  | others => exact ⟨counted_congr (by simp) rfl hs.counted, hs.eof, hs.readers⟩
  | signal => exact ⟨hs.counted, hs.eof, hs.readers⟩
  | tick => exact ⟨hs.counted, hs.eof, hs.readers⟩

/-- In every run on a terminal with the settings of `tty_table`, `secondary.data` is at all times the
    number of stored characters that end a line, it never wraps, and erasing never removes such a
    character, exactly when no turn of `copy_to_cooked` counts a character and then ends at the null
    pointer that it should be echoed with. -/
theorem line_counter_iff {s : Line ι} {tr} (ex : (line ι).Exec s tr) (h0 : (line ι).init s) :
    s.tty.Counted ∧ (Along Tallied s tr ↔ Along Stores s tr) := by
  obtain ⟨⟨ch, ht⟩, hsec, hover⟩ := h0
  have hinit : s.Inv := by
    refine ⟨?_, ?_, ?_⟩
    · rw [TtyStruct.Counted, hsec]
      rfl
    · exact eof_of_table ht
    · intro i
      have hi := hover i
      cases hk : s.reader i with
      | getch r => rw [hk] at hi; cases hi
      | loop | asleep | test | returned => trivial
  refine ⟨hinit.counted, ex.along_iff (fun s e s' hs hst hc => ?_) (fun s e s' hs hst => hs.stores hst) hinit⟩
  exact ⟨hs.step hst hc, hs.tallied (hs.step hst hc)⟩

end

/-- A terminal with a newline in `read_q`. -/
def newlineOn (tty : TtyStruct) : Line Unit where
  tty := tty.onQueue .readQ (.put 10)
  jiffies := 0
  cur _ := { signal := 0, alarm := 0 }
  reader _ := .returned 0

/-- The first serial line with a newline in `read_q`. -/
def newlineReceived : Line Unit := newlineOn (rsTty 0x3f8)

/-- `copy_to_cooked` counts it. -/
theorem line_counter_iff_newline : ∃ tty, newlineReceived.tty.cookTurn = some tty ∧ tty.Counted ∧
    (tty.queue .secondary).data = 1 := by
  refine ⟨_, rfl, ?_, rfl⟩
  have hst : LineStep newlineReceived .cook { newlineReceived with tty := _ } :=
    .cook (by decide) rfl
  have hrun := line_counter_iff (.cons hst .nil) ⟨⟨1, rfl⟩, rfl, fun _ => trivial⟩
  exact (hrun.2.2 ⟨nofun, trivial⟩).1.counted

/-- On the console it counts a newline, and the echo of it calls a null pointer: the counter is 1, with nothing
    stored. -/
theorem line_counter_console : ∃ tr, (line Unit).init (newlineOn consoleTty) ∧
    (line Unit).Exec (newlineOn consoleTty) tr ∧
    ((last (newlineOn consoleTty) tr).tty.queue .secondary).data = 1 ∧
    ((last (newlineOn consoleTty) tr).tty.queue .secondary).contents = [] ∧
    ¬ (last (newlineOn consoleTty) tr).tty.Counted := by
  have hst : LineStep (newlineOn consoleTty) .fault { newlineOn consoleTty with tty := _ } :=
    .fault (by decide) rfl
  refine ⟨[(.fault, _)], ⟨⟨0, rfl⟩, rfl, fun _ => trivial⟩, .cons hst .nil, rfl, rfl, ?_⟩
  intro hc
  cases hc

end OldLinux.Tty
