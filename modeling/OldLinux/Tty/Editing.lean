import OldLinux.Lib.LineEditor
import OldLinux.Tty.LineCount

/-!
# Editing a line

What `copy_to_cooked` (`kernel/tty_io.c`) is for: it is a line editor whose text is `secondary`. The
settings of the terminal make a key of every character (`TtyStruct.key`), and a `Display` is the text, what
has been echoed and whether the output is stopped. `TtyStruct.typed` is what a character does to a
`Display`, in terms of lists; a turn of the loop of `copy_to_cooked` does the same to the queues
(`cookTurn_typed`).

A call that can echo, because the terminal has a `write` or because it does not echo, returns, and then
all of `read_q` has been typed, or `secondary` is full and the rest is still there
(`copy_to_cooked_edits`). The echo is in `write_q` as long as it has room for it: `copy_to_cooked` does
not look whether it has.
-/

namespace OldLinux.Tty
open Lib Function LineEditor

/-- What a terminal shows: the text, what has been echoed, and `stopped`. -/
structure Display where
  text : List (BitVec 8)
  echoed : List (BitVec 8)
  stopped : Bool

namespace TtyStruct
variable (tty : TtyStruct)

/-- The characters that cannot be erased. -/
def ends (c : BitVec 8) : Bool := c = 10 ∨ CharIs c tty.eofChar

/-- The character stops the output, starts it or is for `tty_intr`, and does nothing else. -/
def Controls (c : BitVec 8) : Prop :=
  tty.lCanon ∧ (CharIs c tty.stopChar ∨ CharIs c tty.startChar) ∨ ¬ tty.lIsig ∧ CharIs c tty.intrChar

instance (c : BitVec 8) : Decidable (tty.Controls c) := by unfold Controls; infer_instance

/-- The key a character is. -/
def key (c : BitVec 8) : Key (BitVec 8) :=
  match tty.inputMap c with
  | none => .skip
  | some c =>
    if tty.lCanon ∧ CharIs c tty.eraseChar then .erase
    else if tty.Controls c then .skip
    else .insert c

/-- What is shown of a character. -/
def image (c : BitVec 8) : List (BitVec 8) :=
  if c = 10 then [10, 13]
  else if c.toInt < 32 then if tty.lEchoctl then [94, c + 64] else []
  else [c]

/-- The echo of a key. -/
def echo (text : List (BitVec 8)) : Key (BitVec 8) → List (BitVec 8)
  | .insert c => if tty.lEcho then tty.image c else []
  | .erase =>
    if tty.lEcho ∧ erasable tty.ends text then
      if (text.getLastD 0).toInt < 32 then [127, 127] else [127]
    else []
  | .skip => []

/-- Whether the output is stopped after a character. -/
def stops (b : Bool) (c : BitVec 8) : Bool :=
  match tty.inputMap c with
  | none => b
  | some c =>
    if tty.lCanon ∧ CharIs c tty.eraseChar then b
    else if tty.lCanon ∧ CharIs c tty.stopChar then true
    else if tty.lCanon ∧ CharIs c tty.startChar then false
    else b

/-- A character is typed. -/
def typed (d : Display) (c : BitVec 8) : Display where
  text := edit tty.ends d.text (tty.key c)
  echoed := d.echoed ++ tty.echo d.text (tty.key c)
  stopped := tty.stops d.stopped c

/-- What the terminal shows before anything is typed. -/
def display : Display where
  text := (tty.queue .secondary).contents
  echoed := []
  stopped := tty.stopped

/-- The characters are typed until the text is as long as `secondary` can be. -/
def typeAll (d : Display) (chars : List (BitVec 8)) : Display × List (BitVec 8) :=
  drain (fun d => decide (1023 ≤ d.text.length)) tty.typed d chars

end TtyStruct

/-! ## The echo -/

/-- The characters are stored one after the other. -/
def TtyQueue.putAll (q : TtyQueue) (l : List (BitVec 8)) : TtyQueue :=
  l.foldl (fun q c => q.run (.put c)) q

/-- Characters that find room are put in. -/
lemma TtyQueue.contents_putAll {q : TtyQueue} {l : List (BitVec 8)}
    (h : q.contents.length + l.length ≤ 1023) : (q.putAll l).contents = q.contents ++ l := by
  induction l generalizing q with
  | nil => exact (List.append_nil _).symm
  | cons c l ih =>
    rw [List.length_cons] at h
    have hfull : ¬ q.Full := by
      have hleft := q.left_eq
      rw [TtyQueue.contents, RingBuffer.length_contents] at h
      omega
    have hput := TtyQueue.contents_put hfull c
    have hlen : (q.run (.put c)).contents.length + l.length ≤ 1023 := by
      rw [hput, List.length_append, List.length_singleton]
      omega
    show ((q.run (.put c)).putAll l).contents = _
    rw [ih hlen, hput, List.append_assoc]
    rfl

/-- The characters are stored in `write_q`. -/
def TtyStruct.show (tty : TtyStruct) (l : List (BitVec 8)) : TtyStruct :=
  { tty with queue := update tty.queue .writeQ ((tty.queue .writeQ).putAll l) }

/-- The statements that show characters. -/
def showStmts (b : Bool) (l : List (BitVec 8)) : List CookStmt :=
  if b then l.map .putWrite ++ [.write] else []

section
variable {tty tty' : TtyStruct} {b : Bool} {l : List (BitVec 8)}

/-- What is shown goes to the write queue. -/
@[simp] lemma queue_show :
    (tty.show l).queue = update tty.queue .writeQ ((tty.queue .writeQ).putAll l) := rfl

/-- Nothing is shown. -/
lemma show_nil : tty.show [] = tty := by
  rw [TtyStruct.show, TtyQueue.putAll, List.foldl_nil, update_eq_self]

/-- Characters are shown one after the other. -/
lemma run_putWrites : (l.map CookStmt.putWrite).foldlM CookStmt.run tty = some (tty.show l) := by
  induction l generalizing tty with
  | nil => exact congrArg some show_nil.symm
  | cons c l ih =>
    show (l.map CookStmt.putWrite).foldlM CookStmt.run (tty.onQueue .writeQ (.put c)) = _
    rw [ih, TtyStruct.show, TtyStruct.queue_onQueue, update_self, update_idem]
    rfl

/-- Showing characters puts them into `write_q` and changes nothing else. -/
lemma run_show (h : (showStmts b l).foldlM CookStmt.run tty = some tty') :
    tty' = tty.show (if b then l else []) := by
  cases b with
  | false =>
    cases h
    exact show_nil.symm
  | true =>
    rw [showStmts, if_pos rfl, List.foldlM_append, run_putWrites] at h
    have hwrite : (CookStmt.run (tty.show l) .write).bind some = some tty' := h
    rw [Option.bind_fun_some, CookStmt.run, TtyStruct.callWrite] at hwrite
    split at hwrite
    case h_1 => cases hwrite
    case h_2 => exact (Option.some.inj hwrite).symm

/-- The echo shows the image of a character. -/
lemma echoStmts_eq (c : BitVec 8) : tty.echoStmts c = showStmts tty.lEcho (tty.image c) := by
  unfold TtyStruct.echoStmts showStmts TtyStruct.image
  repeat' split
  all_goals rfl

end

/-! ## One character -/

/-- The queues and `stopped` are those of the display, where `front` was in `write_q` before anything was
    echoed. `write_q` counts only while it has had room for the echo. -/
structure Shows (front : List (BitVec 8)) (d : Display) (tty : TtyStruct) : Prop where
  text : (tty.queue .secondary).contents = d.text
  stopped : tty.stopped = d.stopped
  echoed : front.length + d.echoed.length ≤ 1023 → (tty.queue .writeQ).contents = front ++ d.echoed

/-- The settings and the driver are the same. -/
abbrev SameSettings (tty tty' : TtyStruct) : Prop :=
  tty'.termios = tty.termios ∧ tty'.write = tty.write

section
variable {tty tty' : TtyStruct} {c : BitVec 8} {d : Display} {front : List (BitVec 8)}

/-- An empty queue has no contents. -/
lemma contents_of_empty {q : TtyQueue} (h : q.Empty) : q.contents = [] := by
  rw [← List.length_eq_zero_iff, RingBuffer.length_contents, RingBuffer.size_eq_zero]
  exact h

/-- `eraseStmts` finds the characters that can be erased. -/
lemma erasable_iff : erasable tty.ends (tty.queue .secondary).contents ↔
    ¬ ((tty.queue .secondary).Empty ∨ (tty.queue .secondary).last = 10 ∨
      CharIs (tty.queue .secondary).last tty.eofChar) := by
  by_cases hempty : (tty.queue .secondary).Empty
  · simp [contents_of_empty hempty, erasable, hempty]
  · rw [TtyQueue.contents_dec hempty, erasable_concat]
    simp [TtyStruct.ends, hempty]

/-- Erasing a character shows the erasure. -/
lemma eraseStmts_eq : tty.eraseStmts =
    if erasable tty.ends (tty.queue .secondary).contents then
      showStmts tty.lEcho
        (if (tty.queue .secondary).last.toInt < 32 then [127, 127] else [127]) ++ [.decHead]
    else [] := by
  unfold TtyStruct.eraseStmts showStmts
  simp only [erasable_iff, ite_not]
  repeat' split
  all_goals rfl

/-- The echo goes to `write_q`. -/
lemma Shows.show {b : Bool} {l : List (BitVec 8)} (hs : Shows front d tty)
    (h : (showStmts b l).foldlM CookStmt.run tty = some tty') :
    Shows front { d with echoed := d.echoed ++ if b then l else [] } tty' ∧
      SameSettings tty tty' ∧ tty'.queue .readQ = tty.queue .readQ ∧
      tty'.queue .secondary = tty.queue .secondary := by
  rw [run_show h]
  have hsec : (tty.show (if b then l else [])).queue .secondary = tty.queue .secondary := by
    rw [queue_show, update_of_ne (by decide)]
  have hread : (tty.show (if b then l else [])).queue .readQ = tty.queue .readQ := by
    rw [queue_show, update_of_ne (by decide)]
  refine ⟨⟨hsec ▸ hs.text, hs.stopped, ?_⟩, ⟨rfl, rfl⟩, hread, hsec⟩
  intro hroom
  rw [List.length_append] at hroom
  have hold := hs.echoed (by omega)
  have hfits : (tty.queue .writeQ).contents.length + (if b then l else []).length ≤ 1023 := by
    rw [hold, List.length_append]
    omega
  rw [queue_show, update_self, TtyQueue.contents_putAll hfits, hold, List.append_assoc]

/-- A character comes to the text. -/
lemma Shows.put (hs : Shows front d tty) (hfull : ¬ (tty.queue .secondary).Full) :
    Shows front { d with text := d.text ++ [c] } (tty.onQueue .secondary (.put c)) := by
  refine ⟨?_, hs.stopped, ?_⟩
  · rw [TtyStruct.queue_onQueue, update_self, TtyQueue.contents_put hfull, hs.text]
  · intro hroom
    rw [TtyStruct.queue_onQueue, update_of_ne (by decide)]
    exact hs.echoed hroom

/-- A character goes from the text. -/
lemma Shows.dec (hs : Shows front d tty) (hempty : ¬ (tty.queue .secondary).Empty) :
    Shows front { d with text := d.text.dropLast } (tty.onQueue .secondary .dec) := by
  refine ⟨?_, hs.stopped, ?_⟩
  · rw [TtyStruct.queue_onQueue, update_self, ← hs.text, TtyQueue.contents_dec hempty,
      List.dropLast_concat]
  · intro hroom
    rw [TtyStruct.queue_onQueue, update_of_ne (by decide)]
    exact hs.echoed hroom

/-- What `tty'` keeps of `tty` in the statements after a `GETCH`. -/
abbrev Keeps (tty tty' : TtyStruct) : Prop :=
  SameSettings tty tty' ∧ tty'.queue .readQ = tty.queue .readQ

/-- The erase character. -/
lemma Shows.erase (hs : Shows front d tty) (h : tty.eraseStmts.foldlM CookStmt.run tty = some tty') :
    Shows front { d with
      text := edit tty.ends d.text .erase
      echoed := d.echoed ++ tty.echo d.text .erase } tty' ∧ Keeps tty tty' := by
  rw [eraseStmts_eq, hs.text] at h
  by_cases hcan : erasable tty.ends d.text
  case neg =>
    rw [if_neg hcan] at h
    cases h
    simp only [edit, TtyStruct.echo, hcan]
    rw [if_neg (by decide), if_neg (by simp), List.append_nil]
    exact ⟨hs, ⟨rfl, rfl⟩, rfl⟩
  case pos =>
    have hempty : ¬ (tty.queue .secondary).Empty := by
      have hnot := erasable_iff.1 (hs.text ▸ hcan)
      exact fun he => hnot (.inl he)
    have hlast : d.text.getLastD 0 = (tty.queue .secondary).last := by
      rw [← hs.text, TtyQueue.contents_dec hempty, List.getLastD_concat]
    rw [if_pos hcan, List.foldlM_append] at h
    obtain ⟨tty1, hshow, hdec⟩ := Option.bind_eq_some_iff.1 h
    cases hdec
    obtain ⟨hs1, hset, hread, hsec⟩ := hs.show hshow
    have hdone := hs1.dec (by rwa [hsec])
    refine ⟨?_, hset, ?_⟩
    · simp only [edit, TtyStruct.echo, hcan, and_true, hlast]
      exact hdone
    · rw [TtyStruct.queue_onQueue, update_of_ne (by decide), hread]

/-- `secondary.data++` does not change what is stored. -/
lemma Shows.count {b : Bool} (hs : Shows front d tty)
    (h : (if b then [CookStmt.count] else []).foldlM CookStmt.run tty = some tty') :
    Shows front d tty' ∧ Keeps tty tty' ∧
      (tty'.queue .secondary).contents = (tty.queue .secondary).contents := by
  cases b with
  | false =>
    cases h
    exact ⟨hs, ⟨⟨rfl, rfl⟩, rfl⟩, rfl⟩
  | true =>
    cases h
    refine ⟨⟨?_, hs.stopped, ?_⟩, ⟨⟨rfl, rfl⟩, ?_⟩, ?_⟩
    · dsimp only
      rw [update_self]
      exact hs.text
    · intro hroom
      dsimp only
      rw [update_of_ne (by decide)]
      exact hs.echoed hroom
    · dsimp only
      rw [update_of_ne (by decide)]
    · dsimp only
      rw [update_self]

/-- A queue is full by its contents. -/
lemma full_congr {q q' : TtyQueue} (h : q'.contents = q.contents) : q'.Full ↔ q.Full := by
  have hlen := congrArg List.length h
  rw [TtyQueue.contents, TtyQueue.contents, RingBuffer.length_contents,
    RingBuffer.length_contents] at hlen
  have hleft := q.left_eq
  have hleft' := q'.left_eq
  omega

/-- An ordinary character. -/
lemma Shows.insert {b : Bool} (hs : Shows front d tty) (hfull : ¬ (tty.queue .secondary).Full)
    (h : ((if b then [CookStmt.count] else []) ++ tty.echoStmts c ++ [CookStmt.putSecondary c]).foldlM
      CookStmt.run tty = some tty') :
    Shows front { d with
      text := edit tty.ends d.text (.insert c)
      echoed := d.echoed ++ tty.echo d.text (.insert c) } tty' ∧ Keeps tty tty' := by
  rw [List.foldlM_append, List.foldlM_append, echoStmts_eq] at h
  obtain ⟨tty2, hpre, hput⟩ := Option.bind_eq_some_iff.1 h
  obtain ⟨tty1, hcount, hshow⟩ := Option.bind_eq_some_iff.1 hpre
  cases hput
  obtain ⟨hs1, ⟨hset1, hread1⟩, hsec1⟩ := hs.count hcount
  obtain ⟨hs2, hset2, hread2, hsec2⟩ := hs1.show hshow
  have hfull2 : ¬ (tty2.queue .secondary).Full := by
    rw [full_congr ((congrArg TtyQueue.contents hsec2).trans hsec1)]
    exact hfull
  refine ⟨hs2.put hfull2, ⟨hset2.1.trans hset1.1, hset2.2.trans hset1.2⟩, ?_⟩
  rw [TtyStruct.queue_onQueue, update_of_ne (by decide), hread2, hread1]

/-- A character that does nothing but stop the output or start it. -/
lemma Shows.stopped_run {b : Bool} (hs : Shows front d tty) :
    Shows front {
      text := edit tty.ends d.text .skip
      echoed := d.echoed ++ tty.echo d.text .skip
      stopped := b } { tty with stopped := b } :=
  ⟨hs.text, rfl, fun hroom => by
    rw [TtyStruct.echo, List.append_nil] at hroom ⊢
    exact hs.echoed hroom⟩

/-- One character: what the statements after a `GETCH` do to the queues, `typed` does to the
    display. -/
lemma Shows.cookStmts (hs : Shows front d tty) (hfull : ¬ (tty.queue .secondary).Full)
    (h : (tty.cookStmts c).foldlM CookStmt.run tty = some tty') :
    Shows front (tty.typed d c) tty' ∧ Keeps tty tty' := by
  cases hmap : tty.inputMap c with
  | none =>
    have htyped : tty.typed d c = d := by
      simp [TtyStruct.typed, TtyStruct.key, TtyStruct.stops, TtyStruct.echo, edit, hmap]
    simp only [TtyStruct.cookStmts, hmap] at h
    cases h
    rw [htyped]
    exact ⟨hs, ⟨rfl, rfl⟩, rfl⟩
  | some x =>
    simp only [TtyStruct.cookStmts, hmap] at h
    simp only [TtyStruct.typed, TtyStruct.key, TtyStruct.stops, hmap]
    by_cases herase : tty.lCanon ∧ CharIs x tty.eraseChar
    · rw [if_pos herase] at h
      simp only [if_pos herase]
      exact hs.erase h
    · rw [if_neg herase] at h
      simp only [if_neg herase]
      by_cases hstop : tty.lCanon ∧ CharIs x tty.stopChar
      · have hctl : tty.Controls x := .inl ⟨hstop.1, .inl hstop.2⟩
        rw [if_pos hstop] at h
        cases h
        simp only [if_pos hctl, if_pos hstop]
        exact ⟨hs.stopped_run, ⟨rfl, rfl⟩, rfl⟩
      · rw [if_neg hstop] at h
        simp only [if_neg hstop]
        by_cases hstart : tty.lCanon ∧ CharIs x tty.startChar
        · have hctl : tty.Controls x := .inl ⟨hstart.1, .inr hstart.2⟩
          rw [if_pos hstart] at h
          cases h
          simp only [if_pos hctl, if_pos hstart]
          exact ⟨hs.stopped_run, ⟨rfl, rfl⟩, rfl⟩
        · rw [if_neg hstart] at h
          simp only [if_neg hstart]
          by_cases hintr : ¬ tty.lIsig ∧ CharIs x tty.intrChar
          · have hctl : tty.Controls x := .inr hintr
            rw [if_pos hintr] at h
            cases h
            simp only [if_pos hctl]
            refine ⟨?_, ⟨rfl, rfl⟩, rfl⟩
            have hsame := hs.stopped_run (b := d.stopped)
            rwa [← hs.stopped] at hsame ⊢
          · have hctl : ¬ tty.Controls x := by
              rintro (⟨hcanon, hc | hc⟩ | hc)
              · exact hstop ⟨hcanon, hc⟩
              · exact hstart ⟨hcanon, hc⟩
              · exact hintr hc
            rw [if_neg hintr] at h
            simp only [if_neg hctl]
            have hb : (if x = 10 ∨ CharIs x tty.eofChar then [CookStmt.count] else []) =
                if tty.ends x then [CookStmt.count] else [] := if_congr (by simp [TtyStruct.ends]) rfl rfl
            rw [hb] at h
            exact hs.insert hfull h

/-- The settings decide what a character does. -/
lemma typed_congr (ht : tty'.termios = tty.termios) : tty'.typed = tty.typed := by
  cases tty
  cases tty'
  cases ht
  rfl

/-- The step lemma: a turn of the loop types the oldest character of `read_q`. -/
theorem cookTurn_typed (hs : Shows front d tty) (htest : tty.CookTest) (h : tty.cookTurn = some tty') :
    Shows front (tty.typed d (tty.queue .readQ).first) tty' ∧ SameSettings tty tty' ∧
      tty'.queue .readQ = (tty.queue .readQ).run .get := by
  have hsec : (tty.onQueue .readQ .get).queue .secondary = tty.queue .secondary := by
    rw [TtyStruct.queue_onQueue, update_of_ne (by decide)]
  have hfetched : Shows front d (tty.onQueue .readQ .get) := by
    refine ⟨hsec ▸ hs.text, hs.stopped, ?_⟩
    rw [TtyStruct.queue_onQueue, update_of_ne (by decide)]
    exact hs.echoed
  obtain ⟨hs', hset, hread⟩ := hfetched.cookStmts (by rw [hsec]; exact htest.2) h
  refine ⟨hs', hset, ?_⟩
  rw [hread, TtyStruct.queue_onQueue, update_self]

/-! ## A call of `copy_to_cooked` -/

/-- A statement goes through if it need not write. -/
lemma CookStmt.run_total {st : CookStmt} (hw : tty.write = .rsWrite ∨ st ≠ .write) :
    ∃ tty', st.run tty = some tty' ∧ tty'.write = tty.write := by
  cases st with
  | write =>
    have hrs := hw.resolve_right (not_not_intro rfl)
    refine ⟨tty, ?_, rfl⟩
    rw [CookStmt.run, TtyStruct.callWrite, hrs]
  | putWrite | decHead | stopped | ttyIntr | count | putSecondary => exact ⟨_, rfl, rfl⟩

/-- So do many. -/
lemma run_total {l : List CookStmt} (hw : tty.write = .rsWrite ∨ CookStmt.write ∉ l) :
    ∃ tty', l.foldlM CookStmt.run tty = some tty' := by
  induction l generalizing tty with
  | nil => exact ⟨tty, rfl⟩
  | cons st l ih =>
    have hst : tty.write = .rsWrite ∨ st ≠ .write :=
      hw.imp_right fun hmem heq => hmem (heq ▸ List.mem_cons_self ..)
    obtain ⟨tty1, hst, hw1⟩ := CookStmt.run_total hst
    have hl : tty1.write = .rsWrite ∨ CookStmt.write ∉ l :=
      hw.imp hw1.trans fun hmem hrest => hmem (List.mem_cons_of_mem _ hrest)
    obtain ⟨tty', hrest⟩ := ih hl
    rw [List.foldlM_cons, hst]
    exact ⟨tty', hrest⟩

/-- A terminal that does not echo does not call `tty->write`. -/
lemma write_not_mem (hecho : tty.lEcho = false) : CookStmt.write ∉ tty.cookStmts c := by
  unfold TtyStruct.cookStmts TtyStruct.eraseStmts TtyStruct.echoStmts
  simp only [hecho, if_neg Bool.false_ne_true]
  repeat' split
  all_goals simp

/-- A turn on such a terminal has an end. -/
lemma cookTurn_total (hw : tty.write = .rsWrite ∨ tty.lEcho = false) :
    ∃ tty', tty.cookTurn = some tty' := by
  have hstmts : (tty.onQueue .readQ .get).write = .rsWrite ∨
      CookStmt.write ∉ (tty.onQueue .readQ .get).cookStmts (tty.queue .readQ).first :=
    hw.imp_right write_not_mem
  exact run_total hstmts

/-- What `copy_to_cooked` makes of a terminal. -/
structure Edited (tty tty' : TtyStruct) : Prop where
  settings : SameSettings tty tty'
  ended : ¬ tty'.CookTest
  shows : Shows (tty.queue .writeQ).contents (tty.typeAll tty.display (tty.queue .readQ).contents).1 tty'
  rest : (tty'.queue .readQ).contents = (tty.typeAll tty.display (tty.queue .readQ).contents).2

/-- A queue is full with 1023 characters. -/
lemma full_iff {q : TtyQueue} : q.Full ↔ 1023 ≤ q.contents.length := by
  have hleft := q.left_eq
  rw [TtyQueue.contents, RingBuffer.length_contents]
  omega

/-- What is typed depends on the terminal's settings. -/
lemma typeAll_congr (ht : tty'.termios = tty.termios) : tty'.typeAll = tty.typeAll := by
  funext d chars
  rw [TtyStruct.typeAll, TtyStruct.typeAll, typed_congr ht]

/-- The run lemma, by induction on what is in `read_q`. -/
lemma cook_reaches (hs : Shows front d tty) (hw : tty.write = .rsWrite ∨ tty.lEcho = false) :
    ∃ tty', CookReaches (.loop, tty) (.returned, tty') ∧ SameSettings tty tty' ∧ ¬ tty'.CookTest ∧
      Shows front (tty.typeAll d (tty.queue .readQ).contents).1 tty' ∧
      (tty'.queue .readQ).contents = (tty.typeAll d (tty.queue .readQ).contents).2 := by
  generalize hraw : (tty.queue .readQ).contents = raw
  induction raw generalizing tty d with
  | nil =>
    have hempty : (tty.queue .readQ).Empty := by
      rw [← List.length_eq_zero_iff, RingBuffer.length_contents, RingBuffer.size_eq_zero] at hraw
      exact hraw
    have hover : ¬ tty.CookTest := fun htest => htest.1 hempty
    have hend : cookStep tty .loop = some (.returned, tty) := by rw [cookStep, if_neg hover]
    exact ⟨tty, .single hend, ⟨rfl, rfl⟩, hover, hs, hraw⟩
  | cons x raw ih =>
    have hempty : ¬ (tty.queue .readQ).Empty := fun he => by
      rw [contents_of_empty he] at hraw
      cases hraw
    by_cases hfull : (tty.queue .secondary).Full
    case pos =>
      have hover : ¬ tty.CookTest := fun htest => htest.2 hfull
      have hend : cookStep tty .loop = some (.returned, tty) := by rw [cookStep, if_neg hover]
      have hlong : 1023 ≤ d.text.length := hs.text ▸ full_iff.1 hfull
      rw [TtyStruct.typeAll, drain, if_pos (decide_eq_true hlong)]
      exact ⟨tty, .single hend, ⟨rfl, rfl⟩, hover, hs, hraw⟩
    case neg =>
      have hshort : ¬ 1023 ≤ d.text.length := hs.text ▸ mt full_iff.2 hfull
      rw [TtyQueue.contents_get hempty, List.cons.injEq] at hraw
      obtain ⟨rfl, hraw⟩ := hraw
      obtain ⟨tty1, hturn⟩ := cookTurn_total hw
      obtain ⟨hs1, hset1, hread1⟩ := cookTurn_typed hs ⟨hempty, hfull⟩ hturn
      have hw1 : tty1.write = .rsWrite ∨ tty1.lEcho = false := by
        rw [hset1.2, TtyStruct.lEcho, TtyStruct.lFlag, hset1.1]
        exact hw
      obtain ⟨tty', hreach, hset, hover, hs', hrest⟩ := ih hs1 hw1 (hread1 ▸ hraw)
      rw [typeAll_congr hset1.1] at hs' hrest
      rw [TtyStruct.typeAll, drain, if_neg (by simpa using hshort)]
      exact ⟨tty', (cookTurn_reaches ⟨hempty, hfull⟩ hturn).trans hreach,
        ⟨hset.1.trans hset1.1, hset.2.trans hset1.2⟩, hover, hs', hrest⟩

/-- Every call of `copy_to_cooked` on a terminal that can echo, or need not, returns, and what it has
    done is what the line editor does. -/
theorem copy_to_cooked_edits (tty : TtyStruct) (hw : tty.write = .rsWrite ∨ tty.lEcho = false) :
    ∃ tty', CookReaches (.loop, tty) (.returned, tty') ∧ Edited tty tty' := by
  have hs : Shows (tty.queue .writeQ).contents tty.display tty :=
    ⟨rfl, rfl, fun _ => (List.append_nil _).symm⟩
  obtain ⟨tty', hreach, hset, hover, hshows, hrest⟩ := cook_reaches hs hw
  exact ⟨tty', hreach, hset, hover, hshows, hrest⟩

end

/-- A canonical terminal on the first serial line, where `ab`, the erase character and a newline have been
    received. -/
def abErased : TtyStruct :=
  let tty := { rsTty 0x3f8 with termios := consoleTty.termios }
  [97, 98, 127, 10].foldl (fun tty c => tty.onQueue .readQ (.put c)) tty

/-- What is read there is a line with an `a`, and what is shown is `ab`, a rubout and the end of the
    line. -/
theorem copy_to_cooked_edits_erase : ∃ tty', CookReaches (.loop, abErased) (.returned, tty') ∧
    (tty'.queue .secondary).contents = [97, 10] ∧
    (tty'.queue .writeQ).contents = [97, 98, 127, 10, 13] := by
  obtain ⟨tty', hreach, hedited⟩ := copy_to_cooked_edits abErased (.inl rfl)
  refine ⟨tty', hreach, ?_, ?_⟩
  · rw [hedited.shows.text]
    decide
  · rw [hedited.shows.echoed (by decide)]
    decide

/-! ## Lines that are finished -/

section
variable {ι : Type*}

/-- The character a step takes out of `secondary`. -/
def Line.taken (s : Line ι) : LineEvent ι → List (BitVec 8)
  | .turn i =>
    match readStep s.tty s.jiffies (s.cur i) (s.reader i) with
    | some (.getch _, _, _) => [(s.tty.queue .secondary).first]
    | _ => []
  | _ => []

/-- The characters taken in a run, whoever took them. -/
def takenIn : Line ι → List (LineEvent ι × Line ι) → List (BitVec 8)
  | _, [] => []
  | s, (e, s') :: tr => s.taken e ++ takenIn s' tr

/-- The text that has been typed in a run: what has been taken, and what is stored. -/
def typedIn (s : Line ι) (tr : List (LineEvent ι × Line ι)) : List (BitVec 8) :=
  takenIn s tr ++ ((last s tr).tty.queue .secondary).contents

/-- What is taken in two runs. -/
lemma takenIn_append {s : Line ι} {tr tr' : List (LineEvent ι × Line ι)} :
    takenIn s (tr ++ tr') = takenIn s tr ++ takenIn (last s tr) tr' := by
  induction tr generalizing s with
  | nil => rfl
  | cons x tr ih =>
    show s.taken x.1 ++ takenIn x.2 (tr ++ tr') = _
    rw [ih, ← List.append_assoc]
    rfl

/-- The `GETCH` of `tty_read`. -/
lemma getch_takes (r : Reader) (tty : TtyStruct) :
    ((r.getch tty).2.queue .secondary).contents = ((tty.queue .secondary).run .get).contents ∧
      (r.getch tty).2.termios = tty.termios ∧ (r.getch tty).1.AtTurn := by
  unfold Reader.getch
  dsimp only
  split
  all_goals
    refine ⟨?_, rfl, trivial⟩
    dsimp only
    rw [update_self]
    split <;> rfl

/-- A turn of `tty_read` takes the oldest character, or nothing. -/
lemma readTurn_taken {tty tty' : TtyStruct} {j : Int} {cur cur' : Current} {k k' : ReadState}
    (hk : k.AtTurn) (h : readTurn tty j cur k = some (k', tty', cur')) :
    tty'.termios = tty.termios ∧ k'.AtTurn ∧ (match readStep tty j cur k with
      | some (.getch _, _, _) => [(tty.queue .secondary).first]
      | _ => []) ++ (tty'.queue .secondary).contents = (tty.queue .secondary).contents := by
  obtain ⟨⟨k1, tty1, cur1⟩, hstep, hrest⟩ := Option.bind_eq_some_iff.1 h
  obtain ⟨rfl, hk1⟩ := readStep_test hk hstep
  rw [hstep]
  cases k1 with
  | getch r =>
    have hempty : ¬ (tty1.queue .secondary).Empty := hk1.resolve_left id
    simp only [readStep, Option.some.injEq, Prod.mk.injEq] at hrest
    obtain ⟨rfl, rfl, rfl⟩ := hrest
    obtain ⟨hcontents, ht, hturn⟩ := getch_takes r tty1
    refine ⟨ht, hturn, ?_⟩
    rw [hcontents, TtyQueue.contents_get hempty]
    rfl
  | loop r | asleep r | test r | returned n =>
    cases hrest
    exact ⟨rfl, trivial, rfl⟩

variable [DecidableEq ι]

/-- The calls of `tty_read` are between two turns. -/
def Line.AtTurns (s : Line ι) : Prop := ∀ i, (s.reader i).AtTurn

/-- The step lemma: a step leaves the text, or does to its end what a key does. -/
lemma LineStep.text {s s' : Line ι} {e : LineEvent ι} (st : LineStep s e s') (hs : s.AtTurns)
    (heof : s.tty.eofChar.toNat < 128) :
    s'.tty.termios = s.tty.termios ∧ s'.AtTurns ∧
      ∃ k, s.taken e ++ (s'.tty.queue .secondary).contents =
        edit s.tty.ends (s.tty.queue .secondary).contents k := by
  cases st with
  | @cook tty htest h =>
    have hshows : Shows (s.tty.queue .writeQ).contents s.tty.display s.tty :=
      ⟨rfl, rfl, fun _ => (List.append_nil _).symm⟩
    obtain ⟨hs', hset, -⟩ := cookTurn_typed hshows htest h
    exact ⟨hset.1, hs, _, hs'.text⟩
  | @fault tty htest h =>
    obtain ⟨ht, _, _, hq⟩ := stopsAt_counted
      (show (s.tty.onQueue .readQ .get).eofChar.toNat < 128 from heof) h
    refine ⟨ht, hs, .skip, ?_⟩
    have hcontents : (tty.queue .secondary).contents = (s.tty.queue .secondary).contents := by
      rw [hq]
      rfl
    exact hcontents
  | @read i nr k cur hover h =>
    refine ⟨rfl, update_atTurn hs ?_, .skip, rfl⟩
    unfold ttyRead at h
    split at h
    all_goals
      cases h
      trivial
  | @turn i k tty cur h =>
    obtain ⟨ht, hk, htext⟩ := readTurn_taken (hs i) h
    exact ⟨ht, update_atTurn hs hk, .skip, htext⟩
  | @others q q' b =>
    refine ⟨rfl, hs, .skip, ?_⟩
    simp [Line.taken, edit]
  | signal => exact ⟨rfl, hs, .skip, rfl⟩
  | tick => exact ⟨rfl, hs, .skip, rfl⟩

omit [DecidableEq ι] in
/-- What ends a line depends on the settings. -/
lemma ends_congr {tty tty' : TtyStruct} (ht : tty'.termios = tty.termios) : tty'.ends = tty.ends := by
  funext c
  rw [TtyStruct.ends, TtyStruct.ends, TtyStruct.eofChar, TtyStruct.eofChar, ht]

/-- The run lemma, where `front` has been taken before. -/
lemma finished_front {s : Line ι} {tr} (ex : (line ι).Exec s tr) (hs : s.AtTurns)
    (heof : s.tty.eofChar.toNat < 128) (front : List (BitVec 8)) :
    finished s.tty.ends (front ++ (s.tty.queue .secondary).contents) <+:
      finished s.tty.ends (front ++ typedIn s tr) := by
  induction ex generalizing front with
  | nil => exact List.prefix_refl _
  | @cons s e s' tr st ex ih =>
    obtain ⟨ht, hs', k, htext⟩ := LineStep.text st hs heof
    have heof' : s'.tty.eofChar.toNat < 128 := by
      rw [TtyStruct.eofChar, ht]
      exact heof
    have hrest := ih hs' heof' (front ++ s.taken e)
    rw [ends_congr ht, List.append_assoc, htext, List.append_assoc] at hrest
    have hall : typedIn s ((e, s') :: tr) = s.taken e ++ typedIn s' tr := List.append_assoc ..
    rw [hall]
    exact (finished_edit front _ k).trans hrest

/-- In every run of `copy_to_cooked` and of any number of calls of `tty_read` on a terminal, the lines
    that are finished at some time stay as they are: together, the characters taken so far and those
    stored begin with the same finished lines at every later time. -/
theorem finished_lines_stay {s : Line ι} {tr tr'} (ex : (line ι).Exec s (tr ++ tr'))
    (h0 : (line ι).init s) :
    finished s.tty.ends (typedIn s tr) <+: finished s.tty.ends (typedIn s (tr ++ tr')) := by
  have hinit : s.AtTurns := fun i => by
    have hi := h0.2.2 i
    cases hk : s.reader i with
    | getch r =>
      rw [hk] at hi
      cases hi
    | loop | asleep | test | returned => trivial
  obtain ⟨ch, htable⟩ := h0.1
  have heof : ∀ {tty : TtyStruct}, tty.termios = s.tty.termios → tty.eofChar.toNat < 128 :=
    fun ht => eof_of_table (ht.trans htable)
  obtain ⟨ex1, ex2⟩ := ex.split
  obtain ⟨hs, ht⟩ := (ex1.along_of_inv (I := fun s' => s'.AtTurns ∧ s'.tty.termios = s.tty.termios)
    (C := fun _ _ _ => True) (Q := fun _ _ _ => True) (fun s1 e s2 h1 st _ => by
      obtain ⟨ht, hs2, -⟩ := LineStep.text st h1.1 (heof h1.2)
      exact ⟨⟨hs2, ht.trans h1.2⟩, trivial⟩)
    ⟨hinit, rfl⟩ (Along.of_forall fun _ _ _ => trivial)).1.at_last
  have hrest := finished_front ex2 hs (heof ht) (takenIn s tr)
  rw [ends_congr ht] at hrest
  have hall : typedIn s (tr ++ tr') = takenIn s tr ++ typedIn (last s tr) tr' := by
    rw [typedIn, typedIn, takenIn_append, last_append, List.append_assoc]
  rw [hall]
  exact hrest

/-- The newline has been cooked. -/
def newlineCooked : Line Unit :=
  { newlineReceived with tty := newlineReceived.tty.cookTurn.getD newlineReceived.tty }

/-- The newline has been cooked, and a process has read a character. -/
def newlineRead : Line Unit :=
  let call := ttyRead newlineCooked.tty newlineCooked.jiffies (newlineCooked.cur ()) 1
  { newlineCooked with
    cur := update newlineCooked.cur () call.2
    reader := update newlineCooked.reader () call.1 }

/-- The newline was a finished line before it was read and is one afterwards. -/
theorem finished_lines_stay_newline : ∃ tr tr', (line Unit).Exec newlineReceived (tr ++ tr') ∧
    typedIn newlineReceived tr = [10] ∧ takenIn newlineReceived (tr ++ tr') = [10] ∧
    finished newlineReceived.tty.ends (typedIn newlineReceived tr) <+:
      finished newlineReceived.tty.ends (typedIn newlineReceived (tr ++ tr')) := by
  have hcook : LineStep newlineReceived .cook newlineCooked := .cook (by decide) rfl
  have hread : LineStep newlineCooked (.read () 1) newlineRead := .read trivial rfl
  have hturn : LineStep newlineRead (.turn ()) _ := .turn rfl
  have ex := System.Exec.cons (S := line Unit) hcook (.cons hread (.cons hturn .nil))
  refine ⟨[(.cook, newlineCooked)], [(.read () 1, newlineRead), (.turn (), _)], ex, ?_, ?_, ?_⟩
  · rfl
  · rfl
  · exact finished_lines_stay ex ⟨⟨1, rfl⟩, rfl, fun _ => trivial⟩

end

end OldLinux.Tty
