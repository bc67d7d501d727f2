import OldLinux.Tty.Terminal

/-!
# Output processing

What `tty_write` puts into `write_q` for the bytes it reports as written. A newline is expanded in two
turns of the inner loop: the first puts a CR and sets the static `cr_flag`, the second finds the flag
set, puts the newline and clears it. The flag is shared by all calls on all terminals, and a call can
lose the processor between the turns, or be ended there by a signal.

A call is all right (`Writer.Ok`) when what it has stored is the processed form of what it has
accepted, with one more CR when it stands between the two turns. `output_processed` says that it stays
so, and that a returned call has stored exactly the processed form, as long as every call finds in
`cr_flag` what it left there itself and none is ended between the two turns (`Undisturbed`).
-/

namespace OldLinux.Tty
open Lib Function

namespace TtyStruct
variable (tty : TtyStruct)

/-- A byte that comes out as a newline with a CR before it. -/
def Expands (c : BitVec 8) : Bool := tty.oPost ∧ tty.outputMap c = 10 ∧ tty.oNlcr

/-- What a byte comes out as, apart from the inserted CR. -/
def outputChar (c : BitVec 8) : BitVec 8 :=
  if tty.oPost then
    let x := tty.outputMap c
    if tty.oLcuc then toupper x else x
  else c

/-- The output-processed form of some bytes. -/
def outputForm (l : List (BitVec 8)) : List (BitVec 8) :=
  l.flatMap fun c => (if tty.Expands c then [13] else []) ++ [tty.outputChar c]

end TtyStruct

/-- What has been stored is the processed form of what has been accepted, and a CR more when the call
    stands in the middle of an expansion. -/
structure Writer.Ok (tty : TtyStruct) (w : Writer) : Prop where
  given : w.accepted ++ w.left = w.given
  stored : w.stored = tty.outputForm w.accepted ++ if w.half then [13] else []
  half : w.half → ∃ c rest, w.left = c :: rest ∧ tty.Expands c

/-- The record of a call. -/
def WriteState.writer : WriteState → Writer
  | loop w | asleep w | test w | char w | flush w | returned _ w => w

/-- A returned call reports as written a number of bytes it was given, from the first on, and has stored
    exactly their processed form. -/
def WriteState.Reported (tty : TtyStruct) : WriteState → Prop
  | returned n w => if n = -1 then w.stored = [] else
    0 ≤ n ∧ n ≤ w.given.length ∧ w.stored = tty.outputForm (w.given.take n.toNat)
  | _ => True

/-- The same of an activity, if it is a call of `tty_write`. -/
def Activity.Reported (tty : Fin 3 → TtyStruct) : Activity → Prop
  | writing ch k => k.Reported (tty ch)
  | _ => True

/-- The activity is a call of `tty_write` that has the processor. -/
def Activity.MidTurn : Activity → Prop
  | writing _ (.test _) | writing _ (.char _) | writing _ (.flush _) => True
  | _ => False

section
variable {ι : Type*} [DecidableEq ι]

/-- All returned calls of `tty_write` have put into their queue what they report. -/
def Processed (s : Terminals ι) : Prop := ∀ i, (s.act i).Reported s.tty

/-- `stored` is what a call puts into the `write_q` of its terminal, in order. -/
def Recorded (s : Terminals ι) (e : Event ι) (s' : Terminals ι) : Prop :=
  ∀ i ch k, e = .run i → s.act i = .writing ch k → ∃ k', s'.act i = .writing ch k' ∧
    ((s.move e = none ∧ k'.writer.stored = k.writer.stored) ∨
      ∃ x, s.move e = some ((ch, .writeQ), .put x) ∧ k'.writer.stored = k.writer.stored ++ [x])

/-- A call that comes to a byte to be expanded finds `cr_flag` set exactly if it has itself inserted the
    CR for that byte, and a call that is ended by a signal is not in the middle of an expansion. -/
def Undisturbed (s : Terminals ι) (e : Event ι) (_ : Terminals ι) : Prop :=
  match e with
  | .run i =>
    match s.act i with
    | .writing ch (.char w) => ∀ c ∈ w.left.head?, (s.tty ch).Expands c → s.crFlag = w.half
    | .writing ch (.loop w) => ¬ ((s.tty ch).queue .writeQ).Full → (s.cur i).signal ≠ 0 → ¬ w.half
    | .writing _ (.asleep w) => (s.cur i).signal ≠ 0 → ¬ w.half
    | _ => True
  | _ => True

/-- A call of `tty_write` gives up the processor only where it sleeps or calls `schedule()`. -/
def Yields (s : Terminals ι) (e : Event ι) (_ : Terminals ι) : Prop :=
  match e with
  | .run i => ∀ j, j ≠ i → ¬ (s.act j).MidTurn
  | _ => True

end

/-! ## One call -/

section
variable {tty tty' : TtyStruct} {w : Writer}

/-- The output of two stretches. -/
@[simp] lemma outputForm_append (l l' : List (BitVec 8)) :
    tty.outputForm (l ++ l') = tty.outputForm l ++ tty.outputForm l' := List.flatMap_append

/-- The processing depends on the settings only. -/
lemma expands_congr (ht : tty'.termios = tty.termios) : tty'.Expands = tty.Expands := by
  show TtyStruct.Expands { tty with termios := tty'.termios } = tty.Expands
  rw [ht]

/-- It depends on the settings. -/
lemma outputForm_congr (ht : tty'.termios = tty.termios) : tty'.outputForm = tty.outputForm := by
  show TtyStruct.outputForm { tty with termios := tty'.termios } = tty.outputForm
  rw [ht]

/-- A writer that is right stays so. -/
lemma Writer.Ok.congr (ht : tty'.termios = tty.termios) (h : w.Ok tty) : w.Ok tty' := by
  refine ⟨h.given, ?_, ?_⟩
  · rw [outputForm_congr ht]
    exact h.stored
  · rw [expands_congr ht]
    exact h.half

/-- The body of the inner loop: the CR of an expansion is inserted, or the next byte goes out. -/
lemma char_eq {crFlag : Bool} {c : BitVec 8} {rest : List (BitVec 8)} :
    w.char tty crFlag c rest =
      if tty.Expands c ∧ ¬ crFlag then
        ({ w with stored := w.stored ++ [13], half := true }, true, 13)
      else
        ({ w with
          left := rest
          accepted := w.accepted ++ [c]
          stored := w.stored ++ [tty.outputChar c]
          half := false }, false, tty.outputChar c) := by
  unfold Writer.char TtyStruct.Expands TtyStruct.outputChar
  cases hp : tty.oPost with
  | false => simp
  | true =>
    simp only [if_true, true_and, decide_eq_true_eq]
    exact if_congr (by tauto) rfl rfl

/-- The body of the inner loop on a call that finds in `cr_flag` what it left there. -/
lemma Writer.Ok.char {crFlag : Bool} {c : BitVec 8} {rest : List (BitVec 8)} (h : w.Ok tty)
    (hl : w.left = c :: rest) (hflag : tty.Expands c → crFlag = w.half) :
    (w.char tty crFlag c rest).1.Ok tty := by
  rw [char_eq]
  split
  case isTrue hc =>
    obtain ⟨hexp, hcr⟩ := hc
    have hhalf : w.half = false := by
      rw [← hflag hexp]
      simpa using hcr
    refine ⟨h.given, ?_, fun _ => ⟨c, rest, hl, hexp⟩⟩
    have hst := h.stored
    rw [hhalf] at hst
    simpa using hst
  case isFalse hc =>
    refine ⟨?_, ?_, fun hf => by cases hf⟩
    · rw [← h.given, hl, List.append_assoc]
      rfl
    · -- The byte is expanded exactly if its CR is already there.
      have hhalf : w.half = tty.Expands c := by
        cases hexp : tty.Expands c with
        | true =>
          rw [← hflag hexp]
          simpa [hexp] using hc
        | false =>
          cases hw : w.half with
          | false => rfl
          | true =>
            obtain ⟨c', rest', hl', hexp'⟩ := h.half hw
            rw [hl] at hl'
            cases hl'
            rw [hexp] at hexp'
            cases hexp'
      show w.stored ++ [tty.outputChar c] = tty.outputForm (w.accepted ++ [c]) ++ []
      rw [h.stored, hhalf, outputForm_append]
      simp [TtyStruct.outputForm]

/-- A call that is all right and not in the middle of an expansion has stored what it has accepted. -/
lemma Writer.Ok.reported (h : w.Ok tty) (hhalf : ¬ w.half) : w.finish.Reported tty := by
  have hst := h.stored
  rw [if_neg hhalf, List.append_nil] at hst
  have hne : (w.accepted.length : Int) ≠ -1 := by omega
  rw [Writer.finish, WriteState.Reported, if_neg hne, ← h.given, Int.toNat_natCast, List.take_left,
    List.length_append]
  exact ⟨by omega, by omega, hst⟩

/-- A call, wherever it stands. -/
def WriteState.Ok (tty : TtyStruct) (k : WriteState) : Prop :=
  match k with
  | returned _ _ => k.Reported tty
  | k => k.writer.Ok tty

/-- A call stays right between its statements. -/
lemma WriteState.Ok.congr {k : WriteState} (ht : tty'.termios = tty.termios) (h : k.Ok tty) :
    k.Ok tty' := by
  cases k with
  | returned n w =>
    simp only [WriteState.Ok, WriteState.Reported, outputForm_congr ht] at h ⊢
    exact h
  | loop w | asleep w | test w | char w | flush w => exact Writer.Ok.congr ht h

/-- A call stays right when it is woken up. -/
lemma Writer.Ok.awake {cur : Current} (h : w.Ok tty) (hs : cur.signal ≠ 0 → ¬ w.half) :
    (w.awake cur).Ok tty := by
  rw [Writer.awake]
  split
  case isTrue hsig => exact h.reported (hs hsig)
  case isFalse => exact h

/-- One step of `tty_write` on an undisturbed call. -/
lemma writeStep_ok {crFlag crFlag' : Bool} {cur : Current} {k k' : WriteState}
    {put : Option (BitVec 8)} (h : k.Ok tty)
    (hu : match k with
      | .char w => ∀ c ∈ w.left.head?, tty.Expands c → crFlag = w.half
      | .loop w => ¬ (tty.queue .writeQ).Full → cur.signal ≠ 0 → ¬ w.half
      | .asleep w => cur.signal ≠ 0 → ¬ w.half
      | _ => True)
    (hst : writeStep tty crFlag cur k = some (k', crFlag', put)) : k'.Ok tty := by
  cases k with
  | loop w =>
    simp only [writeStep, Option.some.injEq, Prod.mk.injEq] at hst
    obtain ⟨rfl, -, -⟩ := hst
    split
    case isTrue hl =>
      apply Writer.Ok.reported h
      intro hhalf
      obtain ⟨c, rest, hl', -⟩ := h.half hhalf
      cases hl.symm.trans hl'
    case isFalse =>
      split
      case isTrue => exact h
      case isFalse hfull => exact Writer.Ok.awake h (hu hfull)
  | asleep w =>
    simp only [writeStep, Option.some.injEq, Prod.mk.injEq] at hst
    obtain ⟨rfl, -, -⟩ := hst
    split
    case isTrue => exact h
    case isFalse => exact Writer.Ok.awake h hu
  | test w =>
    simp only [writeStep, Option.some.injEq, Prod.mk.injEq] at hst
    obtain ⟨rfl, -, -⟩ := hst
    split <;> exact h
  | char w =>
    rw [writeStep] at hst
    split at hst
    case h_1 => cases hst
    case h_2 c rest hl =>
      simp only [Option.some.injEq, Prod.mk.injEq] at hst
      obtain ⟨rfl, -, -⟩ := hst
      exact Writer.Ok.char h hl (hu c (by rw [hl]; rfl))
  | flush w =>
    obtain ⟨_, -, he⟩ := Option.map_eq_some_iff.1 hst
    cases he
    exact h
  | returned n w => cases hst

/-- It has what it had. -/
lemma writer_awake {cur : Current} : (w.awake cur).writer = w := by
  rw [Writer.awake]
  split <;> rfl

/-- What `tty_write` puts into `write_q` is what it records. -/
lemma writeStep_stored {crFlag crFlag' : Bool} {cur : Current} {k k' : WriteState}
    {put : Option (BitVec 8)} (hst : writeStep tty crFlag cur k = some (k', crFlag', put)) :
    k'.writer.stored = k.writer.stored ++ put.toList := by
  cases k with
  | loop w =>
    simp only [writeStep, Option.some.injEq, Prod.mk.injEq] at hst
    obtain ⟨rfl, -, rfl⟩ := hst
    rw [Option.toList_none, List.append_nil]
    split
    · rfl
    · split
      · rfl
      · rw [writer_awake]
        rfl
  | asleep w =>
    simp only [writeStep, Option.some.injEq, Prod.mk.injEq] at hst
    obtain ⟨rfl, -, rfl⟩ := hst
    rw [Option.toList_none, List.append_nil]
    split
    · rfl
    · rw [writer_awake]
      rfl
  | test w =>
    simp only [writeStep, Option.some.injEq, Prod.mk.injEq] at hst
    obtain ⟨rfl, -, rfl⟩ := hst
    split <;> simp [WriteState.writer]
  | char w =>
    rw [writeStep] at hst
    split at hst
    case h_1 => cases hst
    case h_2 c rest hl =>
      simp only [Option.some.injEq, Prod.mk.injEq] at hst
      obtain ⟨rfl, -, rfl⟩ := hst
      rw [char_eq]
      split <;> rfl
  | flush w =>
    obtain ⟨_, -, he⟩ := Option.map_eq_some_iff.1 hst
    cases he
    simp [WriteState.writer]
  | returned n w => cases hst

end

/-! ## All calls -/

section
variable {tty tty' : TtyStruct}

/-- Cooking leaves the settings. -/
lemma cookStep_termios {k k' : CookState} (h : cookStep tty k = some (k', tty')) :
    tty'.termios = tty.termios := by
  cases k with
  | stmts l =>
    cases l with
    | nil =>
      cases h
      rfl
    | cons st l =>
      obtain ⟨tty1, hrun, he⟩ := Option.map_eq_some_iff.1 h
      cases he
      cases st with
      | write =>
        simp only [CookStmt.run, TtyStruct.callWrite] at hrun
        split at hrun
        case h_1 => cases hrun
        case h_2 =>
          cases hrun
          rfl
      | putWrite | decHead | stopped | ttyIntr | count | putSecondary =>
        cases hrun
        rfl
  | loop | getch | fetched c =>
    cases h
    rfl
  | returned => cases h

/-- Reading leaves the settings. -/
lemma readStep_termios {j : Int} {cur cur' : Current} {k k' : ReadState}
    (h : readStep tty j cur k = some (k', tty', cur')) : tty'.termios = tty.termios := by
  cases k with
  | getch r =>
    simp only [readStep, Option.some.injEq, Prod.mk.injEq] at h
    obtain ⟨-, rfl, -⟩ := h
    unfold Reader.getch
    dsimp only
    split <;> rfl
  | loop r | asleep r | test r =>
    cases h
    rfl
  | returned n => cases h

end

namespace Terminals
variable {ι : Type*} [DecidableEq ι] {s s' : Terminals ι} {e : Event ι} {i : ι}

/-- Changing a terminal leaves them. -/
lemma update_termios {f : Fin 3 → TtyStruct} {ch : Fin 3} {tty : TtyStruct}
    (h : tty.termios = (f ch).termios) (ch' : Fin 3) :
    (update f ch tty ch').termios = (f ch').termios := by
  by_cases hc : ch' = ch
  · subst hc
    rw [update_self, h]
  · rw [update_of_ne hc]

omit [DecidableEq ι] in
/-- Changing a queue leaves the settings. -/
lemma setQueue_termios {p : Fin 3 × QueueName} {q : TtyQueue} (ch : Fin 3) :
    ((s.setQueue p q).tty ch).termios = (s.tty ch).termios := by
  have h : ({ s.tty p.1 with queue := update (s.tty p.1).queue p.2 q } : TtyStruct).termios =
      (s.tty p.1).termios := rfl
  exact update_termios h ch

/-- Nothing changes the settings. -/
lemma step_termios (h : s.step e = some s') (ch : Fin 3) :
    (s'.tty ch).termios = (s.tty ch).termios := by
  cases e with
  | cook i ch' | read i ch' nr | write i ch' buf nr =>
    obtain ⟨-, he⟩ := Option.ite_none_right_eq_some.1 h
    cases he
    rfl
  | run i =>
    simp only [step, run] at h
    split at h
    case h_1 => cases h
    case h_2 ch' k hk =>
      obtain ⟨⟨k', tty⟩, hstep, he⟩ := Option.map_eq_some_iff.1 h
      cases he
      exact update_termios (cookStep_termios hstep) ch
    case h_3 ch' k hk =>
      obtain ⟨⟨k', tty, cur⟩, hstep, he⟩ := Option.map_eq_some_iff.1 h
      cases he
      exact update_termios (readStep_termios hstep) ch
    case h_4 ch' k hk =>
      obtain ⟨⟨k', crFlag, put⟩, hstep, he⟩ := Option.map_eq_some_iff.1 h
      cases he
      cases put with
      | none => rfl
      | some x => exact update_termios ((s.tty ch').termios_onQueue .writeQ (.put x)) ch
  | receive k c =>
    cases h
    exact setQueue_termios ch
  | transmit k =>
    cases h
    split
    · rfl
    · exact setQueue_termios ch
  | signal i cur =>
    cases h
    rfl
  | tick =>
    cases h
    rfl

/-- The statement of a call of `tty_write` that an event executes. -/
lemma run_writing {ch : Fin 3} {k : WriteState} (h : s.run i = some s')
    (hk : s.act i = .writing ch k) : ∃ k' crFlag put,
      writeStep (s.tty ch) s.crFlag (s.cur i) k = some (k', crFlag, put) ∧
      s'.act i = .writing ch k' ∧
      s.move (.run i) = put.map fun x => ((ch, .writeQ), .put x) := by
  rw [run, hk] at h
  obtain ⟨⟨k', crFlag, put⟩, hstep, he⟩ := Option.map_eq_some_iff.1 h
  cases he
  refine ⟨k', crFlag, put, hstep, update_self .., ?_⟩
  rw [move, hk]
  show Option.map _ (k.move ..) = _
  rw [WriteState.move, hstep]
  cases put <;> rfl

/-- Every call of `tty_write` is all right. -/
def WritersOk (s : Terminals ι) : Prop := ∀ i ch k, s.act i = .writing ch k → k.Ok (s.tty ch)

/-- The writers stay right when one of them goes on. -/
lemma WritersOk.update {a : Activity} (hs : s.WritersOk)
    (ht : ∀ ch, (s'.tty ch).termios = (s.tty ch).termios) (hact : s'.act = update s.act i a)
    (ha : ∀ ch k, a = .writing ch k → k.Ok (s'.tty ch)) : s'.WritersOk := by
  intro j ch k hk
  rw [hact] at hk
  by_cases hj : j = i
  · subst hj
    rw [update_self] at hk
    exact ha ch k hk
  · rw [update_of_ne hj] at hk
    exact (hs j ch k hk).congr (ht ch)

omit [DecidableEq ι] in
/-- The writers stay right when none of them goes on. -/
lemma WritersOk.congr (hs : s.WritersOk) (ht : ∀ ch, (s'.tty ch).termios = (s.tty ch).termios)
    (hact : s'.act = s.act) : s'.WritersOk := by
  intro j ch k hk
  rw [hact] at hk
  exact (hs j ch k hk).congr (ht ch)

/-- A call of `tty_write` that begins is all right. -/
lemma ttyWrite_ok {tty : TtyStruct} {buf : Nat → BitVec 8} {nr : Int} : (ttyWrite buf nr).Ok tty := by
  unfold ttyWrite
  dsimp only
  split
  case isTrue => simp [WriteState.Ok, WriteState.Reported]
  case isFalse => exact ⟨rfl, rfl, fun h => by cases h⟩

/-- The step lemma: an undisturbed step keeps every call all right. -/
theorem writersOk_step (hs : s.WritersOk) (h : s.step e = some s') (hu : Undisturbed s e s') :
    s'.WritersOk := by
  have ht := step_termios h
  cases e with
  | cook i ch =>
    obtain ⟨-, he⟩ := Option.ite_none_right_eq_some.1 h
    cases he
    exact hs.update ht rfl fun _ _ hk => by cases hk
  | read i ch nr =>
    obtain ⟨-, he⟩ := Option.ite_none_right_eq_some.1 h
    cases he
    exact hs.update ht rfl fun _ _ hk => by cases hk
  | write i ch buf nr =>
    obtain ⟨-, he⟩ := Option.ite_none_right_eq_some.1 h
    refine hs.update ht (congrArg act (Option.some.inj he).symm) ?_
    rintro _ _ ⟨⟩
    exact ttyWrite_ok
  | run i =>
    simp only [step, run] at h
    split at h
    case h_1 => cases h
    case h_2 ch k hk =>
      obtain ⟨⟨k', tty⟩, hstep, he⟩ := Option.map_eq_some_iff.1 h
      cases he
      exact hs.update ht rfl fun _ _ hk => by cases hk
    case h_3 ch k hk =>
      obtain ⟨⟨k', tty, cur⟩, hstep, he⟩ := Option.map_eq_some_iff.1 h
      cases he
      exact hs.update ht rfl fun _ _ hk => by cases hk
    case h_4 ch k hk =>
      obtain ⟨⟨k', crFlag, put⟩, hstep, he⟩ := Option.map_eq_some_iff.1 h
      cases he
      refine hs.update ht rfl ?_
      rintro _ _ ⟨⟩
      refine WriteState.Ok.congr (ht ch) (writeStep_ok (hs i ch k hk) ?_ hstep)
      simp only [Undisturbed, hk] at hu
      cases k <;> exact hu
  | receive k c =>
    cases h
    exact hs.congr ht rfl
  | transmit k =>
    refine hs.congr ht ?_
    cases h
    split <;> rfl
  | signal i cur =>
    cases h
    exact hs.congr ht rfl
  | tick =>
    cases h
    exact hs.congr ht rfl

/-- What the calls record is what they put into the queues. -/
lemma recorded_step (h : s.step e = some s') : Recorded s e s' := by
  rintro i ch k rfl hk
  obtain ⟨k', crFlag, put, hstep, hact, hmove⟩ := run_writing h hk
  have hst := writeStep_stored hstep
  refine ⟨k', hact, ?_⟩
  cases put with
  | none => exact .inl ⟨hmove, by simpa using hst⟩
  | some x => exact .inr ⟨x, hmove, hst⟩

end Terminals

section
variable {ι : Type*} [DecidableEq ι]

/-- In every run whose steps are undisturbed, a returned call of `tty_write` has put into its `write_q`
    exactly the processed form of the bytes it reports as written. -/
theorem output_processed {s : Terminals ι} {tr} (ex : (terminals ι).Exec s tr)
    (h0 : (terminals ι).init s) (hu : Along Undisturbed s tr) :
    Always Processed s tr ∧ Along Recorded s tr := by
  have hinit : s.WritersOk := by
    intro i ch k hk
    rw [h0 i] at hk
    cases hk
  obtain ⟨hall, hrec⟩ := ex.along_of_inv (I := Terminals.WritersOk)
    (fun _ _ _ hs hst hd => ⟨Terminals.writersOk_step hs hst hd, Terminals.recorded_step hst⟩) hinit hu
  refine ⟨hall.mono ?_, hrec⟩
  intro s hs i
  cases hk : s.act i with
  | writing ch k =>
    have hok := hs i ch k hk
    cases k with
    | returned n w => exact hok
    | loop | asleep | test | char | flush => trivial
  | idle | cooking | reading => trivial

end

section
variable {ι : Type*} [DecidableEq ι]

instance (tty : Fin 3 → TtyStruct) (a : Activity) : Decidable (a.Reported tty) := by
  unfold Activity.Reported WriteState.Reported
  split
  · split <;> infer_instance
  · infer_instance

instance (a : Activity) : Decidable a.MidTurn := by
  unfold Activity.MidTurn
  split <;> infer_instance

instance [Fintype ι] (s : Terminals ι) : Decidable (Processed s) :=
  inferInstanceAs (Decidable (∀ i, (s.act i).Reported s.tty))

instance (s : Terminals ι) (e : Event ι) (s' : Terminals ι) : Decidable (Undisturbed s e s') := by
  unfold Undisturbed
  split
  · split <;> infer_instance
  · infer_instance

instance [Fintype ι] (s : Terminals ι) (e : Event ι) (s' : Terminals ι) :
    Decidable (Yields s e s') := by
  unfold Yields
  split <;> infer_instance

end

/-- Serial lines whose output has its newlines expanded; `write_q` of the first one holds all but one of
    the characters it has room for. -/
def expandingLines : Terminals (Fin 2) where
  tty ch := { rsTty 0x3f8 with
    termios := { iflag := 0, oflag := 0o1 ||| 0o4, lflag := 0, cc := initCCc }
    queue := fun
      | .writeQ => if ch = 1 then { data := 0, ring := {
          slot := fun _ => 97, head := 1022, tail := 0, head_lt := by decide, tail_lt := ttyBufSize_pos } }
        else .initial 0
      | _ => .initial 0 }
  crFlag := false
  jiffies := 0
  cur _ := { signal := 0, alarm := 0 }
  act _ := .idle

/-- A newline is written to the second serial line. -/
def writeNewline : List (Event (Fin 2)) := .write 1 2 (fun _ => 10) 1 :: List.replicate 8 (.run 1)

/-- Alone, it is expanded. -/
theorem output_processed_newline : ∃ tr, (terminals (Fin 2)).Exec expandingLines tr ∧
    Processed (last expandingLines tr) ∧
    ((last expandingLines tr).queue (2, .writeQ)).contents = [13, 10] := by
  have hrun : (trace Terminals.step expandingLines writeNewline).map (fun tr =>
      (decide (Along Undisturbed expandingLines tr),
        ((last expandingLines tr).queue (2, .writeQ)).contents)) =
      some (true, [13, 10]) := by decide
  obtain ⟨tr, htr, hlast⟩ := Option.map_eq_some_iff.1 hrun
  simp only [Prod.mk.injEq, decide_eq_true_eq] at hlast
  obtain ⟨hu, hq⟩ := hlast
  have ex : (terminals (Fin 2)).Exec expandingLines tr := System.exec_of_trace (fun _ _ _ => id) htr
  exact ⟨tr, ex, (output_processed ex (fun _ => rfl) hu).1.at_last, hq⟩

/-- A call on the first line inserts the CR for its newline, finds its queue full and calls
    `schedule()`; then a newline is written to the second line. -/
def interleavedNewlines : List (Event (Fin 2)) :=
  .write 0 1 (fun _ => 10) 1 :: List.replicate 5 (.run 0) ++
    .write 1 2 (fun _ => 10) 1 :: List.replicate 6 (.run 1)

/-- The second call finds the first one's `cr_flag` and puts its newline without a CR. -/
theorem newline_without_cr : ∃ tr, (terminals (Fin 2)).init expandingLines ∧
    (terminals (Fin 2)).Exec expandingLines tr ∧ Along Yields expandingLines tr ∧
    ¬ Always Processed expandingLines tr := by
  have hrun : (trace Terminals.step expandingLines interleavedNewlines).map (fun tr =>
      (decide (Along Yields expandingLines tr), decide (Processed (last expandingLines tr)))) =
      some (true, false) := by decide
  obtain ⟨tr, htr, hlast⟩ := Option.map_eq_some_iff.1 hrun
  simp only [Prod.mk.injEq, decide_eq_true_eq, decide_eq_false_iff_not] at hlast
  obtain ⟨hy, hp⟩ := hlast
  have ex : (terminals (Fin 2)).Exec expandingLines tr := System.exec_of_trace (fun _ _ _ => id) htr
  exact ⟨tr, fun _ => rfl, ex, hy, fun hall => hp hall.at_last⟩

end OldLinux.Tty
