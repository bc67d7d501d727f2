import Mathlib.Data.Finset.Option
import OldLinux.Hd.EndToEnd
import OldLinux.Lib.Program
import OldLinux.Lib.Threaded

/-!
# Adding a request while the disk completes another

`add_request` (`kernel/hd.c`) statement by statement, with the completion part of `read_intr` and
`write_intr` running between any two of its statements, at most once for a command that has been
started. One call of `rw_abs_hd` after the other fills a free slot of the request table and adds it.

`add_request` holds interrupts off the list only with `sorting`, under which a completion still takes
the head of the list away and starts nothing new. The invariant `Adding.Inv` says for each statement
what the list then is and where `tmp` stands in it. It survives every completion but one: when `tmp`
is the only request on the list, the completion frees it before the new request is linked behind
it (`HeadStays`).
-/

namespace OldLinux.Hd
open Lib Fs Function

/-- The statements of `add_request(req)`, with its local `tmp`; `outside` is no call. -/
inductive AddPc where
  | outside
  | checkNsector (req : Fin 32)
  | setSorting (req : Fin 32)
  | testThis (req : Fin 32)
  | setThis (req : Fin 32)
  | testNext (req tmp : Fin 32)
  | setNext (req tmp : Fin 32)
  | skipFirst (req tmp : Fin 32)
  | testEnd (req tmp : Fin 32)
  | testOrder (req tmp : Fin 32)
  | advance (req tmp : Fin 32)
  | setReqNext (req tmp : Fin 32)
  | setTmpNext (req tmp : Fin 32)
  | clearSorting
  | testDoHd
  | restart
  deriving DecidableEq

/-- The driver, the statement `add_request` is at, and the requests added and not completed. -/
structure Adding (β : Type*) where
  drv : Driver β
  pc : AddPc
  pending : Finset (Fin 32)

/-- `rw_abs_hd` fills a free slot and calls `add_request`; `add_request` executes a statement; a
    started command is completed. -/
inductive AddEvent (β : Type*) where
  | request (c : RwCall β)
  | statement
  | complete

namespace Driver
variable {β : Type*} [DecidableEq β]

/-- `rw_abs_hd` locks the buffer and fills the slot it has found. -/
def fill (s : Driver β) (c : RwCall β) (req : Fin 32) : Driver β :=
  { s with
    buffers := update s.buffers c.bh { s.buffers c.bh with bLock := true }
    request := update s.request req {
      hd := c.nr
      nsector := 2
      sector := c.sec
      head := c.head
      cyl := c.cyl
      cmd := if c.rw = .read then winRead else winWrite
      errors := 0
      bh := some c.bh
      next := none } }

/-- `hd_interrupt` with the completion part of the handler: `do_hd` is taken, the head of the list is
    marked done and freed, and `do_request` is called. -/
def complete (s : Driver β) : Result (Driver β) :=
  match s.thisRequest with
  | none => .fault
  | some r =>
    match (s.request r).bh with
    | none => .fault
    | some b => { s with doHd := none }.finish r b

end Driver

namespace Adding
variable {β : Type*} [DecidableEq β]

/-- A statement of `add_request`. -/
def statement (s : Adding β) : Option (Adding β) :=
  let next (r : Fin 32) : Option (Fin 32) := (s.drv.request r).next
  let go (pc : AddPc) : Option (Adding β) := some { s with pc := pc }
  match s.pc with
  | .outside => none
  | .checkNsector req => if (s.drv.request req).nsector ≠ 2 then none else go (.setSorting req)
  | .setSorting req => some { s with drv := { s.drv with sorting := true }, pc := .testThis req }
  | .testThis req =>
    match s.drv.thisRequest with
    | none => go (.setThis req)
    | some tmp => go (.testNext req tmp)
  | .setThis req => some { s with drv := { s.drv with thisRequest := some req }, pc := .clearSorting }
  | .testNext req tmp => go (if next tmp = none then .setNext req tmp else .skipFirst req tmp)
  | .setNext req tmp => some { s with drv := s.drv.setNext tmp (some req), pc := .clearSorting }
  | .skipFirst req tmp => (next tmp).bind fun u => go (.testEnd req u)
  | .testEnd req tmp => go (if next tmp = none then .setReqNext req tmp else .testOrder req tmp)
  | .testOrder req tmp => (next tmp).bind fun u =>
    if (inOrder (s.drv.request tmp) (s.drv.request req) ||
        !inOrder (s.drv.request tmp) (s.drv.request u)) &&
        inOrder (s.drv.request req) (s.drv.request u) then go (.setReqNext req tmp)
    else go (.advance req tmp)
  | .advance req tmp => (next tmp).bind fun u => go (.testEnd req u)
  | .setReqNext req tmp =>
    some { s with drv := s.drv.setNext req (next tmp), pc := .setTmpNext req tmp }
  | .setTmpNext req tmp => some { s with drv := s.drv.setNext tmp (some req), pc := .clearSorting }
  | .clearSorting => some { s with drv := { s.drv with sorting := false }, pc := .testDoHd }
  | .testDoHd => go (if s.drv.doHd = none then .restart else .outside)
  | .restart => s.drv.doRequest.toOption.map fun drv => { s with drv := drv, pc := .outside }

/-- The steps, as a function; a panic ends the run. The minor numbers `rw_hd` divides by 5 to get the
    drive are below 256, so the drive is never negative as an `int`. -/
def step (s : Adding β) : AddEvent β → Option (Adding β)
  | .request c =>
    if s.pc = .outside ∧ ¬ c.nr.slt 0 then s.drv.freeSlot.map fun req =>
      { drv := s.drv.fill c req, pc := .checkNsector req, pending := insert req s.pending }
    else none
  | .statement => s.statement
  | .complete =>
    if s.drv.doHd = none then none
    else s.drv.complete.toOption.map fun drv =>
      { s with drv := drv, pending := s.pending \ s.drv.thisRequest.toFinset }

end Adding

section
variable {β : Type*} [DecidableEq β]

/-- The driver as `hd_init` leaves it, outside `add_request`. -/
def adding : System (Adding β) (AddEvent β) where
  init s := (∀ r, (s.drv.request r).hd = -1 ∧ (s.drv.request r).next = none) ∧
    s.drv.thisRequest = none ∧ s.drv.doHd = none ∧ s.drv.sorting = false ∧ s.pc = .outside ∧
    s.pending = ∅
  step s e s' := s.step e = some s'

/-- The request is on the list that starts at `this_request`. -/
def Driver.Listed (s : Driver β) (r : Fin 32) : Prop :=
  ∃ h, s.thisRequest = some h ∧
    Relation.ReflTransGen (fun a b => (s.request a).next = some b) h r

/-- Outside `add_request` every request that was added and not completed is on the list, and if the list
    is not empty a command has been started. -/
def NoneLost (s : Adding β) : Prop :=
  s.pc = .outside → (∀ r ∈ s.pending, s.drv.Listed r) ∧
    (s.drv.thisRequest ≠ none → s.drv.doHd ≠ none)

/-- No completion comes between `tmp=this_request` and `tmp->next=req` when `tmp` is the only request on
    the list. -/
def HeadStays (s : Adding β) (e : AddEvent β) (_ : Adding β) : Prop :=
  match e with
  | .complete =>
    match s.pc with
    | .testNext _ tmp | .setNext _ tmp => (s.drv.request tmp).next ≠ none
    | _ => True
  | _ => True

/-! ## The invariant -/

/-- The pointers of the request table. -/
def Driver.nexts (s : Driver β) : Fin 32 → Option (Fin 32) := fun r => (s.request r).next

/-- `tmp` is on the list, and stays there whatever completes: either it is not the head, or no command
    is under way. -/
def Driver.Behind (s : Driver β) (l : List (Fin 32)) (tmp : Fin 32) : Prop :=
  ∃ u v, l = u ++ tmp :: v ∧ (u = [] → s.doHd = none)

/-- The request being added is in a slot of its own, and everything else that is pending is on the
    list. -/
structure Adding.Fresh (s : Adding β) (l : List (Fin 32)) (req : Fin 32) : Prop where
  notMem : req ∉ l
  pending : s.pending = insert req l.toFinset
  used : ¬ (s.drv.request req).hd.slt 0

/-- What holds at each statement, with the list that starts at `this_request`. -/
def Adding.AtPc (s : Adding β) (l : List (Fin 32)) : Prop :=
  match s.pc with
  | .outside => s.pending = l.toFinset ∧ s.drv.sorting = false ∧ (s.drv.doHd = none → l = [])
  | .checkNsector req | .setSorting req => s.Fresh l req ∧ s.drv.nexts req = none ∧
    s.drv.sorting = false
  | .testThis req => s.Fresh l req ∧ s.drv.nexts req = none ∧ s.drv.sorting = true
  | .setThis req => s.Fresh l req ∧ s.drv.nexts req = none ∧ s.drv.sorting = true ∧ l = []
  | .testNext req tmp => s.Fresh l req ∧ s.drv.nexts req = none ∧ s.drv.sorting = true ∧
    (l.head? = some tmp ∨ s.drv.doHd = none ∧ l ≠ [] ∧ s.drv.nexts tmp = l.head?)
  | .setNext req tmp => s.Fresh l req ∧ s.drv.nexts req = none ∧ s.drv.sorting = true ∧ l = [tmp]
  | .skipFirst req tmp => s.Fresh l req ∧ s.drv.nexts req = none ∧ s.drv.sorting = true ∧
    ((∃ u v, l = tmp :: u :: v) ∨ s.drv.doHd = none ∧ l ≠ [] ∧ s.drv.nexts tmp = l.head?)
  | .testEnd req tmp | .testOrder req tmp | .advance req tmp | .setReqNext req tmp =>
    s.Fresh l req ∧ s.drv.sorting = true ∧ s.drv.Behind l tmp
  | .setTmpNext req tmp => s.Fresh l req ∧ s.drv.sorting = true ∧ s.drv.Behind l tmp ∧
    s.drv.nexts req = s.drv.nexts tmp
  | .clearSorting => s.pending = l.toFinset ∧ s.drv.sorting = true
  | .testDoHd => s.pending = l.toFinset ∧ s.drv.sorting = false
  | .restart => s.pending = l.toFinset ∧ s.drv.sorting = false ∧ s.drv.doHd = none

/-- The invariant: `this_request` starts a list of requests in use without repetition, a command is under
    way only when there is one, and `add_request` is where it should be. -/
structure Adding.Inv (s : Adding β) (l : List (Fin 32)) : Prop where
  threaded : Threaded s.drv.nexts s.drv.thisRequest l none
  nodup : l.Nodup
  used : ∀ r ∈ l, ¬ (s.drv.request r).hd.slt 0
  command : s.drv.doHd ≠ none → l ≠ []
  atPc : s.AtPc l

end

/-! ## What the functions do to the list -/

namespace Driver
variable {β : Type*} {s s' : Driver β} {a q : Fin 32} {u : Option (Fin 32)}

/-- The pointers after one has been set. -/
@[simp] lemma nexts_setNext : (s.setNext a u).nexts = update s.nexts a u := by
  funext b
  by_cases hb : b = a
  · subst hb
    simp [nexts, setNext]
  · simp [nexts, setNext, hb]

/-- Setting a pointer leaves the drives. -/
@[simp] lemma hd_setNext : ((s.setNext a u).request q).hd = (s.request q).hd := by
  by_cases hq : q = a
  · subst hq
    simp [setNext]
  · simp [setNext, hq]

variable [DecidableEq β]

omit [DecidableEq β] in
/-- `hd_out` starts a command and leaves the list. -/
lemma hdOut_spec {d b c e f : BitVec 32} {i : Intr} (h : s.hdOut d b c e f i = .ret s') :
    s'.request = s.request ∧ s'.thisRequest = s.thisRequest ∧ s'.sorting = s.sorting ∧
      s'.doHd ≠ none := by
  obtain ⟨msg, hp⟩ | ⟨-, hr⟩ := hdOut_cases s d b c e f i
  · rw [hp] at h
    cases h
  · rw [hr] at h
    cases h
    exact ⟨rfl, rfl, rfl, Option.some_ne_none i⟩

omit [DecidableEq β] in
/-- `do_request` leaves the list. Unless `sorting` is set, a command is under way afterwards exactly if
    there is a request. -/
lemma doRequest_spec (h : s.doRequest = .ret s') :
    s'.request = s.request ∧ s'.thisRequest = s.thisRequest ∧ s'.sorting = s.sorting ∧
      (s.sorting = true → s'.doHd = s.doHd) ∧
      (s.sorting = false → (s'.doHd = none ↔ s.thisRequest = none)) := by
  unfold doRequest at h
  split at h
  case isTrue hs =>
    cases h
    exact ⟨rfl, rfl, rfl, fun _ => rfl, fun hf => absurd hs (by simp [hf])⟩
  case isFalse hs =>
    split at h
    case h_1 hn =>
      cases h
      exact ⟨rfl, rfl, rfl, fun ht => absurd ht hs, fun _ => by simp [hn]⟩
    case h_2 r hr =>
      have hout : s'.request = s.request ∧ s'.thisRequest = s.thisRequest ∧
          s'.sorting = s.sorting ∧ s'.doHd ≠ none := by
        dsimp only at h
        split at h
        · split at h
          · cases h
          · obtain ⟨hreq, hthis, hsort, hne⟩ := hdOut_spec h
            exact ⟨hreq, hthis, hsort, hne⟩
        · split at h
          · exact hdOut_spec h
          · cases h
      obtain ⟨hreq, hthis, hsort, hne⟩ := hout
      exact ⟨hreq, hthis, hsort, fun ht => absurd ht hs, fun _ => by simp [hne, hr]⟩

/-- A completion takes the head off the list and frees its slot. It starts the next command unless
    `sorting` is set. -/
lemma complete_spec (h : s.complete = .ret s') :
    ∃ r, s.thisRequest = some r ∧ s'.thisRequest = s.nexts r ∧ s'.nexts = s.nexts ∧
      (∀ q, q ≠ r → (s'.request q).hd = (s.request q).hd) ∧ s'.sorting = s.sorting ∧
      (s.sorting = true → s'.doHd = none) ∧
      (s.sorting = false → (s'.doHd = none ↔ s.nexts r = none)) := by
  unfold complete at h
  split at h
  case h_1 => cases h
  case h_2 r hr =>
    split at h
    case h_1 => cases h
    case h_2 b hb =>
      obtain ⟨hreq, hthis, hsort, hyes, hno⟩ := doRequest_spec h
      refine ⟨r, hr, hthis, ?_, ?_, hsort, hyes, hno⟩
      · funext q
        simp only [nexts, hreq, update_apply]
        split
        case isTrue hq => rw [hq]
        case isFalse => rfl
      · intro q hq
        simp only [hreq, update_apply, if_neg hq]

/-- Filling a slot leaves the other ones. -/
lemma nexts_fill {c : RwCall β} : (s.fill c a).nexts = update s.nexts a none := by
  funext b
  by_cases hb : b = a
  · subst hb
    simp [nexts, fill]
  · simp [nexts, fill, hb]

/-- Filling another slot leaves the drive of a request. -/
lemma hd_fill {c : RwCall β} (hq : q ≠ a) : ((s.fill c a).request q).hd = (s.request q).hd := by
  simp [fill, hq]

end Driver

/-! ## The invariant along a step -/

namespace Adding
variable {β : Type*} {s s' : Adding β} {l : List (Fin 32)} {req tmp r : Fin 32}

/-- Behind `tmp` the new request is one more element of the list. -/
lemma toFinset_insert_mid {u v : List (Fin 32)} :
    insert req (u ++ tmp :: v).toFinset = (u ++ tmp :: req :: v).toFinset := by
  ext q
  simp only [Finset.mem_insert, List.mem_toFinset, List.mem_append, List.mem_cons]
  tauto

/-- A request that is linked in behind `tmp`. -/
lemma Fresh.nodup_mid {u v : List (Fin 32)} (hf : s.Fresh (u ++ tmp :: v) req)
    (hn : (u ++ tmp :: v).Nodup) : (u ++ tmp :: req :: v).Nodup := by
  have hp : (u ++ tmp :: req :: v).Perm (req :: (u ++ tmp :: v)) := by
    rw [show u ++ tmp :: req :: v = (u ++ [tmp]) ++ req :: v by simp,
      show req :: (u ++ tmp :: v) = req :: ((u ++ [tmp]) ++ v) by simp]
    exact List.perm_middle
  exact hp.nodup_iff.2 (List.nodup_cons.2 ⟨hf.notMem, hn⟩)

/-- Only the pointers, the states of the slots and what is pending matter to a request on its way. -/
lemma Fresh.congr (hf : s.Fresh l req) (hp : s'.pending = s.pending)
    (hh : (s'.drv.request req).hd = (s.drv.request req).hd) : s'.Fresh l req :=
  ⟨hf.notMem, hp.trans hf.pending, by rw [hh]; exact hf.used⟩

/-- The slot that is filled was free, so the request in it is not on the list. -/
lemma Inv.request [DecidableEq β] {c : RwCall β} (hs : s.Inv l) (h : s.step (.request c) = some s') : s'.Inv l := by
  obtain ⟨⟨hpc', hnr⟩, hslot⟩ := Option.ite_none_right_eq_some.1 h
  obtain ⟨req, hfree, rfl⟩ := Option.map_eq_some_iff.1 hslot
  have hat := hs.atPc
  rw [AtPc, hpc'] at hat
  obtain ⟨hpend, hsort, -⟩ := hat
  have hmem : req ∉ l := fun hm => hs.used req hm (Driver.hd_of_freeSlot hfree)
  refine ⟨?_, hs.nodup, ?_, hs.command, ⟨hmem, ?_, ?_⟩, ?_, hsort⟩
  · rw [Driver.nexts_fill]
    exact hs.threaded.update hmem none
  · intro r hr
    have hne : r ≠ req := fun he => hmem (he ▸ hr)
    rw [Driver.hd_fill hne]
    exact hs.used r hr
  · show insert req s.pending = _
    rw [hpend]
  · show ¬ (((s.drv.fill c req).request req).hd.slt 0 = true)
    simpa [Driver.fill] using hnr
  · rw [Driver.nexts_fill, update_self]

/-- What a completion does while `add_request` stands still: the head `r` of the list is done. -/
structure Completes (s s' : Adding β) (r : Fin 32) : Prop where
  busy : s.drv.doHd ≠ none
  head : s.drv.thisRequest = some r
  thisRequest : s'.drv.thisRequest = s.drv.nexts r
  nexts : s'.drv.nexts = s.drv.nexts
  hd : ∀ q, q ≠ r → (s'.drv.request q).hd = (s.drv.request q).hd
  sorting : s'.drv.sorting = s.drv.sorting
  sorted : s.drv.sorting = true → s'.drv.doHd = none
  unsorted : s.drv.sorting = false → (s'.drv.doHd = none ↔ s.drv.nexts r = none)
  pc : s'.pc = s.pc
  pending : s'.pending = s.pending \ {r}

/-- The pointers are what they were. -/
lemma Completes.nexts_eq (hc : s.Completes s' r) {u : Option (Fin 32)} (hn : s.drv.nexts req = u) :
    s'.drv.nexts req = u := by
  rw [hc.nexts]
  exact hn

/-- What is pending without the request that is done. -/
lemma Completes.done (hc : s.Completes s' r) (hrl : r ∉ l) (hp : s.pending = (r :: l).toFinset) :
    s'.pending = l.toFinset := by
  rw [hc.pending, hp]
  ext q
  simp only [Finset.mem_sdiff, List.mem_toFinset, List.mem_cons, Finset.mem_singleton]
  constructor
  · rintro ⟨rfl | hq, hne⟩
    · exact absurd rfl hne
    · exact hq
  · intro hq
    exact ⟨.inr hq, fun hqr => hrl (hqr ▸ hq)⟩

/-- The request on its way is not the one that is done. -/
lemma Completes.fresh (hc : s.Completes s' r) (hrl : r ∉ l) (hf : s.Fresh (r :: l) req) : s'.Fresh l req := by
  have hne : req ≠ r := fun hq => hf.notMem (hq ▸ List.mem_cons_self ..)
  refine ⟨fun hm => hf.notMem (List.mem_cons_of_mem _ hm), ?_, ?_⟩
  · have hdone : (r :: l).toFinset \ {r} = l.toFinset := by
      rw [List.toFinset_cons, Finset.insert_sdiff_of_mem _ (Finset.mem_singleton_self r)]
      exact Finset.sdiff_singleton_eq_erase r _ ▸ Finset.erase_eq_of_notMem (fun hm => hrl (List.mem_toFinset.1 hm))
    rw [hc.pending, hf.pending, Finset.insert_sdiff_of_notMem, hdone]
    simp [hne]
  · rw [hc.hd req hne]
    exact hf.used

/-- A place behind the head is still there. -/
lemma Completes.behind (hc : s.Completes s' r) (hsrt : s.drv.sorting = true) (hb : s.drv.Behind (r :: l) tmp) :
    s'.drv.Behind l tmp := by
  obtain ⟨u, v, hl, hu⟩ := hb
  cases u with
  | nil => exact absurd (hu rfl) hc.busy
  | cons q u =>
    cases hl
    exact ⟨u, v, rfl, fun _ => hc.sorted hsrt⟩

/-- A completion. -/
lemma completes [DecidableEq β] (h : s.step .complete = some s') : ∃ r, s.Completes s' r := by
  obtain ⟨hdo, hcomp⟩ := Option.ite_none_left_eq_some.1 h
  obtain ⟨drv, hret, rfl⟩ := Option.map_eq_some_iff.1 hcomp
  obtain ⟨r, hr, hthis, hnext, hhd, hsort, hsorted, hunsorted⟩ :=
    Driver.complete_spec (Result.toOption_eq_some.1 hret)
  exact ⟨r, hdo, hr, hthis, hnext, hhd, hsort, hsorted, hunsorted, rfl, by rw [hr, Option.toFinset_some]⟩

/-- `add_request` is where it should be after a completion that does not take the place `tmp` away. -/
lemma Completes.atPc (hc : s.Completes s' r) (hs : s.Inv (r :: l)) (hk : HeadStays s .complete s') : s'.AtPc l := by
  have hat := hs.atPc
  have hrl := (List.nodup_cons.1 hs.nodup).1
  have hhead : s.drv.nexts r = l.head? := hs.threaded.2.head
  unfold AtPc at hat ⊢
  unfold HeadStays at hk
  rw [hc.pc]
  cases hpc : s.pc with
  | outside =>
    simp only [hpc] at hat
    obtain ⟨hp, hsrt, -⟩ := hat
    refine ⟨hc.done hrl hp, hc.sorting.trans hsrt, fun hd => ?_⟩
    have hnil := (hc.unsorted hsrt).1 hd
    rw [hhead] at hnil
    exact List.head?_eq_none_iff.1 hnil
  | checkNsector req | setSorting req | testThis req =>
    simp only [hpc] at hat
    obtain ⟨hf, hn, hsrt⟩ := hat
    exact ⟨hc.fresh hrl hf, hc.nexts_eq hn, hc.sorting.trans hsrt⟩
  | setThis req =>
    simp only [hpc] at hat
    obtain ⟨-, -, -, hnil⟩ := hat
    cases hnil
  | testNext req tmp =>
    -- `tmp` is the head, and there is another request behind it
    simp only [hpc] at hat hk
    obtain ⟨hf, hn, hsrt, hhd | ⟨hno, -, -⟩⟩ := hat
    · obtain rfl : r = tmp := Option.some.inj hhd
      refine ⟨hc.fresh hrl hf, hc.nexts_eq hn, hc.sorting.trans hsrt,
        .inr ⟨hc.sorted hsrt, ?_, hc.nexts_eq hhead⟩⟩
      rintro rfl
      exact hk hhead
    · exact absurd hno hc.busy
  | setNext req tmp =>
    simp only [hpc] at hat hk
    obtain ⟨-, -, -, hl⟩ := hat
    cases hl
    exact absurd hhead hk
  | skipFirst req tmp =>
    simp only [hpc] at hat
    obtain ⟨hf, hn, hsrt, ⟨u, v, hl⟩ | ⟨hno, -, -⟩⟩ := hat
    · cases hl
      exact ⟨hc.fresh hrl hf, hc.nexts_eq hn, hc.sorting.trans hsrt,
        .inr ⟨hc.sorted hsrt, List.cons_ne_nil _ _, hc.nexts_eq hhead⟩⟩
    · exact absurd hno hc.busy
  | testEnd req tmp | testOrder req tmp | advance req tmp | setReqNext req tmp =>
    simp only [hpc] at hat
    obtain ⟨hf, hsrt, hb⟩ := hat
    exact ⟨hc.fresh hrl hf, hc.sorting.trans hsrt, hc.behind hsrt hb⟩
  | setTmpNext req tmp =>
    simp only [hpc] at hat
    obtain ⟨hf, hsrt, hb, hn⟩ := hat
    exact ⟨hc.fresh hrl hf, hc.sorting.trans hsrt, hc.behind hsrt hb, by rw [hc.nexts]; exact hn⟩
  | clearSorting | testDoHd =>
    simp only [hpc] at hat
    exact ⟨hc.done hrl hat.1, hc.sorting.trans hat.2⟩
  | restart =>
    simp only [hpc] at hat
    exact absurd hat.2.2 hc.busy

/-- A completion that does not take the place `tmp` away. -/
lemma Inv.complete [DecidableEq β] (hs : s.Inv l) (h : s.step .complete = some s') (hk : HeadStays s .complete s') :
    ∃ l', s'.Inv l' := by
  obtain ⟨r, hc⟩ := completes h
  cases l with
  | nil => exact absurd rfl (hs.command hc.busy)
  | cons r' l =>
    obtain ⟨he, hth⟩ := hs.threaded
    obtain rfl : r = r' := Option.some.inj (hc.head.symm.trans he)
    obtain ⟨hrl, hnd⟩ := List.nodup_cons.1 hs.nodup
    refine ⟨l, ?_, hnd, ?_, ?_, hc.atPc hs hk⟩
    · rw [hc.nexts, hc.thisRequest]
      exact hth
    · intro q hq
      rw [hc.hd q fun hqr => hrl (hqr ▸ hq)]
      exact hs.used q (List.mem_cons_of_mem _ hq)
    · intro hne hl
      cases hsrt : s.drv.sorting with
      | true => exact hne (hc.sorted hsrt)
      | false => exact hne ((hc.unsorted hsrt).2 (by rw [hth.head, hl]; rfl))

/-- The rest of the invariant when neither the list nor the table changes. -/
lemma Inv.stay (hs : s.Inv l) (hreq : s'.drv.request = s.drv.request)
    (hthis : s'.drv.thisRequest = s.drv.thisRequest) (hdo : s'.drv.doHd ≠ none → l ≠ [])
    (hat : s'.AtPc l) : s'.Inv l := by
  have hn : s'.drv.nexts = s.drv.nexts := by
    funext q
    rw [Driver.nexts, hreq]
    rfl
  refine ⟨?_, hs.nodup, ?_, hdo, hat⟩
  · rw [hn, hthis]
    exact hs.threaded
  · rw [hreq]
    exact hs.used

/-- `if (req->nsector!=2) panic`. -/
lemma Inv.checkNsector (hs : s.Inv l) (hpc : s.pc = .checkNsector req) (h : s.statement = some s') :
    ∃ l', s'.Inv l' := by
  have hat := hs.atPc
  simp only [Adding.statement, hpc] at h
  simp only [AtPc, hpc] at hat
  obtain ⟨-, he⟩ := Option.ite_none_left_eq_some.1 h
  cases he
  obtain ⟨hf, hn, hsrt⟩ := hat
  exact ⟨l, hs.stay rfl rfl hs.command ⟨hf.congr rfl rfl, hn, hsrt⟩⟩

/-- `sorting=1`. -/
lemma Inv.setSorting (hs : s.Inv l) (hpc : s.pc = .setSorting req) (h : s.statement = some s') :
    ∃ l', s'.Inv l' := by
  have hat := hs.atPc
  simp only [Adding.statement, hpc] at h
  simp only [AtPc, hpc] at hat
  cases h
  exact ⟨l, hs.stay rfl rfl hs.command ⟨hat.1.congr rfl rfl, hat.2.1, rfl⟩⟩

/-- `if (!(tmp=this_request))`. -/
lemma Inv.testThis (hs : s.Inv l) (hpc : s.pc = .testThis req) (h : s.statement = some s') :
    ∃ l', s'.Inv l' := by
  have hat := hs.atPc
  have hth := hs.threaded
  simp only [Adding.statement, hpc] at h
  simp only [AtPc, hpc] at hat
  obtain ⟨hf, hn, hsrt⟩ := hat
  split at h
  case h_1 hnone =>
    cases h
    rw [hth.head, List.head?_eq_none_iff] at hnone
    exact ⟨l, hs.stay rfl rfl hs.command ⟨hf.congr rfl rfl, hn, hsrt, hnone⟩⟩
  case h_2 tmp hsome =>
    cases h
    rw [hth.head] at hsome
    exact ⟨l, hs.stay rfl rfl hs.command ⟨hf.congr rfl rfl, hn, hsrt, .inl hsome⟩⟩

/-- `this_request=req`: the list was empty. -/
lemma Inv.setThis (hs : s.Inv l) (hpc : s.pc = .setThis req) (h : s.statement = some s') :
    ∃ l', s'.Inv l' := by
  have hat := hs.atPc
  simp only [Adding.statement, hpc] at h
  simp only [AtPc, hpc] at hat
  cases h
  obtain ⟨hf, hn, hsrt, rfl⟩ := hat
  refine ⟨[req], ⟨rfl, hn⟩, List.nodup_singleton _, ?_, fun _ => List.cons_ne_nil _ _, ?_, hsrt⟩
  · intro q hq
    rw [List.mem_singleton.1 hq]
    exact hf.used
  · exact hf.pending

/-- `if (!(tmp->next))`: `tmp` is the head, or a request that a completion has taken off since. -/
lemma Inv.testNext (hs : s.Inv l) (hpc : s.pc = .testNext req tmp) (h : s.statement = some s') :
    ∃ l', s'.Inv l' := by
  have hat := hs.atPc
  have hth := hs.threaded
  simp only [Adding.statement, hpc] at h
  simp only [AtPc, hpc] at hat
  cases h
  obtain ⟨hf, hn, hsrt, hwhere⟩ := hat
  refine ⟨l, hs.stay rfl rfl hs.command ?_⟩
  by_cases hnil : (s.drv.request tmp).next = none
  · rw [if_pos hnil]
    refine ⟨hf.congr rfl rfl, hn, hsrt, ?_⟩
    obtain hhd | ⟨-, hne, hnext⟩ := hwhere
    · obtain ⟨t, ht⟩ := List.head?_eq_some_iff.1 hhd
      rw [ht] at hth
      have hend := hth.2.head
      rw [show s.drv.nexts tmp = none from hnil, eq_comm, List.head?_eq_none_iff] at hend
      rw [ht, hend]
    · rw [show s.drv.nexts tmp = none from hnil, eq_comm, List.head?_eq_none_iff] at hnext
      exact absurd hnext hne
  · rw [if_neg hnil]
    refine ⟨hf.congr rfl rfl, hn, hsrt, ?_⟩
    obtain hhd | hgone := hwhere
    · obtain ⟨t, ht⟩ := List.head?_eq_some_iff.1 hhd
      rw [ht] at hth
      have hend := hth.2.head
      cases t with
      | nil => exact absurd hend hnil
      | cons u v => exact .inl ⟨u, v, ht⟩
    · exact .inr hgone

/-- `tmp->next=req`: `tmp` was the only request. -/
lemma Inv.setNext (hs : s.Inv l) (hpc : s.pc = .setNext req tmp) (h : s.statement = some s') :
    ∃ l', s'.Inv l' := by
  have hat := hs.atPc
  have hth := hs.threaded
  simp only [Adding.statement, hpc] at h
  simp only [AtPc, hpc] at hat
  cases h
  obtain ⟨hf, hn, hsrt, rfl⟩ := hat
  have hne : tmp ≠ req := fun he => hf.notMem (he ▸ List.mem_singleton_self _)
  have hlink : Threaded (update s.drv.nexts tmp (some req)) s.drv.thisRequest ([] ++ [tmp, req]) none :=
    hth.link (List.not_mem_nil) (List.not_mem_nil) hne (hn.trans hth.2.symm)
  refine ⟨[tmp, req], ?_, ?_, ?_, fun _ => List.cons_ne_nil _ _, ?_, hsrt⟩
  · rw [Driver.nexts_setNext]
    exact hlink
  · exact hf.nodup_mid (u := []) hs.nodup
  · intro q hq
    rw [Driver.hd_setNext]
    cases List.mem_pair.1 hq with
    | inl he => exact he ▸ hs.used tmp (List.mem_singleton_self _)
    | inr he => exact he ▸ hf.used
  · exact hf.pending.trans (toFinset_insert_mid (u := []))

/-- `tmp=tmp->next`. -/
lemma Inv.skipFirst (hs : s.Inv l) (hpc : s.pc = .skipFirst req tmp) (h : s.statement = some s') :
    ∃ l', s'.Inv l' := by
  have hat := hs.atPc
  have hth := hs.threaded
  simp only [Adding.statement, hpc] at h
  simp only [AtPc, hpc] at hat
  obtain ⟨hf, -, hsrt, hwhere⟩ := hat
  obtain ⟨u, hu, he⟩ := Option.bind_eq_some_iff.1 h
  cases he
  refine ⟨l, hs.stay rfl rfl hs.command ⟨hf.congr rfl rfl, hsrt, ?_⟩⟩
  obtain ⟨u', v, hl⟩ | ⟨hno, -, hnext⟩ := hwhere
  · rw [hl] at hth
    obtain rfl : u = u' := Option.some.inj (hu.symm.trans hth.2.1)
    exact ⟨[tmp], v, hl, fun hc => by cases hc⟩
  · obtain ⟨t, ht⟩ := List.head?_eq_some_iff.1 (hnext.symm.trans hu)
    exact ⟨[], t, ht, fun _ => hno⟩

/-- The test of the `for`. -/
lemma Inv.testEnd (hs : s.Inv l) (hpc : s.pc = .testEnd req tmp) (h : s.statement = some s') :
    ∃ l', s'.Inv l' := by
  have hat := hs.atPc
  simp only [Adding.statement, hpc] at h
  simp only [AtPc, hpc] at hat
  cases h
  refine ⟨l, hs.stay rfl rfl hs.command ?_⟩
  split <;> exact ⟨hat.1.congr rfl rfl, hat.2⟩

/-- The comparison of the elevator. -/
lemma Inv.testOrder (hs : s.Inv l) (hpc : s.pc = .testOrder req tmp) (h : s.statement = some s') :
    ∃ l', s'.Inv l' := by
  have hat := hs.atPc
  simp only [Adding.statement, hpc] at h
  simp only [AtPc, hpc] at hat
  obtain ⟨u, -, he⟩ := Option.bind_eq_some_iff.1 h
  split at he
  all_goals
    cases he
    exact ⟨l, hs.stay rfl rfl hs.command ⟨hat.1.congr rfl rfl, hat.2⟩⟩

/-- The next turn of the `for`. -/
lemma Inv.advance (hs : s.Inv l) (hpc : s.pc = .advance req tmp) (h : s.statement = some s') :
    ∃ l', s'.Inv l' := by
  have hat := hs.atPc
  have hth := hs.threaded
  simp only [Adding.statement, hpc] at h
  simp only [AtPc, hpc] at hat
  obtain ⟨hf, hsrt, u, v, rfl, -⟩ := hat
  obtain ⟨t, ht, he⟩ := Option.bind_eq_some_iff.1 h
  cases he
  refine ⟨_, hs.stay rfl rfl hs.command ⟨hf.congr rfl rfl, hsrt, ?_⟩⟩
  have hrest := (threaded_split.1 hth).2.head
  obtain ⟨w, hw⟩ := List.head?_eq_some_iff.1 (hrest.symm.trans ht)
  exact ⟨u ++ [tmp], w, by rw [hw]; simp, fun hc => by simp at hc⟩

/-- `req->next=tmp->next`: the new request is not in the list yet. -/
lemma Inv.setReqNext (hs : s.Inv l) (hpc : s.pc = .setReqNext req tmp) (h : s.statement = some s') :
    ∃ l', s'.Inv l' := by
  have hat := hs.atPc
  have hth := hs.threaded
  simp only [Adding.statement, hpc] at h
  simp only [AtPc, hpc] at hat
  cases h
  obtain ⟨hf, hsrt, hb⟩ := hat
  have hne : tmp ≠ req := by
    rintro rfl
    obtain ⟨u, v, hl, -⟩ := hb
    exact hf.notMem (hl ▸ List.mem_append_right _ (List.mem_cons_self ..))
  refine ⟨l, ?_, hs.nodup, ?_, hs.command, ⟨hf.notMem, hf.pending, ?_⟩, hsrt, hb, ?_⟩
  · rw [Driver.nexts_setNext]
    exact hth.update hf.notMem _
  · intro q hq
    rw [Driver.hd_setNext]
    exact hs.used q hq
  · rw [Driver.hd_setNext]
    exact hf.used
  · rw [Driver.nexts_setNext, update_self, update_of_ne hne]
    rfl

/-- `tmp->next=req`: now it is, behind `tmp`. -/
lemma Inv.setTmpNext (hs : s.Inv l) (hpc : s.pc = .setTmpNext req tmp) (h : s.statement = some s') :
    ∃ l', s'.Inv l' := by
  have hat := hs.atPc
  have hth := hs.threaded
  simp only [Adding.statement, hpc] at h
  simp only [AtPc, hpc] at hat
  cases h
  obtain ⟨hf, hsrt, ⟨u, v, rfl, -⟩, hn⟩ := hat
  have hmid := List.nodup_middle.1 hs.nodup
  have hnotMem := (List.nodup_cons.1 hmid).1
  rw [List.mem_append, not_or] at hnotMem
  have hne : tmp ≠ req := by
    rintro rfl
    exact hf.notMem (List.mem_append_right _ (List.mem_cons_self ..))
  refine ⟨u ++ tmp :: req :: v, ?_, hf.nodup_mid hs.nodup, ?_, fun _ => by simp, ?_, hsrt⟩
  · rw [Driver.nexts_setNext]
    exact hth.link hnotMem.1 hnotMem.2 hne hn
  · intro q hq
    rw [Driver.hd_setNext]
    have hq' : q = req ∨ q ∈ u ++ tmp :: v := by
      rw [← List.mem_toFinset, ← toFinset_insert_mid, Finset.mem_insert, List.mem_toFinset] at hq
      exact hq
    cases hq' with
    | inl he => exact he ▸ hf.used
    | inr hm => exact hs.used q hm
  · exact hf.pending.trans toFinset_insert_mid

/-- `sorting=0`. -/
lemma Inv.clearSorting (hs : s.Inv l) (hpc : s.pc = .clearSorting) (h : s.statement = some s') :
    ∃ l', s'.Inv l' := by
  have hat := hs.atPc
  simp only [Adding.statement, hpc] at h
  simp only [AtPc, hpc] at hat
  cases h
  exact ⟨l, hs.stay rfl rfl hs.command ⟨hat.1, rfl⟩⟩

/-- `if (!do_hd)`. -/
lemma Inv.testDoHd (hs : s.Inv l) (hpc : s.pc = .testDoHd) (h : s.statement = some s') :
    ∃ l', s'.Inv l' := by
  have hat := hs.atPc
  simp only [Adding.statement, hpc] at h
  simp only [AtPc, hpc] at hat
  cases h
  refine ⟨l, hs.stay rfl rfl hs.command ?_⟩
  split
  case isTrue hd => exact ⟨hat.1, hat.2, hd⟩
  case isFalse hd => exact ⟨hat.1, hat.2, fun hn => absurd hn hd⟩

/-- `do_request()`: nothing was under way, and it starts the head if there is one. -/
lemma Inv.restart (hs : s.Inv l) (hpc : s.pc = .restart) (h : s.statement = some s') :
    ∃ l', s'.Inv l' := by
  have hat := hs.atPc
  have hth := hs.threaded
  simp only [Adding.statement, hpc] at h
  simp only [AtPc, hpc] at hat
  obtain ⟨drv, hret, rfl⟩ := Option.map_eq_some_iff.1 h
  obtain ⟨hreq, hthis, hsort, -, hun⟩ := Driver.doRequest_spec (Result.toOption_eq_some.1 hret)
  obtain ⟨hp, hsrt, hno⟩ := hat
  have hdo : drv.doHd = none ↔ l = [] := by
    rw [hun hsrt, hth.head, List.head?_eq_none_iff]
  exact ⟨l, hs.stay hreq hthis (fun hne hl => hne (hdo.2 hl)) ⟨hp, hsort.trans hsrt, hdo.1⟩⟩

/-- A statement of `add_request`. -/
lemma Inv.statement [DecidableEq β] (hs : s.Inv l) (h : s.step .statement = some s') : ∃ l', s'.Inv l' := by
  change s.statement = some s' at h
  cases hpc : s.pc with
  | outside =>
    simp only [Adding.statement, hpc] at h
    cases h
  | checkNsector req => exact hs.checkNsector hpc h
  | setSorting req => exact hs.setSorting hpc h
  | testThis req => exact hs.testThis hpc h
  | setThis req => exact hs.setThis hpc h
  | testNext req tmp => exact hs.testNext hpc h
  | setNext req tmp => exact hs.setNext hpc h
  | skipFirst req tmp => exact hs.skipFirst hpc h
  | testEnd req tmp => exact hs.testEnd hpc h
  | testOrder req tmp => exact hs.testOrder hpc h
  | advance req tmp => exact hs.advance hpc h
  | setReqNext req tmp => exact hs.setReqNext hpc h
  | setTmpNext req tmp => exact hs.setTmpNext hpc h
  | clearSorting => exact hs.clearSorting hpc h
  | testDoHd => exact hs.testDoHd hpc h
  | restart => exact hs.restart hpc h

end Adding

section
variable {β : Type*} [DecidableEq β] {s s' : Adding β}

/-- The step lemma. -/
lemma Adding.Inv.step {l : List (Fin 32)} {e : AddEvent β} (hs : s.Inv l) (h : s.step e = some s')
    (hk : HeadStays s e s') : ∃ l', s'.Inv l' := by
  cases e with
  | request c => exact ⟨l, hs.request h⟩
  | statement => exact hs.statement h
  | complete => exact hs.complete h hk

omit [DecidableEq β] in
/-- The elements of the list are on it. -/
lemma threaded_listed {s : Driver β} {o : Option (Fin 32)} {l : List (Fin 32)} {r : Fin 32}
    (h : Threaded s.nexts o l none) (hr : r ∈ l) :
    ∃ h, o = some h ∧ Relation.ReflTransGen (fun a b => (s.request a).next = some b) h r := by
  induction l generalizing o with
  | nil => cases hr
  | cons a l ih =>
    obtain ⟨rfl, h⟩ := h
    cases List.mem_cons.1 hr with
    | inl he => exact ⟨a, rfl, he ▸ .refl⟩
    | inr hm =>
      obtain ⟨b, hb, hreach⟩ := ih h hm
      exact ⟨a, rfl, .head hb hreach⟩

omit [DecidableEq β] in
/-- Under the invariant no request is lost. -/
lemma Adding.Inv.noneLost {l : List (Fin 32)} (hs : s.Inv l) : NoneLost s := by
  intro hpc
  have hat := hs.atPc
  simp only [Adding.AtPc, hpc] at hat
  obtain ⟨hp, -, hno⟩ := hat
  constructor
  · intro r hr
    rw [hp, List.mem_toFinset] at hr
    exact threaded_listed hs.threaded hr
  · intro hne hd
    rw [hs.threaded.head, hno hd] at hne
    exact hne rfl

/-- In every run in which no completion takes the only request away while the next one is being linked
    behind it, no request is lost. -/
theorem no_request_lost {tr} (ex : adding.Exec s tr) (h0 : adding.init s)
    (hk : Along HeadStays s tr) : Always NoneLost s tr := by
  obtain ⟨hreq, hthis, hdo, hsort, hpc, hpend⟩ := h0
  have hinit : s.Inv [] := by
    refine ⟨hthis, List.nodup_nil, nofun, fun hne => absurd hdo hne, ?_⟩
    simp only [Adding.AtPc, hpc]
    exact ⟨hpend, hsort, fun _ => trivial⟩
  have hall := (ex.along_of_inv (I := fun s => ∃ l, s.Inv l) (Q := fun _ _ _ => True)
    (fun _ _ _ ⟨_, hs⟩ hst hkt => ⟨hs.step hst hkt, trivial⟩) ⟨[], hinit⟩ hk).1
  exact hall.mono fun _ ⟨_, hs⟩ => hs.noneLost

end

/-- The driver as `hd_init` leaves it. -/
def bootAdding : Adding Unit where
  drv := sampleDriver
  pc := .outside
  pending := ∅

/-- The driver is as `hd_init` leaves it. -/
lemma bootAdding_init : adding.init bootAdding := ⟨fun _ => ⟨rfl, rfl⟩, rfl, rfl, rfl, rfl, rfl⟩

instance (s : Adding Unit) (e : AddEvent Unit) (s' : Adding Unit) : Decidable (HeadStays s e s') := by
  unfold HeadStays
  split
  · split <;> infer_instance
  · infer_instance

/-- The first request is added to the empty list and started, and the next one begins. -/
def oneQueued : List (AddEvent Unit) :=
  .request (sampleCall .write) :: List.replicate 7 .statement ++
    .request (sampleCall .read) :: List.replicate 2 .statement

/-- The first command is completed between `sorting=1` and `tmp=this_request`, which is admitted. -/
theorem no_request_lost_early : ∃ tr, adding.Exec bootAdding tr ∧ Always NoneLost bootAdding tr ∧
    (last bootAdding tr).pc = .outside ∧ (last bootAdding tr).drv.Listed 1 := by
  have hrun : (trace Adding.step bootAdding
      (oneQueued ++ .complete :: List.replicate 5 .statement)).map (fun tr =>
        (decide (Along HeadStays bootAdding tr), (last bootAdding tr).pc,
          decide (1 ∈ (last bootAdding tr).pending))) = some (true, .outside, true) := by
    decide
  obtain ⟨tr, htr, hlast⟩ := Option.map_eq_some_iff.1 hrun
  simp only [Prod.mk.injEq, decide_eq_true_eq] at hlast
  obtain ⟨hk, hpc, hpend⟩ := hlast
  have ex : adding.Exec bootAdding tr := System.exec_of_trace (fun _ _ _ => id) htr
  have hall := no_request_lost ex bootAdding_init hk
  exact ⟨tr, ex, hall, hpc, (hall.at_last hpc).1 1 hpend⟩

/-- It is completed when `tmp` has been read and found to be the last request, and the second request
    is linked behind a request that is no longer on the list. -/
theorem request_lost : ∃ tr, adding.init bootAdding ∧ adding.Exec bootAdding tr ∧
    ¬ Always NoneLost bootAdding tr := by
  have hrun : (trace Adding.step bootAdding
      (oneQueued ++ [.statement, .statement, .complete] ++ List.replicate 4 .statement)).map (fun tr =>
        ((last bootAdding tr).pc, (last bootAdding tr).drv.thisRequest,
          decide (1 ∈ (last bootAdding tr).pending))) = some (.outside, none, true) := by
    decide
  obtain ⟨tr, htr, hlast⟩ := Option.map_eq_some_iff.1 hrun
  simp only [Prod.mk.injEq, decide_eq_true_eq] at hlast
  obtain ⟨hpc, hthis, hpend⟩ := hlast
  have ex : adding.Exec bootAdding tr := System.exec_of_trace (fun _ _ _ => id) htr
  refine ⟨tr, bootAdding_init, ex, fun hall => ?_⟩
  obtain ⟨h, hh, -⟩ := (hall.at_last hpc).1 1 hpend
  rw [hthis] at hh
  cases hh

end OldLinux.Hd
