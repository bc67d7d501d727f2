import OldLinux.Hd.AddRequest
import OldLinux.Lib.Elevator
import Mathlib.Data.Prod.Lex

/-!
# The elevator

`add_request` and the completions of `kernel/hd.c`, one at a time. `IN_ORDER` compares positions on the disk
(`inOrder_iff`), the loop of `add_request` finds the place of the elevator algorithm (`findPlace_spec`), and
the surgery of the list is `enqueue`. So the queue is what is pending, its first two entries do not move,
and behind the first it is two ascending sweeps at most (`elevator_two_sweeps`).
-/

namespace OldLinux.Hd
open Lib Fs Function

variable {β : Type*}

/-- The order of positions on the disk: drive, cylinder, head and sector. -/
abbrev Position := ℤ ×ₗ ℤ ×ₗ ℤ ×ₗ ℤ

/-- The position of a request. -/
def Request.position (r : Request β) : Position :=
  toLex (r.hd.toInt, toLex (r.cyl.toInt, toLex (r.head.toInt, r.sector.toInt)))

/-- The position of the request in a slot. -/
def Driver.position (s : Driver β) (r : Fin 32) : Position := (s.request r).position

/-- `IN_ORDER` is the order of the positions. -/
lemma inOrder_iff {a b : Request β} : inOrder a b = true ↔ a.position < b.position := by
  simp only [inOrder, Request.position, Prod.Lex.toLex_lt_toLex, Bool.or_eq_true, Bool.and_eq_true,
    beq_iff_eq, BitVec.slt_iff_toInt_lt, BitVec.toInt_inj]

/-- The pending requests, one after the other, as `add_request` leaves them: behind the first two it goes
    where the elevator algorithm puts it. -/
def enqueue (key : Fin 32 → Position) (req : Fin 32) : List (Fin 32) → List (Fin 32)
  | [] => [req]
  | [h] => [h, req]
  | h :: a :: l => h :: elevate key req a l

/-! ## The surgery of the list -/

section
variable {s s' : Driver β} {req a q : Fin 32} {l v : List (Fin 32)} {n : Nat}

/-- The loop of `add_request` finds the place of the elevator algorithm. -/
lemma findPlace_spec (req : Fin 32) (h : Threaded s.nexts (some a) (a :: v) none) (hn : v.length ≤ n) :
    ∃ u w, a :: v = u ++ s.findPlace req n a :: w ∧
      elevate s.position req a v = u ++ s.findPlace req n a :: req :: w := by
  induction n generalizing a v with
  | zero =>
    cases v with
    | nil => exact ⟨[], [], rfl, rfl⟩
    | cons b v => cases hn
  | succ n ih =>
    cases v with
    | nil =>
      have hend : (s.request a).next = none := h.2
      rw [Driver.findPlace, hend]
      exact ⟨[], [], rfl, rfl⟩
    | cons b v =>
      have hnext : (s.request a).next = some b := h.2.1
      have hcond : ((inOrder (s.request a) (s.request req) || !inOrder (s.request a) (s.request b)) &&
          inOrder (s.request req) (s.request b)) = true ↔
            (s.position a < s.position req ∨ ¬ s.position a < s.position b) ∧
              s.position req < s.position b := by
        simp only [Bool.and_eq_true, Bool.or_eq_true, Bool.not_eq_true', Bool.eq_false_iff, ne_eq, inOrder_iff,
          Driver.position]
      rw [Driver.findPlace, hnext, elevate]
      by_cases hplace : (s.position a < s.position req ∨ ¬ s.position a < s.position b) ∧
          s.position req < s.position b
      · rw [if_pos hplace]
        simp only [if_pos (hcond.2 hplace)]
        exact ⟨[], b :: v, rfl, rfl⟩
      · rw [if_neg hplace]
        simp only [if_neg fun e => hplace (hcond.1 e)]
        have hb : Threaded s.nexts (some b) (b :: v) none := ⟨rfl, h.2.2⟩
        obtain ⟨u, w, he, hi⟩ := ih hb (Nat.le_of_succ_le_succ hn)
        exact ⟨a :: u, w, by rw [he]; rfl, by rw [hi]; rfl⟩

/-- The surgery changes pointers only. -/
lemma link_body : ((s.link req).request q).SameBody (s.request q) := by
  cases hthis : s.thisRequest with
  | none =>
    rw [Driver.link, hthis]
    rfl
  | some t =>
    obtain ⟨f, hl, hf⟩ := Driver.link_of_some (q := req) hthis
    rw [hl]
    exact hf q

/-- Linking a request in leaves the positions. -/
lemma link_position : (s.link req).position = s.position :=
  funext fun q => by
    have hbody : ((s.link req).request q).SameBody (s.request q) := link_body
    obtain ⟨hhd, -, hsec, hhead, hcyl, -⟩ := hbody.fields
    rw [Driver.position, Request.position, hhd, hsec, hhead, hcyl]
    rfl

/-- Linking a request in leaves the drives. -/
lemma link_hd : ((s.link req).request q).hd = (s.request q).hd := link_body.fields.1

/-- `add_request` threads the new request into the queue. -/
lemma link_threaded (h : Threaded s.nexts s.thisRequest l none) (hnd : l.Nodup) (hreq : req ∉ l)
    (hnone : s.nexts req = none) :
    Threaded (s.link req).nexts (s.link req).thisRequest (enqueue s.position req l) none := by
  cases l with
  | nil =>
    have hthis : s.thisRequest = none := h
    rw [Driver.link, hthis]
    exact ⟨rfl, hnone⟩
  | cons t l =>
    obtain ⟨hthis, ht⟩ := h
    have hne : t ≠ req := fun e => hreq (e ▸ List.mem_cons_self)
    cases l with
    | nil =>
      have hend : (s.request t).next = none := ht
      rw [Driver.link, hthis]
      simp only [hend]
      have hl : Threaded s.nexts (some t) ([] ++ [t]) none := ⟨rfl, ht⟩
      have := hl.link List.not_mem_nil List.not_mem_nil hne (hnone.trans ht.symm)
      rw [Driver.nexts_setNext]
      exact hthis ▸ this
    | cons b l =>
      have hnext : (s.request t).next = some b := ht.1
      have hlen : l.length ≤ 32 := by
        have hcard := hnd.length_le_card
        simp only [List.length_cons, Fintype.card_fin] at hcard
        omega
      obtain ⟨u, w, he, hi⟩ := findPlace_spec req (ht.1 ▸ ht) hlen
      rw [Driver.link, hthis]
      simp only [hnext]
      show Threaded (Driver.nexts _) s.thisRequest (t :: elevate s.position req b l) none
      rw [hthis, hi, Driver.nexts_setNext, Driver.nexts_setNext]
      have hl : t :: b :: l = (t :: u) ++ s.findPlace req 32 b :: w := by rw [he]; rfl
      have hth : Threaded s.nexts (some t) (t :: b :: l) none := ⟨rfl, ht⟩
      have hupd := hth.update hreq (s.nexts (s.findPlace req 32 b))
      rw [hl] at hupd hnd hreq
      have hplace : s.findPlace req 32 b ≠ req := fun e => hreq (by simp [e])
      obtain ⟨-, hnd', hdisj⟩ := List.nodup_append.1 hnd
      refine hupd.link (fun hm => hdisj _ hm _ List.mem_cons_self rfl) (List.nodup_cons.1 hnd').1 hplace ?_
      rw [update_self, update_of_ne hplace]

end

/-! ## The queue under insertions and completions -/

/-- The driver, and the requests that were added and not completed. -/
structure Elevator (β : Type*) where
  drv : Driver β
  pending : Finset (Fin 32)

/-- A slot is filled as by `rw_abs_hd` and added; or `this_request` is completed. -/
inductive ElevatorEvent (β : Type*) where
  | add (c : RwCall β) (req : Fin 32)
  | complete

variable [DecidableEq β]

/-- Calls of `add_request` with a free slot and completions, each of which returns. -/
inductive ElevatorStep : Elevator β → ElevatorEvent β → Elevator β → Prop where
  | add {s : Elevator β} {c req drv} : (s.drv.request req).hd.slt 0 = true → ¬ c.nr.slt 0 = true →
    (s.drv.fill c req).addRequest req = .ret drv →
    ElevatorStep s (.add c req) ⟨drv, insert req s.pending⟩
  | complete {s : Elevator β} {drv} : s.drv.complete = .ret drv →
    ElevatorStep s .complete ⟨drv, s.pending \ s.drv.thisRequest.toFinset⟩

/-- The runs from the driver as `hd_init` leaves it. -/
def elevator : System (Elevator β) (ElevatorEvent β) where
  init s := (∀ r, (s.drv.request r).hd = -1 ∧ (s.drv.request r).next = none) ∧
    s.drv.thisRequest = none ∧ s.pending = ∅
  step := ElevatorStep

omit [DecidableEq β] in
/-- The positions of the pending requests are pairwise distinct. -/
def Distinct (s : Elevator β) : Prop := Set.InjOn s.drv.position s.pending

omit [DecidableEq β] in
/-- The list that starts at `this_request` is `l`. -/
def Driver.Queue (s : Driver β) (l : List (Fin 32)) : Prop := Threaded s.nexts s.thisRequest l none

omit [DecidableEq β] in
/-- The queue holds exactly the pending requests, each once. From its second entry on, at most one adjacent
    pair is not in order, and so it is two ascending sweeps. -/
def TwoSweeps (s : Elevator β) : Prop :=
  ∃ l, s.drv.Queue l ∧ l.Nodup ∧ (∀ r, r ∈ s.pending ↔ r ∈ l) ∧ descents s.drv.position l.tail ≤ 1 ∧
    ∃ u v, l.tail = u ++ v ∧ (u.Pairwise fun a b => s.drv.position a < s.drv.position b) ∧
      v.Pairwise fun a b => s.drv.position a < s.drv.position b

/-- An insertion leaves the first two entries where they are; a completion takes the first one off. -/
def FrontStays (s : Elevator β) (e : ElevatorEvent β) (s' : Elevator β) : Prop :=
  ∀ l l', s.drv.Queue l → s'.drv.Queue l' →
    match e with
    | .add .. => l.take 2 <+: l'
    | .complete => l' = l.tail

omit [DecidableEq β] in
/-- The invariant. -/
structure Elevator.Inv (s : Elevator β) (l : List (Fin 32)) : Prop where
  queue : s.drv.Queue l
  nodup : l.Nodup
  pending : s.pending = l.toFinset
  used : ∀ r ∈ l, ¬ (s.drv.request r).hd.slt 0 = true
  sweeps : descents s.drv.position l.tail ≤ 1

section
variable {key : Fin 32 → Position} {req : Fin 32} {l : List (Fin 32)}

/-- The new list has the new request beside the others. -/
lemma enqueue_perm : (enqueue key req l).Perm (req :: l) := by
  cases l with
  | nil => exact .refl _
  | cons h l =>
    cases l with
    | nil => exact .swap _ _ _
    | cons a l =>
      obtain ⟨u, c, v, he, hi⟩ := elevate_split key a req l
      rw [enqueue, hi, he]
      have hmid : (h :: (u ++ [c]) ++ req :: v).Perm (req :: (h :: (u ++ [c]) ++ v)) := List.perm_middle
      simpa using hmid

/-- The first two requests stay in front of it. -/
lemma enqueue_front : l.take 2 <+: enqueue key req l := by
  cases l with
  | nil => exact List.nil_prefix
  | cons h l =>
    cases l with
    | nil => exact ⟨[req], rfl⟩
    | cons a l =>
      obtain ⟨m, hm⟩ := elevate_head key a req l
      exact ⟨m, by rw [enqueue, hm]; rfl⟩

/-- The second sweep stays the last one. -/
lemma enqueue_sweeps (h : descents key l.tail ≤ 1) (hr : ∀ a ∈ l, key a ≠ key req) :
    descents key (enqueue key req l).tail ≤ 1 := by
  cases l with
  | nil => exact Nat.zero_le _
  | cons t l =>
    cases l with
    | nil => exact Nat.zero_le _
    | cons a l => exact descents_elevate h fun b hb => hr b (List.mem_cons_of_mem _ hb)

end

section
variable {s s' : Elevator β} {drv : Driver β} {req : Fin 32} {l : List (Fin 32)} {e : ElevatorEvent β}

omit [DecidableEq β] in
/-- What `add_request` does to the table. -/
lemma addRequest_spec {d d' : Driver β} (h : d.addRequest req = .ret d') :
    d'.request = (d.link req).request ∧ d'.thisRequest = (d.link req).thisRequest := by
  rw [Driver.addRequest] at h
  split at h
  · cases h
  · dsimp only at h
    split at h
    · obtain ⟨hreq, hthis, -⟩ := Driver.doRequest_spec h
      exact ⟨hreq, hthis⟩
    · cases h
      exact ⟨rfl, rfl⟩

/-- What a completion does to the other requests. -/
lemma complete_request {d d' : Driver β} {r : Fin 32} (h : d.complete = .ret d')
    (hr : d.thisRequest = some r) {q : Fin 32} (hq : q ≠ r) : d'.request q = d.request q := by
  rw [Driver.complete, hr] at h
  dsimp only at h
  split at h
  · cases h
  · obtain ⟨hreq, -⟩ := Driver.doRequest_spec h
    rw [hreq]
    exact update_of_ne hq _ _

/-- An insertion. -/
lemma Elevator.Inv.add {c : RwCall β} (hs : s.Inv l) (hfree : (s.drv.request req).hd.slt 0 = true)
    (hc : ¬ c.nr.slt 0 = true) (h : (s.drv.fill c req).addRequest req = .ret drv)
    (hd : Distinct ⟨drv, insert req s.pending⟩) :
    Elevator.Inv ⟨drv, insert req s.pending⟩ (enqueue (s.drv.fill c req).position req l) := by
  obtain ⟨hreq, hthis⟩ := addRequest_spec h
  have hmem : req ∉ l := fun hm => hs.used req hm hfree
  have hnexts : drv.nexts = ((s.drv.fill c req).link req).nexts := funext fun r => by
    rw [Driver.nexts, hreq]
    rfl
  have hpos : drv.position = (s.drv.fill c req).position := by
    rw [← @link_position _ (s.drv.fill c req) req]
    funext r
    rw [Driver.position, hreq]
    rfl
  have hold : ∀ r ∈ l, (s.drv.fill c req).position r = s.drv.position r := fun r hr => by
    have hne : r ≠ req := fun e => hmem (e ▸ hr)
    show (update s.drv.request req _ r).position = _
    rw [update_of_ne hne]
    rfl
  have hfill : Threaded (s.drv.fill c req).nexts (s.drv.fill c req).thisRequest l none := by
    rw [Driver.nexts_fill]
    exact hs.queue.update hmem none
  have hnone : (s.drv.fill c req).nexts req = none := by rw [Driver.nexts_fill, update_self]
  have hperm : (enqueue (s.drv.fill c req).position req l).Perm (req :: l) := enqueue_perm
  refine ⟨?_, hperm.nodup_iff.2 (List.nodup_cons.2 ⟨hmem, hs.nodup⟩), ?_, ?_, ?_⟩
  · rw [Driver.Queue, hnexts, hthis]
    exact link_threaded hfill hs.nodup hmem hnone
  · show insert req s.pending = _
    rw [hs.pending, List.toFinset_eq_of_perm _ _ hperm, List.toFinset_cons]
  · intro r hr
    show ¬ (drv.request r).hd.slt 0 = true
    rw [hreq, link_hd]
    cases List.mem_cons.1 (hperm.mem_iff.1 hr) with
    | inl e =>
      subst e
      simpa [Driver.fill] using hc
    | inr hr =>
      have hne : r ≠ req := fun e => hmem (e ▸ hr)
      rw [Driver.hd_fill hne]
      exact hs.used r hr
  · show descents drv.position _ ≤ 1
    rw [hpos]
    refine enqueue_sweeps ?_ ?_
    · rw [descents_congr fun r hr => hold r (List.mem_of_mem_tail hr)]
      exact hs.sweeps
    · intro r hr heq
      rw [← hpos] at heq
      have hr' : r ∈ (insert req s.pending : Finset (Fin 32)) := by
        rw [hs.pending]
        exact Finset.mem_insert_of_mem (List.mem_toFinset.2 hr)
      exact hmem (hd hr' (Finset.mem_insert_self _ _) heq ▸ hr)

/-- A completion. -/
lemma Elevator.Inv.complete (hs : s.Inv l) (h : s.drv.complete = .ret drv) :
    Elevator.Inv ⟨drv, s.pending \ s.drv.thisRequest.toFinset⟩ l.tail := by
  obtain ⟨r, hr, hthis, hnexts, -⟩ := Driver.complete_spec h
  have hq := hs.queue
  cases l with
  | nil =>
    rw [Driver.Queue, hr] at hq
    cases hq
  | cons r' l =>
    obtain ⟨he, hq⟩ := hq
    obtain rfl : r = r' := Option.some.inj (hr.symm.trans he)
    obtain ⟨hrl, hnd⟩ := List.nodup_cons.1 hs.nodup
    have hsame : ∀ q ∈ l, drv.request q = s.drv.request q := fun q hql =>
      complete_request h hr fun e => hrl (e ▸ hql)
    refine ⟨?_, hnd, ?_, ?_, ?_⟩
    · rw [Driver.Queue, hnexts, hthis]
      exact hq
    · show s.pending \ _ = l.toFinset
      ext q
      rw [hs.pending, hr, Option.toFinset_some, Finset.mem_sdiff, List.mem_toFinset, List.mem_cons,
        Finset.mem_singleton, List.mem_toFinset]
      constructor
      · rintro ⟨e | hql, hne⟩
        · exact absurd e hne
        · exact hql
      · intro hql
        exact ⟨.inr hql, fun e => hrl (e ▸ hql)⟩
    · intro q hql
      show ¬ (drv.request q).hd.slt 0 = true
      rw [hsame q hql]
      exact hs.used q (List.mem_cons_of_mem _ hql)
    · have hpos : ∀ q ∈ l.tail, drv.position q = s.drv.position q := fun q hql => by
        rw [Driver.position, hsame q (List.mem_of_mem_tail hql)]
        rfl
      show descents drv.position l.tail ≤ 1
      rw [descents_congr hpos]
      exact le_trans descents_tail_le hs.sweeps

omit [DecidableEq β] in
/-- Under the invariant the list is two sweeps. -/
lemma Elevator.Inv.twoSweeps (hs : s.Inv l) : TwoSweeps s :=
  ⟨l, hs.queue, hs.nodup, fun r => by rw [hs.pending, List.mem_toFinset], hs.sweeps, exists_runs hs.sweeps⟩

/-- The step lemma. -/
lemma Elevator.Inv.step (hs : s.Inv l) (st : ElevatorStep s e s') (hd : Distinct s') :
    ∃ l', s'.Inv l' ∧ FrontStays s e s' := by
  cases st with
  | add hfree hc h =>
    have hinv := hs.add hfree hc h hd
    refine ⟨_, hinv, ?_⟩
    intro m m' hm hm'
    rw [hm.unique hs.queue, hm'.unique hinv.queue]
    exact enqueue_front
  | complete h =>
    have hinv := hs.complete h
    refine ⟨_, hinv, ?_⟩
    intro m m' hm hm'
    show m' = m.tail
    rw [hm.unique hs.queue, hm'.unique hinv.queue]

end

/-- In every run in which the pending requests have distinct positions, the queue is what is pending, the
    first two entries stay where they are, and behind the first there are two ascending sweeps at most. -/
theorem elevator_two_sweeps {s : Elevator β} {tr} (ex : elevator.Exec s tr) (h0 : elevator.init s)
    (hd : Always Distinct s tr) : Always TwoSweeps s tr ∧ Along FrontStays s tr := by
  obtain ⟨-, hthis, hpend⟩ := h0
  have hinit : s.Inv [] := ⟨hthis, List.nodup_nil, hpend, nofun, Nat.zero_le _⟩
  have hstep : ∀ (s : Elevator β) e s', (∃ l, s.Inv l) → elevator.step s e s' → Distinct s' →
      (∃ l, s'.Inv l) ∧ FrontStays s e s' := by
    rintro s e s' ⟨l, hs⟩ st hd'
    obtain ⟨l', hs', hf⟩ := hs.step st hd'
    exact ⟨⟨l', hs'⟩, hf⟩
  obtain ⟨hall, hfront⟩ := ex.along_of_inv hstep ⟨[], hinit⟩ hd.2
  exact ⟨hall.mono fun _ ⟨_, hs⟩ => hs.twoSweeps, hfront⟩

/-- The driver as `hd_init` leaves it, with nothing pending. -/
def bootElevator : Elevator Unit := ⟨sampleDriver, ∅⟩

/-- A request of a sector of the first track. -/
def trackCall (sec : BitVec 32) : RwCall Unit := ⟨.read, 0, sec, 0, 0, ()⟩

/-- Two sectors are asked for. -/
def askedFirst : Elevator Unit :=
  ⟨sampleDriver.after ((sampleDriver.fill (trackCall 5) 0).addRequest 0), {0}⟩

def askedBoth : Elevator Unit :=
  ⟨askedFirst.drv.after ((askedFirst.drv.fill (trackCall 3) 1).addRequest 1), {1, 0}⟩

/-- The first of the two sectors is read. -/
def readFirst : Elevator Unit := ⟨askedBoth.drv.after askedBoth.drv.complete, {1}⟩

def askedRun : List (ElevatorEvent Unit × Elevator Unit) :=
  [(.add (trackCall 5) 0, askedFirst), (.add (trackCall 3) 1, askedBoth), (.complete, readFirst)]

/-- Different requests are in different positions. -/
lemma distinct_of_all {s : Elevator Unit}
    (h : ∀ a ∈ s.pending, ∀ b ∈ s.pending, a ≠ b → s.drv.position a ≠ s.drv.position b) : Distinct s :=
  fun a ha b hb e => by_contra fun hne => h a ha b hb hne e

/-- Requests in both orders. -/
theorem elevator_two_sweeps_two : Always TwoSweeps bootElevator askedRun := by
  have st₁ : ElevatorStep bootElevator (.add (trackCall 5) 0) askedFirst := .add rfl (by decide) rfl
  have st₂ : ElevatorStep askedFirst (.add (trackCall 3) 1) askedBoth := .add rfl (by decide) rfl
  have st₃ : ElevatorStep askedBoth .complete readFirst := .complete rfl
  refine (elevator_two_sweeps (.cons st₁ (.cons st₂ (.cons st₃ .nil))) ⟨fun _ => ⟨rfl, rfl⟩, rfl, rfl⟩ ?_).1
  simp only [always_cons, always_nil]
  refine ⟨?_, ?_, ?_, ?_⟩
  · exact distinct_of_all (by decide)
  · exact distinct_of_all (by decide)
  · exact distinct_of_all (by decide)
  · exact distinct_of_all (by decide)

end OldLinux.Hd
