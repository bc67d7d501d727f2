import Mathlib.Data.List.Basic
import Mathlib.Logic.Function.Basic

/-!
# Lists threaded through records

Records that point to the next one, as a function `next : α → Option α`. `Threaded next o l o'` says
that following the pointers from `o` meets the records of `l` one after the other and then arrives at
`o'`. A list that ends in a null pointer is the case `o' = none`, a ring the case `o' = o`, and a doubly
linked list (`Doubly`) is a list threaded forwards through one pointer and, reversed, through the other.

The rules say how threads compose (`threaded_append`), that they only look at the pointers of the records
they meet (`Threaded.congr`), and what happens when a record is linked in or out behind another one
(`Threaded.link`, `Threaded.unlink`). Doubly linked lists compose the same way; a ring can be entered at
any record (`Doubly.rotate`), and the pointers that leave a list can be set (`Doubly.setNext`,
`Doubly.setPrev`).
-/

namespace OldLinux.Lib
open Function

variable {α : Type*}

/-- The pointers lead from `o` through the records of `l` to `o'`. -/
def Threaded (next : α → Option α) : Option α → List α → Option α → Prop
  | o, [], o' => o = o'
  | o, a :: l, o' => o = some a ∧ Threaded next (next a) l o'

variable {next next' : α → Option α} {o o' : Option α} {l m u v : List α} {a q : α}

/-- The empty list. -/
@[simp] lemma threaded_nil : Threaded next o [] o' ↔ o = o' := Iff.rfl

/-- One element and the rest. -/
@[simp] lemma threaded_cons :
    Threaded next o (a :: l) o' ↔ o = some a ∧ Threaded next (next a) l o' := Iff.rfl

/-- Threads compose. -/
lemma threaded_append :
    Threaded next o (l ++ m) o' ↔ ∃ i, Threaded next o l i ∧ Threaded next i m o' := by
  induction l generalizing o with
  | nil => simp
  | cons b l ih =>
    constructor
    · rintro ⟨rfl, h⟩
      obtain ⟨i, hl, hm⟩ := ih.1 h
      exact ⟨i, ⟨rfl, hl⟩, hm⟩
    · rintro ⟨i, ⟨rfl, hl⟩, hm⟩
      exact ⟨rfl, ih.2 ⟨i, hl, hm⟩⟩

/-- A thread up to a record and from there on. -/
lemma threaded_split : Threaded next o (u ++ a :: v) o' ↔
    Threaded next o u (some a) ∧ Threaded next (next a) v o' := by
  rw [threaded_append]
  constructor
  · rintro ⟨i, hu, rfl, hv⟩
    exact ⟨hu, hv⟩
  · rintro ⟨hu, hv⟩
    exact ⟨some a, hu, rfl, hv⟩

/-- A thread looks only at the pointers of the records it meets. -/
lemma Threaded.congr (h : Threaded next o l o') (hn : ∀ a ∈ l, next' a = next a) :
    Threaded next' o l o' := by
  induction l generalizing o with
  | nil => exact h
  | cons b l ih =>
    obtain ⟨rfl, h⟩ := h
    refine ⟨rfl, ih ?_ fun a ha => hn a (List.mem_cons_of_mem _ ha)⟩
    rw [hn b (List.mem_cons_self ..)]
    exact h

/-- The pointers determine a list that ends in a null pointer. -/
lemma Threaded.unique (h : Threaded next o l none) (h' : Threaded next o m none) : l = m := by
  induction l generalizing o m with
  | nil =>
    cases h
    cases m with
    | nil => rfl
    | cons b m => cases h'.1
  | cons a l ih =>
    obtain ⟨rfl, h⟩ := h
    cases m with
    | nil => cases h'
    | cons b m =>
      obtain ⟨he, h'⟩ := h'
      cases he
      rw [ih h h']

/-- Records that point to one another in turn are threaded. -/
lemma threaded_of_isChain (hc : l.IsChain fun a b => next a = some b) (ho : o = l.head?)
    (hl : ∀ c, l.getLast? = some c → next c = o') (hne : l ≠ []) : Threaded next o l o' := by
  induction l generalizing o with
  | nil => exact absurd rfl hne
  | cons a l ih =>
    refine ⟨ho, ?_⟩
    cases l with
    | nil => exact hl a rfl
    | cons b l =>
      obtain ⟨hab, hc⟩ := List.isChain_cons_cons.1 hc
      exact ih hc hab (fun c hc => hl c (by rw [List.getLast?_cons_cons, hc])) (List.cons_ne_nil _ _)

/-- A thread is carried along when the records are given other names. -/
lemma Threaded.map {β : Type*} {f : α → β} {nextβ : β → Option β} (h : Threaded next o l o')
    (hn : ∀ a ∈ l, nextβ (f a) = (next a).map f) : Threaded nextβ (o.map f) (l.map f) (o'.map f) := by
  induction l generalizing o with
  | nil => exact congrArg (Option.map f) h
  | cons b l ih =>
    obtain ⟨rfl, h⟩ := h
    refine ⟨rfl, ?_⟩
    rw [hn b (List.mem_cons_self ..)]
    exact ih h fun a ha => hn a (List.mem_cons_of_mem _ ha)

/-- A list that ends in a null pointer starts at its first record. -/
lemma Threaded.head (h : Threaded next o l none) : o = l.head? := by
  cases l with
  | nil => exact h
  | cons a l => exact h.1

/-! ### Doubly linked lists -/

/-- The records of `l` are linked both ways: `next` leads from `o` through them to `o'`, and `prev` from
`p'` back through them to `p`. -/
def Doubly (next prev : α → Option α) (p o : Option α) (l : List α) (p' o' : Option α) : Prop :=
  Threaded next o l o' ∧ Threaded prev p' l.reverse p

variable {prev prev' : α → Option α} {p p' : Option α} {b c : α}

/-- The empty list. -/
@[simp] lemma doubly_nil : Doubly next prev p o [] p' o' ↔ o = o' ∧ p' = p := Iff.rfl

/-- Backwards, the pointers change their parts. -/
lemma doubly_reverse :
    Doubly next prev p o l p' o' ↔ Doubly prev next o' p' l.reverse o p := by
  rw [Doubly, Doubly, List.reverse_reverse, and_comm]

/-- Two lists in a row. -/
lemma doubly_append : Doubly next prev p o (l ++ m) p' o' ↔
    ∃ q i, Doubly next prev p o l q i ∧ Doubly next prev q i m p' o' := by
  simp only [Doubly, List.reverse_append, threaded_append]
  constructor
  · rintro ⟨⟨i, hl, hm⟩, q, hm', hl'⟩
    exact ⟨q, i, ⟨hl, hl'⟩, hm, hm'⟩
  · rintro ⟨q, i, ⟨hl, hl'⟩, hm, hm'⟩
    exact ⟨⟨i, hl, hm⟩, q, hm', hl'⟩

/-- One element. -/
lemma doubly_singleton : Doubly next prev p o [a] p' o' ↔
    o = some a ∧ p' = some a ∧ next a = o' ∧ prev a = p := by
  simp only [Doubly, List.reverse_singleton, threaded_cons, threaded_nil]
  constructor
  · rintro ⟨⟨ho, hn⟩, hp, hp'⟩
    exact ⟨ho, hp, hn, hp'⟩
  · rintro ⟨ho, hp, hn, hp'⟩
    exact ⟨⟨ho, hn⟩, hp, hp'⟩

/-- One element and the rest. -/
lemma doubly_cons : Doubly next prev p o (a :: l) p' o' ↔
    o = some a ∧ prev a = p ∧ Doubly next prev (some a) (next a) l p' o' := by
  rw [← List.singleton_append, doubly_append]
  constructor
  · rintro ⟨q, i, h, hl⟩
    obtain ⟨ho, rfl, rfl, hp⟩ := doubly_singleton.1 h
    exact ⟨ho, hp, hl⟩
  · rintro ⟨ho, hp, hl⟩
    exact ⟨some a, next a, doubly_singleton.2 ⟨ho, rfl, rfl, hp⟩, hl⟩

/-- A list up to a record, the record, and the list from there on. -/
lemma doubly_split : Doubly next prev p o (u ++ a :: v) p' o' ↔
    Doubly next prev p o u (prev a) (some a) ∧ Doubly next prev (some a) (next a) v p' o' := by
  rw [doubly_append]
  constructor
  · rintro ⟨q, i, hu, hv⟩
    obtain ⟨rfl, hp, hv⟩ := doubly_cons.1 hv
    exact ⟨hp ▸ hu, hv⟩
  · rintro ⟨hu, hv⟩
    exact ⟨prev a, some a, hu, doubly_cons.2 ⟨rfl, rfl, hv⟩⟩

/-- A doubly linked list looks only at the pointers of its records. -/
lemma Doubly.congr (h : Doubly next prev p o l p' o') (hn : ∀ a ∈ l, next' a = next a)
    (hp : ∀ a ∈ l, prev' a = prev a) : Doubly next' prev' p o l p' o' :=
  ⟨h.1.congr hn, h.2.congr fun a ha => hp a (List.mem_reverse.1 ha)⟩

/-- A doubly linked list is carried along when the records are given other names. -/
lemma Doubly.map {β : Type*} {f : α → β} {nextβ prevβ : β → Option β} (h : Doubly next prev p o l p' o')
    (hn : ∀ a ∈ l, nextβ (f a) = (next a).map f) (hp : ∀ a ∈ l, prevβ (f a) = (prev a).map f) :
    Doubly nextβ prevβ (p.map f) (o.map f) (l.map f) (p'.map f) (o'.map f) := by
  refine ⟨h.1.map hn, ?_⟩
  rw [← List.map_reverse]
  exact h.2.map fun a ha => hp a (List.mem_reverse.1 ha)

/-! ### Changing pointers -/

variable [DecidableEq α]

/-- A pointer outside the list does not matter. -/
lemma Threaded.update (h : Threaded next o l o') (ha : a ∉ l) (x : Option α) :
    Threaded (update next a x) o l o' := by
  refine h.congr fun b hb => update_of_ne ?_ _ _
  rintro rfl
  exact ha hb

/-- A record that points where `q` points is linked in behind `q`. -/
lemma Threaded.link (h : Threaded next o (u ++ q :: v) o') (hu : q ∉ u) (hv : q ∉ v) (hq : q ≠ a)
    (ha : next a = next q) : Threaded (Function.update next q (some a)) o (u ++ q :: a :: v) o' := by
  obtain ⟨hpre, hsuf⟩ := threaded_split.1 h
  refine threaded_split.2 ⟨hpre.update hu _, ?_⟩
  rw [update_self, threaded_cons, update_of_ne (Ne.symm hq), ha]
  exact ⟨rfl, hsuf.update hv _⟩

/-- The record behind `q` is linked out. -/
lemma Threaded.unlink (h : Threaded next o (u ++ q :: a :: v) o') (hu : q ∉ u) (hv : q ∉ v) :
    Threaded (Function.update next q (next a)) o (u ++ q :: v) o' := by
  obtain ⟨hpre, -, hsuf⟩ := threaded_split.1 h
  refine threaded_split.2 ⟨hpre.update hu _, ?_⟩
  rw [update_self]
  exact hsuf.update hv _

/-- A link forth outside the list does not matter. -/
lemma Doubly.update_next (h : Doubly next prev p o l p' o') (ha : a ∉ l) (x : Option α) :
    Doubly (Function.update next a x) prev p o l p' o' :=
  ⟨h.1.update ha x, h.2⟩

/-- A link back outside the list does not matter. -/
lemma Doubly.update_prev (h : Doubly next prev p o l p' o') (ha : a ∉ l) (x : Option α) :
    Doubly next (Function.update prev a x) p o l p' o' :=
  ⟨h.1, h.2.update (fun hr => ha (List.mem_reverse.1 hr)) x⟩

/-- The last record of a list is made to point somewhere else. -/
lemma Doubly.setNext (h : Doubly next prev p o l (some c) o') (hl : l ≠ []) (hn : l.Nodup)
    (y : Option α) : Doubly (Function.update next c y) prev p o l (some c) y := by
  obtain ⟨u, b, rfl⟩ := List.eq_nil_or_concat' l |>.resolve_left hl
  obtain ⟨hu, hb⟩ := doubly_split.1 h
  obtain ⟨-, he⟩ := doubly_nil.1 hb
  cases he
  have hc : c ∉ u := fun hc => (List.nodup_append.1 hn).2.2 c hc c (List.mem_singleton_self c) rfl
  refine doubly_split.2 ⟨hu.update_next hc y, ?_⟩
  rw [update_self]
  exact doubly_nil.2 ⟨rfl, rfl⟩

/-- The first record of a list is made to point back somewhere else. -/
lemma Doubly.setPrev (h : Doubly next prev p (some b) l p' o') (hl : l ≠ []) (hn : l.Nodup)
    (y : Option α) : Doubly next (Function.update prev b y) y (some b) l p' o' :=
  doubly_reverse.2
    ((doubly_reverse.1 h).setNext (by simpa using hl) ((List.reverse_perm l).nodup_iff.2 hn) y)

/-- The pointers `f` after `y` has been stored through the pointer `x`; a null pointer has no effect. -/
def storeThrough (f : α → Option α) (x y : Option α) : α → Option α :=
  match x with
  | some b => Function.update f b y
  | none => f

omit [DecidableEq α] in
/-- The first element. -/
lemma Doubly.first (h : Doubly next prev p o l p' o') (hl : l ≠ []) : ∃ b ∈ l, o = some b := by
  cases l with
  | nil => exact absurd rfl hl
  | cons b l => exact ⟨b, List.mem_cons_self, h.1.1⟩

omit [DecidableEq α] in
/-- The last one. -/
lemma Doubly.last (h : Doubly next prev p o l p' o') (hl : l ≠ []) : ∃ c ∈ l, p' = some c := by
  obtain ⟨c, hc, he⟩ := (doubly_reverse.1 h).first (by simpa using hl)
  exact ⟨c, List.mem_reverse.1 hc, he⟩

/-- The end of a list is made to point to `y`, where something else follows it. -/
lemma Doubly.seamNext (h : Doubly next prev p o l p' o') (hl : l ≠ []) (hn : l.Nodup) (y : Option α) :
    Doubly (storeThrough next p' y) prev p o l p' y := by
  obtain ⟨c, -, rfl⟩ := h.last hl
  exact h.setNext hl hn y

/-- The beginning of a list is made to point back to `y`, where something else precedes it. -/
lemma Doubly.seamPrev (h : Doubly next prev p o l p' o') (hl : l ≠ []) (hn : l.Nodup) (y : Option α) :
    Doubly next (storeThrough prev o y) y o l p' o' := by
  obtain ⟨b, -, rfl⟩ := h.first hl
  exact h.setPrev hl hn y

/-- A store through a pointer to none of the records. -/
lemma Doubly.store_next {x y : Option α} (h : Doubly next prev p o l p' o') (hx : ∀ b, x = some b → b ∉ l) :
    Doubly (storeThrough next x y) prev p o l p' o' := by
  cases x with
  | none => exact h
  | some b => exact h.update_next (hx b rfl) y

/-- A store through a pointer out of the list. -/
lemma Doubly.store_prev {x y : Option α} (h : Doubly next prev p o l p' o') (hx : ∀ b, x = some b → b ∉ l) :
    Doubly next (storeThrough prev x y) p o l p' o' := by
  cases x with
  | none => exact h
  | some b => exact h.update_prev (hx b rfl) y

/-- It leaves what the pointer does not point to. -/
lemma storeThrough_of_ne {f : α → Option α} {x y : Option α} (h : x ≠ some b) : storeThrough f x y b = f b := by
  cases x with
  | none => rfl
  | some c => exact update_of_ne (fun e => h (congrArg some e.symm)) _ _

omit [DecidableEq α] in
/-- A record of a list that ends in a null pointer points to one behind it. -/
lemma Doubly.next_mem (h : Doubly next prev p o (u ++ a :: v) p' none) (hb : next a = some b) : b ∈ v := by
  have hr := (doubly_split.1 h).2
  obtain rfl | hv := eq_or_ne v []
  · cases hb.symm.trans (doubly_nil.1 hr).1
  · obtain ⟨c, hc, he⟩ := hr.first hv
    cases hb.symm.trans he
    exact hc

omit [DecidableEq α] in
/-- A record of a list that begins with a null pointer points back to one before it. -/
lemma Doubly.prev_mem (h : Doubly next prev none o (u ++ a :: v) p' o') (hb : prev a = some b) :
    b ∈ u := by
  have hl := (doubly_split.1 h).1
  obtain rfl | hu := eq_or_ne u []
  · cases hb.symm.trans (doubly_nil.1 hl).2
  · obtain ⟨c, hc, he⟩ := hl.last hu
    cases hb.symm.trans he
    exact hc

/-- The pointers after record `a` is taken out: its neighbours point past it. -/
def unlinkNext (next prev : α → Option α) (a : α) : α → Option α := storeThrough next (prev a) (next a)

/-- The pointers back after record `a` is taken out. -/
def unlinkPrev (next prev : α → Option α) (a : α) : α → Option α := storeThrough prev (next a) (prev a)

section Unlink
variable (h : Doubly next prev p o (u ++ a :: v) p' o') (hn : (u ++ a :: v).Nodup)
include h hn

/-- The list before an element that is taken out. -/
lemma unlink_left (hu : u ≠ []) (hb : ∀ b, next a = some b → b ∉ u) :
    Doubly (unlinkNext next prev a) (unlinkPrev next prev a) p o u (prev a) (next a) :=
  ((doubly_split.1 h).1.seamNext hu (List.nodup_append.1 hn).1 _).store_prev hb

/-- The list behind an element that is taken out. -/
lemma unlink_right (hv : v ≠ []) (hc : ∀ c, prev a = some c → c ∉ v) :
    Doubly (unlinkNext next prev a) (unlinkPrev next prev a) (prev a) (next a) v p' o' :=
  ((doubly_split.1 h).2.seamPrev hv (List.nodup_cons.1 (List.nodup_append.1 hn).2.1).2 _).store_next hc

/-- A record is taken out of the middle of a list. -/
lemma Doubly.unlink (hu : u ≠ []) (hv : v ≠ []) :
    Doubly (unlinkNext next prev a) (unlinkPrev next prev a) p o (u ++ v) p' o' := by
  have hdisj := (List.nodup_append.1 hn).2.2
  obtain ⟨hl, hr⟩ := doubly_split.1 h
  refine doubly_append.2 ⟨prev a, next a, unlink_left h hn hu ?_, unlink_right h hn hv ?_⟩
  · intro b hb hbu
    obtain ⟨b', hb', he⟩ := hr.first hv
    cases hb.symm.trans he
    exact hdisj b hbu b (List.mem_cons_of_mem _ hb') rfl
  · intro c hc hcv
    obtain ⟨c', hc', he⟩ := hl.last hu
    cases hc.symm.trans he
    exact hdisj c hc' c (List.mem_cons_of_mem _ hcv) rfl

end Unlink

/-- A record is taken out of a list that ends in null pointers on both sides. -/
lemma Doubly.unlink_chain (h : Doubly next prev none o (u ++ a :: v) p' none)
    (hn : (u ++ a :: v).Nodup) :
    ∃ q, Doubly (unlinkNext next prev a) (unlinkPrev next prev a) none
      (if o = some a then next a else o) (u ++ v) q none := by
  obtain ⟨hl, hr⟩ := doubly_split.1 h
  have ho : u ≠ [] → o ≠ some a := by
    intro hu he
    obtain ⟨b, hb, hob⟩ := hl.first hu
    cases he.symm.trans hob
    exact (List.nodup_append.1 hn).2.2 a hb a List.mem_cons_self rfl
  obtain rfl | hu := eq_or_ne u []
  · obtain ⟨rfl, hprev⟩ := doubly_nil.1 hl
    rw [if_pos rfl, List.nil_append]
    obtain rfl | hv := eq_or_ne v []
    · exact ⟨none, doubly_nil.2 ⟨(doubly_nil.1 hr).1, rfl⟩⟩
    · refine ⟨p', ?_⟩
      have hright := unlink_right h hn hv fun c hc => nomatch hprev ▸ hc
      rwa [hprev] at hright
  · rw [if_neg (ho hu)]
    obtain rfl | hv := eq_or_ne v []
    · obtain ⟨hnext, -⟩ := doubly_nil.1 hr
      have hleft := unlink_left h hn hu fun b hb => nomatch hnext ▸ hb
      rw [hnext] at hleft
      rw [List.append_nil]
      exact ⟨_, hleft⟩
    · exact ⟨p', h.unlink hn hu hv⟩

/-- A record is taken out of a ring that has others. -/
lemma Doubly.unlink_ring (h : Doubly next prev p o (u ++ a :: v) p o) (hn : (u ++ a :: v).Nodup)
    (hne : u ++ v ≠ []) :
    ∃ q, Doubly (unlinkNext next prev a) (unlinkPrev next prev a) q
      (if o = some a then next a else o) (u ++ v) q (if o = some a then next a else o) := by
  obtain ⟨hl, hr⟩ := doubly_split.1 h
  have ho : u ≠ [] → o ≠ some a := by
    intro hu he
    obtain ⟨b, hb, hob⟩ := hl.first hu
    cases he.symm.trans hob
    exact (List.nodup_append.1 hn).2.2 a hb a List.mem_cons_self rfl
  obtain rfl | hu := eq_or_ne u []
  · obtain ⟨rfl, hprev⟩ := doubly_nil.1 hl
    rw [if_pos rfl, List.nil_append]
    rw [List.nil_append] at hne
    -- the pointers out of the ring at `a` are those into the rest
    have hnv := (List.nodup_cons.1 hn).2
    have hseam := (hr.seamNext hne hnv (next a)).seamPrev hne hnv (prev a)
    rw [hprev] at hseam
    exact ⟨p, by rwa [unlinkNext, unlinkPrev, hprev]⟩
  · rw [if_neg (ho hu)]
    obtain rfl | hv := eq_or_ne v []
    · obtain ⟨hnext, -⟩ := doubly_nil.1 hr
      have hnu := (List.nodup_append.1 hn).1
      have hseam := (hl.seamNext hu hnu (next a)).seamPrev hu hnu (prev a)
      rw [List.append_nil]
      exact ⟨prev a, by rw [unlinkNext, unlinkPrev, hnext]; rwa [hnext] at hseam⟩
    · exact ⟨p, h.unlink hn hu hv⟩

/-- A record is put before a list that ends in null pointers. -/
lemma Doubly.push (h : Doubly next prev none o l p' none) (ha : a ∉ l) (hn : l.Nodup) :
    ∃ q, Doubly (Function.update next a o) (storeThrough (Function.update prev a none) o (some a)) none
      (some a) (a :: l) q none := by
  have hna : ∀ b, o = some b → a ≠ b := by
    rintro b rfl rfl
    obtain rfl | hl := eq_or_ne l []
    · cases (doubly_nil.1 h).1
    · obtain ⟨b, hb, he⟩ := h.first hl
      cases he
      exact ha hb
  have hprev : storeThrough (Function.update prev a none) o (some a) a = none := by
    cases o with
    | none => exact update_self ..
    | some b => rw [storeThrough, update_of_ne (hna b rfl), update_self]
  have hupd := (h.update_next ha o).update_prev ha none
  obtain rfl | hl := eq_or_ne l []
  · exact ⟨some a, doubly_singleton.2 ⟨rfl, rfl, (update_self ..).trans (doubly_nil.1 h).1, hprev⟩⟩
  · refine ⟨p', doubly_cons.2 ⟨rfl, hprev, ?_⟩⟩
    rw [update_self]
    exact hupd.seamPrev hl hn (some a)

/-- A record is put at the end of a ring, before the one the ring is entered at. -/
lemma Doubly.insert_ring {f c : α} (h : Doubly next prev (some c) (some f) l (some c) (some f))
    (hl : l ≠ []) (ha : a ∉ l) (hn : l.Nodup) :
    Doubly (Function.update (Function.update next a (some f)) c (some a))
      (Function.update (Function.update prev a (some c)) f (some a)) (some a) (some f) (l ++ [a])
      (some a) (some f) := by
  obtain ⟨c', hc, he⟩ := h.last hl
  cases he
  obtain ⟨f', hf, he⟩ := h.first hl
  cases he
  have hac : a ≠ c := fun e => ha (e ▸ hc)
  have haf : a ≠ f := fun e => ha (e ▸ hf)
  have hupd := (h.update_next ha (some f)).update_prev ha (some c)
  refine doubly_append.2 ⟨some c, some a, (hupd.setNext hl hn (some a)).setPrev hl hn (some a), ?_⟩
  rw [doubly_singleton, update_of_ne hac, update_self, update_of_ne haf, update_self]
  exact ⟨rfl, rfl, rfl, rfl⟩

end OldLinux.Lib
