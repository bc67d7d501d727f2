import OldLinux.Mm.Rollback
import Mathlib.Data.Finset.Prod
import Mathlib.Data.Fintype.Option

/-!
# Growing a tree of tables

How `map_page` changes a tree from its root. A new table adds one path and leaves all others
(`follow_linked`), a new entry of a leaf table changes no path (`follow_written`). `Kernel` is the
invariant of a page directory that is built from nothing: the pages that are in use are its tables, so
that their number is bounded by the number of paths, and `map_page` does not run out of pages.
-/

namespace OldLinux.Mm
open Lib Function

variable {m : BitVec 64 → Fin 512 → BitVec 64} {s : Memory} {N : Nat} {dir t u page pte : BitVec 64}
  {i k : Fin 512} {p q : List (Fin 512)}

/-! ## Paths -/

/-- One more step. -/
lemma follow_concat : follow m dir (p ++ [k]) =
    (follow m dir p).bind fun t => if pointer (m t k) then some (pte2va (m t k)) else none := by
  induction p generalizing dir with
  | nil => rfl
  | cons i p ih =>
    rw [List.cons_append, follow, follow]
    split
    · exact ih
    · rfl

/-- A table is not on a free page. -/
lemma TableTree.ne_free (ht : TableTree s N dir) (hu : IsTable s.mem N dir u) (hm : Managed page)
    (h0 : s.memMap (mapNr page) = 0) : u ≠ page := by
  rintro rfl
  exact ht.allocated hu hm h0

/-- A path to a table is the only one. -/
lemma TableTree.path_unique (ht : TableTree s N dir) (hp : p.length ≤ N) (hq : q.length ≤ N)
    (hf : follow s.mem dir p = some t) (hf' : follow s.mem dir q = some t) : q = p :=
  ht.distinct q p t hq hp hf' hf

/-- The paths after a table has been added below `t`. -/
lemma follow_linked (ht : TableTree s N dir) (hf : follow s.mem dir p = some t) (hl : p.length < N)
    (hv : pointer (s.mem t i) = false) (hm : Managed page) (h0 : s.memMap (mapNr page) = 0)
    (hq : q.length ≤ N) :
    follow (s.linked t i page).mem dir q = if q = p ++ [i] then some page else follow s.mem dir q := by
  have htab : IsTable s.mem N dir t := ⟨p, Nat.le_of_lt hl, hf⟩
  have hpt : t ≠ page := ht.ne_free htab hm h0
  obtain ⟨_, hlink, hto⟩ := link_spec hm
  induction q using List.reverseRecOn with
  | nil =>
    rw [if_neg (List.append_ne_nil_of_right_ne_nil _ (List.cons_ne_nil _ _)).symm, follow, follow]
  | append_singleton q k ih =>
    rw [List.length_append, List.length_singleton] at hq
    rw [follow_concat, follow_concat, ih (by omega)]
    by_cases hqi : q = p ++ [i]
    · -- below the new table there is nothing
      have hne : q ++ [k] ≠ p ++ [i] := by
        intro e
        have hlen := congrArg List.length e
        rw [hqi] at hlen
        simp at hlen
      rw [if_pos hqi, if_neg hne, hqi, follow_concat, hf, Option.bind_some, Option.bind_some,
        linked_row hpt.symm, pointer_zero, hv]
      rfl
    · rw [if_neg hqi]
      cases hfq : follow s.mem dir q with
      | none =>
        have hne : q ++ [k] ≠ p ++ [i] := by
          intro e
          rw [(List.append_inj' e rfl).1, hf] at hfq
          cases hfq
        rw [if_neg hne, Option.bind_none, Option.bind_none]
      | some u =>
        rw [Option.bind_some, Option.bind_some]
        by_cases hqp : q = p
        · obtain rfl : t = u := by
            rw [hqp, hf] at hfq
            exact Option.some.inj hfq
          rw [linked_parent hpt, hqp]
          by_cases hk : k = i
          · rw [hk, update_self, if_pos hlink, hto, if_pos rfl]
          · have hne : p ++ [k] ≠ p ++ [i] :=
              fun e => hk (List.cons.inj (List.append_inj' e rfl).2).1
            rw [update_of_ne hk, if_neg hne]
        · have hut : u ≠ t := by
            rintro rfl
            exact hqp (ht.path_unique (Nat.le_of_lt hl) (by omega) hf hfq)
          have hne : q ++ [k] ≠ p ++ [i] := fun e => hqp (List.append_inj' e rfl).1
          rw [linked_other hut (ht.ne_free ⟨q, by omega, hfq⟩ hm h0), if_neg hne]

/-- The paths after an entry of a table of the last level has been written. -/
lemma follow_written (ht : TableTree s N dir) (hf : follow s.mem dir p = some t) (hl : p.length = N)
    (hq : q.length ≤ N) : follow (s.written t i pte).mem dir q = follow s.mem dir q := by
  induction q using List.reverseRecOn with
  | nil => rw [follow, follow]
  | append_singleton q k ih =>
    rw [List.length_append, List.length_singleton] at hq
    rw [follow_concat, follow_concat, ih (by omega)]
    cases hfq : follow s.mem dir q with
    | none => rw [Option.bind_none, Option.bind_none]
    | some u =>
      have hut : u ≠ t := by
        rintro rfl
        have e := ht.path_unique hl.le (by omega) hf hfq
        rw [e] at hq
        omega
      rw [Option.bind_some, Option.bind_some, written_other hut]

/-- A new table is linked in. -/
lemma TableTree.linked (ht : TableTree s N dir) (hf : follow s.mem dir p = some t) (hl : p.length < N)
    (hv : pointer (s.mem t i) = false) (hm : Managed page) (h0 : s.memMap (mapNr page) = 0) :
    TableTree (s.linked t i page) N dir where
  distinct a b u ha hb hfa hfb := by
    rw [follow_linked ht hf hl hv hm h0 ha] at hfa
    rw [follow_linked ht hf hl hv hm h0 hb] at hfb
    split at hfa
    · next ea =>
      obtain rfl := Option.some.inj hfa
      split at hfb
      · next eb => exact ea.trans eb.symm
      · exact absurd rfl (ht.ne_free ⟨b, hb, hfb⟩ hm h0)
    · split at hfb
      · obtain rfl := Option.some.inj hfb
        exact absurd rfl (ht.ne_free ⟨a, ha, hfa⟩ hm h0)
      · exact ht.distinct a b u ha hb hfa hfb
  allocated := by
    rintro u ⟨a, ha, hfa⟩ hmu
    rw [linked_memMap hm hmu]
    rw [follow_linked ht hf hl hv hm h0 ha] at hfa
    split
    · decide
    · split at hfa
      · next hne _ => exact absurd (Option.some.inj hfa).symm hne
      · exact ht.allocated ⟨a, ha, hfa⟩ hmu

/-- An entry of the last level is written. -/
lemma TableTree.written (ht : TableTree s N dir) (hf : follow s.mem dir p = some t) (hl : p.length = N) :
    TableTree (s.written t i pte) N dir where
  distinct a b u ha hb hfa hfb := by
    rw [follow_written ht hf hl ha] at hfa
    rw [follow_written ht hf hl hb] at hfb
    exact ht.distinct a b u ha hb hfa hfb
  allocated := by
    rintro u ⟨a, ha, hfa⟩ hmu
    rw [follow_written ht hf hl ha] at hfa
    exact ht.allocated ⟨a, ha, hfa⟩ hmu

/-! ## Leaf entries -/

/-- The entry at the end of a path, 0 where a table is missing. -/
def entryAt (m : BitVec 64 → Fin 512 → BitVec 64) (dir : BitVec 64) (p : List (Fin 512)) (k : Fin 512) :
    BitVec 64 :=
  match follow m dir p with
  | some t => m t k
  | none => 0

/-- The entry of a table that is there. -/
lemma entryAt_some (hf : follow m dir p = some t) : entryAt m dir p k = m t k := by
  rw [entryAt, hf]

/-- There is none without the table. -/
lemma entryAt_none (hf : follow m dir p = none) : entryAt m dir p k = 0 := by
  rw [entryAt, hf]

/-- A new table has no entries. -/
lemma entryAt_linked (ht : TableTree s N dir) (hf : follow s.mem dir p = some t) (hl : p.length < N)
    (hv : pointer (s.mem t i) = false) (hm : Managed page) (h0 : s.memMap (mapNr page) = 0)
    (hq : q.length = N) : entryAt (s.linked t i page).mem dir q k = entryAt s.mem dir q k := by
  have hpt : t ≠ page := ht.ne_free ⟨p, Nat.le_of_lt hl, hf⟩ hm h0
  have hpath := follow_linked ht hf hl hv hm h0 hq.le
  by_cases hqi : q = p ++ [i]
  · rw [if_pos hqi] at hpath
    have hold : follow s.mem dir q = none := by
      rw [hqi, follow_concat, hf, Option.bind_some, hv]
      rfl
    rw [entryAt_some hpath, entryAt_none hold, linked_row hpt.symm]
  · rw [if_neg hqi] at hpath
    cases hfq : follow s.mem dir q with
    | none => rw [entryAt_none (hpath.trans hfq), entryAt_none hfq]
    | some u =>
      have hut : u ≠ t := by
        rintro rfl
        have e := ht.path_unique (Nat.le_of_lt hl) hq.le hf hfq
        rw [e] at hq
        omega
      rw [entryAt_some (hpath.trans hfq), entryAt_some hfq,
        linked_other hut (ht.ne_free ⟨q, hq.le, hfq⟩ hm h0)]

/-- The entries after one has been written. -/
lemma entryAt_written (ht : TableTree s N dir) (hf : follow s.mem dir p = some t) (hl : p.length = N)
    (hq : q.length = N) : entryAt (s.written t i pte).mem dir q k =
      if q = p ∧ k = i then pte else entryAt s.mem dir q k := by
  have hpath : follow (s.written t i pte).mem dir q = follow s.mem dir q :=
    follow_written ht hf hl hq.le
  cases hfq : follow s.mem dir q with
  | none =>
    rw [entryAt_none (hpath.trans hfq), entryAt_none hfq, if_neg]
    rintro ⟨rfl, _⟩
    rw [hf] at hfq
    cases hfq
  | some u =>
    rw [entryAt_some (hpath.trans hfq), entryAt_some hfq]
    by_cases hqp : q = p
    · obtain rfl : t = u := by
        rw [hqp, hf] at hfq
        exact Option.some.inj hfq
      rw [written_row, update_apply]
      simp only [hqp, true_and]
    · have hut : u ≠ t := by
        rintro rfl
        exact hqp (ht.path_unique hl.le hq.le hf hfq)
      rw [written_other hut, if_neg fun h => hqp h.1]

/-! ## The kernel's tree -/

/-- A page directory of Sv39 that has been built from nothing, with tables below the entries `K` only:
    the pages in use are its tables. -/
structure Kernel (K : Finset (Fin 512)) (dir : BitVec 64) (s : Memory) : Prop where
  tree : TableTree s 2 dir
  mapped : ∀ {t}, IsTable s.mem 2 dir t → Mapped t
  taken : ∀ {x}, Managed x → s.memMap (mapNr x) ≠ 0 → ∃ p, p ≠ [] ∧ p.length ≤ 2 ∧
    follow s.mem dir p = some x
  pointers : ∀ {p t} i, p.length < 2 → follow s.mem dir p = some t → valid (s.mem t i) = true →
    pointer (s.mem t i) = true
  roots : ∀ {i p t}, p.length < 2 → follow s.mem dir (i :: p) = some t → i ∈ K

variable {K : Finset (Fin 512)} {va pa perm : BitVec 64} {n : Nat}

/-- The pages in use are at the ends of the paths through `K`. -/
lemma Kernel.used_le (h : Kernel K dir s) :
    ((Finset.range pagingPages).filter fun k => s.memMap k ≠ 0).card ≤ K.card * 513 := by
  let nr : Fin 512 × Option (Fin 512) → Nat := fun x =>
    mapNr ((follow s.mem dir (x.1 :: x.2.toList)).getD 0)
  have hsub : ((Finset.range pagingPages).filter fun k => s.memMap k ≠ 0) ⊆
      (K ×ˢ Finset.univ).image nr := by
    intro k hk
    obtain ⟨hk, h0⟩ := Finset.mem_filter.1 hk
    have hk := Finset.mem_range.1 hk
    have hm : Managed (pageAddr k) := ⟨k, hk, rfl⟩
    obtain ⟨p, hp, hl, hf⟩ := h.taken hm (by rwa [mapNr_pageAddr hk])
    obtain ⟨i, o, rfl⟩ : ∃ i, ∃ o : Option (Fin 512), p = i :: o.toList := by
      match p, hp, hl with
      | [i], _, _ => exact ⟨i, none, rfl⟩
      | [i, j], _, _ => exact ⟨i, some j, rfl⟩
    have hi : i ∈ K := h.roots (Nat.lt_of_succ_le hl) hf
    refine Finset.mem_image.2 ⟨(i, o), Finset.mem_product.2 ⟨hi, Finset.mem_univ _⟩, ?_⟩
    show mapNr ((follow s.mem dir (i :: o.toList)).getD 0) = k
    rw [hf]
    exact mapNr_pageAddr hk
  calc _ ≤ ((K ×ˢ Finset.univ).image nr).card := Finset.card_le_card hsub
    _ ≤ (K ×ˢ (Finset.univ : Finset (Option (Fin 512)))).card := Finset.card_image_le
    _ = K.card * 513 := by
      rw [Finset.card_product, Finset.card_univ, Fintype.card_option, Fintype.card_fin]

/-- There is always a free page. -/
lemma Kernel.has_free (h : Kernel K dir s) (hK : K.card * 513 < pagingPages) : freePages s ≠ 0 := by
  have hsplit := Finset.card_filter_add_card_filter_not (s := Finset.range pagingPages)
    (fun k => s.memMap k = 0)
  rw [Finset.card_range] at hsplit
  have hused : ((Finset.range pagingPages).filter fun k => ¬ s.memMap k = 0).card ≤ K.card * 513 := h.used_le
  rw [freePages]
  omega

/-- A new table keeps the tables of the kernel. -/
lemma Kernel.linked (h : Kernel K dir s) (hf : follow s.mem dir p = some t) (hl : p.length < 2)
    (hv : valid (s.mem t i) = false) (hm : Managed page) (h0 : s.memMap (mapNr page) = 0)
    (hK : ∀ j r, p ++ [i] = j :: r → j ∈ K) : Kernel K dir (s.linked t i page) := by
  have hpt : pointer (s.mem t i) = false := by
    rw [pointer, hv, Bool.false_and]
  have hpath : ∀ {q : List (Fin 512)}, q.length ≤ 2 → follow (s.linked t i page).mem dir q =
      if q = p ++ [i] then some page else follow s.mem dir q :=
    follow_linked h.tree hf hl hpt hm h0
  have htp : t ≠ page := h.tree.ne_free ⟨p, Nat.le_of_lt hl, hf⟩ hm h0
  refine ⟨h.tree.linked hf hl hpt hm h0, ?_, ?_, ?_, ?_⟩
  · rintro u ⟨q, hq, hfq⟩
    rw [hpath hq] at hfq
    split at hfq
    · obtain rfl := Option.some.inj hfq
      exact hm.mapped
    · exact h.mapped ⟨q, hq, hfq⟩
  · intro x hx hused
    rw [linked_memMap hm hx] at hused
    by_cases hxp : x = page
    · refine ⟨p ++ [i], List.append_ne_nil_of_right_ne_nil _ (List.cons_ne_nil _ _), ?_, ?_⟩
      · rw [List.length_append]
        exact hl
      · rw [hpath (by rw [List.length_append]; exact hl), if_pos rfl, hxp]
    · rw [if_neg hxp] at hused
      obtain ⟨q, hq, hql, hfq⟩ := h.taken hx hused
      refine ⟨q, hq, hql, ?_⟩
      rw [hpath hql, if_neg, hfq]
      rintro rfl
      rw [follow_concat, hf] at hfq
      rw [Option.bind_some, hpt] at hfq
      cases hfq
  · intro q u k hq hfq
    rw [hpath hq.le] at hfq
    split at hfq
    · obtain rfl := Option.some.inj hfq
      rw [linked_row htp.symm, valid_zero]
      rintro ⟨⟩
    · by_cases hut : u = t
      · subst hut
        rw [linked_parent htp]
        by_cases hk : k = i
        · rw [hk, update_self]
          exact fun _ => (link_spec hm).2.1
        · rw [update_of_ne hk]
          exact h.pointers k hq hfq
      · rw [linked_other hut (h.tree.ne_free ⟨q, hq.le, hfq⟩ hm h0)]
        exact h.pointers k hq hfq
  · intro j r u hr hfr
    rw [hpath (q := j :: r) hr] at hfr
    split at hfr
    · next e => exact hK j r e.symm
    · exact h.roots hr hfr

/-- A new entry keeps them. -/
lemma Kernel.written (h : Kernel K dir s) (hf : follow s.mem dir p = some t) (hl : p.length = 2) :
    Kernel K dir (s.written t i pte) := by
  have hpath : ∀ {q : List (Fin 512)}, q.length ≤ 2 →
      follow (s.written t i pte).mem dir q = follow s.mem dir q :=
    follow_written h.tree hf hl
  refine ⟨h.tree.written hf hl, ?_, ?_, ?_, ?_⟩
  · rintro u ⟨q, hq, hfq⟩
    rw [hpath hq] at hfq
    exact h.mapped ⟨q, hq, hfq⟩
  · intro x hx hused
    obtain ⟨q, hq, hql, hfq⟩ := h.taken hx hused
    exact ⟨q, hq, hql, (hpath hql).trans hfq⟩
  · intro q u k hq hfq
    rw [hpath hq.le] at hfq
    have hut : u ≠ t := by
      rintro rfl
      rw [h.tree.path_unique hl.le hq.le hf hfq] at hq
      omega
    rw [written_other hut]
    exact h.pointers k hq hfq
  · intro j r u hr hfr
    rw [hpath (q := j :: r) hr] at hfr
    exact h.roots hr hfr

/-- One level of the walk of `map_page`: the table below is there or is made. -/
lemma mapPageWalk_kernel (va : BitVec 64) (pteRecord : Nat → BitVec 64) (h : Kernel K dir s)
    (hK : K.card * 513 < pagingPages) (hf : follow s.mem dir p = some t) (hl : p.length + (n + 1) = 2)
    (hr : ∀ j r, p ++ [px (n + 1) va] = j :: r → j ∈ K) :
    ∃ s₁ t₁ r₁, mapPageWalk va 2 0 (n + 1) t pteRecord s = mapPageWalk va 2 0 n t₁ r₁ s₁ ∧
      Kernel K dir s₁ ∧ follow s₁.mem dir (p ++ [px (n + 1) va]) = some t₁ ∧
      ∀ q k, q.length = 2 → entryAt s₁.mem dir q k = entryAt s.mem dir q k := by
  have hlt : p.length < 2 := by omega
  have hmap : Mapped t := h.mapped ⟨p, hlt.le, hf⟩
  have hz : 0 + (n + 1) = n + 1 := Nat.zero_add _
  cases hv : valid (s.mem t (px (n + 1) va)) with
  | true =>
    have hp := h.pointers _ hlt hf hv
    refine ⟨s, _, pteRecord, mapPageWalk_found hmap (by rwa [hz]), h, ?_, fun _ _ _ => rfl⟩
    rw [follow_concat, hf, hz]
    exact if_pos hp
  | false =>
    have hp : pointer (s.mem t (px (n + 1) va)) = false := by
      rw [pointer, hv, Bool.false_and]
    rcases getFreePage_cases (s := s) with ⟨hnone, _⟩ | ⟨page, hm, h0, e⟩
    · exact absurd hnone (h.has_free hK)
    · refine ⟨_, _, _, mapPageWalk_add hmap (by rwa [hz]) hm e, ?_, ?_, ?_⟩
      · rw [hz]
        exact h.linked hf hlt hv hm h0 hr
      · rw [hz, follow_linked h.tree hf hlt hp hm h0 (by rw [List.length_append]; exact hlt), if_pos rfl]
      · intro q k hq
        rw [hz]
        exact entryAt_linked h.tree hf hlt hp hm h0 hq

/-- `map_page` on the kernel's tree succeeds and sets one entry. -/
lemma mapPage_kernel (h : Kernel K dir s) (hK : K.card * 513 < pagingPages) (hr : px 2 va ∈ K) :
    Prog.returns (mapPage dir va pa perm 2 0) (fun r s' => r = 0 ∧ Kernel K dir s' ∧
      ∀ q k, q.length = 2 → entryAt s'.mem dir q k =
        if q = [px 2 va, px 1 va] ∧ k = px 0 va then pa2pte pa ||| perm else entryAt s.mem dir q k) s := by
  obtain ⟨s₁, t₁, r₁, e₁, h₁, hf₁, ha₁⟩ := mapPageWalk_kernel (p := []) (n := 1) va
    (fun _ => 0) h hK rfl rfl fun j r e => (List.cons.inj e).1 ▸ hr
  obtain ⟨s₂, t₂, r₂, e₂, h₂, hf₂, ha₂⟩ := mapPageWalk_kernel (n := 0) va r₁ h₁ hK hf₁ rfl
    fun j r e => (List.cons.inj e).1 ▸ hr
  have hwalk : mapPageWalk va 2 0 (2 - 0) dir (fun _ => 0) s = .ret (some t₂, s₂) := e₁.trans e₂
  refine ⟨0, s₂.written t₂ (px 0 va) (pa2pte pa ||| perm), ?_, rfl, h₂.written hf₂ rfl, ?_⟩
  · rw [mapPage, Prog.bind_of_ret hwalk]
    rfl
  · intro q k hq
    rw [entryAt_written h₂.tree hf₂ rfl hq, ha₂ q k hq, ha₁ q k hq]
    rfl

end OldLinux.Mm
