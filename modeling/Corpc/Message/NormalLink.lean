/-
# `NormalLink`: a doubly linked list of nodes

`corpc_define.h`, as far as the buffer of sent messages uses it.  The null pointers at the
two ends of a list are closed to a ring here, with null as a position of its own (`NormalLink.next`,
`NormalLink.prev`).
-/

import Corpc.Basis.Chain
import Corpc.Basis.Linked

namespace Corpc.Message

open Corpc.Basis Function List Option

variable {A α : Type}

structure LinkNode (A α : Type) where
  data : α
  next : Option A
  prev : Option A

/-- `NormalLink`, with the nodes that are alive. -/
structure NormalLink (A α : Type) where
  heap : A → Option (LinkNode A α)
  head : Option A
  tail : Option A

def NormalLink.new : NormalLink A α := ⟨fun _ => none, none, none⟩

section Operations

variable [DecidableEq A]

/-- `if (node) node->next = next`. -/
def NormalLink.setNext (l : NormalLink A α) (p next : Option A) : Option (NormalLink A α) :=
  match p with
  | none => some l
  | some a => (l.heap a).map fun node =>
    { l with heap := update l.heap a (some { node with next }) }

/-- `if (node) node->prev = prev`. -/
def NormalLink.setPrev (l : NormalLink A α) (p prev : Option A) : Option (NormalLink A α) :=
  match p with
  | none => some l
  | some a => (l.heap a).map fun node =>
    { l with heap := update l.heap a (some { node with prev }) }

/-- `new Node()` at the address `a`, which is not in use, and `push_back` of it. -/
def NormalLink.push_back (l : NormalLink A α) (a : A) (data : α) : Option (NormalLink A α) :=
  if (l.heap a).isSome then none
  else
    match l.head, l.tail with
    | some _, some tail => do
        -- assert(!tail_->next)
        if ((← l.heap tail).next).isSome then none
        else
          let l := { l with heap := update l.heap a (some ⟨data, none, some tail⟩) }
          let l ← l.setNext (some tail) (some a)
          return { l with tail := some a }
    | none, none => some ⟨update l.heap a (some ⟨data, none, none⟩), some a, some a⟩
    -- assert(tail_), assert(!tail_)
    | _, _ => none

def NormalLink.erase (l : NormalLink A α) (a : A) : Option (NormalLink A α) := do
  let node ← l.heap a
  let l ← l.setNext node.prev node.next
  let l ← l.setPrev node.next node.prev
  let head := if l.head = some a then node.next else l.head
  let tail := if l.tail = some a then node.prev else l.tail
  return ⟨update l.heap a none, head, tail⟩

def clearLoop : ℕ → (A → Option (LinkNode A α)) → Option A → Option (A → Option (LinkNode A α))
  | _, heap, none => some heap
  | 0, _, some _ => none
  | fuel + 1, heap, some a =>
    (heap a).bind fun node => clearLoop fuel (update heap a none) node.next

def NormalLink.clear (fuel : ℕ) (l : NormalLink A α) : Option (NormalLink A α) :=
  (clearLoop fuel l.heap l.head).map fun heap => ⟨heap, none, none⟩

end Operations

def NormalLink.next (l : NormalLink A α) : Option A → Option (Option A)
  | none => some l.head
  | some a => (l.heap a).map (·.next)

def NormalLink.prev (l : NormalLink A α) : Option A → Option (Option A)
  | none => some l.tail
  | some a => (l.heap a).map (·.prev)

def ring (addrs : List A) : List (Option A) := none :: (addrs.map some ++ [none])

/-- The nodes of the list are `cells`, addresses with data. -/
structure NormalLink.Holds (l : NormalLink A α) (cells : List (A × α)) : Prop where
  nodup : (cells.map Prod.fst).Nodup
  data : ∀ c ∈ cells, (l.heap c.1).map (·.data) = some c.2
  alive : ∀ a, a ∉ cells.map Prod.fst → l.heap a = none
  linked : Linked l.next l.prev (ring (cells.map Prod.fst))

theorem NormalLink.holds_new : (NormalLink.new : NormalLink A α).Holds [] where
  nodup := nodup_nil
  data := nofun
  alive := fun _ _ => rfl
  linked := linked_pair.2 ⟨rfl, rfl⟩

section Holds

variable {l : NormalLink A α} {cells : List (A × α)} {c : A × α}

theorem NormalLink.Holds.head_nil (h : l.Holds []) : l.head = none := by
  have hnext := (linked_pair.1 h.linked).1
  exact some.inj hnext

theorem NormalLink.Holds.head_cons (h : l.Holds (c :: cells)) :
    l.head = some c.1 ∧ ∃ node, l.heap c.1 = some node ∧ node.data = c.2 ∧
      node.next = (cells.map Prod.fst).head? := by
  have hlinked := h.linked
  simp only [ring, map_cons, cons_append] at hlinked
  obtain ⟨⟨hhead, -⟩, hrest⟩ := linked_cons_cons.1 hlinked
  refine ⟨some.inj hhead, ?_⟩
  obtain ⟨node, hnode, hdata⟩ := map_eq_some_iff.1 (h.data c mem_cons_self)
  refine ⟨node, hnode, hdata, ?_⟩
  have hnext : ∀ q rest, (cells.map Prod.fst).map some ++ [none] = q :: rest → node.next = q := by
    intro q rest heq
    rw [heq] at hrest
    have hq := (linked_cons_cons.1 hrest).1.1
    simp only [NormalLink.next, hnode, map_some] at hq
    exact some.inj hq
  cases hcells : cells.map Prod.fst with
  | nil => exact hnext none [] (by rw [hcells]; rfl)
  | cons a rest => exact hnext (some a) _ (by rw [hcells]; rfl)

theorem ring_split (before after : List A) (a : A) :
    ring (before ++ a :: after) =
      (none :: before.map some) ++ some a :: (after.map some ++ [none]) := by
  simp [ring]

theorem nodup_ring_dropLast {addrs : List A} (h : addrs.Nodup) : (ring addrs).dropLast.Nodup := by
  rw [ring, ← cons_append, dropLast_concat, nodup_cons]
  exact ⟨by simp, h.map fun _ _ => some.inj⟩

theorem nodup_ring_tail {addrs : List A} (h : addrs.Nodup) : (ring addrs).tail.Nodup := by
  rw [ring, tail_cons, nodup_append]
  exact ⟨h.map fun _ _ => some.inj, nodup_singleton _, by simp⟩

theorem NormalLink.Holds.prev_head (h : l.Holds cells) : l.prev l.head = some none := by
  have hlinked := h.linked
  obtain ⟨z, rest, hz⟩ : ∃ z rest, (cells.map Prod.fst).map some ++ [none] = z :: rest := by
    cases cells.map Prod.fst with
    | nil => exact ⟨none, [], rfl⟩
    | cons a addrs => exact ⟨some a, addrs.map some ++ [none], rfl⟩
  rw [ring, hz] at hlinked
  obtain ⟨hnext, hprev⟩ := (linked_cons_cons.1 hlinked).1
  rw [some.inj hnext]
  exact hprev

theorem NormalLink.Holds.next_tail (h : l.Holds cells) : l.next l.tail = some none := by
  have hlinked := h.linked
  obtain ⟨init, z, hz⟩ : ∃ init z, none :: (cells.map Prod.fst).map some = init ++ [z] :=
    ⟨_, _, (dropLast_append_getLast (cons_ne_nil _ _)).symm⟩
  rw [ring, ← cons_append, hz, append_assoc, singleton_append] at hlinked
  obtain ⟨hnext, hprev⟩ := hlinked.neighbours
  rw [some.inj hprev]
  exact hnext

theorem NormalLink.Holds.tail_concat {init : List (A × α)} {t : A × α} (h : l.Holds (init ++ [t])) :
    l.tail = some t.1 ∧ l.head.isSome = true ∧
      ∃ node, l.heap t.1 = some node ∧ node.next = none := by
  have hlinked := h.linked
  rw [map_append, map_singleton, ring_split, map_nil, nil_append] at hlinked
  obtain ⟨hnext, hprev⟩ := hlinked.neighbours
  obtain ⟨node, hnode, hnull⟩ := map_eq_some_iff.1 hnext
  refine ⟨some.inj hprev, ?_, node, hnode, hnull⟩
  cases hhead : l.head with
  | some a => rfl
  | none =>
    have hback := h.prev_head
    rw [hhead, hprev] at hback
    exact nomatch some.inj hback

def cellsOf (heap : A → Option (LinkNode A α)) (a : A) : Option (Cell A α) :=
  (heap a).map fun node => ⟨node.data, node.next⟩

theorem NormalLink.chain_of_linked {p : Option A}
    (hdata : ∀ c ∈ cells, (l.heap c.1).map (·.data) = some c.2)
    (h : Linked l.next l.prev (p :: ((cells.map Prod.fst).map some ++ [none]))) :
    ∀ q, l.next p = some q → Chain (cellsOf l.heap) q cells := by
  induction cells generalizing p with
  | nil =>
    intro q hq
    obtain rfl : none = q := some.inj ((linked_pair.1 h).1.symm.trans hq)
    exact .nil
  | cons c cells ih =>
    intro q hq
    obtain ⟨⟨hc, -⟩, hrest⟩ := linked_cons_cons.1 h
    obtain rfl : some c.1 = q := some.inj (hc.symm.trans hq)
    obtain ⟨node, hnode, hnd⟩ := map_eq_some_iff.1 (hdata c mem_cons_self)
    refine .cons (q := node.next) (by simp [cellsOf, hnode, hnd]) ?_
    refine ih (fun x hx => hdata x (mem_cons_of_mem _ hx)) hrest node.next ?_
    simp [NormalLink.next, hnode]

end Holds

section Specs

variable [DecidableEq A] {l : NormalLink A α} {cells : List (A × α)}

theorem NormalLink.setNext_spec {p : Option A} (hp : (l.next p).isSome = true) (v : Option A) :
    ∃ l', l.setNext p v = some l' ∧ l'.head = l.head ∧ l'.tail = l.tail ∧ ∀ x, l'.heap x =
        if some x = p then (l.heap x).map fun node => { node with next := v } else l.heap x := by
  cases p with
  | none => exact ⟨l, rfl, rfl, rfl, fun x => (if_neg nofun).symm⟩
  | some a =>
    obtain ⟨node, hnode⟩ := isSome_iff_exists.1 (by simpa [NormalLink.next] using hp)
    refine ⟨{ l with heap := update l.heap a (some { node with next := v }) },
      by rw [NormalLink.setNext, hnode]; rfl, rfl, rfl, fun x => ?_⟩
    by_cases hx : x = a
    · subst hx
      simp [hnode]
    · simp [hx]

theorem NormalLink.setPrev_spec {p : Option A} (hp : (l.prev p).isSome = true) (v : Option A) :
    ∃ l', l.setPrev p v = some l' ∧ l'.head = l.head ∧ l'.tail = l.tail ∧ ∀ x, l'.heap x =
        if some x = p then (l.heap x).map fun node => { node with prev := v } else l.heap x := by
  cases p with
  | none => exact ⟨l, rfl, rfl, rfl, fun x => (if_neg nofun).symm⟩
  | some a =>
    obtain ⟨node, hnode⟩ := isSome_iff_exists.1 (by simpa [NormalLink.prev] using hp)
    refine ⟨{ l with heap := update l.heap a (some { node with prev := v }) },
      by rw [NormalLink.setPrev, hnode]; rfl, rfl, rfl, fun x => ?_⟩
    by_cases hx : x = a
    · subst hx
      simp [hnode]
    · simp [hx]

theorem NormalLink.erase_spec {a : A} {node : LinkNode A α} (hnode : l.heap a = some node)
    (hnext : l.next node.prev = some (some a)) (hprev : l.prev node.next = some (some a))
    (hhead : l.head = some a → node.prev = none) (htail : l.tail = some a → node.next = none) :
    ∃ l', l.erase a = some l' ∧
      (∀ x, l'.next x = if x = some a then none else if x = node.prev then some node.next
        else l.next x) ∧
      (∀ x, l'.prev x = if x = some a then none else if x = node.next then some node.prev
        else l.prev x) ∧
      ∀ x, (l'.heap x).map (·.data) = if x = a then none else (l.heap x).map (·.data) := by
  obtain ⟨l₁, h₁, hhead₁, htail₁, hheap₁⟩ := l.setNext_spec (by rw [hnext]; rfl) node.next
  have hprev₁ : (l₁.prev node.next).isSome = true := by
    cases hn : node.next with
    | none => rfl
    | some q =>
      rw [hn] at hprev
      simp only [NormalLink.prev, hheap₁] at hprev ⊢
      obtain ⟨nq, hnq, -⟩ := map_eq_some_iff.1 hprev
      split_ifs <;> simp [hnq]
  obtain ⟨l₂, h₂, hhead₂, htail₂, hheap₂⟩ := l₁.setPrev_spec hprev₁ node.prev
  have hkeepNext : ∀ x, (l₂.heap x).map (·.next) = (l₁.heap x).map (·.next) := by
    intro x
    rw [hheap₂]
    split_ifs
    · exact map_map ..
    · rfl
  have hkeepPrev : ∀ x, (l₁.heap x).map (·.prev) = (l.heap x).map (·.prev) := by
    intro x
    rw [hheap₁]
    split_ifs
    · exact map_map ..
    · rfl
  refine ⟨⟨update l₂.heap a none, if l₂.head = some a then node.next else l₂.head,
    if l₂.tail = some a then node.prev else l₂.tail⟩, ?_, fun x => ?_, fun x => ?_, fun x => ?_⟩
  · simp [NormalLink.erase, hnode, h₁, h₂]
  · cases x with
    | none =>
      simp only [NormalLink.next, hhead₂, hhead₁, reduceCtorEq, if_false]
      by_cases hnone : node.prev = none
      · rw [hnone] at hnext
        rw [if_pos hnone.symm, if_pos (some.inj hnext)]
      · rw [if_neg (Ne.symm hnone), if_neg fun h => hnone (hhead h)]
    | some x =>
      by_cases hx : x = a
      · simp [NormalLink.next, hx]
      · have hx' : ¬some x = some a := fun h => hx (some.inj h)
        rw [if_neg hx']
        simp only [NormalLink.next, update_of_ne hx, hkeepNext, hheap₁]
        split_ifs with hxp
        · rw [← hxp] at hnext
          obtain ⟨np, hnp, -⟩ := map_eq_some_iff.1 hnext
          simp [hnp]
        · rfl
  · cases x with
    | none =>
      simp only [NormalLink.prev, htail₂, htail₁, reduceCtorEq, if_false]
      by_cases hnone : node.next = none
      · rw [hnone] at hprev
        rw [if_pos hnone.symm, if_pos (some.inj hprev)]
      · rw [if_neg (Ne.symm hnone), if_neg fun h => hnone (htail h)]
    | some x =>
      by_cases hx : x = a
      · simp [NormalLink.prev, hx]
      · have hx' : ¬some x = some a := fun h => hx (some.inj h)
        rw [if_neg hx']
        simp only [NormalLink.prev, update_of_ne hx, hheap₂]
        split_ifs with hxq
        · have hnq := hkeepPrev x
          rw [← hxq] at hprev
          simp only [NormalLink.prev] at hprev
          rw [hprev] at hnq
          obtain ⟨nq, hnq, -⟩ := map_eq_some_iff.1 hnq
          simp [hnq]
        · exact hkeepPrev x
  · by_cases hx : x = a
    · simp [hx]
    · rw [if_neg hx]
      simp only [update_of_ne hx, hheap₂, hheap₁]
      split_ifs <;> simp [Function.comp_def]

theorem NormalLink.Holds.erase {before after : List (A × α)} {c : A × α}
    (h : l.Holds (before ++ c :: after)) :
    ∃ l', l.erase c.1 = some l' ∧ l'.Holds (before ++ after) := by
  have hlinked := h.linked
  have hsrc := nodup_ring_dropLast h.nodup
  have htgt := nodup_ring_tail h.nodup
  rw [map_append, map_cons, ring_split] at hlinked hsrc htgt
  obtain ⟨p, -, q, -, -, ⟨hnextp, hprevc⟩, ⟨hnextc, hprevq⟩, hunlink⟩ :=
    hlinked.unlink (cons_ne_nil _ _) (by simp) hsrc htgt
  obtain ⟨node, hnode, -⟩ := map_eq_some_iff.1 (h.data c (by simp))
  obtain rfl : node.prev = p := by simpa [NormalLink.prev, hnode] using hprevc
  obtain rfl : node.next = q := by simpa [NormalLink.next, hnode] using hnextc
  have hhead : l.head = some c.1 → node.prev = none := fun hhead => by
    have hnull := h.prev_head
    rw [hhead, hprevc] at hnull
    exact some.inj hnull
  have htail : l.tail = some c.1 → node.next = none := fun htail => by
    have hnull := h.next_tail
    rw [htail, hnextc] at hnull
    exact some.inj hnull
  obtain ⟨l', herase, hnext, hprev, hdata⟩ :=
    NormalLink.erase_spec hnode hnextp hprevq hhead htail
  have hne : ∀ x ∈ before ++ after, x.1 ≠ c.1 := by
    have hnd := h.nodup
    rw [map_append, map_cons, nodup_middle] at hnd
    intro x hx heq
    refine (nodup_cons.1 hnd).1 ?_
    rw [← map_append, ← heq]
    exact mem_map_of_mem hx
  refine ⟨l', herase, ?_, fun x hx => ?_, fun a ha => ?_, ?_⟩
  · exact h.nodup.sublist (Sublist.map _ (by simp))
  · rw [hdata, if_neg (hne x hx)]
    exact h.data x (by simpa using (mem_append.1 hx).imp id .inr)
  · have hnone : (l'.heap a).map (·.data) = none := by
      rw [hdata]
      split_ifs with hac
      · rfl
      · rw [h.alive a]
        · rfl
        · simpa [hac] using ha
    exact map_eq_none_iff.1 hnone
  · have hring : ring ((before ++ after).map Prod.fst) =
        (none :: (before.map Prod.fst).map some) ++ ((after.map Prod.fst).map some ++ [none]) := by
      simp [ring]
    rw [hring]
    refine hunlink l'.next l'.prev (fun x hx => ?_) fun x hx => ?_
    · rw [hnext, if_neg hx]
    · rw [hprev, if_neg hx]

theorem NormalLink.push_back_spec {a t : A} {node : LinkNode A α} (ha : l.heap a = none)
    (hhead : l.head.isSome = true) (htail : l.tail = some t) (hnode : l.heap t = some node)
    (hnull : node.next = none) (data : α) :
    ∃ l', l.push_back a data = some l' ∧
      (∀ x, l'.next x = if x = some a then some none else if x = some t then some (some a)
        else l.next x) ∧
      (∀ x, l'.prev x = if x = some a then some (some t) else if x = none then some (some a)
        else l.prev x) ∧
      ∀ x, (l'.heap x).map (·.data) = if x = a then some data else (l.heap x).map (·.data) := by
  obtain ⟨first, hfirst⟩ := isSome_iff_exists.1 hhead
  have hta : t ≠ a := by
    rintro rfl
    rw [ha] at hnode
    cases hnode
  refine ⟨⟨update (update l.heap a (some ⟨data, none, some t⟩)) t
    (some { node with next := some a }), l.head, some a⟩, ?_, fun x => ?_, fun x => ?_, fun x => ?_⟩
  · simp [NormalLink.push_back, ha, hfirst, htail, hnode, hnull, NormalLink.setNext, hta]
  · cases x with
    | none => simp [NormalLink.next]
    | some x =>
      by_cases hxt : x = t
      · simp [NormalLink.next, hxt, hta]
      · by_cases hxa : x = a
        · simp [NormalLink.next, hxa, hta.symm]
        · simp [NormalLink.next, hxt, hxa]
  · cases x with
    | none => simp [NormalLink.prev]
    | some x =>
      by_cases hxt : x = t
      · simp [NormalLink.prev, hxt, hta, hnode]
      · by_cases hxa : x = a
        · simp [NormalLink.prev, hxa, hta.symm]
        · simp [NormalLink.prev, hxt, hxa]
  · by_cases hxt : x = t
    · simp [hxt, hta, hnode]
    · by_cases hxa : x = a
      · simp [hxa, hta.symm]
      · simp [hxt, hxa]

theorem NormalLink.Holds.push_back (h : l.Holds cells) {a : A} (ha : l.heap a = none) (data : α) :
    ∃ l', l.push_back a data = some l' ∧ l'.Holds (cells ++ [(a, data)]) := by
  have hnew : a ∉ cells.map Prod.fst := by
    intro hmem
    obtain ⟨c, hc, rfl⟩ := mem_map.1 hmem
    have hdata := h.data c hc
    rw [ha] at hdata
    cases hdata
  have hnodup : ((cells ++ [(a, data)]).map Prod.fst).Nodup := by
    rw [map_append, map_singleton, nodup_append]
    refine ⟨h.nodup, nodup_singleton a, fun x hx y hy => ?_⟩
    obtain rfl : y = a := mem_singleton.1 hy
    rintro rfl
    exact hnew hx
  rcases eq_nil_or_concat cells with rfl | ⟨init, t, rfl⟩
  · have hhead := h.head_nil
    have htail : l.tail = none := some.inj (linked_pair.1 h.linked).2
    refine ⟨⟨update l.heap a (some ⟨data, none, none⟩), some a, some a⟩, ?_, hnodup,
      fun c hc => ?_, fun x hx => ?_, ?_⟩
    · simp [NormalLink.push_back, ha, hhead, htail]
    · obtain rfl : c = (a, data) := by simpa using hc
      simp
    · have hxa : x ≠ a := by simpa using hx
      dsimp only
      rw [update_of_ne hxa]
      exact h.alive x not_mem_nil
    · refine linked_cons_cons.2 ⟨⟨rfl, ?_⟩, linked_pair.2 ⟨?_, rfl⟩⟩
      · simp [NormalLink.prev]
      · simp [NormalLink.next]
  · rw [concat_eq_append] at h hnew hnodup ⊢
    obtain ⟨htail, hhead, node, hnode, hnull⟩ := h.tail_concat
    obtain ⟨l', hpush, hnext, hprev, hdata⟩ :=
      NormalLink.push_back_spec ha hhead htail hnode hnull data
    refine ⟨l', hpush, hnodup, fun c hc => ?_, fun x hx => ?_, ?_⟩
    · rw [hdata]
      rcases mem_append.1 hc with hc | hc
      · rw [if_neg fun heq : c.1 = a => hnew (heq ▸ mem_map_of_mem hc)]
        exact h.data c hc
      · rw [mem_singleton.1 hc, if_pos rfl]
    · rw [map_append, mem_append, not_or] at hx
      have hxa : x ≠ a := by simpa using hx.2
      have hnone := hdata x
      rw [if_neg hxa, h.alive x hx.1] at hnone
      exact map_eq_none_iff.1 hnone
    · have hring : ring ((init ++ [t]).map Prod.fst) =
          (none :: (init.map Prod.fst).map some) ++ some t.1 :: none :: [] := by
        rw [map_append, map_singleton, ring_split]
        rfl
      have hring' : ring ((init ++ [t] ++ [(a, data)]).map Prod.fst) =
          (none :: (init.map Prod.fst).map some) ++ some t.1 :: some a :: none :: [] := by
        simp [ring]
      have hlinked := h.linked
      have hsrc := nodup_ring_dropLast h.nodup
      have htgt := nodup_ring_tail h.nodup
      have hfresh : some a ∉ ring ((init ++ [t]).map Prod.fst) := by
        simpa [ring] using hnew
      rw [hring] at hlinked hsrc htgt hfresh
      rw [hring']
      exact hlinked.insert hsrc htgt hfresh hnext hprev

theorem clearLoop_spec {heap : A → Option (LinkNode A α)} {p : Option A} {fuel : ℕ}
    (h : Chain (cellsOf heap) p cells) (hnodup : (addrs cells).Nodup)
    (hfuel : cells.length ≤ fuel) :
    ∃ heap', clearLoop fuel heap p = some heap' ∧
      ∀ a, heap' a = if a ∈ addrs cells then none else heap a := by
  induction cells generalizing heap p fuel with
  | nil =>
    cases h
    refine ⟨heap, by cases fuel <;> rfl, fun a => by simp⟩
  | cons c cells ih =>
    obtain ⟨a, v⟩ := c
    obtain ⟨ha, hrest⟩ := nodup_cons.1 hnodup
    cases h with
    | cons hcell hchain =>
      obtain ⟨node, hnode, hcell⟩ := map_eq_some_iff.1 hcell
      obtain ⟨rfl, rfl⟩ := Cell.mk.inj hcell
      cases fuel with
      | zero => simp at hfuel
      | succ fuel =>
        have hupdate : cellsOf (update heap a none) = update (cellsOf heap) a none := by
          funext x
          by_cases hx : x = a
          · simp [cellsOf, hx]
          · simp [cellsOf, hx]
        obtain ⟨heap', hloop, hheap⟩ := ih (hupdate ▸ hchain.update ha none) hrest
          (Nat.le_of_succ_le_succ hfuel)
        refine ⟨heap', by rw [clearLoop, hnode]; exact hloop, fun x => ?_⟩
        rw [hheap]
        by_cases hx : x = a
        · simp [hx]
        · simp [hx]

theorem NormalLink.Holds.clear (h : l.Holds cells) {fuel : ℕ} (hfuel : cells.length ≤ fuel) :
    l.clear fuel = some .new := by
  have hchain : Chain (cellsOf l.heap) l.head cells :=
    NormalLink.chain_of_linked h.data h.linked l.head rfl
  obtain ⟨heap, hloop, hheap⟩ := clearLoop_spec hchain h.nodup hfuel
  have hempty : heap = fun _ => none := by
    funext a
    rw [hheap]
    split_ifs with ha
    · rfl
    · exact h.alive a ha
  rw [NormalLink.clear, hloop, hempty]
  rfl

end Specs

end Corpc.Message
