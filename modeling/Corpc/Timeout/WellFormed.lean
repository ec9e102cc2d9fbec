/-
# The shape of a `TimeoutList`

The nodes that are present come in groups, one for each time (`Group`): a representative and the
other nodes of its ring.
-/

import Corpc.Basis.Linked
import Corpc.Timeout.SkipList

namespace Corpc.Timeout

open Corpc.Basis Function List Option Nat

structure Record (A T : Type) where
  addr : A
  id : ℕ
  time : ℕ
  level : ℕ
  data : T

structure Group (A T : Type) where
  first : Record A T
  rest : List (Record A T)

variable {A T : Type}

def Record.shape (r : Record A T) : Shape T := ⟨r.time, some (r.id, r.data), r.level⟩

def Record.entry (r : Record A T) : A × ℕ × ℕ × T := (r.addr, r.id, r.time, r.data)

def Group.records (g : Group A T) : List (Record A T) := g.first :: g.rest

def Group.ring (g : Group A T) : List A := g.records.map (·.addr) ++ [g.first.addr]

/-- The representatives on level `i`. -/
def onLevel (groups : List (Group A T)) (i : ℕ) : List A :=
  (groups.filter (i < ·.first.level)).map (·.first.addr)

def entries (groups : List (Group A T)) : List (A × ℕ × ℕ × T) :=
  (groups.flatMap Group.records).map Record.entry

def top (groups : List (Group A T)) : ℕ :=
  groups.foldr (fun g m => max g.first.level m) 1

namespace TimeoutList

structure Static (l : TimeoutList A T) (records : List (Record A T)) : Prop where
  header : l.heap.shape l.pHeader = some ⟨maxTime, none, maxLevel⟩
  tail : l.heap.shape l.pTail = some ⟨0, none, maxLevel⟩
  nodes : ∀ r ∈ records, l.heap.shape r.addr = some r.shape
  alive : ∀ a, l.heap.shape a ≠ none → a ∈ l.pHeader :: l.pTail :: records.map (·.addr)
  nodup : (l.pHeader :: l.pTail :: records.map (·.addr)).Nodup
  nodeMap : l.nodeMap.Perm (records.map fun r => (r.id, r.addr))
  ids : (records.map (·.id)).Nodup

/-- **A list is well formed** with its nodes in these groups. -/
structure Holds (l : TimeoutList A T) (groups : List (Group A T)) : Prop where
  static : l.Static (groups.flatMap Group.records)
  levels : ∀ i < maxLevel, Linked (l.heap.read (.links i .next)) (l.heap.read (.links i .prev))
    (l.pHeader :: (onLevel groups i ++ [l.pTail]))
  rings : ∀ g ∈ groups, Linked (l.heap.read (.link .next)) (l.heap.read (.link .prev)) g.ring
  sorted : (groups.map (·.first.time)).Pairwise (· > ·)
  bounds : ∀ g ∈ groups, 0 < g.first.time ∧ g.first.time < maxTime ∧ 0 < g.first.level ∧
    g.first.level ≤ maxLevel
  members : ∀ g ∈ groups, ∀ r ∈ g.rest, r.time = g.first.time ∧ r.level = 0
  top : l.maxCurLevel = top groups

end TimeoutList

section Levels

variable {G G₁ G₂ : List (Group A T)} {g : Group A T} {i j : ℕ}

theorem onLevel_nil : onLevel ([] : List (Group A T)) i = [] := rfl

theorem onLevel_append : onLevel (G₁ ++ G₂) i = onLevel G₁ i ++ onLevel G₂ i := by
  simp [onLevel]

theorem onLevel_cons : onLevel (g :: G) i =
    if i < g.first.level then g.first.addr :: onLevel G i else onLevel G i := by
  by_cases h : i < g.first.level
  · simp [onLevel, h]
  · simp [onLevel, h]

theorem mem_onLevel {a : A} : a ∈ onLevel G i ↔ ∃ g ∈ G, i < g.first.level ∧ g.first.addr = a := by
  simp [onLevel, and_assoc]

theorem onLevel_sublist (h : i ≤ j) : (onLevel G j).Sublist (onLevel G i) := by
  refine Sublist.map _ (monotone_filter_right G fun g hg => ?_)
  rw [decide_eq_true_iff] at hg ⊢
  exact lt_of_le_of_lt h hg

theorem onLevel_sublist_records (G : List (Group A T)) (i : ℕ) :
    (onLevel G i).Sublist ((G.flatMap Group.records).map (·.addr)) := by
  induction G with
  | nil => exact nil_sublist _
  | cons g G ih =>
    rw [onLevel_cons, flatMap_cons, map_append, Group.records, map_cons, cons_append]
    have hrest := ih.trans (sublist_append_right (g.rest.map (·.addr)) _)
    split_ifs
    · exact hrest.cons_cons _
    · exact hrest.cons _

theorem top_cons : top (g :: G) = max g.first.level (top G) := rfl

theorem top_middle : top (G₁ ++ g :: G₂) = max g.first.level (top (G₁ ++ G₂)) := by
  induction G₁ with
  | nil => rfl
  | cons g₁ G₁ ih => rw [cons_append, top_cons, ih, cons_append, top_cons, max_left_comm]

theorem one_le_top : 1 ≤ top G := by
  induction G with
  | nil => exact le_refl 1
  | cons g G ih => exact ih.trans (le_max_right _ _)

theorem level_le_top (h : g ∈ G) : g.first.level ≤ top G := by
  obtain ⟨G₁, G₂, rfl⟩ := append_of_mem h
  rw [top_middle]
  exact le_max_left _ _

theorem top_le_iff {n : ℕ} : top G ≤ n ↔ 1 ≤ n ∧ ∀ g ∈ G, g.first.level ≤ n := by
  induction G with
  | nil => simp [top]
  | cons g G ih =>
    rw [top_cons, Nat.max_le, ih, List.forall_mem_cons]
    exact and_left_comm

theorem onLevel_eq_nil_iff : onLevel G i = [] ↔ ∀ g ∈ G, g.first.level ≤ i := by
  simp [onLevel, filter_eq_nil_iff]

end Levels

namespace TimeoutList

section Static

variable {l l' : TimeoutList A T} {R R' : List (Record A T)} {r : Record A T}

theorem Static.perm (h : l.Static R) (hp : R.Perm R') : l.Static R' where
  header := h.header
  tail := h.tail
  nodes := fun r hr => h.nodes r (hp.mem_iff.2 hr)
  alive := fun a ha => (((hp.map _).cons _).cons _).mem_iff.1 (h.alive a ha)
  nodup := (((hp.map _).cons _).cons _).nodup_iff.1 h.nodup
  nodeMap := h.nodeMap.trans (hp.map _)
  ids := (hp.map _).nodup_iff.1 h.ids

theorem Static.fresh (h : l.Static R) {a : A} (ha : l.heap a = none) :
    a ∉ l.pHeader :: l.pTail :: R.map (·.addr) := by
  have hnone : l.heap.shape a = none := by rw [Heap.shape, ha]; rfl
  intro hmem
  rcases mem_cons.1 hmem with rfl | hmem
  · cases hnone.symm.trans h.header
  · rcases mem_cons.1 hmem with rfl | hmem
    · cases hnone.symm.trans h.tail
    · obtain ⟨r, hr, rfl⟩ := mem_map.1 hmem
      cases hnone.symm.trans (h.nodes r hr)

/-- **`getNode` finds the node of a present id.** -/
theorem Static.getNode_iff (h : l.Static R) {id : ℕ} {a : A} :
    l.getNode id = some a ↔ ∃ r ∈ R, r.id = id ∧ r.addr = a := by
  have hmem : ∀ b, l.getNode id = some b → ∃ r ∈ R, r.id = id ∧ r.addr = b := by
    intro b hb
    obtain ⟨l₁, l₂, hmap, -⟩ := lookup_eq_some_iff.1 hb
    have hin : (id, b) ∈ l.nodeMap := by simp [hmap]
    obtain ⟨r, hr, heq⟩ := mem_map.1 (h.nodeMap.mem_iff.1 hin)
    exact ⟨r, hr, Prod.mk.inj heq⟩
  refine ⟨hmem a, ?_⟩
  rintro ⟨r, hr, rfl, rfl⟩
  cases hget : l.getNode r.id with
  | none =>
    have hin := h.nodeMap.mem_iff.2 (mem_map_of_mem hr)
    exact absurd (lookup_eq_none_iff.1 hget _ hin) (by simp)
  | some b =>
    obtain ⟨r', hr', hid, rfl⟩ := hmem b hget
    rw [inj_on_of_nodup_map h.ids hr' hr hid]

theorem Static.getNode_eq_none_iff (h : l.Static R) {id : ℕ} :
    l.getNode id = none ↔ id ∉ R.map (·.id) := by
  rw [eq_none_iff_forall_ne_some, List.mem_map, not_exists]
  refine ⟨fun hnone r hr => ?_, fun hnone a ha => ?_⟩
  · exact hnone _ (h.getNode_iff.2 ⟨r, hr.1, hr.2, rfl⟩)
  · obtain ⟨r, hr, hid, -⟩ := h.getNode_iff.1 ha
    exact hnone r ⟨hr, hid⟩

theorem Static.nodup_level {G : List (Group A T)} (h : l.Static (G.flatMap Group.records)) (i : ℕ) :
    (l.pHeader :: (onLevel G i ++ [l.pTail])).Nodup := by
  have hsub := ((onLevel_sublist_records G i).cons_cons l.pTail).cons_cons l.pHeader
  refine Perm.nodup (Perm.cons _ ?_) (h.nodup.sublist hsub)
  exact (perm_append_singleton _ _).symm

theorem forall_middle {α : Type} {xs ys : List α} {y : α} {P : α → Prop} :
    (∀ x ∈ xs ++ y :: ys, P x) ↔ P y ∧ ∀ x ∈ xs ++ ys, P x := by
  rw [← forall_mem_cons]
  exact forall_congr' fun x => by rw [perm_middle.mem_iff]

theorem flatMap_middle (G₁ G₂ : List (Group A T)) (g : Group A T) :
    ((G₁ ++ g :: G₂).flatMap Group.records).Perm
      (g.records ++ (G₁ ++ G₂).flatMap Group.records) := by
  simp only [flatMap_append, flatMap_cons]
  exact perm_append_comm_assoc ..

theorem entries_middle (G₁ G₂ : List (Group A T)) (g : Group A T) :
    (entries (G₁ ++ g :: G₂)).Perm (g.records.map Record.entry ++ entries (G₁ ++ G₂)) := by
  rw [entries, entries, ← map_append]
  exact (flatMap_middle G₁ G₂ g).map _

theorem mem_ring {g : Group A T} {x : A} : x ∈ g.ring ↔ x ∈ g.records.map (·.addr) := by
  simp only [Group.ring, Group.records, mem_append, map_cons, mem_cons, not_mem_nil, or_false]
  exact or_iff_left_of_imp .inl

theorem Static.nodup_ring {G₁ G₂ : List (Group A T)} {g : Group A T}
    (h : l.Static ((G₁ ++ g :: G₂).flatMap Group.records)) :
    g.ring.dropLast.Nodup ∧ g.ring.tail.Nodup ∧
      ∀ g' ∈ G₁ ++ G₂, ∀ x ∈ g'.ring, x ∉ g.records.map (·.addr) := by
  have hnd := (h.perm (flatMap_middle ..)).nodup
  rw [nodup_cons, nodup_cons, map_append, nodup_append] at hnd
  obtain ⟨-, -, hg, -, hdisj⟩ := hnd
  rw [Group.ring, dropLast_concat]
  refine ⟨hg, ?_, fun g' hg' x hx hmem => ?_⟩
  · simp only [Group.records, map_cons, cons_append, tail_cons]
    exact (perm_append_singleton _ _).nodup_iff.2 hg
  · obtain ⟨r', hr', rfl⟩ := mem_map.1 (mem_ring.1 hx)
    exact hdisj _ hmem _ (mem_map_of_mem (mem_flatMap.2 ⟨g', hg', hr'⟩)) rfl

theorem perm_third (a b c : A) (xs : List A) : (a :: b :: c :: xs).Perm (c :: a :: b :: xs) :=
  ((Perm.swap ..).cons _).trans (Perm.swap ..)

theorem Static.addr_notMem (h : l.Static (r :: R)) :
    r.addr ∉ l.pHeader :: l.pTail :: R.map (·.addr) :=
  (nodup_cons.1 ((perm_third ..).nodup_iff.1 h.nodup)).1

variable [DecidableEq A]

theorem shape_of_update {a : A} {s : Option (Shape T)}
    (hheader : l.heap.shape l.pHeader = some ⟨maxTime, none, maxLevel⟩)
    (htail : l.heap.shape l.pTail = some ⟨0, none, maxLevel⟩)
    (hnodes : ∀ r ∈ R, l.heap.shape r.addr = some r.shape)
    (ha : a ∉ l.pHeader :: l.pTail :: R.map (·.addr))
    (hshape : l'.heap.shape = update l.heap.shape a s)
    (hpHeader : l'.pHeader = l.pHeader) (hpTail : l'.pTail = l.pTail) :
    l'.heap.shape l'.pHeader = some ⟨maxTime, none, maxLevel⟩ ∧
      l'.heap.shape l'.pTail = some ⟨0, none, maxLevel⟩ ∧
      ∀ r ∈ R, l'.heap.shape r.addr = some r.shape := by
  simp only [mem_cons, not_or] at ha
  obtain ⟨hah, hat, har⟩ := ha
  rw [hshape, hpHeader, hpTail]
  refine ⟨?_, ?_, fun r hr => ?_⟩
  · rw [update_of_ne (Ne.symm hah), hheader]
  · rw [update_of_ne (Ne.symm hat), htail]
  · rw [update_of_ne, hnodes r hr]
    rintro rfl
    exact har (mem_map_of_mem hr)

theorem Static.insert (h : l.Static R) (ha : l.heap r.addr = none) (hid : r.id ∉ R.map (·.id))
    (hshape : l'.heap.shape = update l.heap.shape r.addr (some r.shape))
    (hmap : l'.nodeMap = (r.id, r.addr) :: l.nodeMap)
    (hheader : l'.pHeader = l.pHeader) (htail : l'.pTail = l.pTail) : l'.Static (r :: R) := by
  have hfresh := h.fresh ha
  obtain ⟨hh, ht, hn⟩ := shape_of_update h.header h.tail h.nodes hfresh hshape hheader htail
  have hperm := perm_third l.pHeader l.pTail r.addr (R.map (·.addr))
  refine ⟨hh, ht, forall_mem_cons.2 ⟨by rw [hshape, update_self], hn⟩,
    fun a halive => ?_, ?_, ?_, nodup_cons.2 ⟨hid, h.ids⟩⟩
  · rw [hheader, htail, map_cons, hperm.mem_iff, mem_cons]
    by_cases har : a = r.addr
    · exact .inl har
    · rw [hshape, update_of_ne har] at halive
      exact .inr (h.alive a halive)
  · rw [hheader, htail, map_cons, hperm.nodup_iff]
    exact nodup_cons.2 ⟨hfresh, h.nodup⟩
  · rw [hmap]
    exact h.nodeMap.cons _

theorem Static.remove (h : l.Static (r :: R))
    (hshape : l'.heap.shape = update l.heap.shape r.addr none)
    (hmap : l'.nodeMap = l.nodeMap.filter (·.1 ≠ r.id))
    (hheader : l'.pHeader = l.pHeader) (htail : l'.pTail = l.pTail) : l'.Static R := by
  obtain ⟨hh, ht, hn⟩ := shape_of_update h.header h.tail (forall_mem_cons.1 h.nodes).2
    h.addr_notMem hshape hheader htail
  refine ⟨hh, ht, hn, fun a halive => ?_, ?_, ?_, (nodup_cons.1 h.ids).2⟩
  · have har : a ≠ r.addr := by
      rintro rfl
      rw [hshape, update_self] at halive
      exact halive rfl
    rw [hshape, update_of_ne har] at halive
    have hmem := h.alive a halive
    rw [hheader, htail]
    simpa [har] using hmem
  · rw [hheader, htail]
    exact h.nodup.sublist (by simp)
  · rw [hmap]
    refine (h.nodeMap.filter _).trans ?_
    have hkeep : ∀ x ∈ R.map fun r => (r.id, r.addr), decide (x.1 ≠ r.id) = true := by
      intro x hx
      obtain ⟨r', hr', rfl⟩ := mem_map.1 hx
      refine decide_eq_true fun heq => ?_
      exact (nodup_cons.1 h.ids).1 (mem_map.2 ⟨r', hr', heq⟩)
    rw [map_cons, filter_cons_of_neg (by simp), filter_eq_self.2 hkeep]

theorem Static.relevel (h : l.Static (r :: R)) {n : ℕ} (hshape : l'.heap.shape =
      update l.heap.shape r.addr (some { r with level := n : Record A T }.shape))
    (hmap : l'.nodeMap = l.nodeMap) (hheader : l'.pHeader = l.pHeader)
    (htail : l'.pTail = l.pTail) : l'.Static ({ r with level := n } :: R) := by
  obtain ⟨hh, ht, hn⟩ := shape_of_update h.header h.tail (forall_mem_cons.1 h.nodes).2
    h.addr_notMem hshape hheader htail
  refine ⟨hh, ht, forall_mem_cons.2 ⟨by rw [hshape, update_self], hn⟩,
    fun a halive => ?_, ?_, hmap ▸ h.nodeMap, h.ids⟩
  · rw [hheader, htail]
    by_cases har : a = r.addr
    · simp [har]
    · rw [hshape, update_of_ne har] at halive
      exact h.alive a halive
  · rw [hheader, htail]
    exact h.nodup

end Static

section Search

variable {l : TimeoutList A T} {G G₁ G₂ : List (Group A T)} {g : Group A T} {id t i : ℕ}

def last (l : TimeoutList A T) (G : List (Group A T)) (i : ℕ) : A :=
  (onLevel G i).getLastD l.pHeader

def firstOn (l : TimeoutList A T) (G : List (Group A T)) (i : ℕ) : A :=
  (onLevel G i).headD l.pTail

theorem level_place (l : TimeoutList A T) (G₁ G₂ : List (Group A T)) (i : ℕ) :
    ∃ init rest, init ++ [l.last G₁ i] = l.pHeader :: onLevel G₁ i ∧
      l.pHeader :: (onLevel (G₁ ++ G₂) i ++ [l.pTail])
        = init ++ l.last G₁ i :: l.firstOn G₂ i :: rest ∧
      ∀ g : Group A T, i < g.first.level → l.pHeader :: (onLevel (G₁ ++ g :: G₂) i ++ [l.pTail])
          = init ++ l.last G₁ i :: g.first.addr :: l.firstOn G₂ i :: rest := by
  obtain ⟨init, hinit⟩ : ∃ init, init ++ [l.last G₁ i] = l.pHeader :: onLevel G₁ i := by
    unfold last
    rcases eq_nil_or_concat (onLevel G₁ i) with h | ⟨ys, y, h⟩
    · exact ⟨[], by simp [h]⟩
    · exact ⟨l.pHeader :: ys, by simp [h]⟩
  obtain ⟨rest, hrest⟩ : ∃ rest, l.firstOn G₂ i :: rest = onLevel G₂ i ++ [l.pTail] := by
    unfold firstOn
    cases onLevel G₂ i with
    | nil => exact ⟨[], rfl⟩
    | cons y ys => exact ⟨ys ++ [l.pTail], rfl⟩
  refine ⟨init, rest, hinit, ?_, fun g hg => ?_⟩
  · rw [hrest, onLevel_append, append_assoc, ← cons_append, ← hinit]
    simp
  · rw [hrest, onLevel_append, onLevel_cons, if_pos hg, append_assoc, ← cons_append, ← hinit]
    simp

theorem walk_spec {xs l₁ l₂ : List A} {cur s : A} {fuel : ℕ}
    (hlinked : Linked (l.heap.read (.links i .next)) (l.heap.read (.links i .prev))
      (l₁ ++ cur :: (xs ++ s :: l₂)))
    (hpass : ∀ x ∈ xs, ∃ sh, l.heap.shape x = some sh ∧ t ≤ sh.expireTime ∧
      sh.entry.map Prod.fst ≠ some id)
    (hstop : ∃ sh, l.heap.shape s = some sh ∧ sh.expireTime < t) (hfuel : xs.length < fuel) :
    l.walk i id t fuel cur = some (xs.getLastD cur) := by
  induction xs generalizing cur l₁ fuel with
  | nil =>
    obtain ⟨fuel, rfl⟩ := Nat.exists_eq_add_of_le' hfuel
    obtain ⟨sh, hs, hlt⟩ := hstop
    obtain ⟨node, hnode, rfl⟩ := map_eq_some_iff.1 hs
    have hnext := (hlinked.neighbours).1
    have hnot : ¬node.expireTime ≥ t := not_le.2 hlt
    simp [walk, hnext, hnode, hnot]
  | cons x xs ih =>
    obtain ⟨fuel, rfl⟩ := Nat.exists_eq_add_of_le' (Nat.zero_lt_of_lt hfuel)
    obtain ⟨sh, hx, hle, hid⟩ := hpass x List.mem_cons_self
    obtain ⟨node, hnode, rfl⟩ := map_eq_some_iff.1 hx
    have hnext := (hlinked.neighbours).1
    have hlinked' : Linked (l.heap.read (.links i .next)) (l.heap.read (.links i .prev))
        ((l₁ ++ [cur]) ++ x :: (xs ++ s :: l₂)) := by simpa using hlinked
    have hrest := ih hlinked' (fun y hy => hpass y (mem_cons_of_mem _ hy))
      (lt_of_succ_lt_succ hfuel)
    have hle' : node.expireTime ≥ t := hle
    have hid' : ¬node.entry.map Prod.fst = some id := hid
    simp only [walk, hnext, hnode, bind_eq_bind, bind_some, if_pos hle', if_neg hid']
    rw [hrest, getLastD_cons]

/-- The groups that do not expire before `t`, and the others. -/
structure Splits (G₁ G₂ : List (Group A T)) (t : ℕ) : Prop where
  before : ∀ g ∈ G₁, t ≤ g.first.time
  after : ∀ g ∈ G₂, g.first.time < t

theorem exists_splits (h : (G.map (·.first.time)).Pairwise (· > ·)) (t : ℕ) :
    ∃ G₁ G₂, G = G₁ ++ G₂ ∧ Splits G₁ G₂ t := by
  induction G with
  | nil => exact ⟨[], [], rfl, nofun, nofun⟩
  | cons g G ih =>
    obtain ⟨hg, hG⟩ := pairwise_cons.1 h
    by_cases ht : t ≤ g.first.time
    · obtain ⟨G₁, G₂, rfl, hs⟩ := ih hG
      exact ⟨g :: G₁, G₂, rfl, forall_mem_cons.2 ⟨ht, hs.before⟩, hs.after⟩
    · have hlt := not_le.1 ht
      exact ⟨[], g :: G, rfl, nofun, forall_mem_cons.2 ⟨hlt, fun g' hg' =>
          lt_trans (hg _ (mem_map_of_mem hg')) hlt⟩⟩

theorem Holds.shape_eq (h : l.Holds G) {g : Group A T} (hg : g ∈ G) {r : Record A T}
    (hr : r ∈ g.records) : l.heap.shape r.addr = some r.shape :=
  h.static.nodes r (mem_flatMap.2 ⟨g, hg, hr⟩)

theorem Holds.alive_ring (h : l.Holds G) {g : Group A T} (hg : g ∈ G) {x : A} (hx : x ∈ g.ring) :
    l.heap.shape x ≠ none := by
  obtain ⟨r, hr, rfl⟩ := mem_map.1 (mem_ring.1 hx)
  rw [h.shape_eq hg hr]
  exact some_ne_none _

theorem Holds.level_of_mem (h : l.Holds G) (hi : i < maxLevel) {x : A}
    (hx : x ∈ l.pHeader :: (onLevel G i ++ [l.pTail])) :
    ∃ s, l.heap.shape x = some s ∧ i < s.level := by
  simp only [mem_cons, mem_append, not_mem_nil, or_false] at hx
  rcases hx with rfl | hx | rfl
  · exact ⟨_, h.static.header, hi⟩
  · obtain ⟨g, hg, hlt, rfl⟩ := mem_onLevel.1 hx
    exact ⟨_, h.shape_eq hg mem_cons_self, hlt⟩
  · exact ⟨_, h.static.tail, hi⟩

theorem Holds.notMem_level (h : l.Holds G) {r : Record A T} (hr : r ∈ G.flatMap Group.records)
    (hi : r.level ≤ i) : r.addr ∉ l.pHeader :: (onLevel G i ++ [l.pTail]) := by
  have hnd := h.static.nodup
  have hmem : r.addr ∈ (G.flatMap Group.records).map (·.addr) := mem_map_of_mem hr
  simp only [nodup_cons, mem_cons, not_or] at hnd
  simp only [mem_cons, mem_append, not_mem_nil, or_false, not_or]
  refine ⟨?_, fun hon => ?_, ?_⟩
  · rintro heq
    exact hnd.1.2 (heq ▸ hmem)
  · obtain ⟨g, hg, hlt, haddr⟩ := mem_onLevel.1 hon
    have hfirst : g.first ∈ G.flatMap Group.records :=
      mem_flatMap.2 ⟨g, hg, mem_cons_self⟩
    rw [inj_on_of_nodup_map hnd.2.2 hfirst hr haddr] at hlt
    omega
  · rintro heq
    exact hnd.2.1 (heq ▸ hmem)

section

variable (h : l.Holds (G₁ ++ G₂)) (hs : Splits G₁ G₂ t) (ht : 0 < t) (hmax : t < maxTime)
  (hid : id ∉ ((G₁ ++ G₂).flatMap Group.records).map (·.id))
include h hs ht hmax hid

theorem Holds.walk_level (hi : i < maxLevel) {cur : A} (hcur : cur ∈ l.pHeader :: onLevel G₁ i) :
    l.walk i id t (l.nodeMap.length + 1) cur = some (l.last G₁ i) := by
  obtain ⟨l₁, xs, hsplit⟩ := append_of_mem hcur
  obtain ⟨s, l₂, hafter⟩ : ∃ s l₂, onLevel G₂ i ++ [l.pTail] = s :: l₂ :=
    exists_cons_of_ne_nil (by simp)
  have hlevel := h.levels i hi
  rw [onLevel_append, append_assoc, hafter, ← cons_append, hsplit, append_assoc,
    cons_append] at hlevel
  have hlast : l.last G₁ i = xs.getLastD cur := by
    have := congrArg List.getLast? hsplit
    simpa [last, List.getLast?_cons, getLastD_eq_getLast?] using this
  rw [hlast]
  refine walk_spec hlevel (fun x hx => ?_) ?_ ?_
  · have hmem : x ∈ l.pHeader :: onLevel G₁ i := by simp [hsplit, hx]
    rcases mem_cons.1 hmem with rfl | hmem
    · exact ⟨_, h.static.header, hmax.le, nofun⟩
    · obtain ⟨g, hg, -, rfl⟩ := mem_onLevel.1 hmem
      have hmem' : g ∈ G₁ ++ G₂ := mem_append_left _ hg
      refine ⟨_, h.shape_eq hmem' mem_cons_self, hs.before g hg, fun heq => hid ?_⟩
      exact mem_map.2 ⟨g.first, mem_flatMap.2 ⟨g, hmem', mem_cons_self⟩, some.inj heq⟩
  · have hmem : s ∈ onLevel G₂ i ++ [l.pTail] := by simp [hafter]
    rcases mem_append.1 hmem with hmem | hmem
    · obtain ⟨g, hg, -, rfl⟩ := mem_onLevel.1 hmem
      exact ⟨_, h.shape_eq (mem_append_right _ hg) mem_cons_self, hs.after g hg⟩
    · obtain rfl := mem_singleton.1 hmem
      exact ⟨_, h.static.tail, ht⟩
  · have hle := (onLevel_sublist_records (G₁ ++ G₂) i).length_le
    have hmap := h.static.nodeMap.length_eq
    have hlen := congrArg List.length hsplit
    rw [onLevel_append] at hle
    simp only [length_append, length_map, length_cons] at hle hmap hlen
    omega

/-- **The search** ends at the last representative that does not expire before the given
time, with the nodes in front of its place at each level. -/
theorem Holds.search_spec {n : ℕ} (hn : n ≤ maxLevel) (cur : A)
    (hcur : ∀ i < n, cur ∈ l.pHeader :: onLevel G₁ i) :
    l.search id t n cur =
      some (if n = 0 then cur else l.last G₁ 0, (List.range n).map (l.last G₁)) := by
  induction n generalizing cur with
  | zero => rfl
  | succ n ih =>
    have hwalk := h.walk_level hs ht hmax hid hn (hcur n n.lt_succ_self)
    have hrest := ih (le_of_succ_le hn) (l.last G₁ n) fun i hi =>
      ((onLevel_sublist hi.le).cons_cons _).subset getLastD_mem_cons
    simp only [search, hwalk, hrest, Option.bind_eq_bind, Option.bind_some, Option.pure_def,
      List.range_succ, List.map_append, List.map_cons, List.map_nil]
    cases n with
    | zero => rfl
    | succ n => rfl

end

theorem Holds.at_level (h : l.Holds (G₁ ++ g :: G₂)) (hi : i < g.first.level) :
    (l.heap.read (.links i .prev) g.first.addr = some (l.last G₁ i) ∧
      l.heap.read (.links i .next) g.first.addr = some (l.firstOn G₂ i)) ∧
    (l.last G₁ i ≠ g.first.addr ∧ l.firstOn G₂ i ≠ g.first.addr) ∧
    ∀ x ∈ [l.last G₁ i, l.firstOn G₂ i], x ∈ l.pHeader :: (onLevel (G₁ ++ g :: G₂) i ++ [l.pTail]) ∧
        ∃ s, l.heap.shape x = some s ∧ i < s.level := by
  have hi16 := lt_of_lt_of_le hi (forall_middle.1 h.bounds).1.2.2.2
  obtain ⟨init, rest, -, -, hplace⟩ := level_place l G₁ G₂ i
  have hlevel := h.levels i hi16
  have hnd := h.static.nodup_level i
  have hmem : ∀ x ∈ [l.last G₁ i, l.firstOn G₂ i],
      x ∈ l.pHeader :: (onLevel (G₁ ++ g :: G₂) i ++ [l.pTail]) := by
    rw [hplace g hi]
    simp
  rw [hplace g hi] at hlevel hnd
  obtain ⟨hbefore, hafter⟩ := linked_cons_cons.1 (linked_split.1 hlevel).2
  obtain ⟨hlast, hfirst⟩ := nodup_cons.1 (nodup_append.1 hnd).2.1
  refine ⟨⟨hbefore.2, (linked_cons_cons.1 hafter).1.1⟩, ⟨fun heq => ?_, fun heq => ?_⟩,
    fun x hx => ⟨hmem x hx, h.level_of_mem hi16 (hmem x hx)⟩⟩
  · exact hlast (by simp [heq])
  · exact (nodup_cons.1 hfirst).1 (by simp [heq])

theorem Holds.alone_iff (h : l.Holds (G₁ ++ g :: G₂)) :
    (i > 0 ∧ l.last G₁ i = l.pHeader ∧ l.firstOn G₂ i = l.pTail) ↔ Timeout.top (G₁ ++ G₂) ≤ i := by
  obtain ⟨hheader, hnd⟩ := nodup_cons.1 (h.static.nodup_level i)
  have htail := (nodup_cons.1 ((perm_append_singleton _ _).nodup_iff.1 hnd)).1
  simp only [onLevel_append, onLevel_cons, mem_append, not_or] at hheader htail
  rw [top_le_iff, ← onLevel_eq_nil_iff, onLevel_append, append_eq_nil_iff]
  refine and_congr Iff.rfl (and_congr ⟨fun heq => ?_, fun hnil => ?_⟩
    ⟨fun heq => ?_, fun hnil => ?_⟩)
  · rcases eq_nil_or_concat (onLevel G₁ i) with hnil | ⟨ys, y, hys⟩
    · exact hnil
    · have hmem : l.last G₁ i ∈ onLevel G₁ i := by
        rw [last, hys]
        simp
      exact absurd (heq ▸ hmem) hheader.1.1
  · rw [last, hnil]
    rfl
  · cases hys : onLevel G₂ i with
    | nil => rfl
    | cons y ys =>
      refine absurd ?_ htail.2
      simp only [firstOn, hys, headD_cons] at heq
      split_ifs <;> simp [hys, heq]
  · rw [firstOn, hnil]
    rfl

theorem Holds.top_le (h : l.Holds G) : l.maxCurLevel ≤ maxLevel := by
  rw [h.top, top_le_iff]
  exact ⟨by decide, fun g hg => (h.bounds g hg).2.2.2⟩

theorem Holds.prevNodes_eq (h : l.Holds (G₁ ++ G₂)) {i newlevel : ℕ} (hi : i < newlevel) :
    ((List.range l.maxCurLevel).map (l.last G₁) ++
      List.replicate (newlevel - l.maxCurLevel) l.pHeader)[i]? = some (l.last G₁ i) := by
  by_cases hlt : i < l.maxCurLevel
  · rw [List.getElem?_append_left (by simpa using hlt), List.getElem?_map, List.getElem?_range hlt]
    rfl
  · have hempty : onLevel G₁ i = [] := onLevel_eq_nil_iff.2 fun g hg => by
      have := level_le_top (G := G₁ ++ G₂) (mem_append_left _ hg)
      rw [← h.top] at this
      omega
    rw [List.getElem?_append_right (by simpa using hlt), List.getElem?_replicate, last, hempty]
    simp only [length_map, length_range]
    rw [if_pos (by omega)]
    rfl

end Search

theorem Holds.rings_of_frame {l l' : TimeoutList A T} {G₁ G₂ : List (Group A T)} {g : Group A T}
    (h : l.Holds (G₁ ++ g :: G₂))
    (hread : ∀ g' ∈ G₁ ++ G₂, ∀ x ∈ g'.ring, x ∉ g.records.map (·.addr) →
      ∀ d, l'.heap.read (.link d) x = l.heap.read (.link d) x) :
    ∀ g' ∈ G₁ ++ G₂, Linked (l'.heap.read (.link .next)) (l'.heap.read (.link .prev)) g'.ring := by
  intro g' hg'
  have hframe : ∀ x ∈ g'.ring, ∀ d, l'.heap.read (.link d) x = l.heap.read (.link d) x :=
    fun x hx => hread g' hg' x hx (h.static.nodup_ring.2.2 g' hg' x hx)
  exact ((forall_middle.1 h.rings).2 g' hg').congr
    (fun x hx => hframe x (dropLast_subset _ hx) .next)
    fun x hx => hframe x (mem_of_mem_tail hx) .prev

section New

variable {l : TimeoutList A T} {G : List (Group A T)} {r : Record A T}

theorem Holds.new_notMem (h : l.Holds G) (ha : l.heap r.addr = none) :
    (∀ i, r.addr ∉ l.pHeader :: (onLevel G i ++ [l.pTail])) ∧ ∀ g ∈ G, r.addr ∉ g.ring := by
  have hfresh := h.static.fresh ha
  simp only [mem_cons, not_or] at hfresh
  obtain ⟨hh, ht, hr⟩ := hfresh
  refine ⟨fun i => ?_, fun g hg hmem => hr ?_⟩
  · have hlevel : r.addr ∉ onLevel G i := fun hmem => hr ((onLevel_sublist_records G i).subset hmem)
    simp [hh, ht, hlevel]
  · obtain ⟨r', hr', heq⟩ := mem_map.1 (mem_ring.1 hmem)
    exact mem_map.2 ⟨r', mem_flatMap.2 ⟨g, hg, hr'⟩, heq⟩

theorem mapInsert_eq (hid : l.getNode r.id = none) :
    l.mapInsert r.id r.addr = (r.id, r.addr) :: l.nodeMap := by
  have hnone : l.nodeMap.lookup r.id = none := hid
  simp [mapInsert, hnone]

end New

theorem holds_new [DecidableEq A] {pHeader pTail : A} (hne : pHeader ≠ pTail) :
    (new pHeader pTail : TimeoutList A T).Holds [] where
  static :=
    { header := by simp [new, Heap.shape, Node.shape, Node.new]
      tail := by simp [new, Heap.shape, Node.shape, Node.new, hne.symm]
      nodes := nofun
      alive := fun a ha => by
        by_contra hmem
        refine ha ?_
        have hboth : a ≠ pHeader ∧ a ≠ pTail := by simpa [new] using hmem
        simp [new, Heap.shape, hboth]
      nodup := by simp [new, hne]
      nodeMap := Perm.refl _
      ids := nodup_nil }
  levels := fun i hi => by
    refine linked_pair.2 ⟨?_, ?_⟩
    · simp [new, Heap.read, Node.read, Link.get, hi]
    · simp [new, Heap.read, Node.read, Link.get, hne.symm, hi]
  rings := nofun
  sorted := List.Pairwise.nil
  bounds := nofun
  members := nofun
  top := rfl

end TimeoutList

end Corpc.Timeout
