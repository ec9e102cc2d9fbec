/-
# `TimeoutList` refines a priority map

What a `TimeoutList` is for: a map from an id to a node with its time and data, of which the
earliest can be asked for (`PriorityMap`).
-/

import Corpc.Basis.Run
import Corpc.Timeout.Insert
import Corpc.Timeout.Remove

namespace Corpc.Timeout

open Corpc.Basis Function List Option

structure Timer (A T : Type) where
  node : A
  expireTime : ℕ
  data : T

abbrev PriorityMap (A T : Type) := ℕ → Option (Timer A T)

/-- The calls.  `insert` comes with the node that is created and the values of `rand()`. -/
inductive ListOp (A T : Type)
  | insert (node : A) (rand : ℕ → ℕ) (id expireTime : ℕ) (data : T)
  | remove (node : A)

variable {A T : Type}

def PriorityMap.Earliest (m : PriorityMap A T) (a : A) : Prop :=
  ∃ id x, m id = some x ∧ x.node = a ∧ ∀ id' y, m id' = some y → x.expireTime ≤ y.expireTime

/-- The sequences of calls from an empty list on, with the map after them. -/
inductive Allowed (pHeader pTail : A) : List (ListOp A T) → PriorityMap A T → Prop
  | nil : Allowed pHeader pTail [] fun _ => none
  | insert {ops : List (ListOp A T)} {m : PriorityMap A T} (h : Allowed pHeader pTail ops m) (a : A)
      (rand : ℕ → ℕ) (id t : ℕ) (data : T) (hid : m id = none) (hlow : 0 < t) (hhigh : t < maxTime)
      (hheader : a ≠ pHeader) (htail : a ≠ pTail) (hfresh : ∀ id x, m id = some x → x.node ≠ a) :
      Allowed pHeader pTail (ops ++ [.insert a rand id t data])
        (update m id (some ⟨a, t, data⟩))
  | remove {ops : List (ListOp A T)} {m : PriorityMap A T} (h : Allowed pHeader pTail ops m)
      (id : ℕ) {x : Timer A T} (hid : m id = some x) :
      Allowed pHeader pTail (ops ++ [.remove x.node]) (update m id none)

namespace TimeoutList

section Ends

variable {l : TimeoutList A T} {G : List (Group A T)}

theorem Holds.ends (h : l.Holds G) :
    l.heap.read (.links 0 .next) l.pHeader = some (l.firstOn G 0) ∧
      l.heap.read (.links 0 .prev) l.pTail = some (l.last G 0) := by
  have hlevel := h.levels 0 (by decide)
  obtain ⟨init, rest, hinit, hfirst, -⟩ := level_place l [] G 0
  obtain ⟨init', rest', -, hlast, -⟩ := level_place l G [] 0
  rw [nil_append] at hfirst
  rw [append_nil] at hlast
  refine ⟨?_, ?_⟩
  · rw [hfirst] at hlevel
    exact hlevel.neighbours.1
  · rw [hlast] at hlevel
    exact hlevel.neighbours.2

variable [DecidableEq A]

theorem Holds.empty_eq (h : l.Holds G) : l.empty = some G.isEmpty := by
  rw [empty, h.ends.1]
  cases G with
  | nil => simp [firstOn, onLevel_nil]
  | cons g G =>
    have hpos := (h.bounds g mem_cons_self).2.2.1
    have hnd := h.static.nodup_level 0
    rw [onLevel_cons, if_pos hpos] at hnd
    have hne : g.first.addr ≠ l.pTail := by
      rintro heq
      simp [heq] at hnd
    simp [firstOn, onLevel_cons, hpos, hne]

/-- **`getLast` returns a node of the least time**, if there is one. -/
theorem Holds.getLast_spec (h : l.Holds G) :
    (G = [] ∧ l.getLast = some none) ∨
      ∃ r ∈ G.flatMap Group.records, l.getLast = some (some r.addr) ∧
        ∀ r' ∈ G.flatMap Group.records, r.time ≤ r'.time := by
  have hend := h.ends.2
  rcases eq_nil_or_concat G with rfl | ⟨G, g, rfl⟩
  · exact .inl ⟨rfl, by simp [getLast, hend, last, onLevel_nil]⟩
  rw [concat_eq_append] at *
  have hg : g ∈ G ++ [g] := by simp
  have hpos := (h.bounds g hg).2.2.1
  have hlast : l.last (G ++ [g]) 0 = g.first.addr := by
    simp [last, onLevel_append, onLevel_cons, onLevel_nil, hpos]
  have hne : g.first.addr ≠ l.pHeader := by
    have hmem : g.first.addr ∈ onLevel (G ++ [g]) 0 := mem_onLevel.2 ⟨g, hg, hpos, rfl⟩
    rintro heq
    exact (nodup_cons.1 (h.static.nodup_level 0)).1 (mem_append_left _ (heq ▸ hmem))
  -- the last node of the ring of the last group
  obtain ⟨init, r, hrecords⟩ : ∃ init r, g.records = init ++ [r] :=
    ⟨_, _, (dropLast_append_getLast (by simp [Group.records])).symm⟩
  have hprev : l.heap.read (.link .prev) g.first.addr = some r.addr := by
    have hring := h.rings g hg
    rw [Group.ring, hrecords, map_append, append_assoc] at hring
    exact hring.neighbours.2
  have htime : ∀ g' ∈ G ++ [g], ∀ r' ∈ g'.records, r'.time = g'.first.time := by
    intro g' hg' r' hr'
    rcases mem_cons.1 hr' with rfl | hr'
    · rfl
    · exact (h.members g' hg' r' hr').1
  have hr : r ∈ g.records := by simp [hrecords]
  refine .inr ⟨r, mem_flatMap.2 ⟨g, hg, hr⟩, ?_, fun r' hr' => ?_⟩
  · simp [getLast, hend, hlast, hne, hprev]
  · obtain ⟨g', hg', hr'⟩ := mem_flatMap.1 hr'
    rw [htime g hg r hr, htime g' hg' r' hr']
    have hsorted := h.sorted
    rw [map_append, pairwise_append] at hsorted
    rcases mem_append.1 hg' with hg' | hg'
    · exact (hsorted.2.2 _ (mem_map_of_mem hg') g.first.time (by simp)).le
    · rw [mem_singleton.1 hg']

end Ends

structure Represents (l : TimeoutList A T) (G : List (Group A T)) (m : PriorityMap A T) : Prop where
  holds : l.Holds G
  present : ∀ id x, m id = some x ↔ (x.node, id, x.expireTime, x.data) ∈ entries G

section Represents

variable {l : TimeoutList A T} {G : List (Group A T)} {m : PriorityMap A T}

theorem Represents.exists_record (h : l.Represents G m) {id : ℕ} {x : Timer A T}
    (hx : m id = some x) :
    ∃ r ∈ G.flatMap Group.records, r.id = id ∧ Timer.mk r.addr r.time r.data = x := by
  obtain ⟨r, hr, heq⟩ := mem_map.1 ((h.present id x).1 hx)
  simp only [Record.entry, Prod.mk.injEq] at heq
  obtain ⟨hnode, hid, htime, hdata⟩ := heq
  exact ⟨r, hr, hid, by rw [hnode, htime, hdata]⟩

theorem Represents.of_record (h : l.Represents G m) {r : Record A T}
    (hr : r ∈ G.flatMap Group.records) : m r.id = some ⟨r.addr, r.time, r.data⟩ :=
  (h.present r.id ⟨r.addr, r.time, r.data⟩).2 (mem_map_of_mem hr)

theorem Represents.isEmpty_iff (h : l.Represents G m) : G = [] ↔ ∀ id, m id = none := by
  refine ⟨?_, fun hnone => ?_⟩
  · rintro rfl id
    refine eq_none_iff_forall_ne_some.2 fun x hx => ?_
    cases (h.present id x).1 hx
  · cases G with
    | nil => rfl
    | cons g G =>
      have hr : g.first ∈ (g :: G).flatMap Group.records :=
        mem_flatMap.2 ⟨g, mem_cons_self, mem_cons_self⟩
      cases (hnone g.first.id).symm.trans (h.of_record hr)

/-- **`getNode` answers as the map does.** -/
theorem Represents.getNode_eq (h : l.Represents G m) (id : ℕ) :
    l.getNode id = (m id).map (·.node) := by
  cases hm : m id with
  | none =>
    refine h.holds.static.getNode_eq_none_iff.2 fun hmem => ?_
    obtain ⟨r, hr, rfl⟩ := mem_map.1 hmem
    cases hm.symm.trans (h.of_record hr)
  | some x =>
    obtain ⟨r, hr, rfl, rfl⟩ := h.exists_record hm
    exact h.holds.static.getNode_iff.2 ⟨r, hr, rfl, rfl⟩

theorem Represents.heap_eq_none (h : l.Represents G m) {a : A} (hheader : a ≠ l.pHeader)
    (htail : a ≠ l.pTail) (hfresh : ∀ id x, m id = some x → x.node ≠ a) : l.heap a = none := by
  by_contra hne
  have hshape : l.heap.shape a ≠ none := by
    rwa [Heap.shape, ne_eq, map_eq_none_iff]
  have hmem := h.holds.static.alive a hshape
  simp only [mem_cons, hheader, htail, false_or] at hmem
  obtain ⟨r, hr, rfl⟩ := mem_map.1 hmem
  exact hfresh r.id _ (h.of_record hr) rfl

end Represents

variable [DecidableEq A]

def step (l : TimeoutList A T) : ListOp A T → Option (TimeoutList A T)
  | .insert a rand id t data => l.insert a rand id t data
  | .remove a => l.remove a

theorem exists_represents {pHeader pTail : A} (hne : pHeader ≠ pTail) {ops : List (ListOp A T)}
    {m : PriorityMap A T} (h : Allowed pHeader pTail ops m) :
    ∃ l G, run step (new pHeader pTail) ops = some l ∧ l.Represents G m ∧
      l.pHeader = pHeader ∧ l.pTail = pTail := by
  induction h with
  | nil => exact ⟨_, [], rfl, ⟨holds_new hne, fun id x => by simp [entries]⟩, rfl, rfl⟩
  | insert _ a rand id t data hid hlow hhigh hheader htail hfresh ih =>
    obtain ⟨l, G, hrun, hrep, rfl, rfl⟩ := ih
    have hnone : l.getNode id = none := by rw [hrep.getNode_eq, hid]; rfl
    obtain ⟨l', G', hinsert, hholds, hperm, hends⟩ := hrep.holds.insert_spec
      (hrep.heap_eq_none hheader htail hfresh) hnone hlow hhigh rand data
    refine ⟨l', G', by simp [run_append, hrun, run_cons, step, hinsert], ⟨hholds, fun id' x => ?_⟩,
      hends⟩
    rw [hperm.mem_iff, mem_cons, ← hrep.present]
    by_cases heq : id' = id
    · subst heq
      obtain ⟨node, expireTime, data'⟩ := x
      simp [hid, eq_comm]
    · simp [heq]
  | remove _ id hid ih =>
    obtain ⟨l, G, hrun, hrep, rfl, rfl⟩ := ih
    obtain ⟨r, hr, rfl, rfl⟩ := hrep.exists_record hid
    obtain ⟨l', G', hremove, hholds, hperm, hends⟩ := hrep.holds.remove_spec hr
    refine ⟨l', G', by simp [run_append, hrun, run_cons, step, hremove], ⟨hholds, fun id' x => ?_⟩,
      hends⟩
    -- no other node has the id
    have hids : ((entries G).map (·.2.1)).Nodup := by
      rw [entries, List.map_map]
      exact hrep.holds.static.ids
    have hnot := (nodup_cons.1 ((hperm.map (·.2.1)).nodup_iff.1 hids)).1
    by_cases heq : id' = r.id
    · subst heq
      simp only [update_self, reduceCtorEq, false_iff]
      exact fun hmem => hnot (mem_map.2 ⟨_, hmem, rfl⟩)
    · rw [update_of_ne heq, hrep.present, hperm.mem_iff, mem_cons, or_iff_right]
      rintro hentry
      exact heq (congrArg (·.2.1) hentry)

/-- **`TimeoutList` refines a priority map.** -/
theorem refines {pHeader pTail : A} (hne : pHeader ≠ pTail) {ops : List (ListOp A T)}
    {m : PriorityMap A T} (h : Allowed pHeader pTail ops m) :
    ∃ l G, run step (new pHeader pTail) ops = some l ∧ l.Holds G ∧
      (∀ i, (onLevel G (i + 1)).Sublist (onLevel G i)) ∧
      (∀ id, l.getNode id = (m id).map (·.node)) ∧
      (∀ id x, m id = some x → ∃ node, l.heap x.node = some node ∧
        node.expireTime = x.expireTime ∧ node.entry = some (id, x.data)) ∧
      (∃ b, l.empty = some b ∧ (b = true ↔ ∀ id, m id = none)) ∧
      ∃ last, l.getLast = some last ∧ (last = none ↔ ∀ id, m id = none) ∧
        ∀ a, last = some a → m.Earliest a := by
  obtain ⟨l, G, hrun, hrep, -⟩ := exists_represents hne h
  refine ⟨l, G, hrun, hrep.holds, fun i => onLevel_sublist (Nat.le_succ i), hrep.getNode_eq,
    fun id x hx => ?_, ⟨_, hrep.holds.empty_eq, ?_⟩, ?_⟩
  · obtain ⟨r, hr, rfl, rfl⟩ := hrep.exists_record hx
    obtain ⟨node, hnode, hshape⟩ := map_eq_some_iff.1 (hrep.holds.static.nodes r hr)
    exact ⟨node, hnode, congrArg Shape.expireTime hshape, congrArg Shape.entry hshape⟩
  · rw [List.isEmpty_iff, hrep.isEmpty_iff]
  · rcases hrep.holds.getLast_spec with ⟨hnil, hlast⟩ | ⟨r, hr, hlast, hmin⟩
    · exact ⟨none, hlast, iff_of_true rfl (hrep.isEmpty_iff.1 hnil), nofun⟩
    · have hm := hrep.of_record hr
      refine ⟨some r.addr, hlast, iff_of_false nofun fun hnone => ?_, ?_⟩
      · cases (hnone r.id).symm.trans hm
      · intro a ha
        refine ⟨r.id, _, hm, some.inj ha, fun id' y hy => ?_⟩
        obtain ⟨r', hr', -, rfl⟩ := hrep.exists_record hy
        exact hmin r' hr'

/-- Two nodes of one time, the first of which is removed: the other takes its place. -/
theorem refines_promoted :
    ∃ l : TimeoutList ℕ Unit, run step (new 0 1)
        [.insert 2 (fun _ => 0) 7 5 (), .insert 3 (fun _ => 0) 8 5 (), .remove 2] = some l ∧
      l.getNode 7 = none ∧ l.getNode 8 = some 3 := by
  have hfresh : ∀ id x, (update (fun _ => none) 7 (some ⟨2, 5, ()⟩) :
      PriorityMap ℕ Unit) id = some x → x.node ≠ 3 := by
    intro id x hx
    by_cases hid : id = 7
    · subst hid
      cases hx
      decide
    · simp [hid] at hx
  have hfirst := (Allowed.nil : Allowed 0 1 [] (fun _ => none : PriorityMap ℕ Unit)).insert
    2 (fun _ => 0) 7 5 () rfl (by decide) (by decide) (by decide) (by decide) nofun
  have hsecond := hfirst.insert 3 (fun _ => 0) 8 5 () rfl (by decide) (by decide) (by decide)
    (by decide) hfresh
  obtain ⟨l, G, hrun, -, -, hget, -⟩ := refines (by decide) (hsecond.remove 7 rfl)
  exact ⟨l, hrun, hget 7, hget 8⟩

end TimeoutList

end Corpc.Timeout
