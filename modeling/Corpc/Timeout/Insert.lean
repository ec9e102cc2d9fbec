/-
# `TimeoutList::insert`

The search ends at the last representative that does not expire before the new node.
-/

import Corpc.Timeout.WellFormed

namespace Corpc.Timeout

open Corpc.Basis Function List Option Nat

variable {A T : Type} [DecidableEq A]

theorem Heap.read_new {h : Heap A T} {a : A} (ha : h a = none) (t : ℕ) (entry : Option (ℕ × T))
    (n : ℕ) :
    (∀ i d, Heap.read (update h a (some (.new a t entry n))) (.links i d)
      = h.read (.links i d)) ∧
    (∀ d x, Heap.read (update h a (some (.new a t entry n))) (.link d) x
      = if x = a then some a else h.read (.link d) x) ∧
    Heap.shape (update h a (some (.new a t entry n)))
      = update h.shape a (some ⟨t, entry, n⟩) := by
  refine ⟨fun i d => funext fun x => ?_, fun d x => ?_, funext fun x => ?_⟩
  all_goals by_cases hx : x = a
  · subst hx
    rcases lt_or_ge i n with hi | hi
    · cases d <;> simp [Heap.read, Node.read, Node.new, ha, hi, Link.get]
    · simp [Heap.read, Node.read, Node.new, ha, hi]
  · simp [Heap.read, hx]
  · cases d <;> simp [Heap.read, Node.read, Node.new, Link.get, hx]
  · simp [Heap.read, hx]
  · simp [Heap.shape, Node.shape, Node.new, hx]
  · simp [Heap.shape, hx]

/-- **A node is put between two others** by four assignments; the order of the last two does
not matter. -/
theorem Heap.writes_insert {h : Heap A T} {f : Dir → Field} (hf : f .next ≠ f .prev) {a p q : A}
    (hpa : p ≠ a) (hqa : q ≠ a)
    (hfits : ∀ x ∈ [a, p, q], ∃ s, h.shape x = some s ∧ ∀ d, (f d).Fits s)
    {ws : List (Field × A × A)}
    (hws : ws = [(f .next, p, a), (f .prev, q, a)] ∨ ws = [(f .prev, q, a), (f .next, p, a)]) :
    ∃ h', h.writes ((f .next, a, q) :: (f .prev, a, p) :: ws) = some h' ∧ h'.shape = h.shape ∧
      (∀ x, h'.read (f .next) x =
        if x = a then some q else if x = p then some a else h.read (f .next) x) ∧
      (∀ x, h'.read (f .prev) x =
        if x = a then some p else if x = q then some a else h.read (f .prev) x) ∧
      ∀ g, (∀ d, g ≠ f d) → h'.read g = h.read g := by
  obtain ⟨h', hwrites, hshape, hread⟩ := Heap.writes_spec
      ((f .next, a, q) :: (f .prev, a, p) :: ws) (h := h) fun w hw => by
    have hw' : w.2.1 ∈ [a, p, q] ∧ ∃ d, w.1 = f d := by
      rcases hws with rfl | rfl <;> simp only [mem_cons, not_mem_nil, or_false] at hw <;>
        rcases hw with rfl | rfl | rfl | rfl <;> simp
    obtain ⟨hmem, d, hd⟩ := hw'
    obtain ⟨s, hs, hfit⟩ := hfits _ hmem
    exact ⟨s, hs, hd ▸ hfit d⟩
  refine ⟨h', hwrites, hshape, fun x => ?_, fun x => ?_, fun g hg => funext fun x => ?_⟩
  · rw [hread]
    by_cases hxa : x = a
    · rcases hws with rfl | rfl <;> simp [hxa, hf, hpa.symm]
    · rcases hws with rfl | rfl <;> simp [hxa, hf]
  · rw [hread]
    by_cases hxa : x = a
    · rcases hws with rfl | rfl <;> simp [hxa, hf.symm, hqa.symm]
    · rcases hws with rfl | rfl <;> simp [hxa, hf.symm]
  · rw [hread]
    rcases hws with rfl | rfl <;> simp [hg]

namespace TimeoutList

variable {l : TimeoutList A T} {G G₁ G₂ : List (Group A T)} {g : Group A T} {r : Record A T}

/-- **A node of a time that is present comes at the end of its ring.** -/
theorem Holds.insertRing_spec (h : l.Holds (G₁ ++ g :: G₂)) (ha : l.heap r.addr = none)
    (hid : l.getNode r.id = none) (htime : r.time = g.first.time) (hlevel : r.level = 0) :
    ∃ heap, l.insertRing r.addr g.first.addr (.new r.addr r.time (some (r.id, r.data)) 0)
        = some heap ∧
      { l with heap, nodeMap := l.mapInsert r.id r.addr }.Holds
        (G₁ ++ { g with rest := g.rest ++ [r] } :: G₂) := by
  obtain ⟨hlinks, hlink, hshape⟩ := Heap.read_new ha r.time (some (r.id, r.data)) 0
  obtain ⟨hsrc, htgt, -⟩ := h.static.nodup_ring
  obtain ⟨hnlevel, hnring⟩ := h.new_notMem ha
  obtain ⟨init, p, hinit⟩ : ∃ init p, g.records.map (·.addr) = init ++ [p] :=
    ⟨_, _, (dropLast_append_getLast (by simp [Group.records])).symm⟩
  have hg : g ∈ G₁ ++ g :: G₂ := by simp
  have hring := h.rings g hg
  have hnew := hnring g hg
  have hringeq : g.ring = init ++ p :: g.first.addr :: [] := by simp [Group.ring, hinit]
  rw [hringeq] at hring hsrc htgt hnew
  obtain ⟨hnext, hprev⟩ := hring.neighbours
  have hpa : p ≠ r.addr := fun heq => hnew (by simp [heq])
  have hfa : g.first.addr ≠ r.addr := fun heq => hnew (by simp [heq])
  have hfits : ∀ x ∈ [r.addr, p, g.first.addr], ∃ s, Heap.shape (update l.heap r.addr
      (some (.new r.addr r.time (some (r.id, r.data)) 0))) x = some s ∧
        ∀ d, (Field.link d).Fits s := by
    intro x hx
    rw [hshape]
    by_cases hxa : x = r.addr
    · exact ⟨_, by rw [hxa, update_self], fun _ => trivial⟩
    · have hmem : x ∈ g.ring := by
        rw [hringeq]
        simpa [hxa] using Or.inr hx
      obtain ⟨r', hr', rfl⟩ := mem_map.1 (mem_ring.1 hmem)
      exact ⟨_, by rw [update_of_ne hxa, h.shape_eq hg hr'], fun _ => trivial⟩
  obtain ⟨heap, hwrites, hshape', hnext', hprev', hother⟩ :=
    Heap.writes_insert (f := Field.link) (by simp) hpa hfa hfits (.inr rfl)
  have hsame : ∀ i, onLevel (G₁ ++ { g with rest := g.rest ++ [r] } :: G₂) i
      = onLevel (G₁ ++ g :: G₂) i := fun i => by simp only [onLevel_append, onLevel_cons]
  have hread : ∀ i d, heap.read (.links i d) = l.heap.read (.links i d) := fun i d => by
    rw [hother _ (by simp), hlinks]
  refine ⟨heap, by simp only [insertRing, hprev, bind_eq_bind, bind_some, hwrites],
    ?_, fun i hi => ?_, forall_middle.2 ⟨?_, ?_⟩, ?_, ?_, ?_, ?_⟩
  · have hstatic : { l with heap, nodeMap := l.mapInsert r.id r.addr }.Static
        (r :: (G₁ ++ g :: G₂).flatMap Group.records) := h.static.insert ha
      (h.static.getNode_eq_none_iff.1 hid)
      (hshape'.trans (hshape.trans (by simp [Record.shape, hlevel]))) (mapInsert_eq hid) rfl rfl
    refine hstatic.perm (((flatMap_middle ..).cons r).trans ?_)
    refine Perm.trans ?_ (flatMap_middle ..).symm
    simpa [Group.records] using (perm_append_singleton r g.records).symm.append_right _
  · dsimp only
    rw [hread, hread, hsame]
    exact h.levels i hi
  · have hringeq' : Group.ring { g with rest := g.rest ++ [r] }
        = init ++ p :: r.addr :: g.first.addr :: [] := by
      have hrecords : Group.records { g with rest := g.rest ++ [r] } = g.records ++ [r] := rfl
      simp [Group.ring, hrecords, hinit]
    rw [hringeq']
    refine hring.insert hsrc htgt hnew (fun x => ?_) fun x => ?_
    · rw [hnext', hlink]
      split_ifs <;> rfl
    · rw [hprev', hlink]
      split_ifs <;> rfl
  · refine h.rings_of_frame fun g' hg' x hx hnot d => ?_
    have hxa : x ≠ r.addr := fun heq => (forall_middle.1 hnring).2 g' hg' (heq ▸ hx)
    have hxp : x ≠ p := fun heq => hnot (by simp [heq, hinit])
    have hxf : x ≠ g.first.addr := fun heq => hnot (by simp [heq, Group.records])
    cases d with
    | next => rw [hnext', if_neg hxa, if_neg hxp, hlink, if_neg hxa]
    | prev => rw [hprev', if_neg hxa, if_neg hxf, hlink, if_neg hxa]
  · simpa using h.sorted
  · exact forall_middle.2 (forall_middle.1 h.bounds)
  · obtain ⟨hmembers, hrest⟩ := forall_middle.1 h.members
    refine forall_middle.2 ⟨fun r' hr' => ?_, hrest⟩
    rcases mem_append.1 hr' with hr' | hr'
    · exact hmembers r' hr'
    · rw [mem_singleton.1 hr']
      exact ⟨htime, hlevel⟩
  · simpa [top_middle] using h.top

theorem insertLevel_spec {a p q : A} {prevNodes : List A} {i : ℕ} (hp : prevNodes[i]? = some p)
    (hq : l.heap.read (.links i .next) p = some q) (hpa : p ≠ a) (hqa : q ≠ a)
    (hfits : ∀ x ∈ [a, p, q], ∃ s, l.heap.shape x = some s ∧ i < s.level) :
    ∃ l', insertLevel a prevNodes i l = some l' ∧ l.Rewired l' ∧ l'.maxCurLevel = l.maxCurLevel ∧
      (∀ g, (∀ d, g ≠ .links i d) → l'.heap.read g = l.heap.read g) ∧
      (∀ x, l'.heap.read (.links i .next) x =
        if x = a then some q else if x = p then some a else l.heap.read (.links i .next) x) ∧
      ∀ x, l'.heap.read (.links i .prev) x =
        if x = a then some p else if x = q then some a else l.heap.read (.links i .prev) x := by
  obtain ⟨heap, hwrites, hshape, hnext, hprev, hother⟩ := Heap.writes_insert (f := Field.links i)
    (by simp) hpa hqa (fun x hx => (hfits x hx).imp fun s hs => ⟨hs.1, fun _ => hs.2⟩) (.inl rfl)
  exact ⟨{ l with heap }, by simp [insertLevel, hp, hq, hwrites], ⟨rfl, rfl, rfl, hshape⟩, rfl,
    hother, hnext, hprev⟩

/-- **A node of a new time is linked at each of its levels.** -/
theorem Holds.insertLevels_spec (h : l.Holds (G₁ ++ G₂)) (ha : l.heap r.addr = none)
    (hid : l.getNode r.id = none) (hlow : 0 < r.level) (hhigh : r.level ≤ maxLevel)
    (htime : 0 < r.time ∧ r.time < maxTime) (hbefore : ∀ g ∈ G₁, r.time < g.first.time)
    (hafter : ∀ g ∈ G₂, g.first.time < r.time) {prevNodes : List A}
    (hprev : ∀ i < r.level, prevNodes[i]? = some (l.last G₁ i)) :
    ∃ l', levelLoop (insertLevel r.addr prevNodes) r.level
        { l with
          maxCurLevel := max l.maxCurLevel r.level
          heap := update l.heap r.addr
            (some (.new r.addr r.time (some (r.id, r.data)) r.level)) } = some l' ∧
      { l' with nodeMap := l'.mapInsert r.id r.addr }.Holds (G₁ ++ Group.mk r [] :: G₂) ∧
      l'.pHeader = l.pHeader ∧ l'.pTail = l.pTail := by
  obtain ⟨hlinks, hlink, hshape⟩ := Heap.read_new ha r.time (some (r.id, r.data)) r.level
  obtain ⟨hnlevel, hnring⟩ := h.new_notMem ha
  obtain ⟨l', hloop, hrew, hmax, hother, hlevels⟩ := levelLoop_spec (insertLevel r.addr prevNodes)
    { l with
      maxCurLevel := max l.maxCurLevel r.level
      heap := update l.heap r.addr
        (some (.new r.addr r.time (some (r.id, r.data)) r.level)) }
    r.level (fun _ => max l.maxCurLevel r.level)
    (fun i next prev =>
      (∀ x, next x = if x = r.addr then some (l.firstOn G₂ i)
        else if x = l.last G₁ i then some r.addr else l.heap.read (.links i .next) x) ∧
      ∀ x, prev x = if x = r.addr then some (l.last G₁ i)
        else if x = l.firstOn G₂ i then some r.addr else l.heap.read (.links i .prev) x)
    rfl fun n hn l₁ hrew hmax hread => by
      obtain ⟨init, rest, -, hold, -⟩ := level_place l G₁ G₂ n
      have hn16 := lt_of_lt_of_le hn hhigh
      have hnew := hnlevel n
      have hlevel := h.levels n hn16
      rw [hold] at hnew hlevel
      have hfits : ∀ x ∈ [r.addr, l.last G₁ n, l.firstOn G₂ n],
          ∃ s, l₁.heap.shape x = some s ∧ n < s.level := by
        intro x hx
        rw [hrew.shape, hshape]
        by_cases hxa : x = r.addr
        · exact ⟨_, by rw [hxa, update_self], hn⟩
        · rw [update_of_ne hxa]
          refine h.level_of_mem hn16 ?_
          rw [hold]
          have hx' : x = l.last G₁ n ∨ x = l.firstOn G₂ n := by simpa [hxa] using hx
          rcases hx' with rfl | rfl <;> simp
      obtain ⟨l₂, hround, hrew₂, hmax₂, hother₂, hnext₂, hprev₂⟩ := insertLevel_spec (hprev n hn)
        (by rw [hread, hlinks]; exact hlevel.neighbours.1) (fun heq => hnew (by simp [← heq]))
        (fun heq => hnew (by simp [← heq])) hfits
      refine ⟨l₂, hround, hrew₂, hmax₂.trans hmax, hother₂, fun x => ?_, fun x => ?_⟩
      · rw [hnext₂, hread, hlinks]
      · rw [hprev₂, hread, hlinks]
  obtain ⟨hheader, htail, hmap, hshape'⟩ := hrew
  have hid' : l'.getNode r.id = none := by rwa [getNode, hmap]
  have hkeep : ∀ d x, l'.heap.read (.link d) x
      = if x = r.addr then some r.addr else l.heap.read (.link d) x := fun d x => by
    rw [hother _ (by simp), hlink]
  refine ⟨l', hloop, ⟨?_, fun i hi => ?_, forall_middle.2 ⟨?_, fun g hg => ?_⟩, ?_,
    forall_middle.2 ⟨⟨htime.1, htime.2, hlow, hhigh⟩, h.bounds⟩, forall_middle.2 ⟨nofun, h.members⟩,
    ?_⟩, hheader, htail⟩
  · have hstatic : { l' with nodeMap := l'.mapInsert r.id r.addr }.Static
        (r :: (G₁ ++ G₂).flatMap Group.records) := h.static.insert ha
      (h.static.getNode_eq_none_iff.1 hid) (hshape'.trans hshape)
      ((mapInsert_eq hid').trans (by rw [hmap])) hheader htail
    exact hstatic.perm (flatMap_middle G₁ G₂ (Group.mk r [])).symm
  · show Linked (l'.heap.read _) (l'.heap.read _) (l'.pHeader :: (_ ++ [l'.pTail]))
    rw [hheader, htail]
    by_cases hlt : i < r.level
    · obtain ⟨init, rest, -, hold, hnew⟩ := level_place l G₁ G₂ i
      obtain ⟨hnext, hprev⟩ := hlevels i hlt
      have hnd := h.static.nodup_level i
      have hfresh := hnlevel i
      have hlevel := h.levels i hi
      rw [hold] at hnd hfresh hlevel
      rw [hnew (Group.mk r []) hlt]
      exact hlevel.insert (hnd.sublist (dropLast_sublist _))
        (hnd.sublist (tail_sublist _)) hfresh hnext hprev
    · have hread : ∀ d, l'.heap.read (.links i d) = l.heap.read (.links i d) := fun d => by
        rw [hother _ fun j hj e heq => ?_, hlinks]
        exact hlt ((Field.links.inj heq).1 ▸ hj)
      rw [hread, hread, onLevel_append, onLevel_cons, if_neg hlt, ← onLevel_append]
      exact h.levels i hi
  · refine linked_pair.2 ⟨?_, ?_⟩
    · rw [hkeep, if_pos rfl]
    · rw [hkeep, if_pos rfl]
  · refine (h.rings g hg).congr (fun x hx => ?_) fun x hx => ?_
    · rw [hkeep, if_neg]
      rintro rfl
      exact hnring g hg (dropLast_subset _ hx)
    · rw [hkeep, if_neg]
      rintro rfl
      exact hnring g hg (mem_of_mem_tail hx)
  · have hsorted := h.sorted
    simp only [map_append, map_cons, pairwise_append, pairwise_cons, mem_cons,
      List.mem_map] at hsorted ⊢
    refine ⟨hsorted.1, ⟨?_, hsorted.2.1⟩, ?_⟩
    · rintro _ ⟨g, hg, rfl⟩
      exact hafter g hg
    · rintro _ ⟨g, hg, rfl⟩ _ (rfl | ⟨g', hg', rfl⟩)
      · exact hbefore g hg
      · exact hsorted.2.2 _ ⟨g, hg, rfl⟩ _ ⟨g', hg', rfl⟩
  · show l'.maxCurLevel = _
    rw [hmax, top_middle, h.top, max_comm]

theorem randomLevelFrom_bounds (rand : ℕ → ℕ) (left level : ℕ) :
    level ≤ randomLevelFrom rand left level ∧ randomLevelFrom rand left level ≤ level + left := by
  induction left generalizing level with
  | zero => exact ⟨le_refl _, le_refl _⟩
  | succ left ih =>
    have hrec := ih (level + 1)
    unfold randomLevelFrom
    split_ifs
    · omega
    · omega

theorem randomLevel_bounds (rand : ℕ → ℕ) :
    0 < randomLevel rand ∧ randomLevel rand ≤ maxLevel := by
  have h := randomLevelFrom_bounds rand (maxLevel - 1) 1
  have hmax : maxLevel = 16 := rfl
  unfold randomLevel
  omega

/-- **`insert` adds its node**, and fails no assertion. -/
theorem Holds.insert_spec (h : l.Holds G) {a : A} {id t : ℕ} (ha : l.heap a = none)
    (hid : l.getNode id = none) (ht : 0 < t) (hmax : t < maxTime) (rand : ℕ → ℕ) (data : T) :
    ∃ l' G', l.insert a rand id t data = some l' ∧ l'.Holds G' ∧
      (entries G').Perm ((a, id, t, data) :: entries G) ∧
      l'.pHeader = l.pHeader ∧ l'.pTail = l.pTail := by
  obtain ⟨G₁, G₂, rfl, hs⟩ := exists_splits h.sorted t
  have hone : l.maxCurLevel ≠ 0 := by
    have := one_le_top (G := G₁ ++ G₂)
    rw [← h.top] at this
    omega
  have hsearch := h.search_spec hs ht hmax (h.static.getNode_eq_none_iff.1 hid) h.top_le
    l.pHeader fun _ _ => mem_cons_self
  rw [if_neg hone] at hsearch
  obtain ⟨hlow, hhigh⟩ := randomLevel_bounds rand
  -- the node at which the search ends, and what happens if its time is another one
  have hlevels : ∀ node, l.heap (l.last G₁ 0) = some node → node.expireTime ≠ t →
      (∀ g ∈ G₁, t < g.first.time) → ∃ l' G', l.insert a rand id t data = some l' ∧ l'.Holds G' ∧
        (entries G').Perm ((a, id, t, data) :: entries (G₁ ++ G₂)) ∧
        l'.pHeader = l.pHeader ∧ l'.pTail = l.pTail := by
    intro node hnode hne hbefore
    obtain ⟨l', hloop, hholds, hends⟩ := h.insertLevels_spec
      (r := ⟨a, id, t, randomLevel rand, data⟩) ha hid hlow hhigh ⟨ht, hmax⟩ hbefore hs.after
      fun i hi => h.prevNodes_eq hi
    refine ⟨_, _, ?_, hholds, entries_middle .., hends⟩
    simp [insert, ha, hsearch, hnode, hne, hloop]
  rcases eq_nil_or_concat G₁ with rfl | ⟨G₁, g, rfl⟩
  · obtain ⟨node, hnode, hshape⟩ := map_eq_some_iff.1 h.static.header
    refine hlevels node hnode (fun heq => ?_) nofun
    have : node.expireTime = maxTime := congrArg Shape.expireTime hshape
    omega
  rw [concat_eq_append] at *
  have hg : g ∈ G₁ ++ [g] ++ G₂ := by simp
  have hlast : l.last (G₁ ++ [g]) 0 = g.first.addr := by
    have hpos := (h.bounds g hg).2.2.1
    simp [last, onLevel_append, onLevel_cons, onLevel_nil, hpos]
  obtain ⟨node, hnode, hshape⟩ := map_eq_some_iff.1 (h.shape_eq hg mem_cons_self)
  have htime : node.expireTime = g.first.time := congrArg Shape.expireTime hshape
  by_cases heq : g.first.time = t
  · rw [append_assoc, singleton_append] at h ⊢
    obtain ⟨heap, hring, hholds⟩ := h.insertRing_spec (r := ⟨a, id, t, 0, data⟩) ha hid heq.symm rfl
    refine ⟨_, _, ?_, hholds, (entries_middle ..).trans (.trans ?_
      ((entries_middle ..).cons _).symm), rfl, rfl⟩
    · simp [insert, ha, hsearch, hlast, hnode, htime, heq, hring]
    · simpa [Group.records, Record.entry] using
        (perm_append_singleton (a, id, t, data) (g.records.map Record.entry)).append_right _
  · refine hlevels node (hlast ▸ hnode) (htime ▸ heq) fun g' hg' => ?_
    have hsorted := h.sorted
    rw [map_append, map_append, append_assoc, pairwise_append] at hsorted
    have hle := hs.before g (by simp)
    rcases mem_append.1 hg' with hg' | hg'
    · have := hsorted.2.2 _ (mem_map_of_mem hg') g.first.time (by simp)
      omega
    · rw [mem_singleton.1 hg']
      omega

end TimeoutList

end Corpc.Timeout
