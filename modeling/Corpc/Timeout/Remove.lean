/-
# `TimeoutList::remove`

A node that is not a representative leaves its ring (`Holds.removeMember`).  A representative with
others in its ring hands its links to the next one, which takes its place at every level
(`Holds.promote`).
-/

import Corpc.Timeout.WellFormed

namespace Corpc.Timeout

open Corpc.Basis Function List Option Nat Group Heap

variable {A T : Type} [DecidableEq A]

theorem Heap.read_delete (h : Heap A T) (a : A) (f : Field) (x : A) :
    Heap.read (update h a none) f x = if x = a then none else h.read f x := by
  by_cases hx : x = a
  · simp [read, hx]
  · simp [read, hx]

theorem Heap.shape_delete (h : Heap A T) (a : A) :
    Heap.shape (update h a none) = update h.shape a none := by
  funext x
  by_cases hx : x = a
  · simp [shape, hx]
  · simp [shape, hx]

theorem Heap.write_pair {h : Heap A T} {f : Dir → Field} (hf : f .next ≠ f .prev) {p q : A}
    (hfits : ∀ x ∈ [p, q], ∃ s, h.shape x = some s ∧ ∀ d, (f d).Fits s) (v w : A) :
    ∃ h₁ h', h.write (f .next) p v = some h₁ ∧ h₁.write (f .prev) q w = some h' ∧
      h'.shape = h.shape ∧ h₁.read (f .prev) = h.read (f .prev) ∧
      h'.read (f .next) = h₁.read (f .next) ∧
      (∀ x, h'.read (f .next) x = if x = p then some v else h.read (f .next) x) ∧
      (∀ x, h'.read (f .prev) x = if x = q then some w else h.read (f .prev) x) ∧
      ∀ g, (∀ d, g ≠ f d) → h'.read g = h.read g := by
  obtain ⟨⟨sp, hsp, hfp⟩, ⟨sq, hsq, hfq⟩, -⟩ := by simpa only [forall_mem_cons] using hfits
  obtain ⟨h₁, hwrite₁, hshape₁, hread₁⟩ := write_spec hsp (hfp .next) v
  obtain ⟨h', hwrite', hshape', hread'⟩ := write_spec (hshape₁ ▸ hsq) (hfq .prev) w
  refine ⟨h₁, h', hwrite₁, hwrite', hshape'.trans hshape₁, funext fun x => ?_, funext fun x => ?_,
    fun x => ?_, fun x => ?_, fun g hg => funext fun x => ?_⟩
  · simp [hread₁, hf.symm]
  · simp [hread', hf]
  · simp [hread', hread₁, hf]
  · simp [hread', hread₁, hf.symm]
  · simp [hread', hread₁, hg]

namespace TimeoutList

variable {l : TimeoutList A T} {G G₁ G₂ : List (Group A T)} {g : Group A T} {r : Record A T}

def delete (l : TimeoutList A T) (r : Record A T) : TimeoutList A T :=
  { l with
    nodeMap := l.nodeMap.filter (·.1 ≠ r.id), heap := update l.heap r.addr none }

theorem remove_eq {l' : TimeoutList A T} {node : Node A T} (hnode : l.heap r.addr = some node)
    (hshape : node.shape = r.shape) (hdetach : l.detach r.addr node = some l') :
    l.remove r.addr = some (l'.delete r) := by
  have hentry : node.entry = some (r.id, r.data) := congrArg Shape.entry hshape
  simp [remove, hnode, hentry, hdetach, delete]

theorem removeRing_spec {h : Heap A T} {a p q : A} (hp : h.read (.link .prev) a = some p)
    (hq : h.read (.link .next) a = some q) (hps : h.shape p ≠ none) (hqs : h.shape q ≠ none) :
    ∃ h', removeRing h a = some h' ∧ h'.shape = h.shape ∧
      (∀ x, h'.read (.link .next) x = if x = p then some q else h.read (.link .next) x) ∧
      (∀ x, h'.read (.link .prev) x = if x = q then some p else h.read (.link .prev) x) ∧
      ∀ i d, h'.read (.links i d) = h.read (.links i d) := by
  obtain ⟨h₁, h', hwrite₁, hwrite', hshape, -, -, hnext, hprev, hother⟩ :=
    write_pair (f := Field.link) (h := h) (p := p) (q := q) (by simp) (fun x hx => by
      have hne : h.shape x ≠ none := by
        rcases mem_pair.1 hx with rfl | rfl
        · exact hps
        · exact hqs
      obtain ⟨s, hs⟩ := ne_none_iff_exists'.1 hne
      exact ⟨s, hs, fun _ => trivial⟩) q p
  exact ⟨h', by simp [removeRing, writes, hp, hq, hwrite₁, hwrite'], hshape, hnext, hprev,
    fun i d => hother _ (by simp)⟩

structure Around (l : TimeoutList A T) (a : A) (l₁ l₂ : List A) : Prop where
  linked : Linked (l.heap.read (.link .next)) (l.heap.read (.link .prev)) (l₁ ++ a :: l₂)
  left : l₁ ≠ []
  right : l₂ ≠ []
  nodup : (l₁ ++ a :: l₂).dropLast.Nodup ∧ (l₁ ++ a :: l₂).tail.Nodup
  alive : ∀ x ∈ l₁ ++ l₂, l.heap.shape x ≠ none

/-- **A node leaves its ring.**  Its neighbours are others, so no assertion fails. -/
theorem Around.removeRing {a : A} {l₁ l₂ : List A} (h : l.Around a l₁ l₂) :
    ∃ heap q, removeRing l.heap a = some heap ∧ heap.shape = l.heap.shape ∧
      (l.heap.read (.link .next) a = some q ∧ q ∈ l₂ ∧ q ≠ a) ∧
      l.heap.read (.link .prev) a ≠ some a ∧
      (∀ i d, heap.read (.links i d) = l.heap.read (.links i d)) ∧
      (∀ d x, x ∉ l₁ ++ l₂ → heap.read (.link d) x = l.heap.read (.link d) x) ∧
      ∀ heap' : Heap A T, (∀ d x, x ≠ a → heap'.read (.link d) x = heap.read (.link d) x) →
        Linked (heap'.read (.link .next)) (heap'.read (.link .prev)) (l₁ ++ l₂) := by
  obtain ⟨p, hp, q, hq, ⟨hpne, hqne⟩, ⟨hpa, hap⟩, ⟨haq, hqa⟩, hunlink⟩ :=
    h.linked.unlink h.left h.right h.nodup.1 h.nodup.2
  obtain ⟨heap, hremove, hshape, hnext, hprev, hlinks⟩ := removeRing_spec hap haq
    (h.alive p (mem_append_left _ hp)) (h.alive q (mem_append_right _ hq))
  refine ⟨heap, q, hremove, hshape, ⟨haq, hq, hqne⟩, fun heq => ?_, hlinks, fun d x hx => ?_,
    fun heap' hread => hunlink _ _ (fun x hx => ?_) fun x hx => ?_⟩
  · exact hpne (some.inj (hap.symm.trans heq))
  · cases d with
    | next =>
      rw [hnext, if_neg]
      rintro rfl
      exact hx (mem_append_left _ hp)
    | prev =>
      rw [hprev, if_neg]
      rintro rfl
      exact hx (mem_append_right _ hq)
  · rw [hread _ _ hx, hnext]
  · rw [hread _ _ hx, hprev]

/-- **A node that is not a representative leaves its ring.** -/
theorem Holds.removeMember (h : l.Holds (G₁ ++ g :: G₂)) {R₁ R₂ : List (Record A T)}
    (hg : g.rest = R₁ ++ r :: R₂) :
    ∃ l', l.remove r.addr = some l' ∧ l'.Holds (G₁ ++ { g with rest := R₁ ++ R₂ } :: G₂) ∧
      l'.pHeader = l.pHeader ∧ l'.pTail = l.pTail := by
  have hr : r ∈ g.records := by simp [records, hg]
  have hmem : g ∈ G₁ ++ g :: G₂ := by simp
  obtain ⟨node, hnode, hshape⟩ := map_eq_some_iff.1 (h.shape_eq hmem hr)
  obtain ⟨htime, hlevel⟩ := h.members g hmem r (by simp [hg])
  have hringeq : g.ring = (g.first :: R₁).map (·.addr) ++
      r.addr :: (R₂.map (·.addr) ++ [g.first.addr]) := by
    simp [ring, records, hg]
  obtain ⟨hsrc, htgt, -⟩ := h.static.nodup_ring
  have haround : l.Around r.addr ((g.first :: R₁).map (·.addr))
      (R₂.map (·.addr) ++ [g.first.addr]) := by
    refine ⟨hringeq ▸ h.rings g hmem, by simp, by simp, hringeq ▸ ⟨hsrc, htgt⟩, fun x hx => ?_⟩
    refine h.alive_ring hmem ?_
    rw [hringeq]
    exact (sublist_cons_self ..).append_left _ |>.subset hx
  obtain ⟨heap, q, hremove, hshape', ⟨hq, -, hqa⟩, hprev, hlinks, hframe, hring⟩ :=
    haround.removeRing
  have hdetach : l.detach r.addr node = some { l with heap } := by
    have hlen : node.links.length = 0 := (congrArg Shape.level hshape).trans hlevel
    have hnext : node.link.next = some q := by
      simpa [Heap.read, hnode, Node.read, Link.get] using hq
    have hprev' : node.link.prev ≠ some r.addr := by
      simpa [Heap.read, hnode, Node.read, Link.get] using hprev
    simp [detach, hlen, hnext, hqa, hprev', hremove]
  have hread : ∀ f x, x ≠ r.addr → read ({ l with heap }.delete r).heap f x = heap.read f x :=
    fun f x hx => (read_delete ..).trans (if_neg hx)
  have hnlevel : ∀ i, r.addr ∉ l.pHeader :: (onLevel (G₁ ++ g :: G₂) i ++ [l.pTail]) := fun i =>
    h.notMem_level (mem_flatMap.2 ⟨g, hmem, hr⟩) (hlevel ▸ zero_le i)
  have hne : ∀ i d, ∀ x ∈ l.pHeader :: (onLevel (G₁ ++ g :: G₂) i ++ [l.pTail]),
      read ({ l with heap }.delete r).heap (.links i d) x = l.heap.read (.links i d) x :=
    fun i d x hx => (hread _ x fun heq => hnlevel i (heq ▸ hx)).trans (by rw [hlinks])
  refine ⟨_, remove_eq hnode hshape hdetach, ⟨?_, fun i hi => ?_, forall_middle.2 ⟨?_, ?_⟩,
    by simpa using h.sorted, forall_middle.2 (forall_middle.1 h.bounds), ?_,
    h.top.trans (by rw [top_middle, top_middle])⟩, rfl, rfl⟩
  · refine (h.static.perm ?_).remove ((shape_delete ..).trans (by rw [hshape'])) rfl rfl rfl
    refine (flatMap_middle ..).trans (.trans ?_ ((flatMap_middle ..).cons r).symm)
    rw [records, hg]
    exact (perm_middle : ((g.first :: R₁) ++ r :: R₂).Perm _).append_right _
  · have hsame : onLevel (G₁ ++ { g with rest := R₁ ++ R₂ } :: G₂) i
        = onLevel (G₁ ++ g :: G₂) i := by simp only [onLevel_append, onLevel_cons]
    rw [hsame]
    exact (h.levels i hi).congr (fun x hx => hne i _ x (dropLast_subset _ hx))
      fun x hx => hne i _ x (mem_of_mem_tail hx)
  · have hringeq' : ring { g with rest := R₁ ++ R₂ }
        = (g.first :: R₁).map (·.addr) ++ (R₂.map (·.addr) ++ [g.first.addr]) := by
      simp [ring, records]
    rw [hringeq']
    exact hring _ fun d x hx => hread _ x hx
  · refine h.rings_of_frame fun g' hg' x hx hnot d => ?_
    rw [hread, hframe]
    · intro hx'
      refine hnot (mem_ring.1 ?_)
      rw [hringeq]
      exact (sublist_cons_self ..).append_left _ |>.subset hx'
    · rintro rfl
      exact hnot (mem_map_of_mem hr)
  · obtain ⟨hmembers, hrest⟩ := forall_middle.1 h.members
    refine forall_middle.2 ⟨fun r' hr' => hmembers r' ?_, hrest⟩
    rw [hg]
    exact (sublist_cons_self ..).append_left _ |>.subset hr'

variable {i : ℕ}

theorem removeLevel_spec {a p q : A} (hp : l.heap.read (.links i .prev) a = some p)
    (hq : l.heap.read (.links i .next) a = some q) (hpa : p ≠ a) (hqa : q ≠ a)
    (hfits : ∀ x ∈ [p, q], ∃ s, l.heap.shape x = some s ∧ i < s.level) :
    ∃ l', removeLevel a i l = some l' ∧ l.Rewired l' ∧ l'.maxCurLevel =
        (if i > 0 ∧ p = l.pHeader ∧ q = l.pTail then l.maxCurLevel - 1 else l.maxCurLevel) ∧
      (∀ g, (∀ d, g ≠ .links i d) → l'.heap.read g = l.heap.read g) ∧
      (∀ x, l'.heap.read (.links i .next) x =
        if x = p then some q else l.heap.read (.links i .next) x) ∧
      ∀ x, l'.heap.read (.links i .prev) x =
        if x = q then some p else l.heap.read (.links i .prev) x := by
  obtain ⟨h₁, h', hwrite₁, hwrite', hshape, hprev₁, hnext₁, hnext, hprev, hother⟩ :=
    write_pair (f := Field.links i) (h := l.heap) (p := p) (q := q) (by simp)
      (fun x hx => (hfits x hx).imp fun s hs => ⟨hs.1, fun _ => hs.2⟩) q p
  have hnexta : h'.read (.links i .next) a = some q := by rw [hnext, if_neg hpa.symm, hq]
  have hpreva : h'.read (.links i .prev) a = some p := by rw [hprev, if_neg hqa.symm, hp]
  refine ⟨{ l with
    heap := h'
    maxCurLevel :=
      if i > 0 ∧ p = l.pHeader ∧ q = l.pTail then l.maxCurLevel - 1 else l.maxCurLevel },
    ?_, ⟨rfl, rfl, rfl, hshape⟩, rfl, hother, hnext, hprev⟩
  simp [removeLevel, hp, hq, hwrite₁, ← hnext₁, hnexta, hprev₁, hwrite', hpreva]

theorem promoteLevel_spec {c p q : A} (hp : l.heap.read (.links i .prev) c = some p)
    (hq : l.heap.read (.links i .next) c = some q) (hpc : p ≠ c)
    (hfits : ∀ x ∈ [p, q], ∃ s, l.heap.shape x = some s ∧ i < s.level) :
    ∃ l', promoteLevel c i l = some l' ∧ l.Rewired l' ∧ l'.maxCurLevel = l.maxCurLevel ∧
      (∀ g, (∀ d, g ≠ .links i d) → l'.heap.read g = l.heap.read g) ∧
      (∀ x, l'.heap.read (.links i .next) x =
        if x = p then some c else l.heap.read (.links i .next) x) ∧
      ∀ x, l'.heap.read (.links i .prev) x =
        if x = q then some c else l.heap.read (.links i .prev) x := by
  obtain ⟨h₁, h', hwrite₁, hwrite', hshape, -, hnext₁, hnext, hprev, hother⟩ :=
    write_pair (f := Field.links i) (h := l.heap) (p := p) (q := q) (by simp)
      (fun x hx => (hfits x hx).imp fun s hs => ⟨hs.1, fun _ => hs.2⟩) c c
  have hnextc : h'.read (.links i .next) c = some q := by rw [hnext, if_neg hpc.symm, hq]
  exact ⟨{ l with heap := h' }, by simp [promoteLevel, hp, hwrite₁, ← hnext₁, hnextc, hwrite'],
    ⟨rfl, rfl, rfl, hshape⟩, rfl, hother, hnext, hprev⟩

/-- **A representative that is alone leaves its levels.** -/
theorem Holds.removeGroup (h : l.Holds (G₁ ++ g :: G₂)) (hg : g.rest = []) :
    ∃ l', l.remove g.first.addr = some l' ∧ l'.Holds (G₁ ++ G₂) ∧
      l'.pHeader = l.pHeader ∧ l'.pTail = l.pTail := by
  have hmem : g ∈ G₁ ++ g :: G₂ := by simp
  obtain ⟨node, hnode, hshape⟩ := map_eq_some_iff.1 (h.shape_eq hmem mem_cons_self)
  obtain ⟨-, -, hlow, hhigh⟩ := h.bounds g hmem
  obtain ⟨l', hloop, hrew, hmax, hother, hlevels⟩ := levelLoop_spec (removeLevel g.first.addr) l
    g.first.level (fun n => l.maxCurLevel - (n - Timeout.top (G₁ ++ G₂)))
    (fun i next prev =>
      (∀ x, next x = if x = l.last G₁ i then some (l.firstOn G₂ i)
        else l.heap.read (.links i .next) x) ∧
      ∀ x, prev x = if x = l.firstOn G₂ i then some (l.last G₁ i)
        else l.heap.read (.links i .prev) x)
    (by simp) fun n hn l₁ hrew hmax hread => by
      obtain ⟨⟨hp, hq⟩, ⟨hpa, hqa⟩, hfits⟩ := h.at_level hn
      obtain ⟨l₂, hround, hrew₂, hmax₂, hother₂, hnext₂, hprev₂⟩ := removeLevel_spec
        (by rw [hread]; exact hp) (by rw [hread]; exact hq) hpa hqa
        fun x hx => by rw [hrew.shape]; exact (hfits x hx).2
      refine ⟨l₂, hround, hrew₂, ?_, hother₂, fun x => ?_, fun x => ?_⟩
      · simp only [hmax₂, hmax, hrew.pHeader, hrew.pTail, h.alone_iff]
        split_ifs <;> omega
      · rw [hnext₂, hread]
      · rw [hprev₂, hread]
  obtain ⟨hheader, htail, hmap, hshape'⟩ := hrew
  have hdetach : l.detach g.first.addr node = some l' := by
    have hlen : node.links.length = g.first.level := congrArg Shape.level hshape
    have hring := h.rings g hmem
    simp only [ring, records, hg, map_cons, map_nil, singleton_append, linked_pair] at hring
    have hnext : node.link.next = some g.first.addr := by
      simpa [Heap.read, hnode, Node.read, Link.get] using hring.1
    simp [detach, hlen, hnext, hloop, hlow.ne']
  have hread : ∀ f x, x ≠ g.first.addr → (l'.delete g.first).heap.read f x = l'.heap.read f x :=
    fun f x hx => (read_delete ..).trans (if_neg hx)
  obtain ⟨hbounds, hbounds'⟩ := forall_middle.1 h.bounds
  refine ⟨_, remove_eq hnode hshape hdetach, ⟨?_, fun i hi => ?_, h.rings_of_frame ?_, ?_, hbounds',
    (forall_middle.1 h.members).2, ?_⟩, hheader, htail⟩
  · refine (h.static.perm ((flatMap_middle ..).trans (by rw [records, hg]; rfl))).remove
      ((shape_delete ..).trans (by rw [hshape'])) (congrArg _ hmap) hheader htail
  · show Linked _ _ (l'.pHeader :: (_ ++ [l'.pTail]))
    rw [hheader, htail]
    by_cases hlt : i < g.first.level
    · obtain ⟨init, rest, -, hnew, hold⟩ := level_place l G₁ G₂ i
      obtain ⟨-, ⟨hpa, hqa⟩, -⟩ := h.at_level hlt
      obtain ⟨hnext, hprev⟩ := hlevels i hlt
      have hnd := h.static.nodup_level i
      have hlevel := h.levels i hi
      rw [hold g hlt] at hnd hlevel
      rw [hnew]
      refine Linked.patch (m := [g.first.addr]) (n := []) hlevel
        (hnd.sublist (dropLast_sublist _)) (hnd.sublist (tail_sublist _)) (by rintro _ ⟨⟩)
        (linked_pair.2 ⟨?_, ?_⟩) (fun x hx hxa _ => ?_) fun x hx hxa _ => ?_
      · rw [hread _ _ hpa, hnext, if_pos rfl]
      · rw [hread _ _ hqa, hprev, if_pos rfl]
      · rw [hread _ _ (by simpa using hxa), hnext, if_neg hx]
      · rw [hread _ _ (by simpa using hxa), hprev, if_neg hx]
    · have hsame : onLevel (G₁ ++ g :: G₂) i = onLevel (G₁ ++ G₂) i := by
        rw [onLevel_append, onLevel_cons, if_neg hlt, ← onLevel_append]
      have hnot := h.notMem_level (mem_flatMap.2 ⟨g, hmem, mem_cons_self⟩)
        (not_lt.1 hlt)
      have hkeep : ∀ d, ∀ x ∈ l.pHeader :: (onLevel (G₁ ++ G₂) i ++ [l.pTail]),
          (l'.delete g.first).heap.read (.links i d) x = l.heap.read (.links i d) x :=
        fun d x hx => by
          rw [hread, hother]
          · exact fun j hj e heq => hlt ((Field.links.inj heq).1 ▸ hj)
          · rintro rfl
            exact hnot (hsame ▸ hx)
      have hlevel := h.levels i hi
      rw [hsame] at hlevel
      exact hlevel.congr (fun x hx => hkeep _ x (dropLast_subset _ hx))
        fun x hx => hkeep _ x (mem_of_mem_tail hx)
  · intro g' hg' x hx hnot d
    rw [hread, hother _ (by simp)]
    rintro rfl
    exact hnot (mem_map_of_mem mem_cons_self)
  · refine h.sorted.sublist ?_
    simp
  · show l'.maxCurLevel = _
    have hle : Timeout.top (G₁ ++ g :: G₂) = _ := top_middle
    rw [← h.top] at hle
    omega

theorem moveLinks_spec {h : Heap A T} {a c : A} {sa sc : Shape T} (hne : c ≠ a)
    (ha : h.shape a = some sa) (hc : h.shape c = some sc) :
    ∃ h', moveLinks h a c = some h' ∧ (∀ i d x, x ≠ a → h'.read (.links i d) x =
        if x = c then h.read (.links i d) a else h.read (.links i d) x) ∧
      (∀ d, h'.read (.link d) = h.read (.link d)) ∧
      h'.shape = update (update h.shape a (some { sa with level := 0 })) c
        (some { sc with level := sa.level }) := by
  obtain ⟨na, hna, rfl⟩ := map_eq_some_iff.1 ha
  obtain ⟨nc, hnc, rfl⟩ := map_eq_some_iff.1 hc
  refine ⟨_, by simp [moveLinks, hna, hnc]; rfl, fun i d x hx => ?_, fun d => funext fun x => ?_,
    funext fun x => ?_⟩
  · by_cases hxc : x = c
    · simp [Heap.read, Node.read, hxc, hna]
    · simp [Heap.read, hxc, hx]
  · by_cases hxc : x = c
    · simp [Heap.read, Node.read, hxc, hnc]
    · by_cases hxa : x = a
      · simp [Heap.read, Node.read, hxa, hne.symm, hna]
      · simp [Heap.read, hxc, hxa]
  · by_cases hxc : x = c
    · simp [Heap.shape, Node.shape, hxc]
    · by_cases hxa : x = a
      · simp [Heap.shape, Node.shape, hxa, hne.symm]
      · simp [Heap.shape, hxc, hxa]

/-- On level `i` the node `c` stands where `a` stood, between the groups `G₁` and `G₂`. -/
def Replaced (l : TimeoutList A T) (G₁ G₂ : List (Group A T)) (a c : A) (i : ℕ)
    (next prev : A → Option A) : Prop :=
  (∀ x, x ≠ a → next x = if x = l.last G₁ i then some c
    else if x = c then some (l.firstOn G₂ i) else l.heap.read (.links i .next) x) ∧
  ∀ x, x ≠ a → prev x = if x = l.firstOn G₂ i then some c
    else if x = c then some (l.last G₁ i) else l.heap.read (.links i .prev) x

section Promote

variable {c : Record A T} {R : List (Record A T)} (h : l.Holds (G₁ ++ g :: G₂))
  (hg : g.rest = c :: R)

include h hg

omit [DecidableEq A] in
/-- The ring without its representative, from the second node on. -/
theorem Holds.around_second : l.Around g.first.addr ((c :: R).map (·.addr)) [c.addr] := by
  have hmem : g ∈ G₁ ++ g :: G₂ := by simp
  have hring := h.rings g hmem
  have hnd := h.static.nodup_ring.1
  rw [ring, dropLast_concat, records, hg] at hnd
  have hringeq : g.ring = g.first.addr :: c.addr :: (R.map (·.addr) ++ [g.first.addr]) := by
    simp [ring, records, hg]
  rw [hringeq] at hring
  obtain ⟨hpair, hrest⟩ := linked_cons_cons.1 hring
  refine ⟨linked_split.2 ⟨hrest, linked_pair.2 hpair⟩, by simp, by simp, ⟨?_, ?_⟩, fun x hx => ?_⟩
  · rw [dropLast_append_of_ne_nil (by simp)]
    exact (perm_append_singleton _ _).nodup_iff.2 hnd
  · exact perm_append_comm.nodup_iff.1 hnd
  · refine h.alive_ring hmem (mem_ring.2 ?_)
    rw [records, hg]
    exact mem_cons_of_mem _ ((mem_ring (g := Group.mk c R)).1 hx)

omit [DecidableEq A] in
/-- A node that is not its group's representative is on no level. -/
theorem Holds.second_notMem (i : ℕ) :
    c.addr ∉ l.pHeader :: (onLevel (G₁ ++ g :: G₂) i ++ [l.pTail]) :=
  have hmem : g ∈ G₁ ++ g :: G₂ := by simp
  h.notMem_level (mem_flatMap.2 ⟨g, hmem, by simp [records, hg]⟩)
    ((h.members g hmem c (by simp [hg])).2 ▸ zero_le i)

variable {heap : Heap A T}

/-- The rounds of the loop put the second node where the first one was, on each level. -/
theorem Holds.promoteLevels (hca : c.addr ≠ g.first.addr)
    (hlinks : ∀ i d x, x ≠ g.first.addr → heap.read (.links i d) x =
      if x = c.addr then l.heap.read (.links i d) g.first.addr else l.heap.read (.links i d) x)
    (hshape : ∀ x, x ≠ g.first.addr → x ≠ c.addr → heap.shape x = l.heap.shape x) :
    ∃ l', levelLoop (promoteLevel c.addr) g.first.level { l with heap := heap } = some l' ∧
      Rewired { l with heap := heap } l' ∧ l'.maxCurLevel = l.maxCurLevel ∧
      (∀ f, (∀ i < g.first.level, ∀ d, f ≠ .links i d) → l'.heap.read f = heap.read f) ∧
      ∀ i < g.first.level, l.Replaced G₁ G₂ g.first.addr c.addr i
        (l'.heap.read (.links i .next)) (l'.heap.read (.links i .prev)) := by
  refine levelLoop_spec (promoteLevel c.addr) { l with heap := heap } g.first.level
    (fun _ => l.maxCurLevel) (l.Replaced G₁ G₂ g.first.addr c.addr) rfl
    fun n hn l₁ hrew hmax hread => ?_
  obtain ⟨⟨hp, hq⟩, ⟨hpa, hqa⟩, hfits⟩ := h.at_level hn
  have hne : ∀ x ∈ l.pHeader :: (onLevel (G₁ ++ g :: G₂) n ++ [l.pTail]), x ≠ c.addr :=
    fun x hx heq => h.second_notMem hg n (heq ▸ hx)
  have hread' : ∀ d x, x ≠ g.first.addr → l₁.heap.read (.links n d) x =
      if x = c.addr then l.heap.read (.links n d) g.first.addr
      else l.heap.read (.links n d) x := fun d x hx => by
    rw [hread]
    exact hlinks n d x hx
  obtain ⟨l₂, hround, hrew₂, hmax₂, hother₂, hnext₂, hprev₂⟩ := promoteLevel_spec
    (by rw [hread' _ _ hca, if_pos rfl]; exact hp)
    (by rw [hread' _ _ hca, if_pos rfl]; exact hq) (hne _ (hfits (l.last G₁ n) (by simp)).1)
    fun x hx => by
      obtain ⟨hxmem, hxfits⟩ := hfits x hx
      have hxa : x ≠ g.first.addr := by
        rcases mem_pair.1 hx with rfl | rfl
        · exact hpa
        · exact hqa
      rw [hrew.shape]
      exact hshape x hxa (hne x hxmem) ▸ hxfits
  refine ⟨l₂, hround, hrew₂, hmax₂.trans hmax, hother₂, fun x hx => ?_, fun x hx => ?_⟩
  · rw [hnext₂, hread' _ _ hx, hq]
  · rw [hprev₂, hread' _ _ hx, hp]

/-- A level of the first node, once the second one is in its place. -/
theorem Holds.promoted_below (hi : i < maxLevel)
    (hlt : i < g.first.level) (hca : c.addr ≠ g.first.addr)
    (hlinks : l.Replaced G₁ G₂ g.first.addr c.addr i (heap.read (.links i .next))
      (heap.read (.links i .prev))) :
    Linked (heap.read (.links i .next)) (heap.read (.links i .prev)) (l.pHeader ::
      (onLevel (G₁ ++ Group.mk { c with level := g.first.level } R :: G₂) i ++ [l.pTail])) := by
  obtain ⟨init, rest, -, -, hplace⟩ := level_place l G₁ G₂ i
  obtain ⟨-, ⟨hpa, hqa⟩, hfits⟩ := h.at_level hlt
  obtain ⟨hnext, hprev⟩ := hlinks
  have hnew := h.second_notMem hg i
  have hpc : l.last G₁ i ≠ c.addr := fun heq => hnew (heq ▸ (hfits _ (by simp)).1)
  have hqc : l.firstOn G₂ i ≠ c.addr := fun heq => hnew (heq ▸ (hfits _ (by simp)).1)
  have hnd := h.static.nodup_level i
  have hlevel := h.levels i hi
  rw [hplace g hlt] at hnd hlevel hnew
  rw [hplace (Group.mk { c with level := g.first.level } R) hlt]
  refine Linked.patch (m := [g.first.addr]) (n := [c.addr]) hlevel
    (hnd.sublist (dropLast_sublist _)) (hnd.sublist (tail_sublist _))
    (by simpa using hnew) (linked_cons_cons.2 ⟨⟨?_, ?_⟩, linked_pair.2 ⟨?_, ?_⟩⟩)
    (fun x hx hxa hxc => ?_) fun x hx hxa hxc => ?_
  · rw [hnext _ hpa, if_pos rfl]
  · rw [hprev _ hca, if_neg hqc.symm, if_pos rfl]
  · rw [hnext _ hca, if_neg hpc.symm, if_pos rfl]
  · rw [hprev _ hqa, if_pos rfl]
  · rw [hnext _ (by simpa using hxa), if_neg hx, if_neg (by simpa using hxc)]
  · rw [hprev _ (by simpa using hxa), if_neg hx, if_neg (by simpa using hxc)]

omit [DecidableEq A] in
/-- A level above the first node's is as it was. -/
theorem Holds.promoted_above (hi : i < maxLevel) (hle : g.first.level ≤ i)
    (hlinks : ∀ d x, x ≠ g.first.addr → x ≠ c.addr →
      heap.read (.links i d) x = l.heap.read (.links i d) x) :
    Linked (heap.read (.links i .next)) (heap.read (.links i .prev)) (l.pHeader ::
      (onLevel (G₁ ++ Group.mk { c with level := g.first.level } R :: G₂) i ++ [l.pTail])) := by
  have hsame : onLevel (G₁ ++ Group.mk { c with level := g.first.level } R :: G₂) i
      = onLevel (G₁ ++ g :: G₂) i := by
    simp only [onLevel_append, onLevel_cons, if_neg (not_lt.2 hle)]
  have hfirst := h.notMem_level (mem_flatMap.2 ⟨g, by simp, mem_cons_self⟩) hle
  have hkeep : ∀ d, ∀ x ∈ l.pHeader :: (onLevel (G₁ ++ g :: G₂) i ++ [l.pTail]),
      heap.read (.links i d) x = l.heap.read (.links i d) x := fun d x hx =>
    hlinks d x (fun heq => hfirst (heq ▸ hx)) fun heq => h.second_notMem hg i (heq ▸ hx)
  rw [hsame]
  exact (h.levels i hi).congr (fun x hx => hkeep _ x (dropLast_subset _ hx))
    fun x hx => hkeep _ x (mem_of_mem_tail hx)

/-- The nodes that stay, the second one now with the first one's levels. -/
theorem Holds.promoted_static {l' : TimeoutList A T} {s : Option (Shape T)}
    (hca : c.addr ≠ g.first.addr)
    (hshape : l'.heap.shape = update (update l.heap.shape g.first.addr s) c.addr
      (some { c with level := g.first.level : Record A T }.shape))
    (hmap : l'.nodeMap = l.nodeMap) (hheader : l'.pHeader = l.pHeader)
    (htail : l'.pTail = l.pTail) :
    (l'.delete g.first).Static ((G₁ ++ Group.mk { c with level := g.first.level } R ::
      G₂).flatMap Group.records) := by
  have hstatic : (l.delete g.first).Static (c :: (R ++ (G₁ ++ G₂).flatMap records)) :=
    (h.static.perm ((flatMap_middle ..).trans (by rw [records, hg]; rfl))).remove
      (shape_delete ..) rfl rfl rfl
  have hpromoted : (l'.delete g.first).Static
      ({ c with level := g.first.level } :: (R ++ (G₁ ++ G₂).flatMap records)) := by
    refine hstatic.relevel ((shape_delete ..).trans ?_)
      (congrArg (List.filter _) hmap) hheader htail
    rw [hshape, delete, shape_delete, update_comm hca, update_idem]
  exact hpromoted.perm (flatMap_middle G₁ G₂ (Group.mk { c with level := g.first.level } R)).symm

/-- **A representative that is not alone hands its links on.** -/
theorem Holds.promote :
    ∃ l', l.remove g.first.addr = some l' ∧
      l'.Holds (G₁ ++ Group.mk { c with level := g.first.level } R :: G₂) ∧
      l'.pHeader = l.pHeader ∧ l'.pTail = l.pTail := by
  have hmem : g ∈ G₁ ++ g :: G₂ := by simp
  obtain ⟨node, hnode, hshape⟩ := map_eq_some_iff.1 (h.shape_eq hmem mem_cons_self)
  obtain ⟨htime, hlevel⟩ := h.members g hmem c (by simp [hg])
  obtain ⟨heap₁, q, hremove, hshape₁, ⟨hq, hqc, hca⟩, -, hlinks₁, hframe₁, hring₁⟩ :=
    (h.around_second hg).removeRing
  obtain rfl := mem_singleton.1 hqc
  obtain ⟨heap₂, hmove, hlinks₂, hlink₂, hshape₂⟩ := moveLinks_spec hca
    (hshape₁ ▸ h.shape_eq hmem mem_cons_self)
    (hshape₁ ▸ h.shape_eq hmem (by simp [records, hg]))
  have hlinks : ∀ i d x, x ≠ g.first.addr → heap₂.read (.links i d) x =
      if x = c.addr then l.heap.read (.links i d) g.first.addr
      else l.heap.read (.links i d) x := fun i d x hx =>
    (hlinks₂ i d x hx).trans (by rw [hlinks₁])
  obtain ⟨l', hloop, hrew, hmax, hother, hlevels⟩ := h.promoteLevels hg hca hlinks
    fun x hxa hxc => by rw [hshape₂, update_of_ne hxc, update_of_ne hxa, hshape₁]
  have hheader : l'.pHeader = l.pHeader := hrew.pHeader
  have htail : l'.pTail = l.pTail := hrew.pTail
  have hdetach : l.detach g.first.addr node = some l' := by
    have hlen : node.links.length = g.first.level := congrArg Shape.level hshape
    have hnext : node.link.next = some c.addr := by
      simpa [Heap.read, hnode, Node.read, Link.get] using hq
    obtain ⟨-, -, hlow, -⟩ := h.bounds g hmem
    simp [detach, hlen, hnext, hloop, hlow.ne', hca, hremove, hmove]
  have hread : ∀ f x, x ≠ g.first.addr → (l'.delete g.first).heap.read f x = l'.heap.read f x :=
    fun f x hx => (read_delete ..).trans (if_neg hx)
  refine ⟨_, remove_eq hnode hshape hdetach, ⟨?_, fun i hi => ?_, forall_middle.2 ⟨?_, ?_⟩, ?_, ?_,
    ?_, ?_⟩, hheader, htail⟩
  · exact h.promoted_static hg hca (hrew.shape.trans (hshape₂.trans (by rw [hshape₁]; rfl)))
      hrew.nodeMap hheader htail
  · show Linked _ _ (l'.pHeader :: (_ ++ [l'.pTail]))
    rw [hheader, htail]
    by_cases hlt : i < g.first.level
    · obtain ⟨hnext, hprev⟩ := hlevels i hlt
      exact h.promoted_below hg hi hlt hca ⟨fun x hx => (hread _ _ hx).trans (hnext x hx),
        fun x hx => (hread _ _ hx).trans (hprev x hx)⟩
    · refine h.promoted_above hg hi (not_lt.1 hlt) fun d x hxa hxc => ?_
      have hnot : ∀ j < g.first.level, ∀ e, Field.links i d ≠ .links j e :=
        fun j hj e heq => hlt ((Field.links.inj heq).1 ▸ hj)
      rw [hread _ _ hxa, hother _ hnot, hlinks i d x hxa, if_neg hxc]
  · refine hring₁ _ fun d x hx => ?_
    rw [hread _ _ hx, hother _ (by simp)]
    exact congrFun (hlink₂ d) x
  · refine h.rings_of_frame fun g' hg' x hx hnot d => ?_
    rw [records, hg] at hnot
    rw [hread, hother _ (by simp)]
    · exact (congrFun (hlink₂ d) x).trans (hframe₁ d x fun hx' =>
        hnot (mem_cons_of_mem _ ((mem_ring (g := Group.mk c R)).1 hx')))
    · rintro rfl
      exact hnot mem_cons_self
  · simpa [htime] using h.sorted
  · obtain ⟨hbounds, hrest⟩ := forall_middle.1 h.bounds
    exact forall_middle.2 ⟨by simpa [htime] using hbounds, hrest⟩
  · obtain ⟨hmembers, hrest⟩ := forall_middle.1 h.members
    refine forall_middle.2 ⟨fun r' hr' => ?_, hrest⟩
    obtain ⟨ht, hl⟩ := hmembers r' (by simp [hg, show r' ∈ R from hr'])
    exact ⟨ht.trans htime.symm, hl⟩
  · show l'.maxCurLevel = _
    rw [hmax, h.top, top_middle, top_middle]

end Promote

/-- **`remove` takes its node away**, and fails no assertion. -/
theorem Holds.remove_spec (h : l.Holds G) (hr : r ∈ G.flatMap Group.records) :
    ∃ l' G', l.remove r.addr = some l' ∧ l'.Holds G' ∧
      (entries G).Perm (r.entry :: entries G') ∧ l'.pHeader = l.pHeader ∧ l'.pTail = l.pTail := by
  obtain ⟨g, hg, hmem⟩ := mem_flatMap.1 hr
  obtain ⟨G₁, G₂, rfl⟩ := append_of_mem hg
  rcases mem_cons.1 hmem with rfl | hmem
  · cases hrest : g.rest with
    | nil =>
      obtain ⟨l', hremove, hholds, hends⟩ := h.removeGroup hrest
      refine ⟨l', _, hremove, hholds, (entries_middle ..).trans ?_, hends⟩
      rw [records, hrest]
      rfl
    | cons c R =>
      obtain ⟨l', hremove, hholds, hends⟩ := h.promote hrest
      refine ⟨l', _, hremove, hholds, (entries_middle ..).trans ?_, hends⟩
      refine Perm.trans ?_ ((entries_middle ..).cons _).symm
      rw [records, hrest]
      rfl
  · obtain ⟨R₁, R₂, hrest⟩ := append_of_mem hmem
    obtain ⟨l', hremove, hholds, hends⟩ := h.removeMember hrest
    refine ⟨l', _, hremove, hholds, (entries_middle ..).trans ?_, hends⟩
    refine Perm.trans ?_ ((entries_middle ..).cons _).symm
    rw [records, hrest]
    exact ((perm_middle : ((g.first :: R₁) ++ r :: R₂).Perm _).map _).append_right _

end TimeoutList

end Corpc.Timeout
