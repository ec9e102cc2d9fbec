/-
# `TimeoutList`: a skip list with rings

Source: `corpc_timeout_list.h`.

The nodes of different times are on a skip list, later ones first, between a header and a tail.
Nodes of one time form a ring of which one node, the representative, is on the skip list.  A map
leads from an id to its node.

`none` as the outcome of an operation is an assertion that failed, an access to a node that is not
alive, to a level the node does not have, or the use of a null pointer.
-/

import Mathlib.Algebra.Group.Nat.Defs
import Mathlib.Data.List.Basic
import Mathlib.Logic.Function.Basic

namespace Corpc.Timeout

open Function

/-- `CORPC_SKIP_LIST_MAX_LEVEL`. -/
def maxLevel : ℕ := 16

/-- `CORPC_MAX_UINT64`. -/
def maxTime : ℕ := 2 ^ 64 - 1

inductive Dir
  | next
  | prev
  deriving DecidableEq

/-- A pointer of a node: `links[i].next`, `links[i].prev`, `link.next` or `link.prev`. -/
inductive Field
  | links (i : ℕ) (d : Dir)
  | link (d : Dir)
  deriving DecidableEq

structure Link (A : Type) where
  next : Option A
  prev : Option A

/-- `Node`.  The constructor for the header and the tail leaves `id` and `data` unset. -/
structure Node (A T : Type) where
  expireTime : ℕ
  entry : Option (ℕ × T)
  links : List (Link A)
  link : Link A

abbrev Heap (A T : Type) := A → Option (Node A T)

/-- `TimeoutList`, with the nodes that are alive. -/
structure TimeoutList (A T : Type) where
  heap : Heap A T
  maxCurLevel : ℕ
  pHeader : A
  pTail : A
  nodeMap : List (ℕ × A)

variable {A T : Type}

def Link.get (l : Link A) : Dir → Option A
  | .next => l.next
  | .prev => l.prev

def Link.set (l : Link A) (v : A) : Dir → Link A
  | .next => { l with next := some v }
  | .prev => { l with prev := some v }

def Node.new (this : A) (expireTime : ℕ) (entry : Option (ℕ × T)) (level : ℕ) : Node A T :=
  ⟨expireTime, entry, List.replicate level ⟨none, none⟩, ⟨some this, some this⟩⟩

def Node.read (node : Node A T) : Field → Option A
  | .links i d => (node.links[i]?).bind (·.get d)
  | .link d => node.link.get d

def Node.write (node : Node A T) (v : A) : Field → Option (Node A T)
  | .links i d =>
      if i < node.links.length then some { node with links := node.links.modify i (·.set v d) }
      else none
  | .link d => some { node with link := node.link.set v d }

/-- `a->f`. -/
def Heap.read (h : Heap A T) (f : Field) (a : A) : Option A := (h a).bind (·.read f)

section Operations

variable [DecidableEq A]

/-- `a->f = v`. -/
def Heap.write (h : Heap A T) (f : Field) (a v : A) : Option (Heap A T) :=
  (h a).bind fun node => (node.write v f).map fun node => update h a (some node)

def Heap.writes (h : Heap A T) : List (Field × A × A) → Option (Heap A T)
  | [] => some h
  | (f, a, v) :: ws => (h.write f a v).bind (·.writes ws)

/-- `for (int i = 0; i < n; i++)`. -/
def levelLoop {σ : Type} (body : ℕ → σ → Option σ) : ℕ → σ → Option σ
  | 0, s => some s
  | n + 1, s => (levelLoop body n s).bind (body n)

/-- `randomLevel` from a level on, with the value of `rand()` at each level and the number of
levels left. -/
def randomLevelFrom (rand : ℕ → ℕ) : ℕ → ℕ → ℕ
  | 0, level => level
  | left + 1, level =>
      if rand level &&& 0xffff < 0x3fff then randomLevelFrom rand left (level + 1) else level

def randomLevel (rand : ℕ → ℕ) : ℕ := randomLevelFrom rand (maxLevel - 1) 1

namespace TimeoutList

/-- `TimeoutList::TimeoutList`: header and tail are linked at every level. -/
def new (pHeader pTail : A) : TimeoutList A T where
  heap := update (update (fun _ => none)
    pTail (some { Node.new pTail 0 none maxLevel with
      links := List.replicate maxLevel ⟨none, some pHeader⟩ }))
    pHeader (some { Node.new pHeader maxTime none maxLevel with
      links := List.replicate maxLevel ⟨some pTail, none⟩ })
  maxCurLevel := 1
  pHeader := pHeader
  pTail := pTail
  nodeMap := []

/-- The inner loop of the search: the last node of a level from `curNode` on that expires at
`expireTime` or later. -/
def walk (l : TimeoutList A T) (i id expireTime : ℕ) : ℕ → A → Option A
  | 0, _ => none
  | fuel + 1, curNode => do
      let nextNode ← l.heap.read (.links i .next) curNode
      let node ← l.heap nextNode
      if node.expireTime ≥ expireTime then
        -- assert(nextNode->id != id)
        if node.entry.map Prod.fst = some id then none
        else l.walk i id expireTime fuel nextNode
      else some curNode

/-- The search from level `n - 1` down: the node it ends at, and `prevNodes`. -/
def search (l : TimeoutList A T) (id expireTime : ℕ) : ℕ → A → Option (A × List A)
  | 0, curNode => some (curNode, [])
  | i + 1, curNode => do
      let curNode ← l.walk i id expireTime (l.nodeMap.length + 1) curNode
      let (last, prevNodes) ← l.search id expireTime i curNode
      return (last, prevNodes ++ [curNode])

/-- `nodeMap_.insert` leaves an entry of the same id alone. -/
def mapInsert (l : TimeoutList A T) (id : ℕ) (a : A) : List (ℕ × A) :=
  if (l.nodeMap.lookup id).isSome then l.nodeMap else (id, a) :: l.nodeMap

/-- The new node at the end of the ring of `nextNode`. -/
def insertRing (l : TimeoutList A T) (curNode nextNode : A) (node : Node A T) :
    Option (Heap A T) := do
  let prevNode ← l.heap.read (.link .prev) nextNode
  Heap.writes (update l.heap curNode (some node))
    [(.link .next, curNode, nextNode), (.link .prev, curNode, prevNode),
      (.link .prev, nextNode, curNode), (.link .next, prevNode, curNode)]

/-- The new node at level `i`. -/
def insertLevel (curNode : A) (prevNodes : List A) (i : ℕ) (l : TimeoutList A T) :
    Option (TimeoutList A T) := do
  let prevNode ← prevNodes[i]?
  let nextNode ← l.heap.read (.links i .next) prevNode
  let heap ← l.heap.writes
    [(.links i .next, curNode, nextNode), (.links i .prev, curNode, prevNode),
      (.links i .next, prevNode, curNode), (.links i .prev, nextNode, curNode)]
  return { l with heap }

/-- `insert`, with the node at an address that is not in use. -/
def insert (l : TimeoutList A T) (a : A) (rand : ℕ → ℕ) (id expireTime : ℕ) (data : T) :
    Option (TimeoutList A T) := do
  if (l.heap a).isSome then none
  else
    let (curNode, prevNodes) ← l.search id expireTime l.maxCurLevel l.pHeader
    if (← l.heap curNode).expireTime = expireTime then
      let heap ← l.insertRing a curNode (.new a expireTime (some (id, data)) 0)
      return { l with heap, nodeMap := l.mapInsert id a }
    else
      let newlevel := randomLevel rand
      let prevNodes := prevNodes ++ List.replicate (newlevel - l.maxCurLevel) l.pHeader
      let l := { l with
        maxCurLevel := max l.maxCurLevel newlevel
        heap := update l.heap a (some (.new a expireTime (some (id, data)) newlevel)) }
      let l ← levelLoop (insertLevel a prevNodes) newlevel l
      return { l with nodeMap := l.mapInsert id a }

def removeRing (h : Heap A T) (node : A) : Option (Heap A T) := do
  let prevNode ← h.read (.link .prev) node
  let nextNode ← h.read (.link .next) node
  h.writes [(.link .next, prevNode, nextNode), (.link .prev, nextNode, prevNode)]

/-- The node that has got the links of a representative is put in its place at level `i`. -/
def promoteLevel (nextNode : A) (i : ℕ) (l : TimeoutList A T) : Option (TimeoutList A T) := do
  let heap ← l.heap.write (.links i .next) (← l.heap.read (.links i .prev) nextNode) nextNode
  let heap ← heap.write (.links i .prev) (← heap.read (.links i .next) nextNode) nextNode
  return { l with heap }

/-- A node is taken out of level `i`. -/
def removeLevel (node : A) (i : ℕ) (l : TimeoutList A T) : Option (TimeoutList A T) := do
  let heap ← l.heap.write (.links i .next) (← l.heap.read (.links i .prev) node)
    (← l.heap.read (.links i .next) node)
  let heap ← heap.write (.links i .prev) (← heap.read (.links i .next) node)
    (← heap.read (.links i .prev) node)
  let alone := heap.read (.links i .prev) node = some l.pHeader ∧
    heap.read (.links i .next) node = some l.pTail
  return { l with
    heap, maxCurLevel := if i > 0 ∧ alone then l.maxCurLevel - 1 else l.maxCurLevel }

/-- `nextNode->links = std::move(node->links)`. -/
def moveLinks (h : Heap A T) (node nextNode : A) : Option (Heap A T) := do
  let n ← h node
  let next ← h nextNode
  return update (update h node (some { n with links := [] }))
    nextNode (some { next with links := n.links })

/-- The pointers of `remove`, before `delete`. -/
def detach (l : TimeoutList A T) (a : A) (node : Node A T) : Option (TimeoutList A T) :=
  if node.links.length = 0 then
    -- assert(node->link.next != node && node->link.prev != node)
    if node.link.next = some a ∨ node.link.prev = some a then none
    else (removeRing l.heap a).map fun heap => { l with heap }
  else if node.link.next ≠ some a then do
    let nextNode ← node.link.next
    let heap ← removeRing l.heap a
    let heap ← moveLinks heap a nextNode
    levelLoop (promoteLevel nextNode) node.links.length { l with heap }
  else levelLoop (removeLevel a) node.links.length l

def remove (l : TimeoutList A T) (a : A) : Option (TimeoutList A T) := do
  let node ← l.heap a
  let (id, _) ← node.entry
  let l ← l.detach a node
  return { l with
    nodeMap := l.nodeMap.filter (·.1 ≠ id), heap := update l.heap a none }

/-- `getLast`: the inner `none` is the null pointer. -/
def getLast (l : TimeoutList A T) : Option (Option A) := do
  let n ← l.heap.read (.links 0 .prev) l.pTail
  if n = l.pHeader then return none
  else return some (← l.heap.read (.link .prev) n)

def getNode (l : TimeoutList A T) (id : ℕ) : Option A := l.nodeMap.lookup id

def empty (l : TimeoutList A T) : Option Bool :=
  (l.heap.read (.links 0 .next) l.pHeader).map (· = l.pTail)

end TimeoutList

end Operations

/-- What assignments to pointers do not change: the time, the entry and the number of levels. -/
structure Shape (T : Type) where
  expireTime : ℕ
  entry : Option (ℕ × T)
  level : ℕ

def Node.shape (node : Node A T) : Shape T := ⟨node.expireTime, node.entry, node.links.length⟩

def Heap.shape (h : Heap A T) (a : A) : Option (Shape T) := (h a).map Node.shape

def Field.Fits (s : Shape T) : Field → Prop
  | .links i _ => i < s.level
  | .link _ => True

theorem Link.get_set (l : Link A) (v : A) (d e : Dir) :
    (l.set v d).get e = if e = d then some v else l.get e := by
  cases d <;> cases e <;> rfl

theorem Node.write_spec {node : Node A T} {f : Field} (hf : f.Fits node.shape) (v : A) :
    ∃ node', node.write v f = some node' ∧ node'.shape = node.shape ∧
      ∀ g, node'.read g = if g = f then some v else node.read g := by
  cases f with
  | links i d =>
    refine ⟨_, if_pos hf, by simp [Node.shape], fun g => ?_⟩
    cases g with
    | links j e =>
      by_cases hij : i = j
      · subst hij
        have hi : node.links[i]? = some node.links[i] := List.getElem?_eq_getElem hf
        simp [Node.read, hi, Link.get_set]
      · simp [Node.read, hij, Ne.symm hij]
    | link e => rfl
  | link d =>
    refine ⟨_, rfl, rfl, fun g => ?_⟩
    cases g with
    | links j e => rfl
    | link e => simp [Node.read, Link.get_set]

/-- Nothing but pointers and `maxCurLevel_` has changed. -/
structure TimeoutList.Rewired (l l' : TimeoutList A T) : Prop where
  pHeader : l'.pHeader = l.pHeader
  pTail : l'.pTail = l.pTail
  nodeMap : l'.nodeMap = l.nodeMap
  shape : l'.heap.shape = l.heap.shape

/-- **A loop over the levels does to each level what its round does.**  The round of level
`n` finds the pointers of that level as they were, and writes no others. -/
theorem levelLoop_spec (body : ℕ → TimeoutList A T → Option (TimeoutList A T))
    (l : TimeoutList A T) (N : ℕ) (m : ℕ → ℕ) (Q : ℕ → (A → Option A) → (A → Option A) → Prop)
    (hm : m 0 = l.maxCurLevel) (hbody : ∀ n < N, ∀ l₁, l.Rewired l₁ → l₁.maxCurLevel = m n →
      (∀ d, l₁.heap.read (.links n d) = l.heap.read (.links n d)) →
      ∃ l₂, body n l₁ = some l₂ ∧ l₁.Rewired l₂ ∧ l₂.maxCurLevel = m (n + 1) ∧
        (∀ g, (∀ d, g ≠ .links n d) → l₂.heap.read g = l₁.heap.read g) ∧
        Q n (l₂.heap.read (.links n .next)) (l₂.heap.read (.links n .prev))) :
    ∃ l', levelLoop body N l = some l' ∧ l.Rewired l' ∧ l'.maxCurLevel = m N ∧
      (∀ g, (∀ i < N, ∀ d, g ≠ .links i d) → l'.heap.read g = l.heap.read g) ∧
      ∀ i < N, Q i (l'.heap.read (.links i .next)) (l'.heap.read (.links i .prev)) := by
  induction N with
  | zero => exact ⟨l, rfl, ⟨rfl, rfl, rfl, rfl⟩, hm.symm, fun _ _ => rfl, nofun⟩
  | succ n ih =>
    obtain ⟨l₁, hloop, hrew, hmax, hother, hlevels⟩ :=
      ih fun k hk => hbody k (Nat.lt_succ_of_lt hk)
    obtain ⟨l₂, hround, hrew', hmax', hother', hlevel⟩ := hbody n n.lt_succ_self l₁ hrew hmax
      fun d => hother _ fun i hi e heq => by
        obtain ⟨rfl, -⟩ := Field.links.inj heq
        exact absurd hi (Nat.lt_irrefl _)
    refine ⟨l₂, by rw [levelLoop, hloop]; exact hround, ⟨hrew'.pHeader.trans hrew.pHeader,
      hrew'.pTail.trans hrew.pTail, hrew'.nodeMap.trans hrew.nodeMap, hrew'.shape.trans hrew.shape⟩,
      hmax', fun g hg => ?_, fun i hi => ?_⟩
    · rw [hother' g (hg n n.lt_succ_self), hother g fun i hi => hg i (Nat.lt_succ_of_lt hi)]
    · rcases Nat.lt_succ_iff_lt_or_eq.1 hi with hlt | rfl
      · have hne : ∀ d e, Field.links i d ≠ .links n e := fun d e heq =>
          absurd (Field.links.inj heq).1 (Nat.ne_of_lt hlt)
        rw [hother' _ (hne .next), hother' _ (hne .prev)]
        exact hlevels i hlt
      · exact hlevel

variable [DecidableEq A]

theorem Heap.write_spec {h : Heap A T} {a : A} {s : Shape T} {f : Field} (ha : h.shape a = some s)
    (hf : f.Fits s) (v : A) :
    ∃ h', h.write f a v = some h' ∧ h'.shape = h.shape ∧
      ∀ g x, h'.read g x = if g = f ∧ x = a then some v else h.read g x := by
  obtain ⟨node, hnode, rfl⟩ := Option.map_eq_some_iff.1 ha
  obtain ⟨node', hwrite, hshape, hread⟩ := Node.write_spec hf v
  refine ⟨update h a (some node'), by simp [Heap.write, hnode, hwrite], ?_, fun g x => ?_⟩
  · funext x
    by_cases hx : x = a
    · simp [Heap.shape, hx, hnode, hshape]
    · simp [Heap.shape, hx]
  · by_cases hx : x = a
    · simp [Heap.read, hx, hnode, hread]
    · simp [Heap.read, hx]

/-- **Assignments in turn.**  The last one to a field counts. -/
theorem Heap.writes_spec (ws : List (Field × A × A)) {h : Heap A T}
    (hws : ∀ w ∈ ws, ∃ s, h.shape w.2.1 = some s ∧ w.1.Fits s) :
    ∃ h', h.writes ws = some h' ∧ h'.shape = h.shape ∧ ∀ g x, h'.read g x =
      ws.foldl (fun r w => if g = w.1 ∧ x = w.2.1 then some w.2.2 else r) (h.read g x) := by
  induction ws generalizing h with
  | nil => exact ⟨h, rfl, rfl, fun _ _ => rfl⟩
  | cons w ws ih =>
    obtain ⟨f, a, v⟩ := w
    obtain ⟨s, ha, hf⟩ := hws (f, a, v) List.mem_cons_self
    obtain ⟨h₁, hwrite, hshape₁, hread₁⟩ := Heap.write_spec ha hf v
    obtain ⟨h₂, hwrites, hshape₂, hread₂⟩ := ih (h := h₁) fun w hw => by
      rw [hshape₁]
      exact hws w (List.mem_cons_of_mem _ hw)
    refine ⟨h₂, by rw [Heap.writes, hwrite]; exact hwrites, hshape₂.trans hshape₁, fun g x => ?_⟩
    rw [hread₂, hread₁, List.foldl_cons]

end Corpc.Timeout
