/-
# The lock-free queue

`MPSC_NoLockQueue` in `corpc_queue.h`: any number of producers execute `push`, one consumer
executes `pop`.  Producers put nodes in front of the list at `head_` with a compare-exchange.

A step is one statement, with at most one access to `head_`.  Which free address `new` returns and
what the memory there holds, whether a `compare_exchange_weak` fails without a reason, and what
`std::move` leaves in a node are up to the action.  A dereference of a free address sets `fault`.

A value is a pointer, `none` being null.  In the history `log`, `push` takes effect at its
successful compare-exchange, `pop` when it reads the value of a node, or when it finds `head_` null.
-/

import Corpc.Basis.Chain
import Corpc.Basis.Linearize

namespace Corpc.Queue

open Corpc.Basis

inductive Op (α : Type)
  | push (v : Option α)
  | pop
  deriving DecidableEq

/-- **The specification:** a first-in-first-out queue, from which `pop` returns null
when it is empty.  `push` returns nothing, which is `none` too. -/
def Fifo.step {α : Type} [DecidableEq α] : List (Option α) → Op α × Option α →
    Option (List (Option α))
  | q, (.push v, r) => if r = none then some (q ++ [v]) else none
  | [], (.pop, r) => if r = none then some [] else none
  | v :: q, (.pop, r) => if r = v then some q else none

/-- The next statement of a producer, with the argument and the address of its node. -/
inductive Producer (A α : Type)
  | idle
  /-- `Node *newNode = new Node`. -/
  | new (v : Option α)
  /-- `newNode->value = v`. -/
  | setValue (v : Option α) (newNode : A)
  /-- `newNode->next = head_`. -/
  | setNext (v : Option α) (newNode : A)
  /-- `head_.compare_exchange_weak(newNode->next, newNode)`. -/
  | exchange (v : Option α) (newNode : A)
  | done
  deriving DecidableEq

inductive Consumer (A α : Type)
  | idle
  /-- `if (!outqueue_)`. -/
  | start
  /-- `if (head_ != NULL)`. -/
  | testHead
  /-- `outqueue_ = head_`. -/
  | loadHead
  /-- `head_.compare_exchange_weak(outqueue_, NULL)`. -/
  | detach
  /-- `n1 = outqueue_; outqueue_ = NULL`. -/
  | detached
  /-- `while (n1)`, `n2 = n1->next`. -/
  | reverse (n1 : Option A)
  /-- `n1->next = outqueue_`. -/
  | relink (n1 : A) (n2 : Option A)
  /-- `outqueue_ = n1; n1 = n2`. -/
  | advance (n1 : A) (n2 : Option A)
  /-- `if (outqueue_)`, `ret = std::move(outqueue_->value)`; `effected` says that the
  operation took effect before, at a null `head_`. -/
  | take (effected : Bool)
  /-- `tnode = outqueue_; outqueue_ = outqueue_->next`. -/
  | unlink (ret : Option α)
  /-- `delete tnode`. -/
  | delete (ret : Option α) (tnode : A)
  | done (ret : Option α)
  deriving DecidableEq

/-- The queue, its users and its history; the consumer is the thread `none`. -/
structure State (ι A α : Type) where
  heap : A → Option (Cell A (Option α))
  head : Option A
  outqueue : Option A
  producer : ι → Producer A α
  consumer : Consumer A α
  fault : Bool
  log : List (Event (Option ι) (Op α) (Option α))

/-- `MPSC_NoLockQueue()`. -/
def State.init (ι A α : Type) : State ι A α :=
  ⟨fun _ => none, none, none, fun _ => .idle, .idle, false, []⟩

inductive Action (ι A α : Type)
  /-- A producer enters `push(v)`. -/
  | push (p : ι) (v : Option α)
  /-- `new Node` returns `a`, where the memory holds `cell`. -/
  | new (p : ι) (a : A) (cell : Cell A (Option α))
  | produce (p : ι) (spurious : Bool)
  | pop
  | consume (spurious : Bool) (moved : Option α)
  deriving DecidableEq

variable {ι A α : Type} [DecidableEq ι] [DecidableEq A] [DecidableEq α]

def State.setProducer (s : State ι A α) (p : ι) (pc : Producer A α) : State ι A α :=
  { s with producer := Function.update s.producer p pc }

def State.access (s : State ι A α) (a : A) (f : Cell A (Option α) → State ι A α) : State ι A α :=
  match s.heap a with
  | none => { s with fault := true }
  | some cell => f cell

def State.write (s : State ι A α) (a : A) (cell : Cell A (Option α)) : State ι A α :=
  { s with heap := Function.update s.heap a (some cell) }

def State.record (s : State ι A α) (e : Event (Option ι) (Op α) (Option α)) : State ι A α :=
  { s with log := s.log ++ [e] }

/-- `push` from `newNode->value = v` on. -/
def State.produce (s : State ι A α) (p : ι) (spurious : Bool) : Option (State ι A α) :=
  match s.producer p with
  | .idle | .new _ => none
  | .setValue v a => some <| s.access a fun cell =>
    (s.write a { cell with value := v }).setProducer p (.setNext v a)
  | .setNext v a => some <| s.access a fun cell =>
    (s.write a { cell with next := s.head }).setProducer p (.exchange v a)
  | .exchange v a => some <| s.access a fun cell =>
    if s.head = cell.next ∧ spurious = false then
      ({ s with head := some a }.setProducer p .done).record (.effect (some p) (.push v) none)
    -- the failed exchange has loaded `head_` into `newNode->next`
    else s.write a { cell with next := s.head }
  | .done => some <| (s.setProducer p .idle).record (.ret (some p) none)

/-- `pop`. -/
def State.consume (s : State ι A α) (spurious : Bool) (moved : Option α) : Option (State ι A α) :=
  match s.consumer with
  | .idle => none
  | .start => some { s with consumer := if s.outqueue = none then .testHead else .take false }
  | .testHead => some <|
      if s.head = none then { s with consumer := .take true }.record (.effect none .pop none)
      else { s with consumer := .loadHead }
  | .loadHead => some { s with outqueue := s.head, consumer := .detach }
  | .detach => some <|
      if s.head = s.outqueue ∧ spurious = false then { s with head := none, consumer := .detached }
      else { s with outqueue := s.head }
  | .detached => some { s with outqueue := none, consumer := .reverse s.outqueue }
  | .reverse none => some { s with consumer := .take false }
  | .reverse (some n1) => some <| s.access n1 fun cell =>
    { s with consumer := .relink n1 cell.next }
  | .relink n1 n2 => some <| s.access n1 fun cell =>
    { s.write n1 { cell with next := s.outqueue } with consumer := .advance n1 n2 }
  | .advance n1 n2 => some { s with outqueue := some n1, consumer := .reverse n2 }
  | .take _ =>
    match s.outqueue with
    | none => some { s with consumer := .done none }
    | some a => some <| s.access a fun cell =>
      { s.write a { cell with value := moved } with consumer := .unlink cell.value }.record
        (.effect none .pop cell.value)
  | .unlink ret =>
    match s.outqueue with
    | none => some { s with fault := true }
    | some a => some <| s.access a fun cell =>
      { s with outqueue := cell.next, consumer := .delete ret a }
  | .delete ret tnode => some <| s.access tnode fun _ =>
    { s with heap := Function.update s.heap tnode none, consumer := .done ret }
  | .done ret => some <| { s with consumer := .idle }.record (.ret none ret)

def State.step (s : State ι A α) (a : Action ι A α) : Option (State ι A α) :=
  if s.fault then none
  else match a with
    | .push p v =>
      if s.producer p = .idle then
        some ((s.setProducer p (.new v)).record (.call (some p) (.push v)))
      else none
    | .new p a cell =>
      match s.producer p with
      | .new v =>
        if s.heap a = none then some ((s.write a cell).setProducer p (.setValue v a)) else none
      | _ => none
    | .produce p spurious => s.produce p spurious
    | .pop =>
      if s.consumer = .idle then some ({ s with consumer := .start }.record (.call none .pop))
      else none
    | .consume spurious moved => s.consume spurious moved

end Corpc.Queue
