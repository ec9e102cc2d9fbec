/-
# The condition variable

`Condition` in `corpc_condition.cpp`, statement by statement, with its `Mutex`.  `wait` enters
`waitRoutines_`, unlocks the mutex, yields, and locks the mutex again when it is resumed.

The threads are part of the model, since a `signal` on another thread can fall between unlocking and
yielding.  `running t` is the coroutine that thread `t` executes.  A coroutine is resumed through
the queue of its own thread (`RoutineEnvironment::resumeCoroutine`, here `resumes` for all threads),
which the thread looks at only when no coroutine is executed.  A resumption of a coroutine that is
not suspended in `wait` is lost.
-/

import Corpc.Basis.Linearize
import Corpc.Lock.MutexInvariant
import Corpc.Lock.MutexStages

namespace Corpc.Lock
namespace Cond

open Corpc.Basis

inductive Op (ι : Type)
  | wait (c : ι)
  /-- `broadcast` if `all`, and otherwise `signal`. -/
  | wake (all : Bool)
  deriving DecidableEq

/-- **The specification:** a first-in-first-out queue of waiters.  The result of a call is what it
takes from the queue, to be resumed. -/
def spec {ι : Type} [DecidableEq ι] (q : List ι) : Op ι × List ι → Option (List ι)
  | (.wait c, r) => if r = [] then some (q ++ [c]) else none
  | (.wake false, r) => if r = q.take 1 then some (q.drop 1) else none
  | (.wake true, r) => if r = q then some [] else none

inductive Pc (ι : Type)
  | idle
  /-- in `wait`, before `v = res_.load()` -/
  | waitLoad
  /-- in `wait`, with `v` -/
  | waitTry (v : ℤ)
  /-- before `waitRoutines_.push_back` -/
  | waitPush
  /-- before `res_.store(0)` -/
  | waitStore
  /-- in `lock.unlock()` -/
  | waitUnlock
  /-- at `co_yield_ct()` -/
  | suspended
  /-- in `lock.lock()` -/
  | waitLock
  /-- in `signal` or `broadcast`, before `v = res_.load()` -/
  | wakeLoad (all : Bool)
  /-- in `signal` or `broadcast`, with `v` -/
  | wakeTry (all : Bool) (v : ℤ)
  /-- before `waitRoutines_.empty()` -/
  | wakeLocked (all : Bool)
  /-- with what it took, before `res_.store(0)` -/
  | wakeStore (infos : List ι)
  | wakeResume (infos todo : List ι)
  deriving DecidableEq

/-- `Condition` and `Mutex`, with the coroutines, the threads and the history. -/
structure State (ι τ : Type) where
  res : ℤ
  waitRoutines : List ι
  resumes : List ι
  mutex : Mutex ι
  pcs : ι → Pc ι
  running : τ → Option ι
  log : List (Event ι (Op ι) (List ι))

/-- `Condition()` and `Mutex()`. -/
def State.init (ι τ : Type) : State ι τ :=
  ⟨0, [], [], Mutex.init, fun _ => .idle, fun _ => none, []⟩

inductive Action (ι : Type)
  | wait (c : ι)
  | signal (c : ι)
  | broadcast (c : ι)
  | next (c : ι) (spurious : Bool)
  | mutex (a : Lock.Action ι)
  | run (c : ι)
  | yield (c : ι)
  | resume (c : ι)
  deriving DecidableEq

section Step

variable {ι τ : Type} [DecidableEq ι]

def State.goto (s : State ι τ) (c : ι) (pc : Pc ι) : State ι τ :=
  { s with pcs := Function.update s.pcs c pc }

def State.record (s : State ι τ) (e : Event ι (Op ι) (List ι)) : State ι τ :=
  { s with log := s.log ++ [e] }

/-- The coroutine is at a place where it can yield, or has yielded: in `wait` of the condition or of
the mutex, or in none of the calls. -/
def State.rests (s : State ι τ) (c : ι) : Bool :=
  match s.pcs c, s.mutex.pcs c with
  | .suspended, _ | _, .queued _ | _, .popped _ | .idle, .inside | .idle, .outside => true
  | _, _ => false

def State.next (s : State ι τ) (c : ι) (spurious : Bool) : Option (State ι τ) :=
  match s.pcs c with
  | .idle | .suspended => none
  | .waitLoad => some (s.goto c (.waitTry s.res))
  | .waitTry v => some <|
      if v = 0 ∧ s.res = v ∧ spurious = false then { s with res := 1 }.goto c .waitPush
      else s.goto c .waitLoad
  | .waitPush => some <|
      ({ s with waitRoutines := s.waitRoutines ++ [c] }.goto c .waitStore).record
        (.effect c (.wait c) [])
  | .waitStore => some ({ s with res := 0 }.goto c .waitUnlock)
  | .waitUnlock => if s.mutex.pcs c = .outside then some (s.goto c .suspended) else none
  | .waitLock =>
    if s.mutex.pcs c = .inside then some ((s.goto c .idle).record (.ret c [])) else none
  | .wakeLoad all => some (s.goto c (.wakeTry all s.res))
  | .wakeTry all v => some <|
      if v = 0 ∧ s.res = v ∧ spurious = false then { s with res := 1 }.goto c (.wakeLocked all)
      else s.goto c (.wakeLoad all)
  | .wakeLocked false => some <|
      ({ s with waitRoutines := s.waitRoutines.drop 1 }.goto c
        (.wakeStore (s.waitRoutines.take 1))).record
          (.effect c (.wake false) (s.waitRoutines.take 1))
  | .wakeLocked true => some <|
      ({ s with waitRoutines := [] }.goto c (.wakeStore s.waitRoutines)).record
        (.effect c (.wake true) s.waitRoutines)
  | .wakeStore infos => some ({ s with res := 0 }.goto c (.wakeResume infos infos))
  | .wakeResume infos (d :: todo) => some <|
      { s with resumes := s.resumes ++ [d] }.goto c (.wakeResume infos todo)
  | .wakeResume infos [] => some ((s.goto c .idle).record (.ret c infos))

/-- `signal` or `broadcast` is called. -/
def State.wake (s : State ι τ) (c : ι) (all : Bool) : State ι τ :=
  (s.goto c (.wakeLoad all)).record (.call c (.wake all))

/-- The mutex is locked in `wait` or outside of the calls, and so is it unlocked.  No coroutine
waits here with a timed inner call, which `timeoutRoutine` could activate. -/
def State.mayUse (s : State ι τ) : Lock.Action ι → Bool
  | .lock c _ => s.pcs c = .idle ∨ s.pcs c = .waitLock
  | .unlock c => s.pcs c = .idle ∨ s.pcs c = .waitUnlock
  | .activate _ => false
  | _ => true

variable [DecidableEq τ] (thread : ι → τ)

def State.execute (s : State ι τ) (c : ι) : State ι τ :=
  { s with running := Function.update s.running (thread c) (some c) }

def State.step (s : State ι τ) : Action ι → Option (State ι τ)
  | .wait c =>
    if s.running (thread c) = some c ∧ s.pcs c = .idle ∧ s.mutex.pcs c = .inside then
      some ((s.goto c .waitLoad).record (.call c (.wait c)))
    else none
  | .signal c =>
    if s.running (thread c) = some c ∧ s.pcs c = .idle ∧
        (s.mutex.pcs c = .inside ∨ s.mutex.pcs c = .outside) then
      some (s.wake c false)
    else none
  | .broadcast c =>
    if s.running (thread c) = some c ∧ s.pcs c = .idle ∧
        (s.mutex.pcs c = .inside ∨ s.mutex.pcs c = .outside) then
      some (s.wake c true)
    else none
  | .next c spurious => if s.running (thread c) = some c then s.next c spurious else none
  | .mutex (.resume c) =>
    if s.running (thread c) = none then
      (s.mutex.step (.resume c)).map fun m => { s with mutex := m }.execute thread c
    else none
  | .mutex a =>
    if s.running (thread a.coroutine) = some a.coroutine ∧ s.mayUse a = true then
      (s.mutex.step a).map fun m => { s with mutex := m }
    else none
  | .run c =>
    if s.running (thread c) = none ∧ s.pcs c = .idle ∧
        (s.mutex.pcs c = .inside ∨ s.mutex.pcs c = .outside) then
      some (s.execute thread c)
    else none
  | .yield c =>
    if s.running (thread c) = some c ∧ s.rests c = true then
      some { s with running := Function.update s.running (thread c) none }
    else none
  | .resume c =>
    if s.running (thread c) = none ∧ c ∈ s.resumes then
      let s := { s with resumes := s.resumes.erase c }.execute thread c
      some (if s.pcs c = .suspended then s.goto c .waitLock else s)
    else none

end Step

end Cond
end Corpc.Lock
