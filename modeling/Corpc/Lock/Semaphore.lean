/-
# The semaphore

`Semaphore` in `corpc_semaphore.cpp`, statement by statement.  `res_` is the number of
permits, and -1 while a coroutine has it locked: a coroutine that finds 0 exchanges it for -1, works
on `waitRoutines_`, and stores what is to be there afterwards.

A step is an access to `res_`, or the work on `waitRoutines_` between two of them; a
`compare_exchange_weak` may fail without a reason (`spurious`).  A coroutine is resumed through the
queue of its own thread (`resumes`), after it has yielded even if `post` was faster.  `res_` is an
integer here.

In the history `log` a `wait` takes effect when it takes a permit or enters `waitRoutines_`, a
`post` when it adds a permit or takes a coroutine out.
-/

import Corpc.Basis.Linearize
import Corpc.Lock.RWMutex

namespace Corpc.Lock
namespace Sem

open Corpc.Basis

inductive Op (ι : Type)
  | wait (c : ι)
  | post
  deriving DecidableEq

inductive Result (ι : Type)
  /-- `wait` takes a permit at once, or enters the queue. -/
  | waited (now : Bool)
  /-- `post` resumes a coroutine, or adds a permit. -/
  | posted (resumed : Option ι)
  deriving DecidableEq

inductive Pc (ι : Type)
  | idle
  /-- in `wait`, before `v = res_.load()` -/
  | waitLoad
  /-- in `wait`, with `v` -/
  | waitTry (v : ℤ)
  /-- before `waitRoutines_.push_back` -/
  | waitPush
  /-- before `res_.store(0)` -/
  | waitStore
  /-- before `co_yield_ct()` -/
  | yielding
  | suspended
  /-- in `post`, before `v = res_.load()` -/
  | postLoad
  /-- in `post`, with `v` -/
  | postTry (v : ℤ)
  /-- before `waitRoutines_.empty()` -/
  | postLocked
  /-- before `res_.store(1)` -/
  | postAdd
  /-- with the first of `waitRoutines_`, before `res_.store(0)` -/
  | postStore (info : ι)
  /-- before `resumeCoroutine` -/
  | postResume (info : ι)
  /-- at the end of `wait` or `post` -/
  | returning (r : Result ι)
  deriving DecidableEq

/-- `Semaphore`, with its coroutines and its history. -/
structure State (ι : Type) where
  res : ℤ
  waitRoutines : List ι
  resumes : List ι
  pcs : ι → Pc ι
  log : List (Event ι (Op ι) (Result ι))

/-- `Semaphore(num)`. -/
def State.init (ι : Type) (num : ℕ) : State ι := ⟨num, [], [], fun _ => .idle, []⟩

inductive Action (ι : Type)
  | wait (c : ι)
  | post (c : ι)
  | next (c : ι) (spurious : Bool)
  | resume (c : ι)
  deriving DecidableEq

def Action.coroutine {ι : Type} : Action ι → ι
  | .wait c | .post c | .next c _ | .resume c => c

variable {ι : Type} [DecidableEq ι]

def State.goto (s : State ι) (c : ι) (pc : Pc ι) : State ι :=
  { s with pcs := Function.update s.pcs c pc }

def State.record (s : State ι) (e : Event ι (Op ι) (Result ι)) : State ι :=
  { s with log := s.log ++ [e] }

/-- The next statement of `wait` or `post`. -/
def State.next (s : State ι) (c : ι) (spurious : Bool) : Option (State ι) :=
  match s.pcs c with
  | .idle | .suspended => none
  | .waitLoad => some (s.goto c (.waitTry s.res))
  | .waitTry v => some <|
      if v = 0 then
        if s.res = v ∧ spurious = false then { s with res := -1 }.goto c .waitPush
        else s.goto c .waitLoad
      else if 0 < v then
        if s.res = v ∧ spurious = false then
          ({ s with res := v - 1 }.goto c (.returning (.waited true))).record
            (.effect c (.wait c) (.waited true))
        else s.goto c .waitLoad
      else s.goto c .waitLoad
  | .waitPush => some <|
      ({ s with waitRoutines := s.waitRoutines ++ [c] }.goto c .waitStore).record
        (.effect c (.wait c) (.waited false))
  | .waitStore => some ({ s with res := 0 }.goto c .yielding)
  | .yielding => some (s.goto c .suspended)
  | .postLoad => some (s.goto c (.postTry s.res))
  | .postTry v => some <|
      if v = 0 then
        if s.res = v ∧ spurious = false then { s with res := -1 }.goto c .postLocked
        else s.goto c .postLoad
      else if 0 < v then
        if s.res = v ∧ spurious = false then
          ({ s with res := v + 1 }.goto c (.returning (.posted none))).record
            (.effect c .post (.posted none))
        else s.goto c .postLoad
      else s.goto c .postLoad
  | .postLocked => some <|
      match s.waitRoutines with
      | [] => s.goto c .postAdd
      | d :: rest => ({ s with waitRoutines := rest }.goto c (.postStore d)).record
          (.effect c .post (.posted (some d)))
  | .postAdd => some <|
      ({ s with res := 1 }.goto c (.returning (.posted none))).record
        (.effect c .post (.posted none))
  | .postStore d => some ({ s with res := 0 }.goto c (.postResume d))
  | .postResume d => some <|
      { s with resumes := s.resumes ++ [d] }.goto c (.returning (.posted (some d)))
  | .returning r => some <| (s.goto c .idle).record (.ret c r)

def State.step (s : State ι) : Action ι → Option (State ι)
  | .wait c =>
    if s.pcs c = .idle then some ((s.goto c .waitLoad).record (.call c (.wait c))) else none
  | .post c =>
    if s.pcs c = .idle then some ((s.goto c .postLoad).record (.call c .post)) else none
  | .next c spurious => s.next c spurious
  | .resume c =>
    if s.pcs c = .suspended ∧ c ∈ s.resumes then
      some ({ s with resumes := s.resumes.erase c }.goto c (.returning (.waited false)))
    else none

/-- **The specification:** calls of a `Semaphore` that are single steps. -/
def spec (m : Semaphore ι) : Op ι × Result ι → Option (Semaphore ι)
  | (.wait c, r) => if r = .waited (m.wait c).2 then some (m.wait c).1 else none
  | (.post, r) => if r = .posted m.post.2 then some m.post.1 else none

section Places

omit [DecidableEq ι]

namespace Pc

/-- The coroutine has exchanged `res_` for -1 and has not stored. -/
def locks : Pc ι → Bool
  | .waitPush | .waitStore | .postLocked | .postAdd | .postStore _ => true
  | _ => false

/-- How far the call of coroutine `c` is. -/
def phase (c : ι) : Pc ι → Phase (Op ι) (Result ι)
  | .idle => .idle
  | .waitLoad | .waitTry _ | .waitPush => .called (.wait c)
  | .waitStore | .yielding | .suspended => .effected (.waited false)
  | .postLoad | .postTry _ | .postLocked | .postAdd => .called .post
  | .postStore d | .postResume d => .effected (.posted (some d))
  | .returning r => .effected r

/-- In `wait`, and in the queue or taken from it. -/
def registered : Pc ι → ℕ
  | .waitStore | .yielding | .suspended => 1
  | _ => 0

/-- At the end of `wait`. -/
def granted : Pc ι → ℕ
  | .returning (.waited _) => 1
  | _ => 0

/-- In `post`, which has not taken effect. -/
def posting : Pc ι → ℕ
  | .postLoad | .postTry _ | .postLocked | .postAdd => 1
  | _ => 0

/-- The coroutine that `post` has taken from the queue and not resumed yet. -/
def info : Pc ι → Option ι
  | .postStore d | .postResume d => some d
  | _ => none

end Pc

inductive Call
  | wait
  | post
  deriving DecidableEq

def Pc.call : Pc ι → Option Call
  | .idle => none
  | .waitLoad | .waitTry _ | .waitPush | .waitStore | .yielding | .suspended
  | .returning (.waited _) => some .wait
  | .postLoad | .postTry _ | .postLocked | .postAdd | .postStore _ | .postResume _
  | .returning (.posted _) => some .post

def State.abs (s : State ι) : Semaphore ι := ⟨s.res.toNat, s.waitRoutines⟩

def State.phase (s : State ι) (c : ι) : Phase (Op ι) (Result ι) := (s.pcs c).phase c

/-- The calls of `wait` that have returned. -/
def completed (log : List (Event ι (Op ι) (Result ι))) : ℕ :=
  log.countP fun
    | .ret _ (.waited _) => true
    | _ => false

/-- The calls of `post` that have taken effect. -/
def posts (log : List (Event ι (Op ι) (Result ι))) : ℕ :=
  log.countP fun
    | .effect _ .post _ => true
    | _ => false

def postCalls (log : List (Event ι (Op ι) (Result ι))) : ℕ :=
  log.countP fun
    | .call _ .post => true
    | _ => false

end Places

end Sem
end Corpc.Lock
