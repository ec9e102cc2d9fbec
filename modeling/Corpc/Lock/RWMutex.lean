/-
# The mutex of readers and writers

`RWMutex` in `corpc_rwmutex.cpp`, over `Semaphore` in `corpc_semaphore.cpp` and
a `Mutex`.

A step is an atomic operation, or a call of the semaphores or of the mutex.
-/

import Corpc.Basis.Run
import Corpc.Basis.Tally

namespace Corpc.Lock

/-- `Semaphore`: `res_` and `waitRoutines_`. -/
structure Semaphore (ι : Type) where
  res : ℕ
  waitRoutines : List ι

namespace Semaphore

variable {ι : Type} (m : Semaphore ι)

/-- A call of `wait`, and whether it returns at once. -/
def wait (c : ι) : Semaphore ι × Bool :=
  if m.res = 0 then ({ m with waitRoutines := m.waitRoutines ++ [c] }, false)
  else ({ m with res := m.res - 1 }, true)

/-- A call of `post`, and the coroutine that it resumes. -/
def post : Semaphore ι × Option ι :=
  if m.res = 0 then
    match m.waitRoutines with
    | [] => ({ m with res := 1 }, none)
    | d :: rest => ({ m with waitRoutines := rest }, some d)
  else ({ m with res := m.res + 1 }, none)

end Semaphore

namespace RWMutex

/-- `RWMUTEXMAXREADERS`. -/
def maxReaders : ℤ := 2 ^ 30

inductive Pc where
  | outside
  /-- in `rlock`, before `readerSem_.wait()` -/
  | readWait
  /-- in the queue of `readerSem_` -/
  | readParked
  /-- between the return of `rlock` and `runlock` -/
  | reading
  /-- in `runlock`, before `readerWait_.fetch_sub(1)` -/
  | readLeaving
  /-- in `runlock`, before `writerSem_.post()` -/
  | readPosting
  /-- in `lock`, before `wlock_.lock()` -/
  | writeLocking
  /-- in `lock`, before `readerCount_.fetch_sub` -/
  | writeLocked
  /-- in `lock`, before `readerWait_.fetch_add(r)` -/
  | writeCounting (r : ℤ)
  /-- in `lock`, before `writerSem_.wait()` -/
  | writeWait
  /-- in the queue of `writerSem_` -/
  | writeParked
  /-- between the return of `lock` and `unlock` -/
  | writing
  /-- in `unlock`, with this many calls of `readerSem_.post()` to come -/
  | writePosting (posts : ℕ)
  deriving DecidableEq, Repr

end RWMutex

/-- `RWMutex`, with its coroutines.  `wlock` says who has `wlock_`, and `aborted` that `abort` was
called. -/
structure RWMutex (ι : Type) where
  wlock : Option ι
  readerSem : Semaphore ι
  writerSem : Semaphore ι
  readerCount : ℤ
  readerWait : ℤ
  pcs : ι → RWMutex.Pc
  aborted : Bool

namespace RWMutex

variable {ι : Type} [DecidableEq ι]

def init : RWMutex ι where
  wlock := none
  readerSem := ⟨0, []⟩
  writerSem := ⟨0, []⟩
  readerCount := 0
  readerWait := 0
  pcs := fun _ => .outside
  aborted := false

variable (s : RWMutex ι)

def goto (c : ι) (pc : Pc) : RWMutex ι := { s with pcs := Function.update s.pcs c pc }

/-- `rlock` up to its end or the call of the semaphore. -/
def rlock (c : ι) : RWMutex ι :=
  let r := s.readerCount
  let s := { s with readerCount := r + 1 }
  if r = -1 ∨ r ≥ maxReaders - 1 then { s with aborted := true }
  else if r < 0 then s.goto c .readWait
  else s.goto c .reading

/-- `readerSem_.wait()` in `rlock`. -/
def rlockWait (c : ι) : RWMutex ι :=
  let m := s.readerSem.wait c
  { s with readerSem := m.1 }.goto c (if m.2 then .reading else .readParked)

/-- `runlock` up to its end or the next step. -/
def runlock (c : ι) : RWMutex ι :=
  let r := s.readerCount
  let s := { s with readerCount := r - 1 }
  if r ≤ 0 then
    if r = 0 ∨ r = -maxReaders then { s with aborted := true } else s.goto c .readLeaving
  else s.goto c .outside

/-- `readerWait_.fetch_sub(1)` in `runlock`. -/
def runlockLeave (c : ι) : RWMutex ι :=
  { s with readerWait := s.readerWait - 1 }.goto c
    (if s.readerWait = 1 then .readPosting else .outside)

/-- `writerSem_.post()` in `runlock`. -/
def runlockPost (c : ι) : RWMutex ι :=
  let m := s.writerSem.post
  let s := { s with writerSem := m.1 }.goto c .outside
  match m.2 with
  | some d => s.goto d .writing
  | none => s

/-- `readerCount_.fetch_sub` in `lock`. -/
def lockAnnounce (c : ι) : RWMutex ι :=
  let r := s.readerCount
  { s with readerCount := r - maxReaders }.goto c (if r ≠ 0 then .writeCounting r else .writing)

/-- `readerWait_.fetch_add(r)` in `lock`. -/
def lockCount (c : ι) (r : ℤ) : RWMutex ι :=
  { s with readerWait := s.readerWait + r }.goto c
    (if s.readerWait + r ≠ 0 then .writeWait else .writing)

/-- `writerSem_.wait()` in `lock`. -/
def lockWait (c : ι) : RWMutex ι :=
  let m := s.writerSem.wait c
  { s with writerSem := m.1 }.goto c (if m.2 then .writing else .writeParked)

/-- `unlock` up to its loop. -/
def unlock (c : ι) : RWMutex ι :=
  let r := s.readerCount
  let s := { s with readerCount := r + maxReaders }
  if r ≥ 0 then { s with aborted := true } else s.goto c (.writePosting (r + maxReaders).toNat)

/-- `readerSem_.post()` in `unlock`. -/
def unlockPost (c : ι) (posts : ℕ) : RWMutex ι :=
  let m := s.readerSem.post
  let s := { s with readerSem := m.1 }.goto c (.writePosting posts)
  match m.2 with
  | some d => s.goto d .reading
  | none => s

inductive Action (ι : Type) where
  | rlock (c : ι)
  | rlockWait (c : ι)
  | runlock (c : ι)
  | runlockLeave (c : ι)
  | runlockPost (c : ι)
  | lock (c : ι)
  | lockMutex (c : ι)
  | lockAnnounce (c : ι)
  | lockCount (c : ι)
  | lockWait (c : ι)
  | unlock (c : ι)
  | unlockPost (c : ι)
  | unlockMutex (c : ι)
  deriving DecidableEq, Repr

def step (s : RWMutex ι) (a : Action ι) : Option (RWMutex ι) :=
  if s.aborted then none
  else
    match a with
    | .rlock c => if s.pcs c = .outside then some (s.rlock c) else none
    | .rlockWait c => if s.pcs c = .readWait then some (s.rlockWait c) else none
    | .runlock c => if s.pcs c = .reading then some (s.runlock c) else none
    | .runlockLeave c => if s.pcs c = .readLeaving then some (s.runlockLeave c) else none
    | .runlockPost c => if s.pcs c = .readPosting then some (s.runlockPost c) else none
    | .lock c => if s.pcs c = .outside then some (s.goto c .writeLocking) else none
    | .lockMutex c =>
      if s.pcs c = .writeLocking ∧ s.wlock = none then
        some ({ s with wlock := some c }.goto c .writeLocked)
      else none
    | .lockAnnounce c => if s.pcs c = .writeLocked then some (s.lockAnnounce c) else none
    | .lockCount c =>
      match s.pcs c with
      | .writeCounting r => some (s.lockCount c r)
      | _ => none
    | .lockWait c => if s.pcs c = .writeWait then some (s.lockWait c) else none
    | .unlock c => if s.pcs c = .writing then some (s.unlock c) else none
    | .unlockPost c =>
      match s.pcs c with
      | .writePosting (posts + 1) => some (s.unlockPost c posts)
      | _ => none
    | .unlockMutex c =>
      if s.pcs c = .writePosting 0 then some ({ s with wlock := none }.goto c .outside)
      else none

end RWMutex
end Corpc.Lock
