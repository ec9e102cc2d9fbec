/-
# The mutex of coroutines

`Mutex` in `corpc_mutex.cpp`.  `state_` has a bit for a mutex that is locked, one for a coroutine
that was woken, one for starvation mode, and the number of waiters.

A step is an access to `state_`, a block under `waitlock_`, or the resumption of a coroutine.  A
`compare_exchange_weak` may fail without a reason (`spurious`), and what is measured with
`gettimeofday` is up to it (`late`).

The `co_yield_ct` in `wait` returns at any `co_activate`, not only at that of a `post`.
`timeoutRoutine` activates the caller of a timed inner call, which is in `waitRoutines_` while its
`push` waits for the mutex (`activate`); its entry stays there.
-/

import Corpc.Basis.Run
import Corpc.Basis.Tally

namespace Corpc.Lock

/-- `v & MUTEXLOCKED`. -/
def locked (v : ℤ) : ℤ := v % 2

/-- `v & MUTEXWOKEN`, as 0 or 1. -/
def woken (v : ℤ) : ℤ := v / 2 % 2

/-- `v & MUTEXSTARVING`, as 0 or 1. -/
def starving (v : ℤ) : ℤ := v / 4 % 2

/-- `v >> MUTEXWAITERSHIFT`. -/
def waiters (v : ℤ) : ℤ := v / 8

/-- `v | MUTEXLOCKED`. -/
def setLocked (v : ℤ) : ℤ := v + (1 - locked v)

/-- `v | MUTEXWOKEN`. -/
def setWoken (v : ℤ) : ℤ := v + 2 * (1 - woken v)

/-- `v | MUTEXSTARVING`. -/
def setStarving (v : ℤ) : ℤ := v + 4 * (1 - starving v)

/-- `v & ~MUTEXWOKEN`. -/
def clearWoken (v : ℤ) : ℤ := v - 2 * woken v

section Bits

variable (v : ℤ)

theorem locked_cases : locked v = 0 ∨ locked v = 1 := by
  unfold locked
  omega

theorem woken_cases : woken v = 0 ∨ woken v = 1 := by
  unfold woken
  omega

theorem starving_cases : starving v = 0 ∨ starving v = 1 := by
  unfold starving
  omega

@[simp]
theorem locked_add_eight : locked (v + 8) = locked v := by
  unfold locked
  omega

@[simp]
theorem woken_add_eight : woken (v + 8) = woken v := by
  unfold woken
  omega

@[simp]
theorem starving_add_eight : starving (v + 8) = starving v := by
  unfold starving
  omega

@[simp]
theorem waiters_add_eight : waiters (v + 8) = waiters v + 1 := by
  unfold waiters
  omega

@[simp]
theorem locked_setLocked : locked (setLocked v) = 1 := by
  unfold setLocked locked
  omega

@[simp]
theorem woken_setLocked : woken (setLocked v) = woken v := by
  unfold setLocked locked woken
  omega

@[simp]
theorem starving_setLocked : starving (setLocked v) = starving v := by
  unfold setLocked locked starving
  omega

@[simp]
theorem waiters_setLocked : waiters (setLocked v) = waiters v := by
  unfold setLocked locked waiters
  omega

@[simp]
theorem locked_setWoken : locked (setWoken v) = locked v := by
  unfold setWoken locked woken
  omega

@[simp]
theorem woken_setWoken : woken (setWoken v) = 1 := by
  unfold setWoken woken
  omega

@[simp]
theorem starving_setWoken : starving (setWoken v) = starving v := by
  unfold setWoken starving woken
  omega

@[simp]
theorem waiters_setWoken : waiters (setWoken v) = waiters v := by
  unfold setWoken waiters woken
  omega

@[simp]
theorem locked_setStarving : locked (setStarving v) = locked v := by
  unfold setStarving locked starving
  omega

@[simp]
theorem woken_setStarving : woken (setStarving v) = woken v := by
  unfold setStarving woken starving
  omega

@[simp]
theorem starving_setStarving : starving (setStarving v) = 1 := by
  unfold setStarving starving
  omega

@[simp]
theorem waiters_setStarving : waiters (setStarving v) = waiters v := by
  unfold setStarving waiters starving
  omega

@[simp]
theorem locked_clearWoken : locked (clearWoken v) = locked v := by
  unfold clearWoken locked woken
  omega

@[simp]
theorem woken_clearWoken : woken (clearWoken v) = 0 := by
  unfold clearWoken woken
  omega

@[simp]
theorem starving_clearWoken : starving (clearWoken v) = starving v := by
  unfold clearWoken starving woken
  omega

@[simp]
theorem waiters_clearWoken : waiters (clearWoken v) = waiters v := by
  unfold clearWoken waiters woken
  omega

variable {v}

theorem bits_sub_one (hl : locked v = 1) : locked (v - 1) = 0 ∧ woken (v - 1) = woken v ∧
    starving (v - 1) = starving v ∧ waiters (v - 1) = waiters v := by
  unfold locked woken starving waiters at *
  omega

theorem bits_sub_eight : locked (v - 8) = locked v ∧ woken (v - 8) = woken v ∧
    starving (v - 8) = starving v ∧ waiters (v - 8) = waiters v - 1 := by
  unfold locked woken starving waiters
  omega

end Bits

/-- The local variables of `lockSlow`; `waited` says that `waitStartTime` is set. -/
structure Locals where
  waited : Bool
  starving : Bool
  awoke : Bool
  iter : ℕ
  deriving DecidableEq, Repr

inductive Pc where
  /-- in neither `lock` nor `unlock`, without the mutex -/
  | outside
  /-- before `oldV = state_.load()` -/
  | loading (l : Locals)
  | looping (l : Locals) (oldV : ℤ)
  /-- before the block of `wait` -/
  | waiting (l : Locals)
  /-- in `waitRoutines_` -/
  | queued (l : Locals)
  /-- taken from `waitRoutines_`, and not resumed yet -/
  | popped (l : Locals)
  /-- back from `wait`, before `oldV = state_.load()` -/
  | awake (l : Locals)
  /-- before `state_.fetch_add(delta)` -/
  | handed (l : Locals) (oldV : ℤ)
  /-- between the return of `lock` and `unlock` -/
  | inside
  /-- at the head of the loop of `unlockSlow` -/
  | unlocking (oldV : ℤ)
  /-- in that loop, before `oldV = state_.load()` -/
  | unlockLoading
  /-- before the block of `post` -/
  | posting
  deriving DecidableEq, Repr

/-- `Mutex`, with its coroutines.  `aborted` says that `abort` was called. -/
structure Mutex (ι : Type) where
  state : ℤ
  dontWait : Bool
  waitRoutines : List ι
  lastco : Option ι
  pcs : ι → Pc
  aborted : Bool

namespace Mutex

variable {ι : Type} [DecidableEq ι]

def init : Mutex ι where
  state := 0
  dontWait := false
  waitRoutines := []
  lastco := none
  pcs := fun _ => .outside
  aborted := false

variable (s : Mutex ι)

def goto (c : ι) (pc : Pc) : Mutex ι := { s with pcs := Function.update s.pcs c pc }

/-- `lock` up to its end or the first step of `lockSlow`. -/
def lock (c : ι) (spurious : Bool) : Mutex ι :=
  if s.state = 0 ∧ spurious = false then { s with state := 1 }.goto c .inside
  else s.goto c (.loading ⟨false, false, false, 0⟩)

/-- The value that the loop of `lockSlow` wants to store, before the woken bit is reset. -/
def newState (l : Locals) (oldV : ℤ) : ℤ :=
  let newV := if starving oldV = 0 then setLocked oldV else oldV
  let newV := if locked oldV = 1 ∨ starving oldV = 1 then newV + 8 else newV
  if l.starving = true ∧ locked oldV = 1 then setStarving newV else newV

/-- `lastco_` after the mutex was locked in the loop. -/
def newLastco (c : ι) (oldV : ℤ) : Option ι :=
  if s.lastco = none then if woken oldV = 1 then some c else none
  else if s.lastco = some c then s.lastco
  else none

/-- One round of the loop of `lockSlow`. -/
def loop (c : ι) (l : Locals) (oldV : ℤ) (spurious late : Bool) : Mutex ι :=
  if locked oldV = 1 ∧ starving oldV = 0 ∧ l.iter < 4 then
    -- it spins
    if l.awoke = false ∧ woken oldV = 0 ∧ waiters oldV ≠ 0 ∧ s.state = oldV ∧ spurious = false then
      { s with state := setWoken oldV }.goto c
        (.loading { l with awoke := true, iter := l.iter + 1 })
    else s.goto c (.loading { l with iter := l.iter + 1 })
  else if l.awoke = false ∧ woken oldV = 1 ∧ s.lastco = some c ∧ late = true then
    -- `RoutineEnvironment::pause`, and `oldV` is not read again
    s
  else
    let newV := newState l oldV
    if l.awoke = true ∧ woken newV = 0 then { s with aborted := true }
    else
      let newV := if l.awoke then clearWoken newV else newV
      if s.state = oldV ∧ spurious = false then
        if locked oldV = 0 ∧ starving oldV = 0 then
          { s with state := newV, lastco := s.newLastco c oldV }.goto c .inside
        else { s with state := newV }.goto c (.waiting l)
      else s.goto c (.loading l)

def wait (c : ι) (l : Locals) : Mutex ι :=
  if s.dontWait then { s with dontWait := false }.goto c (.awake { l with waited := true })
  else
    { s with waitRoutines := if l.waited then c :: s.waitRoutines else s.waitRoutines ++ [c] }.goto
      c (.queued { l with waited := true })

/-- `lockSlow` after `wait`. -/
def wake (c : ι) (l : Locals) (late : Bool) : Mutex ι :=
  let l := { l with starving := l.starving || late }
  let oldV := s.state
  if starving oldV = 1 then
    if locked oldV = 1 ∨ woken oldV = 1 ∨ waiters oldV = 0 then { s with aborted := true }
    else s.goto c (.handed l oldV)
  else s.goto c (.looping { l with awoke := true, iter := 0 } oldV)

/-- `delta` of `lockSlow`. -/
def delta (l : Locals) (oldV : ℤ) : ℤ :=
  1 - 8 - if l.starving = false ∨ waiters oldV = 1 then 4 else 0

/-- `lockSlow` takes over the mutex. -/
def takeOver (c : ι) (l : Locals) (oldV : ℤ) : Mutex ι :=
  { s with state := s.state + delta l oldV, lastco := none }.goto c .inside

/-- `unlock` up to its end or the next step of `unlockSlow`. -/
def unlock (c : ι) : Mutex ι :=
  let newV := s.state - 1
  let s := { s with state := newV }
  if newV = 0 then s.goto c .outside
  else if locked (newV + 1) = 0 then { s with aborted := true }
  else if starving newV = 0 then s.goto c (.unlocking newV)
  else s.goto c .posting

def mayWake (oldV : ℤ) : Bool :=
  waiters oldV ≠ 0 && locked oldV = 0 && woken oldV = 0 && starving oldV = 0

/-- One round of the loop of `unlockSlow`. -/
def unlockLoop (c : ι) (oldV : ℤ) (spurious : Bool) : Mutex ι :=
  if mayWake oldV then
    if s.state = oldV ∧ spurious = false then
      { s with state := setWoken (oldV - 8) }.goto c .posting
    else s.goto c .unlockLoading
  else s.goto c .outside

/-- The block of `post`, which is the end of `unlock`. -/
def post (c : ι) : Mutex ι :=
  match s.waitRoutines with
  | [] => { s with dontWait := true }.goto c .outside
  | d :: rest =>
    let s := { s with waitRoutines := rest }.goto c .outside
    match s.pcs d with
    | .queued l => s.goto d (.popped l)
    | _ => s

end Mutex

inductive Action (ι : Type) where
  | lock (c : ι) (spurious : Bool)
  | load (c : ι)
  | loop (c : ι) (spurious late : Bool)
  | wait (c : ι)
  /-- A coroutine that `post` has taken is resumed. -/
  | resume (c : ι)
  /-- `co_activate` of a coroutine in `waitRoutines_`, by `timeoutRoutine`. -/
  | activate (c : ι)
  | wake (c : ι) (late : Bool)
  | takeOver (c : ι)
  | unlock (c : ι)
  | unlockLoop (c : ι) (spurious : Bool)
  | post (c : ι)
  deriving DecidableEq, Repr

variable {ι : Type} [DecidableEq ι]

def Mutex.step (s : Mutex ι) (a : Action ι) : Option (Mutex ι) :=
  if s.aborted then none
  else
    match a with
    | .lock c spurious => if s.pcs c = .outside then some (s.lock c spurious) else none
    | .load c =>
      match s.pcs c with
      | .loading l => some (s.goto c (.looping l s.state))
      | .unlockLoading => some (s.goto c (.unlocking s.state))
      | _ => none
    | .loop c spurious late =>
      match s.pcs c with
      | .looping l oldV => some (s.loop c l oldV spurious late)
      | _ => none
    | .wait c =>
      match s.pcs c with
      | .waiting l => some (s.wait c l)
      | _ => none
    | .resume c =>
      match s.pcs c with
      | .popped l => some (s.goto c (.awake l))
      | _ => none
    | .activate c =>
      match s.pcs c with
      | .queued l => some (s.goto c (.awake l))
      | _ => none
    | .wake c late =>
      match s.pcs c with
      | .awake l => some (s.wake c l late)
      | _ => none
    | .takeOver c =>
      match s.pcs c with
      | .handed l oldV => some (s.takeOver c l oldV)
      | _ => none
    | .unlock c => if s.pcs c = .inside then some (s.unlock c) else none
    | .unlockLoop c spurious =>
      match s.pcs c with
      | .unlocking oldV => some (s.unlockLoop c oldV spurious)
      | _ => none
    | .post c => if s.pcs c = .posting then some (s.post c) else none

/-- No coroutine in `waitRoutines_` is resumed but by a `post`. -/
def Mutex.wokenByPost (_ : Mutex ι) : Action ι → Bool
  | .activate _ => false
  | _ => true

end Corpc.Lock
