/-
# The heartbeat

`Heartbeater::heartbeatRoutine` in `corpc_io.cpp` closes a connection from which nothing
has come for `CORPC_MAX_NO_HEARTBEAT_TIME` milliseconds.  The receiver stores the time of the last
sign of life, `lastRecvHBTime_`, in another thread.

A step is one statement that reads or writes something another thread writes, and `mtime` is one
reading of a clock that never goes backwards.  `mtime` goes through a static `timeval`, so the
routine may get a reading of another thread, which is not after the clock.
-/

import Corpc.Basis.Run

namespace Corpc.Heartbeat

open Corpc.Basis Option

/-- `CORPC_HEARTBEAT_PERIOD`. -/
def heartbeatPeriod : UInt64 := 5000

/-- `CORPC_MAX_NO_HEARTBEAT_TIME`. -/
def maxNoHeartbeatTime : UInt64 := 15000

/-- What the two threads read and write of a `Connection`; `received` is the `nowms` of
the receiver between its two statements. -/
structure Connection where
  lastRecvHBTime : UInt64
  closed : Bool
  received : Option UInt64

/-- A node of `heartbeatList_`. -/
structure Node (κ : Type) where
  conn : κ
  expireTime : UInt64
  deriving DecidableEq

/-- The next statement of `heartbeatRoutine`, with its local variables. -/
inductive Routine (κ : Type)
  /-- `if (heartbeatList_.empty())`. -/
  | top
  /-- Suspended in `co_yield_ct()`, with `heartbeatRoutineHang_` set. -/
  | hang
  /-- `nowms = mtime()`. -/
  | sample
  /-- `node = getLast()`, `if (conn->closed_)`. -/
  | pick (nowms : UInt64)
  /-- `if (!conn->getLastRecvHBTime())`. -/
  | testZero (nowms : UInt64) (node : Node κ)
  /-- `conn->setLastRecvHBTime(nowms)`. -/
  | initTime (nowms : UInt64) (node : Node κ)
  /-- `if (nowms - conn->getLastRecvHBTime() > CORPC_MAX_NO_HEARTBEAT_TIME)`. -/
  | compare (nowms : UInt64) (node : Node κ)
  /-- Suspended in `msleep(expireTime - nowms)`. -/
  | asleep
  deriving DecidableEq

/-- A call of `conn->close()` in the routine, with the time of the comparison before it
and the last value that `setLastRecvHBTime` had stored by then. -/
structure Closing (κ : Type) where
  conn : κ
  now : UInt64
  last : UInt64
  deriving DecidableEq

/-- Nothing had come for longer than is allowed. -/
def Closing.Silent {κ : Type} (x : Closing κ) : Prop :=
  x.last.toNat + maxNoHeartbeatTime.toNat < x.now.toNat

structure State (κ : Type) where
  clock : UInt64
  conns : κ → Connection
  heartbeatList : List (Node κ)
  routine : Routine κ
  closings : List (Closing κ)

/-- The heartbeater starts at a time `clock`, when it has no connections and none of
them has heard anything. -/
def State.init (κ : Type) (clock : UInt64) : State κ :=
  ⟨clock, fun _ => ⟨0, false, none⟩, [], .top, []⟩

inductive Action (κ : Type)
  | tick (t : UInt64)
  /-- The receiver has a heartbeat: `nowms = mtime()`. -/
  | receive (c : κ)
  /-- The receiver: `setLastRecvHBTime(nowms)`. -/
  | store (c : κ)
  /-- The connection's `closed_` is set. -/
  | setClosed (c : κ)
  /-- `dispatchRoutine` takes a task that starts the heartbeat of a connection. -/
  | start (c : κ)
  /-- `dispatchRoutine` takes a task that stops it. -/
  | stop (c : κ)
  /-- The next statement of `heartbeatRoutine`; `getLast()` returns `node`. -/
  | turn (node : Node κ)
  /-- `nowms = mtime()` with the reading of another thread. -/
  | sampleAt (nowms : UInt64)
  deriving DecidableEq

variable {κ : Type} [DecidableEq κ]

def State.setConn (s : State κ) (c : κ) (f : Connection → Connection) : State κ :=
  { s with conns := Function.update s.conns c (f (s.conns c)) }

/-- The routine is suspended, so that `dispatchRoutine` can run. -/
def Routine.suspended : Routine κ → Bool
  | .hang | .asleep => true
  | _ => false

/-- `getLast()` returns a node with the least expire time. -/
def State.isLast (s : State κ) (node : Node κ) : Bool :=
  s.heartbeatList.contains node && s.heartbeatList.all fun n => node.expireTime ≤ n.expireTime

/-- The statements of the routine after `getLast()`. -/
def State.compare (s : State κ) (nowms : UInt64) (node : Node κ) : State κ :=
  let last := (s.conns node.conn).lastRecvHBTime
  if nowms - last > maxNoHeartbeatTime then
    { s with heartbeatList := s.heartbeatList.erase node,
             closings := s.closings ++ [⟨node.conn, s.clock, last⟩], routine := .top }
  else if node.expireTime > nowms then { s with routine := .asleep }
  else
    { s with heartbeatList := s.heartbeatList.erase node ++ [⟨node.conn, nowms + heartbeatPeriod⟩],
             routine := .top }

/-- `heartbeatRoutine`. -/
def State.turn (s : State κ) (node : Node κ) : Option (State κ) :=
  match s.routine with
  | .top => some { s with routine := if s.heartbeatList = [] then .hang else .sample }
  | .hang => none
  | .sample => some { s with routine := .pick s.clock }
  | .pick nowms =>
    if s.isLast node then
      if (s.conns node.conn).closed then
        some { s with heartbeatList := s.heartbeatList.erase node, routine := .top }
      else some { s with routine := .testZero nowms node }
    else none
  | .testZero nowms node =>
    if (s.conns node.conn).lastRecvHBTime = 0 then some { s with routine := .initTime nowms node }
    else some { s with routine := .compare nowms node }
  | .initTime nowms node =>
    some { s.setConn node.conn fun c => { c with lastRecvHBTime := nowms } with
      routine := .compare nowms node }
  | .compare nowms node => some (s.compare nowms node)
  | .asleep => some { s with routine := .top }

def State.step (s : State κ) : Action κ → Option (State κ)
  | .tick t => if s.clock ≤ t then some { s with clock := t } else none
  | .receive c => some (s.setConn c fun conn => { conn with received := some s.clock })
  | .store c =>
    match (s.conns c).received with
    | none => none
    | some nowms =>
      some (s.setConn c fun conn => { conn with lastRecvHBTime := nowms, received := none })
  | .setClosed c => some (s.setConn c fun conn => { conn with closed := true })
  | .start c =>
    if s.routine.suspended then
      some { s with heartbeatList := s.heartbeatList ++ [⟨c, s.clock + heartbeatPeriod⟩],
                    routine := if s.routine = .hang then .top else s.routine }
    else none
  | .stop c =>
    if s.routine.suspended then
      some { s with heartbeatList := s.heartbeatList.filter fun n => n.conn ≠ c }
    else none
  | .turn node => s.turn node
  | .sampleAt nowms =>
    if s.routine = .sample ∧ nowms ≤ s.clock then some { s with routine := .pick nowms } else none

def Routine.nowms : Routine κ → Option UInt64
  | .pick nowms | .testZero nowms _ | .initTime nowms _ | .compare nowms _ => some nowms
  | _ => none

/-- A comparison is made with a stored time that is not after the reading: no receiver has
stored a later one since. -/
def readingCurrent (s : State κ) (a : Action κ) : Bool :=
  match a, s.routine with
  | .turn _, .compare nowms node => (s.conns node.conn).lastRecvHBTime ≤ nowms
  | _, _ => true

/-- The routine's reading is not in the future, and what it closed was silent. -/
structure Sound (s : State κ) : Prop where
  reading : ∀ nowms, s.routine.nowms = some nowms → nowms ≤ s.clock
  silent : ∀ x ∈ s.closings, x.Silent

omit [DecidableEq κ] in
theorem sound_init (clock : UInt64) : Sound (State.init κ clock) :=
  ⟨nofun, nofun⟩

theorem lt_of_difference_gt {nowms last : UInt64} (hle : last ≤ nowms)
    (h : nowms - last > maxNoHeartbeatTime) :
    last.toNat + maxNoHeartbeatTime.toNat < nowms.toNat := by
  have hsub : (nowms - last).toNat = nowms.toNat - last.toNat := UInt64.toNat_sub_of_le _ _ hle
  have hgt : maxNoHeartbeatTime.toNat < (nowms - last).toNat := UInt64.lt_iff_toNat_lt.1 h
  omega

theorem Sound.compare {s : State κ} (h : Sound s) {nowms : UInt64} {node : Node κ}
    (hnow : nowms ≤ s.clock) (hlast : (s.conns node.conn).lastRecvHBTime ≤ nowms) :
    Sound (s.compare nowms node) := by
  unfold State.compare
  dsimp only
  split_ifs with hgt hexp
  · refine ⟨nofun, ?_⟩
    intro x hx
    rcases List.mem_append.1 hx with hx | hx
    · exact h.silent x hx
    · obtain rfl := List.mem_singleton.1 hx
      exact Nat.lt_of_lt_of_le (lt_of_difference_gt hlast hgt) (UInt64.le_iff_toNat_le.1 hnow)
  · exact ⟨nofun, h.silent⟩
  · exact ⟨nofun, h.silent⟩

theorem Sound.turn {s s' : State κ} {node : Node κ} (h : Sound s)
    (hok : readingCurrent s (.turn node) = true) (hs : s.turn node = some s') : Sound s' := by
  unfold State.turn at hs
  have hnow := h.reading
  rcases hr : s.routine with _ | _ | _ | nowms | ⟨nowms, n⟩ | ⟨nowms, n⟩ | ⟨nowms, n⟩ | _ <;>
    simp only [hr, some.injEq, reduceCtorEq] at hs hnow
  · subst hs
    refine ⟨?_, h.silent⟩
    intro t ht
    split_ifs at ht <;> nomatch ht
  · subst hs
    refine ⟨?_, h.silent⟩
    rintro t ⟨⟩
    exact UInt64.le_refl _
  · split_ifs at hs
    · exact some.inj hs ▸ ⟨nofun, h.silent⟩
    · exact some.inj hs ▸ ⟨hnow, h.silent⟩
  · split_ifs at hs
    · exact some.inj hs ▸ ⟨hnow, h.silent⟩
    · exact some.inj hs ▸ ⟨hnow, h.silent⟩
  · subst hs
    exact ⟨hnow, h.silent⟩
  · subst hs
    simp only [readingCurrent, hr, decide_eq_true_eq] at hok
    exact h.compare (hnow nowms rfl) hok
  · subst hs
    exact ⟨nofun, h.silent⟩

theorem Sound.step {s s' : State κ} {a : Action κ} (h : Sound s)
    (hok : readingCurrent s a = true) (hs : s.step a = some s') : Sound s' := by
  cases a with
  | tick t =>
    obtain ⟨hle, rfl⟩ := ite_some_none_eq_some.1 hs
    exact ⟨fun nowms hn => UInt64.le_trans (h.reading nowms hn) hle, h.silent⟩
  | receive c | setClosed c => exact some.inj hs ▸ ⟨h.reading, h.silent⟩
  | store c =>
    rcases hr : (s.conns c).received with _ | nowms <;> simp only [State.step, hr] at hs
    · nomatch hs
    · exact some.inj hs ▸ ⟨h.reading, h.silent⟩
  | start c =>
    obtain ⟨hsusp, rfl⟩ := ite_some_none_eq_some.1 hs
    refine ⟨?_, h.silent⟩
    intro nowms hn
    dsimp only at hn
    split_ifs at hn
    · nomatch hn
    · exact h.reading nowms hn
  | stop c =>
    obtain ⟨-, rfl⟩ := ite_some_none_eq_some.1 hs
    exact ⟨h.reading, h.silent⟩
  | turn node => exact h.turn hok hs
  | sampleAt nowms =>
    obtain ⟨⟨-, hle⟩, rfl⟩ := ite_some_none_eq_some.1 hs
    refine ⟨?_, h.silent⟩
    rintro t ⟨⟩
    exact hle

/-- **Heartbeat closes only silent connections** in every run whose comparisons are all
made with a stored time that is not after the routine's reading of the clock. -/
theorem heartbeat_closes_silent (clock : UInt64) (acts : List (Action κ)) (s : State κ)
    (h : run (restrict readingCurrent State.step) (State.init κ clock) acts = some s) :
    ∀ x ∈ s.closings, x.Silent :=
  (run_restrict_invariant (I := Sound) (fun _ _ _ hI hok hs => hI.step hok hs) (sound_init clock)
    h).silent

/-- A connection that is silent from its first turn on is closed after 15001 ms. -/
theorem heartbeat_closes_silent_once :
    ∃ s : State Unit, run (restrict readingCurrent State.step) (State.init Unit 1000)
        ([.turn ⟨(), 0⟩, .start ()] ++ List.replicate 5 (.turn ⟨(), 6000⟩) ++
          [.turn ⟨(), 6000⟩, .turn ⟨(), 6000⟩, .tick 16001] ++
          List.replicate 5 (.turn ⟨(), 6000⟩)) = some s ∧
      s.closings = [⟨(), 16001, 1000⟩] ∧ ∀ x ∈ s.closings, x.Silent := by
  exact exists_run_and (by decide +kernel) fun s hs _ => heartbeat_closes_silent 1000 _ s hs

/-- The routine reads the clock at 1000; at 1001 the receiver stores a heartbeat; the
comparison computes 1000 - 1001 and closes the connection within the same millisecond. -/
theorem heartbeat_wraps :
    ∃ s : State Unit, run State.step (State.init Unit 1000)
        ([.turn ⟨(), 0⟩, .start ()] ++ List.replicate 5 (.turn ⟨(), 6000⟩) ++
          [.tick 1001, .receive (), .store (), .turn ⟨(), 6000⟩]) = some s ∧
      s.closings = [⟨(), 1001, 1001⟩] ∧ ¬∀ x ∈ s.closings, x.Silent := by
  refine exists_run_and (by decide +kernel) fun s _ hclosings => ?_
  rw [hclosings]
  intro h
  have hsilent := h ⟨(), 1001, 1001⟩ List.mem_cons_self
  exact absurd hsilent (by unfold Closing.Silent; decide)

end Corpc.Heartbeat
