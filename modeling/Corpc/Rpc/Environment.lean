/-
# Making, resuming and timing out calls

`RoutineEnvironment::addTimeoutTask`, `resumeRoutine` and `timeoutRoutine` in
`corpc_routine_env.cpp`, `ChannelCore::CallMethod` in `corpc_rpc_client.cpp`,
`InnerRpcChannel::CallMethod` in `corpc_inner_rpc.cpp`, `Mutex::wait` and `Mutex::post` in
`corpc_mutex.cpp`, `co_activate` in `co/src/co_routine.cpp`.

`ChannelCore::CallMethod` suspends the caller at one place.  `InnerRpcChannel::CallMethod` may
suspend it before: in `Mutex::wait`, with the node of a call that has a time-out in `timeoutList_`
already.  Who holds that mutex when is left open.
-/

import Corpc.Rpc.State

namespace Corpc.Rpc

open Function

def enetdown : ℕ := 100

def etimedout : ℕ := 110

namespace State

variable (s : State)

/-- The call that an activation counts for: the one that the coroutine is in, unless
it is the hand-over of the mutex that the coroutine waits for. -/
def woken (co : ℕ) (w : Wake) : Option ℕ :=
  match s.cos co with
  | .blocked k => some k
  | .parked k => if w = .mutex then none else some k
  | .running | .free => none

/-- `co_activate`: every call of it makes the event loop resume the coroutine once. -/
def activate (co : ℕ) (w : Wake) : State :=
  { s with
    active := s.active ++ [(co, w)]
    wakes := match s.woken co w with
      | some k => update s.wakes k (s.wakes k ++ [w])
      | none => s.wakes }

/-- `timeoutList_.getNode` of a thread. -/
def getNode (pid co : ℕ) : Option ℕ :=
  s.timeoutList.find? fun k => (s.tasks k).pid = pid && (s.tasks k).co = co

def newTask (co timeout : ℕ) (channel : Option ℕ) (place : Place) : RpcClientTask where
  pid := s.coPid co
  co := co
  channel := channel
  expireTime := if timeout = 0 then 0 else s.now + timeout
  controller := .reset
  controller_1 := if channel = none ∧ timeout ≠ 0 then some .reset else none
  place := place
  request := .unsent
  parsed := false

/-- A call of a coroutine that runs: `addTimeoutTask` for one with a time-out, and
`st` is where the caller is suspended then. -/
def issue (co timeout : ℕ) (channel : Option ℕ) (place : Place) (st : ℕ → CoState) : State :=
  { s with
    next := s.next + 1
    tasks := update s.tasks s.next (s.newTask co timeout channel place)
    timeoutList := if timeout = 0 then s.timeoutList else s.timeoutList ++ [s.next]
    cos := update s.cos co (st s.next) }

/-- `ChannelCore::CallMethod` up to its `co_yield_ct`. -/
def callMethod (co channel timeout : ℕ) : Option State :=
  if s.cos co = .running then some (s.issue co timeout (some channel) .taskQueue .blocked)
  else none

/-- `InnerRpcChannel::CallMethod` up to the first suspension: `contended` says that
`queue_.push` has to wait for the mutex. -/
def innerCallMethod (co timeout : ℕ) (contended : Bool) : Option State :=
  if s.cos co = .running then
    if contended then
      let s := s.issue co timeout none .pushing .parked
      some { s with mutexWaiters := s.mutexWaiters ++ [co] }
    else some (s.issue co timeout none .requestQueue .blocked)
  else none

/-- `Mutex::post`: a message for the first waiter. -/
def mutexPost : Option State :=
  match s.mutexWaiters with
  | [] => none
  | co :: rest => some { s with mutexWaiters := rest, mutexResumes := s.mutexResumes ++ [co] }

/-- `resumeRoutine` at a message of `Mutex::post`: its `expireTime` is 0. -/
def resumeMutex (co : ℕ) : Option State :=
  if co ∈ s.mutexResumes then
    some ({ s with mutexResumes := s.mutexResumes.erase co }.activate co .mutex)
  else none

/-- What `resumeRoutine` does to the task of a node: `MergeFrom` for a call that did
not fail, whose `response_1` is in `parsed`. -/
def settle (err : ℕ) (t : RpcClientTask) : RpcClientTask :=
  if err ≠ 0 then
    { t with controller := (t.controller.setFailed (.strerror err)).setErrorCode (-1) }
  else
    match t.controller_1 with
    | some c => if c.failed then
        { t with controller := (t.controller.setFailed c.errorStr).setErrorCode c.errorCode }
      else t
    | none => t

/-- `resumeRoutine` at the `WaitResumeRPCRoutine` of a call. -/
def resumeCall (k : ℕ) : Option State :=
  match (s.tasks k).place with
  | .waitResume err wake =>
    let s := s.move k .resumed
    let t := s.tasks k
    if t.expireTime ≠ 0 then
      match s.getNode t.pid t.co with
      | some n =>
        if (s.tasks n).expireTime = t.expireTime then
          let s := s.modify n (settle err)
          some ({ s with timeoutList := s.timeoutList.erase n }.activate t.co wake)
        else some s
      | none => some s
    else some (s.activate t.co wake)
  | _ => none

/-- What `timeoutRoutine` does to the task of a node. -/
def expire (t : RpcClientTask) : RpcClientTask :=
  { t with controller := t.controller.setFailed (.strerror etimedout) }

/-- `timeoutRoutine` at a node that expired. -/
def timeout (k : ℕ) : Option State :=
  if k ∈ s.timeoutList ∧ (s.tasks k).expireTime ≤ s.now then
    some ({ s.modify k expire with timeoutList := s.timeoutList.erase k }.activate
      (s.tasks k).co (.expiry k))
  else none

/-- A coroutine that was resumed runs to its next suspension: a push that waited gets
the mutex or, `again`, waits at the front of the queue once more; `CallMethod`
returns. -/
def continueCo (co : ℕ) (again : Bool) : Option State :=
  match s.cos co with
  | .parked k =>
    if again then some { s with mutexWaiters := co :: s.mutexWaiters }
    else some ((s.setCo co (.blocked k)).move k .requestQueue)
  | .blocked k => some { s.setCo co .running with returned := update s.returned k true }
  | .running | .free => none

def resumeCo (co : ℕ) (again : Bool) : Option State :=
  if s.active.any (·.1 = co) then
    { s with active := s.active.eraseP (·.1 = co) }.continueCo co again
  else none

/-- `startCoroutine`, at an address that is free. -/
def startCoroutine (pid co : ℕ) : Option State :=
  if s.cos co = .free then
    some { s.setCo co .running with coPid := update s.coPid co pid }
  else none

def endCoroutine (co : ℕ) : Option State :=
  if s.cos co = .running then some (s.setCo co .free) else none

end State

/-- What callers, `resumeRoutine`, `timeoutRoutine` and the event loop do. -/
inductive EnvAction where
  | tick (ms : ℕ)
  | startCoroutine (pid co : ℕ)
  | endCoroutine (co : ℕ)
  | callMethod (co channel timeout : ℕ)
  | innerCallMethod (co timeout : ℕ) (contended : Bool)
  | mutexPost
  | resumeMutex (co : ℕ)
  | resumeCall (call : ℕ)
  | timeout (call : ℕ)
  | resumeCo (co : ℕ) (again : Bool)
  deriving DecidableEq, Repr

def State.envStep (s : State) : EnvAction → Option State
  | .tick ms => some { s with now := s.now + ms }
  | .startCoroutine pid co => s.startCoroutine pid co
  | .endCoroutine co => s.endCoroutine co
  | .callMethod co channel timeout => s.callMethod co channel timeout
  | .innerCallMethod co timeout contended => s.innerCallMethod co timeout contended
  | .mutexPost => s.mutexPost
  | .resumeMutex co => s.resumeMutex co
  | .resumeCall call => s.resumeCall call
  | .timeout call => s.timeout call
  | .resumeCo co again => s.resumeCo co again

end Corpc.Rpc
