/-
# Calls, coroutines and connections of the RPC client

The state that `RoutineEnvironment` (`corpc_routine_env.cpp`), `RpcClient`
(`corpc_rpc_client.cpp`) and the inner RPC (`corpc_inner_rpc.cpp`) share.

Calls are numbered in the order they are made.  The `ClientTask` or `InnerRpcRequest` of a call, and
the `WaitResumeRPCRoutine` made from it, is an object that is moved from one container to the next,
so the state says for each call where that object is (`Place`).

A coroutine is known by its address, which another one may have once it ended.  What a routine does
from one blocking operation to the next is one action, and `none` is an action that is not enabled
or that ends the process: an assertion that fails, a null pointer that is read, a coroutine that is
resumed where it is not suspended.
-/

import Mathlib.Logic.Function.Basic
import Corpc.Rpc.Codec

namespace Corpc.Rpc

/-- The texts handed to `SetFailed`: `strerror` of an error number, or the text of
a response. -/
inductive ErrorText where
  | empty
  | strerror (err : ℕ)
  | text (bytes : List UInt8)
  deriving DecidableEq, Repr

instance : Inhabited ErrorText := ⟨.empty⟩

/-- What activates a coroutine: the response or the failure of a call, the expiry of
a call, or the hand-over of a `Mutex`. -/
inductive Wake where
  | response (call : ℕ)
  | failure (call : ℕ)
  | expiry (call : ℕ)
  | mutex
  deriving DecidableEq, Repr

def Wake.ownedBy (k : ℕ) : Wake → Bool
  | .response j | .failure j | .expiry j => j = k
  | .mutex => false

inductive Place where
  /-- in `queue_.push` of an inner call -/
  | pushing
  /-- in `queue_` of the `InnerRpcServer` -/
  | requestQueue
  | serving
  /-- in `taskQueue_` -/
  | taskQueue
  /-- with `taskHandleRoutine`, which waits for `waitResultCoMapMutex_` of a connection -/
  | taskHandle (conn : ℕ)
  /-- in `waitSendTaskCoList_` of a connection -/
  | waitSend (conn : ℕ)
  /-- with `connectionRoutine`, which waits for `waitResultCoMapMutex_` -/
  | draining (conn : ℕ)
  /-- in `waitResultCoMap_` of a connection -/
  | waitResult (conn : ℕ)
  /-- a `WaitResumeRPCRoutine` in `waitResumeQueue_` of the caller's thread -/
  | waitResume (err : ℕ) (wake : Wake)
  /-- its `WaitResumeRPCRoutine` was handled -/
  | resumed
  /-- let go of unanswered: expired before it was sent, or replaced in
  `waitResultCoMap_` -/
  | dropped
  deriving DecidableEq, Repr

def Place.live : Place → Bool
  | .resumed | .dropped => false
  | _ => true

/-- A frame of the server; `parsable` says whether `ParseFromArray` accepts the
body. -/
structure Frame where
  errorCode : UInt32
  body : List UInt8
  parsable : Bool
  deriving DecidableEq, Repr

/-- The request of a call on the wire: sent on a connection, or answered there by a
frame that was not decoded yet. -/
inductive Request where
  | unsent
  | sent (conn : ℕ)
  | answered (conn : ℕ) (frame : Frame)
  | decoded
  deriving DecidableEq, Repr

def Request.openOn (c : ℕ) : Request → Bool
  | .sent d | .answered d _ => d = c
  | .unsent | .decoded => false

/-- `RpcClientTask`, with where it is and what became of its request; `parsed` says
that `response_1` was parsed from a frame. -/
structure RpcClientTask where
  pid : ℕ
  co : ℕ
  /-- an `InnerRpcChannel`, or the `ChannelCore` -/
  channel : Option ℕ
  expireTime : ℕ
  controller : Controller ErrorText
  controller_1 : Option (Controller ErrorText)
  place : Place
  request : Request
  parsed : Bool
  deriving DecidableEq, Repr

def RpcClientTask.timed (t : RpcClientTask) : Bool := t.expireTime != 0

inductive CoState where
  | free
  | running
  /-- suspended in `queue_.push` of an inner call, by `Mutex::wait` -/
  | parked (call : ℕ)
  /-- suspended in `CallMethod` -/
  | blocked (call : ℕ)
  deriving DecidableEq, Repr

def CoState.call : CoState → Option ℕ
  | .parked k | .blocked k => some k
  | .free | .running => none

inductive ConnectionState where
  | closed
  | connecting
  | connected
  deriving DecidableEq, Repr

/-- `RpcClient::Connection`.  `locked` says that the receiver holds
`waitResultCoMapMutex_`, `added` that the connection was given to the IO, `ended`
that `onClose` ran, `cleared` that the `CLOSE` task was processed. -/
structure Connection where
  created : Bool
  st : ConnectionState
  locked : Bool
  added : Bool
  ended : Bool
  cleared : Bool
  deriving DecidableEq, Repr

/-- `ChannelCore`: `connections_` and `conIndex_`. -/
structure ChannelCore where
  connections : List (Option ℕ)
  conIndex : ℕ
  deriving DecidableEq, Repr

inductive ConnectionTask where
  | connect (conn : ℕ)
  | close (conn : ℕ)
  deriving DecidableEq, Repr

/-- Where `taskHandleRoutine` is: between two tasks, or waiting for a mutex with a
task. -/
inductive TaskHandlePc where
  | idle
  | lock (call : ℕ)
  deriving DecidableEq, Repr

inductive ConnectionPc where
  | idle
  /-- the `CLOSE` task, waiting for the mutex of the connection -/
  | closing (conn : ℕ)
  /-- in `sleep` or `connect` of a `CONNECT` task -/
  | connecting (conn : ℕ)
  /-- sends `waitSendTaskCoList_` -/
  | drain (conn : ℕ)
  | drainLock (call conn : ℕ)
  deriving DecidableEq, Repr

/-- The routine environment of all threads.  `active` has what `co_activate` put into the active
lists and was not resumed yet, `mutexWaiters` is `waitRoutines_` of the mutex of the request queue,
`mutexResumes` are the messages that `Mutex::post` made, and `wakes` lists for each call the
activations of the caller during the call. -/
structure Environment where
  now : ℕ
  next : ℕ
  cos : ℕ → CoState
  coPid : ℕ → ℕ
  timeoutList : List ℕ
  active : List (ℕ × Wake)
  mutexWaiters : List ℕ
  mutexResumes : List ℕ
  wakes : ℕ → List Wake
  returned : ℕ → Bool

/-- The connections and the routines of the `RpcClient`. -/
structure Client where
  conns : ℕ → Connection
  channels : ℕ → ChannelCore
  connectionTasks : List ConnectionTask
  taskHandle : TaskHandlePc
  connection : ConnectionPc

structure State extends Environment, Client where
  tasks : ℕ → RpcClientTask

namespace State

variable (s : State)

def modify (k : ℕ) (f : RpcClientTask → RpcClientTask) : State :=
  { s with tasks := Function.update s.tasks k (f (s.tasks k)) }

def move (k : ℕ) (p : Place) : State := s.modify k fun t => { t with place := p }

def setCo (co : ℕ) (st : CoState) : State := { s with cos := Function.update s.cos co st }

def modifyConn (c : ℕ) (f : Connection → Connection) : State :=
  { s with conns := Function.update s.conns c (f (s.conns c)) }

def anyCall (p : RpcClientTask → Bool) : Bool := (List.range s.next).any fun k => p (s.tasks k)

theorem anyCall_eq_false {p : RpcClientTask → Bool} :
    s.anyCall p = false ↔ ∀ k, k < s.next → p (s.tasks k) = false := by
  simp [anyCall]

end State

/-- The first state: `channels` says which channels there are, with their
connections not made yet. -/
def State.init (channels : ℕ → ℕ) : State where
  now := 0
  next := 0
  tasks := fun _ => ⟨0, 0, none, 0, .reset, none, .resumed, .unsent, false⟩
  cos := fun _ => .free
  coPid := fun _ => 0
  timeoutList := []
  active := []
  mutexWaiters := []
  mutexResumes := []
  conns := fun _ => ⟨false, .closed, false, false, false, false⟩
  channels := fun ch => ⟨List.replicate (channels ch) none, 0⟩
  connectionTasks := []
  taskHandle := .idle
  connection := .idle
  wakes := fun _ => []
  returned := fun _ => false

end Corpc.Rpc
