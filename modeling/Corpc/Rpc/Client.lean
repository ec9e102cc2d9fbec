/-
# Sending calls and completing them

`ChannelCore::getNextConnection`, `RpcClient::taskHandleRoutine`, `connectionRoutine`,
`clearChannelRoutine` and `decode` in `corpc_rpc_client.cpp`, and
`InnerRpcServer::requestQueueRoutine` in `corpc_inner_rpc.cpp`.

The routines of the client are coroutines of one thread.  They are switched where one of them reads
its queue, sleeps, connects or waits for the mutex of `waitResultCoMap_`, which the receiver holds
while it looks a response up.  The clock is read once for many tasks: a task that expired since may
still be sent.
-/

import Corpc.Basis.Run
import Corpc.Rpc.Environment

namespace Corpc.Rpc

/-- The outcomes that the `CONNECT` branch distinguishes: `connect` succeeds; it fails
at once; or it is in progress and `getsockopt` fails, reports an error of the socket,
or reports none. -/
inductive ConnectOutcome where
  | established
  | refused (err : ℕ)
  | getsockoptFailed (err : ℕ)
  | socketError (err : ℕ)
  | establishedLater
  deriving DecidableEq, Repr

/-- `errno` where the waiting tasks are resumed, if the connection failed.  It was set
to 0 before `getsockopt`, which reports an error of the socket in its argument. -/
def ConnectOutcome.failure : ConnectOutcome → Option ℕ
  | .established | .establishedLater => none
  | .refused err | .getsockoptFailed err => some err
  | .socketError _ => some 0

/-- A call that fails sets `errno`; the error of a socket is not 0. -/
def ConnectOutcome.possible : ConnectOutcome → Bool
  | .established | .establishedLater => true
  | .refused err | .getsockoptFailed err | .socketError err => err ≠ 0

/-- The caller is resumed with an error: a call without time-out fails here, one with a
time-out in `resumeRoutine`. -/
def RpcClientTask.resumeFailed (t : RpcClientTask) (k err : ℕ) : RpcClientTask :=
  { t with
    place := .waitResume err (.failure k)
    controller := if t.timed then t.controller else t.controller.setFailed (.strerror err) }

namespace State

variable (s : State)

/-- `connectionRoutine` is between two blocking operations, so that no other routine of
its thread runs. -/
def clientBusy : Bool :=
  match s.connection with
  | .drain _ => true
  | _ => false

/-- A new `Connection` in slot `i` of a channel, with its `CONNECT` task. -/
def newConnection (channel i c : ℕ) : Option (State × ℕ) :=
  if (s.conns c).created then none
  else
    let core := s.channels channel
    some ({ s.modifyConn c (fun d => { d with created := true, st := .connecting }) with
      channels := Function.update s.channels channel ⟨core.connections.set i (some c), i⟩
      connectionTasks := s.connectionTasks ++ [.connect c] }, c)

/-- `getNextConnection`; `c` is the address of a new connection.  A channel that was
cleared has none. -/
def getNextConnection (channel c : ℕ) : Option (State × ℕ) :=
  let core := s.channels channel
  if core.connections.length = 0 then none
  else
    let i := (core.conIndex + 1) % core.connections.length
    match core.connections.getD i none with
    | some d =>
      if (s.conns d).st = .closed then s.newConnection channel i c
      else
        some ({ s with channels := Function.update s.channels channel
                        { core with conIndex := i } }, d)
    | none => s.newConnection channel i c

/-- `waitResultCoMap_[co] = task`, which replaces the entry of another call of the
coroutine, and `sender->send`. -/
def submit (k c : ℕ) : State :=
  { s with tasks := fun j =>
      if j = k then { s.tasks k with place := .waitResult c, request := .sent c }
      else if (s.tasks j).place = .waitResult c ∧ (s.tasks j).co = (s.tasks k).co then
        { s.tasks j with place := .dropped }
      else s.tasks j }

def mayDrop (k : ℕ) : Bool := (s.tasks k).timed && (s.tasks k).expireTime ≤ s.now

/-- `taskHandleRoutine` at a task, with the connection chosen. -/
def handleTask (k c : ℕ) (late : Bool) : Option State :=
  match (s.conns c).st with
  | .closed => none
  | .connecting => some (s.move k (.waitSend c))
  | .connected =>
    if late then if s.mayDrop k then some (s.move k .dropped) else none
    else if (s.conns c).locked then
      some { s.move k (.taskHandle c) with taskHandle := .lock k }
    else some (s.submit k c)

/-- `taskHandleRoutine` takes a task from its queue.  The connection of a channel that
was cleared is null, and its state is read. -/
def takeTask (k c : ℕ) (late : Bool) : Option State :=
  if s.taskHandle = .idle ∧ s.clientBusy = false ∧ (s.tasks k).place = .taskQueue then
    match (s.tasks k).channel with
    | some channel =>
      (s.getNextConnection channel c).bind fun r => r.1.handleTask k r.2 late
    | none => none
  else none

/-- `taskHandleRoutine` gets the mutex that it waits for. -/
def lockTask : Option State :=
  match s.taskHandle with
  | .lock k =>
    match (s.tasks k).place with
    | .taskHandle c =>
      if (s.conns c).locked = false ∧ s.clientBusy = false then
        some { s.submit k c with taskHandle := .idle }
      else none
    | _ => none
  | .idle => none

/-- `connectionRoutine` takes a task from its queue. -/
def takeConnectionTask : Option State :=
  if s.connection = .idle then
    match s.connectionTasks with
    | [] => none
    | .close c :: rest =>
      if s.anyCall fun t => t.place = .waitSend c then none
      else some { s.modifyConn c fun d => { d with st := .closed } with
        connectionTasks := rest, connection := .closing c }
    | .connect c :: rest =>
      if (s.conns c).st = .connecting then
        some { s with connectionTasks := rest, connection := .connecting c }
      else none
  else none

def failAll (p : Place) (err : ℕ) : State :=
  { s with tasks := fun k =>
      if (s.tasks k).place = p then (s.tasks k).resumeFailed k err else s.tasks k }

/-- The `CLOSE` branch gets the mutex and empties `waitResultCoMap_`. -/
def clearConnection : Option State :=
  match s.connection with
  | .closing c =>
    if (s.conns c).locked then none
    else some { (s.failAll (.waitResult c) enetdown).modifyConn c
        (fun d => { d with cleared := true }) with connection := .idle }
  | _ => none

/-- The `CONNECT` branch after `connect` and `getsockopt`. -/
def connectDone (outcome : ConnectOutcome) : Option State :=
  match s.connection with
  | .connecting c =>
    if outcome.possible then
      match outcome.failure with
      | some err =>
        if s.anyCall fun t => t.place = .waitResult c then none
        else some { (s.failAll (.waitSend c) err).modifyConn c
            (fun d => { d with st := .closed }) with connection := .idle }
      | none =>
        some { s.modifyConn c (fun d => { d with st := .connected, added := true }) with
          connection := .drain c }
    else none
  | _ => none

/-- The `CONNECT` branch at a task of `waitSendTaskCoList_`. -/
def drainTask (k : ℕ) (late : Bool) : Option State :=
  match s.connection with
  | .drain c =>
    if (s.tasks k).place = .waitSend c then
      if late then if s.mayDrop k then some (s.move k .dropped) else none
      else if (s.conns c).locked then
        some { s.move k (.draining c) with connection := .drainLock k c }
      else some (s.submit k c)
    else none
  | _ => none

/-- The `CONNECT` branch gets the mutex that it waits for. -/
def drainLocked : Option State :=
  match s.connection with
  | .drainLock k c =>
    if (s.conns c).locked = false ∧ (s.tasks k).place = .draining c then
      some { s.submit k c with connection := .drain c }
    else none
  | _ => none

/-- The `CONNECT` branch ends. -/
def drainDone : Option State :=
  match s.connection with
  | .drain c =>
    if s.anyCall fun t => t.place = .waitSend c then none
    else some { s with connection := .idle }
  | _ => none

/-- `clearChannelRoutine` at a channel; closing its connections is up to the IO. -/
def clearChannel (channel : ℕ) : Option State :=
  if s.clientBusy then none
  else some { s with channels := Function.update s.channels channel
                      { s.channels channel with connections := [] } }

def lockMap (c : ℕ) : Option State :=
  if (s.conns c).added ∧ (s.conns c).ended = false ∧ (s.conns c).locked = false then
    some (s.modifyConn c fun d => { d with locked := true })
  else none

/-- `waitResultCoMap_.find`. -/
def findEntry (c co : ℕ) : Option ℕ :=
  (List.range s.next).find? fun k => (s.tasks k).place = .waitResult c && (s.tasks k).co = co

/-- What `decode` does to the task of the entry that it found and erased; a body that
cannot be parsed fails an assertion. -/
def complete (j : ℕ) (f : Frame) (t : RpcClientTask) : Option RpcClientTask :=
  let t := { t with place := .waitResume 0 (.response j) }
  let fail (c : Controller ErrorText) :=
    (c.setFailed (.text f.body)).setErrorCode f.errorCode.toInt32
  if f.errorCode ≠ 0 then
    if t.controller_1 ≠ none then none
    else if t.timed then some { t with controller_1 := some (fail .reset) }
    else some { t with controller := fail t.controller }
  else if f.parsable then some { t with parsed := true }
  else none

/-- The frame that answers call `j` is read and the mutex of its connection is free
again. -/
def readFrame (j c : ℕ) : State :=
  (s.modify j fun t => { t with request := .decoded }).modifyConn c
    fun d => { d with locked := false }

/-- `decode` of the frame that answers call `j`, which carries its `callId` and its
`expireTime`. -/
def decode (j : ℕ) : Option State :=
  match (s.tasks j).request with
  | .answered c f =>
    if (s.conns c).locked ∧ (s.conns c).ended = false then
      match s.findEntry c (s.tasks j).co with
      | some k =>
        if (s.tasks k).expireTime = (s.tasks j).expireTime then
          (complete j f ((s.readFrame j c).tasks k)).map fun t =>
            (s.readFrame j c).modify k fun _ => t
        else some (s.readFrame j c)
      | none => some (s.readFrame j c)
    else none
  | _ => none

/-- `onClose` of a connection, which pushes its `CLOSE` task. -/
def onClose (c : ℕ) : Option State :=
  if (s.conns c).added ∧ (s.conns c).ended = false ∧ (s.conns c).locked = false then
    some { s.modifyConn c fun d => { d with ended := true } with
      connectionTasks := s.connectionTasks ++ [.close c] }
  else none

def respond (k : ℕ) (f : Frame) : Option State :=
  match (s.tasks k).request with
  | .sent c => some (s.modify k fun t => { t with request := .answered c f })
  | _ => none

/-- `requestQueueRoutine` at a request. -/
def takeRequest (k : ℕ) : Option State :=
  if (s.tasks k).place = .requestQueue then
    if (s.tasks k).expireTime ≠ 0 ∧ (s.tasks k).expireTime ≤ s.now then
      some (s.move k (.waitResume etimedout (.failure k)))
    else some (s.move k .serving)
  else none

/-- The service is done with a request, whose controller it left as `c`: for a call
with a time-out that is `controller_1`. -/
def serve (k : ℕ) (c : Controller ErrorText) : Option State :=
  if (s.tasks k).place = .serving then
    some (s.modify k fun t =>
      if t.timed then { t with place := .waitResume 0 (.response k), controller_1 := some c }
      else { t with place := .waitResume 0 (.response k), controller := c })
  else none

end State

/-- What the routines of the client, the receivers and the servers do. -/
inductive ClientAction where
  | takeTask (call conn : ℕ) (late : Bool)
  | lockTask
  | takeConnectionTask
  | clearConnection
  | connectDone (outcome : ConnectOutcome)
  | drainTask (call : ℕ) (late : Bool)
  | drainLocked
  | drainDone
  | clearChannel (channel : ℕ)
  | lockMap (conn : ℕ)
  | decode (call : ℕ)
  | onClose (conn : ℕ)
  | respond (call : ℕ) (frame : Frame)
  | takeRequest (call : ℕ)
  | serve (call : ℕ) (controller : Controller ErrorText)
  deriving DecidableEq, Repr

def State.clientStep (s : State) : ClientAction → Option State
  | .takeTask call conn late => s.takeTask call conn late
  | .lockTask => s.lockTask
  | .takeConnectionTask => s.takeConnectionTask
  | .clearConnection => s.clearConnection
  | .connectDone outcome => s.connectDone outcome
  | .drainTask call late => s.drainTask call late
  | .drainLocked => s.drainLocked
  | .drainDone => s.drainDone
  | .clearChannel channel => s.clearChannel channel
  | .lockMap conn => s.lockMap conn
  | .decode call => s.decode call
  | .onClose conn => s.onClose conn
  | .respond call frame => s.respond call frame
  | .takeRequest call => s.takeRequest call
  | .serve call controller => s.serve call controller

inductive Action where
  | env (a : EnvAction)
  | client (a : ClientAction)
  deriving DecidableEq, Repr

def State.step (s : State) : Action → Option State
  | .env a => s.envStep a
  | .client a => s.clientStep a

end Corpc.Rpc
