/-
# The client on top of its IO

Here the connections of `Rpc.State` get their sender and receiver (`Io.Delivery`), calls that nobody
waits for (`not_care_response`) are made, and channels are released; all of it in
`corpc_rpc_client.cpp`.

* A task that is submitted is an item of the sender of its connection.
* The `done` of a one-way call is run by `encode`, by `cleanDataOnClosing`, by the `CLOSE` branch of
  `connectionRoutine` for what is left in `datas_`, or where the connection could not be made.
* `Channel::Guard::~Guard` queues the channel for `clearChannelRoutine`.  A task that is taken from
  a channel without connections gets a null connection, and `taskHandleRoutine` reads its state
  before it looks whether there is one: the process ends there.
-/

import Corpc.Io.Delivery
import Corpc.Rpc.Client

namespace Corpc.Rpc

open Corpc.Basis Io Function

/-- What the client gives to the sender of a connection: the task of a call whose response
is waited for, or of a one-way call. -/
inductive Item where
  | call (k : ℕ)
  | oneWay (k : ℕ)
  deriving DecidableEq, Repr

inductive OneWayPlace where
  /-- in `taskQueue_` -/
  | taskQueue
  /-- in `waitSendTaskCoList_` of a connection -/
  | waitSend (conn : ℕ)
  | sent (conn : ℕ)
  | refused (conn : ℕ)
  deriving DecidableEq, Repr

/-- `ClientTask` of a one-way call. -/
structure OneWay where
  channel : ℕ
  place : OneWayPlace
  deriving DecidableEq, Repr

def OneWayPlace.routedTo (c : ℕ) : OneWayPlace → Bool
  | .taskQueue => false
  | .waitSend d | .sent d | .refused d => d = c

/-- The client with its IO.  `refused` says that the `CONNECT` branch failed, `dones` counts the
runs of the closure of a one-way call, `clearQueue` is `clearChannelQueue_`, and `crashed` says that
`taskHandleRoutine` ended the process. -/
structure Net where
  rpc : State
  io : ℕ → Delivery Item
  refused : ℕ → Bool
  nextOneWay : ℕ
  oneWays : ℕ → OneWay
  dones : ℕ → ℕ
  clearQueue : List ℕ
  released : ℕ → Bool
  crashed : Bool

/-- The connection that `taskHandleRoutine` goes on with after
`assert(conn->st_ != Connection::CLOSED)`: the state of a null connection is read, and of a
closed one the assertion fails. -/
def State.choose (s : State) (channel fresh : ℕ) : Option (Option (State × ℕ)) :=
  if (s.channels channel).connections = [] then some none
  else
    (s.getNextConnection channel fresh).map fun r =>
      if (r.1.conns r.2).st = .closed then none else some r

theorem State.choose_spec {s : State} {channel fresh : ℕ} {r : State × ℕ}
    (h : s.choose channel fresh = some (some r)) :
    s.getNextConnection channel fresh = some r ∧ (r.1.conns r.2).st ≠ .closed := by
  unfold choose at h
  split_ifs at h
  · cases h
  · obtain ⟨q, hq, hr⟩ := Option.map_eq_some_iff.1 h
    split_ifs at hr with hst
    cases hr
    exact ⟨hq, hst⟩

def State.candidate (s : State) : Action → Option ℕ
  | .client (.takeTask k _ _) | .client (.drainTask k _) => some k
  | .client .lockTask =>
    match s.taskHandle with
    | .lock k => some k
    | .idle => none
  | .client .drainLocked =>
    match s.connection with
    | .drainLock k _ => some k
    | _ => none
  | _ => none

def State.submission (s s' : State) (a : Action) : Option (ℕ × ℕ) :=
  (s.candidate a).bind fun k =>
    match (s'.tasks k).request with
    | .sent c => some (k, c)
    | _ => none

namespace Net

variable (s : Net)

def init (channels : ℕ → ℕ) : Net where
  rpc := State.init channels
  io := fun _ => .init
  refused := fun _ => false
  nextOneWay := 0
  oneWays := fun _ => ⟨0, .taskQueue⟩
  dones := fun _ => 0
  clearQueue := []
  released := fun _ => false
  crashed := false

/-- `done->Run()` of the one-way calls among some items. -/
def runDone (items : List Item) : Net :=
  { s with dones := fun k => s.dones k + items.count (.oneWay k) }

/-- An action of the IO of a connection; `encode` and `cleanDataOnClosing` run the closures
of one-way calls. -/
def ioStep (c : ℕ) (a : Io.Action Item) : Option Net :=
  ((s.io c).step a).map fun d =>
    { s with io := update s.io c d }.runDone ((s.io c).encodes a ++ (s.io c).cleans a)

def moveOneWay (k : ℕ) (p : OneWayPlace) : Net :=
  { s with oneWays := update s.oneWays k { s.oneWays k with place := p } }

def anyWaiting (c : ℕ) : Bool :=
  (List.range s.nextOneWay).any fun k => (s.oneWays k).place = .waitSend c

/-- `CallMethod` of a one-way call, on a channel that somebody has. -/
def oneWayCall (channel : ℕ) : Option Net :=
  if s.released channel then none
  else some { s with
    nextOneWay := s.nextOneWay + 1
    oneWays := update s.oneWays s.nextOneWay ⟨channel, .taskQueue⟩ }

/-- `taskHandleRoutine` takes the task of a one-way call. -/
def takeOneWay (k fresh : ℕ) : Option Net :=
  if s.rpc.taskHandle = .idle ∧ s.rpc.clientBusy = false ∧ k < s.nextOneWay ∧
      (s.oneWays k).place = .taskQueue then
    (s.rpc.choose (s.oneWays k).channel fresh).bind fun
      | none => some { s with crashed := true }
      | some (rpc, c) =>
        if (rpc.conns c).st = .connecting then
          some ({ s with rpc }.moveOneWay k (.waitSend c))
        else ({ s with rpc }.moveOneWay k (.sent c)).ioStep c (.send (.oneWay k))
  else none

/-- The `CONNECT` branch at a one-way call of `waitSendTaskCoList_`. -/
def drainOneWay (k : ℕ) : Option Net :=
  match s.rpc.connection with
  | .drain c =>
    if k < s.nextOneWay ∧ (s.oneWays k).place = .waitSend c then
      (s.moveOneWay k (.sent c)).ioStep c (.send (.oneWay k))
    else none
  | _ => none

def refuse (c : ℕ) : Net :=
  { s with
    refused := update s.refused c true
    oneWays := fun k =>
      if (s.oneWays k).place = .waitSend c then { s.oneWays k with place := .refused c }
      else s.oneWays k
    dones := fun k => s.dones k + if (s.oneWays k).place = .waitSend c then 1 else 0 }

/-- `Guard::~Guard` of a channel. -/
def release (channel : ℕ) : Option Net :=
  if s.released channel then none
  else some { s with
    released := update s.released channel true
    clearQueue := s.clearQueue ++ [channel] }

/-- An action of `Rpc.State`; a task that is submitted goes to the sender. -/
def rpcStep (a : Action) : Option Net :=
  (s.rpc.step a).bind fun rpc =>
    match s.rpc.submission rpc a with
    | some (k, c) => { s with rpc }.ioStep c (.send (.call k))
    | none => some { s with rpc }

/-- `taskHandleRoutine` takes the task of a call. -/
def takeTask (k fresh : ℕ) (late : Bool) : Option Net :=
  if s.rpc.taskHandle = .idle ∧ s.rpc.clientBusy = false ∧ (s.rpc.tasks k).place = .taskQueue then
    match (s.rpc.tasks k).channel with
    | none => none
    | some channel =>
      (s.rpc.choose channel fresh).bind fun
        | none => some { s with crashed := true }
        | some _ => s.rpcStep (.client (.takeTask k fresh late))
  else none

/-- `connectionRoutine` takes a task, `assert(waitSendTaskCoList_.empty())` included. -/
def takeConnectionTask : Option Net :=
  match s.rpc.connectionTasks with
  | .close c :: _ => if s.anyWaiting c then none else s.rpcStep (.client .takeConnectionTask)
  | _ => s.rpcStep (.client .takeConnectionTask)

/-- The `CLOSE` branch empties `waitResultCoMap_` and looks through `datas_`. -/
def clearConnection : Option Net :=
  match s.rpc.connection with
  | .closing c => (s.rpcStep (.client .clearConnection)).map (·.runDone (s.io c).conn.datas)
  | _ => none

/-- The `CONNECT` branch after `connect` and `getsockopt`. -/
def connectDone (outcome : ConnectOutcome) : Option Net :=
  match s.rpc.connection with
  | .connecting c =>
    (s.rpcStep (.client (.connectDone outcome))).bind fun s =>
      match outcome.failure with
      | some _ => some (s.refuse c)
      | none => (s.ioStep c .addSender).bind (·.ioStep c .addReceiver)
  | _ => none

/-- The `CONNECT` branch ends. -/
def drainDone : Option Net :=
  match s.rpc.connection with
  | .drain c => if s.anyWaiting c then none else s.rpcStep (.client .drainDone)
  | _ => none

/-- `clearChannelRoutine` takes a channel. -/
def clearChannel (channel : ℕ) : Option Net :=
  match s.clearQueue with
  | [] => none
  | next :: rest =>
    if channel = next then
      (s.rpcStep (.client (.clearChannel channel))).map fun s => { s with clearQueue := rest }
    else none

/-- The receiver of a connection calls `onClose`. -/
def onClose (c : ℕ) : Option Net :=
  (s.rpcStep (.client (.onClose c))).bind (·.ioStep c .onClose)

def respond (k : ℕ) (f : Frame) : Option Net :=
  match (s.rpc.tasks k).request with
  | .sent c =>
    if .call k ∈ (s.io c).encoded then s.rpcStep (.client (.respond k f)) else none
  | _ => none

/-- `CallMethod` on a channel that somebody has. -/
def callMethod (co channel timeout : ℕ) : Option Net :=
  if s.released channel then none else s.rpcStep (.env (.callMethod co channel timeout))

end Net

inductive NetAction where
  | rpc (a : Action)
  | oneWayCall (channel : ℕ)
  | takeOneWay (k fresh : ℕ)
  | drainOneWay (k : ℕ)
  | release (channel : ℕ)
  | io (conn : ℕ) (a : Io.Action Item)
  deriving DecidableEq, Repr

def ofClient : Io.Action Item → Bool
  | .addSender | .addReceiver | .send _ | .onClose => true
  | _ => false

def Net.step (s : Net) (a : NetAction) : Option Net :=
  if s.crashed then none
  else
    match a with
    | .rpc (.client (.takeTask k fresh late)) => s.takeTask k fresh late
    | .rpc (.client .takeConnectionTask) => s.takeConnectionTask
    | .rpc (.client .clearConnection) => s.clearConnection
    | .rpc (.client (.connectDone outcome)) => s.connectDone outcome
    | .rpc (.client .drainDone) => s.drainDone
    | .rpc (.client (.clearChannel channel)) => s.clearChannel channel
    | .rpc (.client (.onClose c)) => s.onClose c
    | .rpc (.client (.respond k f)) => s.respond k f
    | .rpc (.env (.callMethod co channel timeout)) => s.callMethod co channel timeout
    | .rpc a => s.rpcStep a
    | .oneWayCall channel => s.oneWayCall channel
    | .takeOneWay k fresh => s.takeOneWay k fresh
    | .drainOneWay k => s.drainOneWay k
    | .release channel => s.release channel
    | .io c a => if ofClient a then none else s.ioStep c a

end Corpc.Rpc
