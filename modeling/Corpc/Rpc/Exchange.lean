/-
# Requests and responses decoded

`RpcServer::getMethod`, `registerService` and `decode` in `corpc_rpc_server.cpp`,
`RpcClient::decode` and `ChannelCore::CallMethod` in `corpc_rpc_client.cpp`,
`RoutineEnvironment::resumeRoutine` in `corpc_routine_env.cpp`.

In a call without time-out `decode` writes to the caller's response and controller.
-/

import Corpc.Pipeline.RoundTrip
import Corpc.Rpc.Client
import Corpc.Wire.Protobuf

namespace Corpc.Rpc

open Corpc.Basis Wire Pipeline Function Option Nat Controller

variable {δ σ μ κ : Type}

/-- `MethodData`: the types of the two prototypes, and the options of the method
descriptor that `decode` reads. -/
structure MethodData (δ : Type) where
  requestProto : δ
  responseProto : δ
  notCareResponse : Bool
  deleteInDone : Bool
  deriving DecidableEq, Repr

structure ServiceData (σ δ : Type) where
  rpcService : σ
  methods : List (MethodData δ)
  deriving DecidableEq, Repr

structure RpcServer (σ δ : Type) where
  services : UInt32 → Option (ServiceData σ δ)

/-- `RpcServer::registerService` of a service with its `global_service_id`. -/
def RpcServer.registerService (server : RpcServer σ δ) (serviceId : UInt32)
    (service : ServiceData σ δ) : Bool × RpcServer σ δ :=
  match server.services serviceId with
  | some _ => (false, server)
  | none => (true, ⟨update server.services serviceId (some service)⟩)

def RpcServer.getService (server : RpcServer σ δ) (serviceId : UInt32) : Option σ :=
  (server.services serviceId).map ServiceData.rpcService

def RpcServer.getMethod (server : RpcServer σ δ) (serviceId methodId : UInt32) :
    Option (MethodData δ) :=
  (server.services serviceId).bind fun service => service.methods[methodId.toNat]?

/-- `RpcServerTask`; `done` says that it has the closure that deletes the request. -/
structure RpcServerTask (σ δ μ : Type) where
  service : Option σ
  method : MethodData δ
  request : μ
  response : Option μ
  controller : Option (Controller (List UInt8))
  done : Bool
  callId : UInt64
  expireTime : UInt64
  deriving DecidableEq, Repr

/-- `RpcServer::decode`.  A request for a method that is not there, or that cannot be
parsed, gives no task and is no decode error. -/
def RpcServer.decode (pb : Protobuf δ μ) (server : RpcServer σ δ) (head body : List UInt8) :
    Option (RpcServerTask σ δ μ) :=
  let serviceId := UInt32.ofNat (field head 4 4)
  let methodId := UInt32.ofNat (field head 8 4)
  match server.getMethod serviceId methodId with
  | some method =>
    match pb.parseFromArray method.requestProto body with
    | some request =>
      some {
        service := server.getService serviceId
        method := method
        request := request
        response := if method.notCareResponse then none else some (pb.new method.responseProto)
        controller := if method.notCareResponse then none else some .reset
        done := method.notCareResponse && method.deleteInDone
        callId := UInt64.ofNat (field head 12 8)
        expireTime := UInt64.ofNat (field head 20 8) }
    | none => none
  | none => none

/-- What `decode` and `resumeRoutine` use of an `RpcClientTask`; `response_1` is `none`
where it is the response itself. -/
structure ClientCall (μ : Type) where
  co : UInt64
  expireTime : UInt64
  controller : Controller ErrorText
  controller_1 : Option (Controller ErrorText)
  response : μ
  response_1 : Option μ
  deriving DecidableEq, Repr

/-- The task that `ChannelCore::CallMethod` makes for a call whose response is waited
for; the expire time is 0 where the method has no time-out. -/
def ClientCall.new (pb : Protobuf δ μ) (co expireTime : UInt64)
    (controller : Controller ErrorText) (response : μ) : ClientCall μ where
  co := co
  expireTime := expireTime
  controller := controller
  controller_1 := none
  response := response
  response_1 := if expireTime = 0 then none else some (pb.new (pb.descriptor response))

/-- What `RpcClient::decode` does with the task of a response: `none` where an assertion
fails, at an error for a task that has one already or at a body that cannot be parsed. -/
def ClientCall.receive (pb : Protobuf δ μ) (errorCode : UInt32) (body : List UInt8)
    (call : ClientCall μ) : Option (ClientCall μ) :=
  let fail (c : Controller ErrorText) := (c.setFailed (.text body)).setErrorCode errorCode.toInt32
  if errorCode ≠ 0 then
    if call.controller_1 ≠ none then none
    else if call.expireTime = 0 then some { call with controller := fail call.controller }
    else some { call with controller_1 := some (fail .reset) }
  else
    match call.response_1 with
    | some r => (pb.parseFromArray (pb.descriptor r) body).map fun r =>
      { call with response_1 := some r }
    | none => (pb.parseFromArray (pb.descriptor call.response) body).map fun r =>
      { call with response := r }

/-- `response->MergeFrom(*response_1)`; a task in the list of time-outs has a `response_1`
of its own. -/
def ClientCall.merge (pb : Protobuf δ μ) (call : ClientCall μ) : ClientCall μ :=
  match call.response_1 with
  | some r => { call with response := pb.mergeFrom call.response r }
  | none => call

/-- What `resumeRoutine` does with the task of a node. -/
def ClientCall.settle (pb : Protobuf δ μ) (err : ℕ) (call : ClientCall μ) : ClientCall μ :=
  if err ≠ 0 then
    { call with controller := (call.controller.setFailed (.strerror err)).setErrorCode (-1) }
  else
    match call.controller_1.filter Controller.failed with
    | some c =>
      { call with controller := (call.controller.setFailed c.errorStr).setErrorCode c.errorCode }
    | none => call.merge pb

structure WaitResumeRPCRoutine where
  co : UInt64
  expireTime : UInt64
  err : ℕ
  deriving DecidableEq, Repr

/-- A connection of the client and the thread of its callers: the tasks, `waitResumeQueue_`, and the
coroutines that were activated. -/
structure Callers (κ μ : Type) where
  calls : κ → ClientCall μ
  waitResultCoMap : UInt64 → Option κ
  timeoutList : UInt64 → Option κ
  waitResumeQueue : List WaitResumeRPCRoutine
  active : List UInt64

variable [DecidableEq κ]

def RpcClient.decode (pb : Protobuf δ μ) (s : Callers κ μ) (head body : List UInt8) :
    Option (Callers κ μ) :=
  let callId := UInt64.ofNat (field head 4 8)
  let expireTime := UInt64.ofNat (field head 12 8)
  -- assert(respSize == size)
  if field head 0 4 ≠ body.length then none
  else
    match s.waitResultCoMap callId with
    | none => some s
    | some k =>
      if (s.calls k).expireTime ≠ expireTime then some s
      else
        ((s.calls k).receive pb (UInt32.ofNat (field head 20 4)) body).map fun call =>
          { s with
            calls := update s.calls k call
            waitResultCoMap := update s.waitResultCoMap callId none
            waitResumeQueue := s.waitResumeQueue ++ [⟨call.co, expireTime, 0⟩] }

/-- `RoutineEnvironment::resumeRoutine` at a message of its queue. -/
def resumeRoutine (pb : Protobuf δ μ) (s : Callers κ μ) (wr : WaitResumeRPCRoutine) :
    Option (Callers κ μ) :=
  if wr ∈ s.waitResumeQueue then
    let s := { s with waitResumeQueue := s.waitResumeQueue.erase wr }
    if wr.expireTime ≠ 0 then
      match s.timeoutList wr.co with
      | some k =>
        if (s.calls k).expireTime = wr.expireTime then
          some { s with
            calls := update s.calls k ((s.calls k).settle pb wr.err)
            timeoutList := update s.timeoutList wr.co none
            active := s.active ++ [wr.co] }
        else some s
      | none => some s
    else some { s with active := s.active ++ [wr.co] }
  else none

/-- A frame on its way to the caller: `decode`, and `resumeRoutine` at the message that
`decode` leaves for the coroutine. -/
def deliver (pb : Protobuf δ μ) (s : Callers κ μ) (head body : List UInt8) :
    Option (Callers κ μ) :=
  (RpcClient.decode pb s head body).bind fun s' =>
    resumeRoutine pb s' ⟨UInt64.ofNat (field head 4 8), UInt64.ofNat (field head 12 8), 0⟩

/-- A task of `Rpc.State` is the view of a task. -/
structure ClientCall.View (call : ClientCall μ) (t : RpcClientTask) : Prop where
  co : t.co = call.co.toNat
  expireTime : t.expireTime = call.expireTime.toNat
  controller : t.controller = call.controller
  controller_1 : t.controller_1 = call.controller_1

variable {call : ClientCall μ} {t : RpcClientTask}

omit [DecidableEq κ] in
theorem ClientCall.View.timed_iff (hv : call.View t) :
    t.timed = true ↔ call.expireTime ≠ 0 := by
  rw [RpcClientTask.timed, bne_iff_ne, hv.expireTime, Ne, Ne, ← UInt64.toNat_inj, UInt64.toNat_zero]

variable {body : List UInt8}

omit [DecidableEq κ] in
theorem ClientCall.view_receive {pb : Protobuf δ μ} {call' : ClientCall μ}
    (hv : call.View t) {errorCode : UInt32}
    (h : call.receive pb errorCode body = some call') (j : ℕ) :
    ∃ t', State.complete j ⟨errorCode, body, true⟩ t = some t' ∧ call'.View t' := by
  have htimed : (t.expireTime != 0) = true ↔ call.expireTime ≠ 0 := hv.timed_iff
  unfold ClientCall.receive at h
  simp only [State.complete, RpcClientTask.timed, hv.controller_1, htimed]
  by_cases hcode : errorCode ≠ 0
  · rw [if_pos hcode, ite_none_left_eq_some] at h
    obtain ⟨hone, h⟩ := h
    rw [if_pos hcode, if_neg hone]
    split_ifs at h with hexp <;> cases h
    · exact ⟨_, if_neg (not_not.2 hexp), hv.co, hv.expireTime, by simp only [hv.controller], rfl⟩
    · exact ⟨_, if_pos hexp, hv.co, hv.expireTime, hv.controller, rfl⟩
  · rw [if_neg hcode] at h ⊢
    refine ⟨_, if_pos trivial, ?_⟩
    -- the response is not part of the view
    split at h <;> obtain ⟨m, -, rfl⟩ := map_eq_some_iff.1 h <;>
      exact ⟨hv.co, hv.expireTime, hv.controller, rfl⟩

omit [DecidableEq κ] in
theorem ClientCall.View.merge (hv : call.View t) (pb : Protobuf δ μ) : (call.merge pb).View t := by
  unfold ClientCall.merge
  split
  · exact ⟨hv.co, hv.expireTime, hv.controller, hv.controller_1⟩
  · exact hv

omit [DecidableEq κ] in
theorem ClientCall.view_settle (pb : Protobuf δ μ)
    (hv : call.View t) (err : ℕ) : (call.settle pb err).View (State.settle err t) := by
  have hone := hv.controller_1
  unfold ClientCall.settle State.settle
  by_cases herr : err ≠ 0
  · rw [if_pos herr, if_pos herr]
    exact ⟨hv.co, hv.expireTime, by simp only [hv.controller], hone⟩
  rw [if_neg herr, if_neg herr, hone]
  rcases hcall : call.controller_1 with _ | c
  · exact hv.merge pb
  · rcases hf : c.failed with _ | _
    · simp only [filter_some, hf, Bool.false_eq_true, if_false]
      exact hv.merge pb
    · simp only [filter_some, hf, if_true]
      exact ⟨hv.co, hv.expireTime, by simp only [hv.controller], rfl⟩

omit [DecidableEq κ] in
/-- **A response and the message it leads to do to a call what they do in `Rpc.State`.** -/
theorem ClientCall.view_deliver {pb : Protobuf δ μ} {call' : ClientCall μ}
    (hv : call.View t) {errorCode : UInt32}
    (h : call.receive pb errorCode body = some call') (j err : ℕ) :
    ∃ t', State.complete j ⟨errorCode, body, true⟩ t = some t' ∧
      (call'.settle pb err).View (State.settle err t') := by
  obtain ⟨t', hcomplete, hv'⟩ := view_receive hv h j
  exact ⟨t', hcomplete, view_settle pb hv' err⟩

theorem view_deliver_failure :
    ∃ call t', ClientCall.receive (.ofBytes ℕ) 5 [1] (.new (.ofBytes ℕ) 3 9 .reset (1, [])) =
        some call ∧
      State.complete 0 ⟨5, [1], true⟩
        ⟨0, 3, none, 9, .reset, none, .taskQueue, .unsent, false⟩ = some t' ∧
      (call.settle (.ofBytes ℕ) 0).View (State.settle 0 t') := by
  have h : ClientCall.receive (.ofBytes ℕ) 5 [1] (.new (.ofBytes ℕ) 3 9 .reset (1, [])) = some _ :=
    rfl
  obtain ⟨t', ht, hv⟩ := ClientCall.view_deliver
    (t := ⟨0, 3, none, 9, .reset, none, .taskQueue, .unsent, false⟩) ⟨rfl, rfl, rfl, rfl⟩ h 0 0
  exact ⟨_, t', h, ht, hv⟩

section Heads

variable (task : RequestTask) (answer : ResponseTask)

theorem serviceId_requestHead :
    UInt32.ofNat (field (requestHead task) 4 4) = task.serviceId := by
  simp [requestHead, field_append_right, field_append_left, beVal_beBytes,
    mod_eq_of_lt task.serviceId.toNat_lt]

theorem methodId_requestHead :
    UInt32.ofNat (field (requestHead task) 8 4) = task.methodId := by
  simp [requestHead, field_append_right, field_append_left, beVal_beBytes,
    mod_eq_of_lt task.methodId.toNat_lt]

theorem callId_requestHead : UInt64.ofNat (field (requestHead task) 12 8) = task.co := by
  simp [requestHead, field_append_right, field_append_left, beVal_beBytes,
    mod_eq_of_lt task.co.toNat_lt]

theorem expireTime_requestHead :
    UInt64.ofNat (field (requestHead task) 20 8) = task.expireTime := by
  simp [requestHead, field_append_right, field_eq_beVal, beVal_beBytes,
    mod_eq_of_lt task.expireTime.toNat_lt]

theorem callId_responseHead : UInt64.ofNat (field (responseHead answer) 4 8) = answer.callId := by
  simp [responseHead, field_append_right, field_append_left, beVal_beBytes,
    mod_eq_of_lt answer.callId.toNat_lt]

theorem expireTime_responseHead :
    UInt64.ofNat (field (responseHead answer) 12 8) = answer.expireTime := by
  simp [responseHead, field_append_right, field_append_left, beVal_beBytes,
    mod_eq_of_lt answer.expireTime.toNat_lt]

theorem errorCode_responseHead :
    UInt32.ofNat (field (responseHead answer) 20 4) = answer.controller.errorCode.toUInt32 := by
  have hcode : answer.controller.failed = false → answer.controller.errorCode = 0 := by
    simp [Controller.failed]
  rcases hf : answer.controller.failed with _ | _
  · simp [responseHead, field_append_right, field_eq_beVal, beVal_beBytes, hf, hcode hf,
      show (0 : Int32).toUInt32 = 0 from rfl]
  · simp [responseHead, field_append_right, field_eq_beVal, beVal_beBytes, hf,
      mod_eq_of_lt answer.controller.errorCode.toUInt32.toNat_lt]

end Heads

def RpcServerTask.ofRequest (pb : Protobuf δ μ) (server : RpcServer σ δ) (task : RequestTask)
    (method : MethodData δ) (m : μ) : RpcServerTask σ δ μ where
  service := server.getService task.serviceId
  method := method
  request := m
  response := if method.notCareResponse then none else some (pb.new method.responseProto)
  controller := if method.notCareResponse then none else some .reset
  done := method.notCareResponse && method.deleteInDone
  callId := task.co
  expireTime := task.expireTime

variable (pb : Protobuf δ μ)

omit [DecidableEq κ] in
theorem RpcServer.decode_requestFrame {server : RpcServer σ δ}
    {task : RequestTask} {method : MethodData δ} {m : μ}
    (hmethod : server.getMethod task.serviceId task.methodId = some method)
    (htype : pb.descriptor m = method.requestProto) (hbytes : task.request.bytes = pb.serialize m) :
    RpcServer.decode pb server (requestFrame task).1 (requestFrame task).2 =
      some (.ofRequest pb server task method m) := by
  have hparse := pb.parse_of_bytes htype hbytes
  simp only [RpcServer.decode, requestFrame, serviceId_requestHead, methodId_requestHead,
    callId_requestHead, expireTime_requestHead, hmethod, hparse, RpcServerTask.ofRequest]

/-- A call that waits for its answer, as `CallMethod` left it with a fresh controller: in
`waitResultCoMap_` and, with a time-out, in the list of time-outs. -/
structure Callers.Waits (pb : Protobuf δ μ) (s : Callers κ μ) (k : κ) (co expireTime : UInt64)
    (response : μ) : Prop where
  call : s.calls k = .new pb co expireTime .reset response
  entry : s.waitResultCoMap co = some k
  node : expireTime ≠ 0 → s.timeoutList co = some k

/-- **What the caller has to be left with**: the failure of the server with its code and
its text, or the response `m`. -/
structure ClientCall.Answered (pb : Protobuf δ μ) (controller : Controller (List UInt8)) (m : μ)
    (response : μ) (call : ClientCall μ) : Prop where
  failed : call.controller.failed = controller.failed
  failure : controller.failed = true →
    call.controller = ⟨.text controller.errorStr, controller.errorCode⟩ ∧ call.response = response
  success : controller.failed = false →
    call.controller = .reset ∧ (pb.Empty response → call.response = m)

omit [DecidableEq κ] in
@[simp]
theorem Controller.setErrorCode_setFailed {τ : Type} (c : Controller τ) (reason : τ)
    (errorCode : Int32) : (c.setFailed reason).setErrorCode errorCode = ⟨reason, errorCode⟩ := rfl

omit [DecidableEq κ] in
theorem ClientCall.receive_failure {controller : Controller (List UInt8)}
    (hf : controller.failed = true) (co expireTime : UInt64) (m response : μ) :
    ∃ call, (ClientCall.new pb co expireTime .reset response).receive pb
        controller.errorCode.toUInt32 controller.errorStr = some call ∧
      call.co = co ∧ call.expireTime = expireTime ∧
      (expireTime = 0 → call.Answered pb controller m response) ∧
      (expireTime ≠ 0 → (call.settle pb 0).Answered pb controller m response) := by
  have hcode : controller.errorCode.toUInt32 ≠ 0 := by
    intro h
    have : controller.errorCode = 0 := by
      rw [← Int32.toInt32_toUInt32 controller.errorCode, h]
      rfl
    simp [Controller.failed, this] at hf
  have hans : ∀ call : ClientCall μ,
      call.controller = ⟨.text controller.errorStr, controller.errorCode⟩ →
      call.response = response → call.Answered pb controller m response := by
    intro call hc hr
    refine ⟨by rw [hc]; rfl, fun _ => ⟨hc, hr⟩, fun hok => ?_⟩
    rw [hf] at hok
    cases hok
  by_cases hexp : expireTime = 0
  · refine ⟨{ ClientCall.new pb co expireTime .reset response with
      controller := ⟨.text controller.errorStr, controller.errorCode⟩ }, ?_, rfl, rfl,
      fun _ => hans _ rfl rfl, fun h => absurd hexp h⟩
    simp [ClientCall.receive, ClientCall.new, hcode, hexp]
  · refine ⟨{ ClientCall.new pb co expireTime .reset response with
      controller_1 := some ⟨.text controller.errorStr, controller.errorCode⟩ }, ?_, rfl, rfl,
      fun h => absurd h hexp, fun _ => ?_⟩
    · simp [ClientCall.receive, ClientCall.new, hcode, hexp]
    · have hfailed : failed
          (⟨.text controller.errorStr, controller.errorCode⟩ : Controller ErrorText) = true := hf
      refine hans _ ?_ ?_
      · simp [ClientCall.settle, filter_some, hfailed]
      · simp [ClientCall.settle, filter_some, hfailed, ClientCall.new]

omit [DecidableEq κ] in
theorem Controller.toUInt32_errorCode {τ : Type} {c : Controller τ} (hf : c.failed = false) :
    c.errorCode.toUInt32 = 0 := by
  have hcode : c.errorCode = 0 := by simpa [failed] using hf
  rw [hcode]
  rfl

omit [DecidableEq κ] in
theorem ClientCall.receive_success {controller : Controller (List UInt8)}
    (hf : controller.failed = false) (co expireTime : UInt64) {m response : μ}
    (hd : pb.descriptor m = pb.descriptor response) :
    ∃ call, (ClientCall.new pb co expireTime .reset response).receive pb
        controller.errorCode.toUInt32 (pb.serialize m) = some call ∧
      call.co = co ∧ call.expireTime = expireTime ∧
      (expireTime = 0 → call.Answered pb controller m response) ∧
      (expireTime ≠ 0 → (call.settle pb 0).Answered pb controller m response) := by
  have hcode : controller.errorCode.toUInt32 = 0 := toUInt32_errorCode hf
  have hparse := pb.parse_of_bytes hd rfl
  have hans : ∀ call : ClientCall μ, call.controller = .reset →
      (pb.Empty response → call.response = m) → call.Answered pb controller m response := by
    intro call hc hr
    refine ⟨by rw [hc, hf]; rfl, fun hfail => ?_, fun _ => ⟨hc, hr⟩⟩
    rw [hf] at hfail
    cases hfail
  by_cases hexp : expireTime = 0
  · refine ⟨{ ClientCall.new pb co expireTime .reset response with response := m }, ?_, rfl, rfl,
      fun _ => hans _ rfl fun _ => rfl, fun h => absurd hexp h⟩
    simp [ClientCall.receive, ClientCall.new, hcode, hexp, hparse]
  · refine ⟨{ ClientCall.new pb co expireTime .reset response with response_1 := some m }, ?_, rfl,
      rfl, fun h => absurd h hexp, fun _ => ?_⟩
    · simp [ClientCall.receive, ClientCall.new, hcode, hexp, pb.descriptor_new, hparse]
    · refine hans _ rfl fun hempty => ?_
      simpa [ClientCall.settle, ClientCall.merge, ClientCall.new] using
        pb.mergeFrom_empty hempty hd

variable {s : Callers κ μ}

theorem RpcClient.decode_entry {head : List UInt8} {k : κ} {callId expireTime : UInt64}
    (hsize : field head 0 4 = body.length) (hid : UInt64.ofNat (field head 4 8) = callId)
    (hexp : UInt64.ofNat (field head 12 8) = expireTime)
    (hentry : s.waitResultCoMap callId = some k) (hk : (s.calls k).expireTime = expireTime)
    (hcall : (s.calls k).receive pb (UInt32.ofNat (field head 20 4)) body = some call) :
    RpcClient.decode pb s head body = some { s with
      calls := update s.calls k call
      waitResultCoMap := update s.waitResultCoMap callId none
      waitResumeQueue := s.waitResumeQueue ++ [⟨call.co, expireTime, 0⟩] } := by
  unfold RpcClient.decode
  simp only [if_neg (not_not.2 hsize), hid, hexp, hentry, if_neg (not_not.2 hk), hcall, map_some]

theorem resumeRoutine_untimed {wr : WaitResumeRPCRoutine}
    (hmem : wr ∈ s.waitResumeQueue) (hexp : wr.expireTime = 0) :
    resumeRoutine pb s wr = some { s with
      waitResumeQueue := s.waitResumeQueue.erase wr
      active := s.active ++ [wr.co] } := by
  unfold resumeRoutine
  simp only [if_pos hmem, if_neg (not_not.2 hexp)]

theorem resumeRoutine_node {wr : WaitResumeRPCRoutine} {k : κ}
    (hmem : wr ∈ s.waitResumeQueue) (hexp : wr.expireTime ≠ 0)
    (hnode : s.timeoutList wr.co = some k) (hk : (s.calls k).expireTime = wr.expireTime) :
    resumeRoutine pb s wr = some { s with
      waitResumeQueue := s.waitResumeQueue.erase wr
      calls := update s.calls k ((s.calls k).settle pb wr.err)
      timeoutList := update s.timeoutList wr.co none
      active := s.active ++ [wr.co] } := by
  unfold resumeRoutine
  simp only [if_pos hmem, if_pos hexp, hnode, if_pos hk]

/-- The answer of a server to a call whose response has the type of `response`: a failure,
or the response `m`. -/
def ResponseTask.Answers (pb : Protobuf δ μ) (answer : ResponseTask) (m response : μ) : Prop :=
  answer.controller.failed = false →
    answer.response.bytes = pb.serialize m ∧ pb.descriptor m = pb.descriptor response

/-- **A frame of the server ends the call**: the entry and the node of the call are gone,
the coroutine is activated, and the caller has its answer. -/
theorem deliver_responseFrame {k : κ} {answer : ResponseTask}
    {m response : μ} (hsend : SendableResponse answer)
    (hw : s.Waits pb k answer.callId answer.expireTime response)
    (ha : answer.Answers pb m response) :
    ∃ s', deliver pb s (responseFrame answer).1 (responseFrame answer).2 = some s' ∧
      (s'.calls k).Answered pb answer.controller m response ∧
      s'.active = s.active ++ [answer.callId] ∧
      ∀ j, j ≠ k → s'.calls j = s.calls j := by
  have hreceive : ∃ call, (s.calls k).receive pb answer.controller.errorCode.toUInt32
        (responseFrame answer).2 = some call ∧
      call.co = answer.callId ∧ call.expireTime = answer.expireTime ∧
      (answer.expireTime = 0 → call.Answered pb answer.controller m response) ∧
      (answer.expireTime ≠ 0 → (call.settle pb 0).Answered pb answer.controller m response) := by
    rw [hw.call]
    rcases hf : answer.controller.failed with _ | _
    · obtain ⟨hbytes, hd⟩ := ha hf
      rw [show (responseFrame answer).2 = pb.serialize m by simp [responseFrame, hf, hbytes]]
      exact ClientCall.receive_success pb hf _ _ hd
    · rw [show (responseFrame answer).2 = answer.controller.errorStr by simp [responseFrame, hf]]
      exact ClientCall.receive_failure pb hf _ _ m response
  obtain ⟨call, hcall, hco, hexp, huntimed, htimed⟩ := hreceive
  have hexp₀ : (s.calls k).expireTime = answer.expireTime := by rw [hw.call]; rfl
  rw [← errorCode_responseHead] at hcall
  have hdecode := RpcClient.decode_entry pb (framed_response hsend).readSize
    (callId_responseHead answer) (expireTime_responseHead answer) hw.entry hexp₀ hcall
  have hid : UInt64.ofNat (field (responseFrame answer).1 4 8) = answer.callId :=
    callId_responseHead answer
  have htime : UInt64.ofNat (field (responseFrame answer).1 12 8) = answer.expireTime :=
    expireTime_responseHead answer
  unfold deliver
  rw [hdecode, bind_some, hid, htime, hco]
  by_cases hzero : answer.expireTime = 0
  · refine ⟨_, resumeRoutine_untimed pb (by simp) hzero, ?_, rfl, fun j hj => ?_⟩
    · simpa using huntimed hzero
    · simp [hj]
  · refine ⟨_, resumeRoutine_node pb (by simp) hzero (hw.node hzero) (by simpa using hexp), ?_, rfl,
      fun j hj => ?_⟩
    · simpa using htimed hzero
    · simp [hj]

/-- **Round trip of a call**, whatever space the encoders get, with a time-out and without. -/
theorem call_round_trip :
    (∀ (server : RpcServer σ δ) (task : RequestTask) (method : MethodData δ) (m : μ) (space : ℕ),
      SendableRequest task → server.getMethod task.serviceId task.methodId = some method →
      pb.descriptor m = method.requestProto → task.request.bytes = pb.serialize m →
      requestHeadSize ≤ space →
      ∃ frame, encodedFrame requestHeadSize (RpcClient.encode task space [] 0) = some frame ∧
        RpcServer.decode pb server frame.1 frame.2 = some (.ofRequest pb server task method m)) ∧
    (∀ (s : Callers κ μ) (k : κ) (answer : ResponseTask) (m response : μ) (space : ℕ),
      SendableResponse answer → answer.Answers pb m response →
      s.Waits pb k answer.callId answer.expireTime response → responseHeadSize ≤ space →
      ∃ frame s', encodedFrame responseHeadSize (RpcServer.encode answer space [] 0) = some frame ∧
        deliver pb s frame.1 frame.2 = some s' ∧
        (s'.calls k).Answered pb answer.controller m response ∧
        s'.active = s.active ++ [answer.callId]) ∧
    ∀ (s t : Callers κ μ) (k l : κ) (timed untimed : ResponseTask) (m response : μ),
      SendableResponse timed → timed.Answers pb m response → pb.Empty response →
      timed.expireTime ≠ 0 → untimed = { timed with callId := untimed.callId, expireTime := 0 } →
      s.Waits pb k timed.callId timed.expireTime response →
      t.Waits pb l untimed.callId untimed.expireTime response →
      ∃ s' t', deliver pb s (responseFrame timed).1 (responseFrame timed).2 = some s' ∧
        deliver pb t (responseFrame untimed).1 (responseFrame untimed).2 = some t' ∧
        (s'.calls k).controller = (t'.calls l).controller ∧
        (s'.calls k).response = (t'.calls l).response := by
  refine ⟨fun server task method m space hsend hmethod htype hbytes hspace => ?_,
    fun s k answer m response space hsend ha hw hspace => ?_,
    fun s t k l timed untimed m response hsend ha hempty _ hun hs ht => ?_⟩
  · exact ⟨requestFrame task, (encodes_request hsend).encodedFrame_eq hspace,
      RpcServer.decode_requestFrame pb hmethod htype hbytes⟩
  · obtain ⟨s', hdeliver, hans, hactive, -⟩ := deliver_responseFrame pb hsend hw ha
    exact ⟨responseFrame answer, s', (encodes_response hsend).encodedFrame_eq hspace, hdeliver,
      hans, hactive⟩
  · have hctrl : untimed.controller = timed.controller := by rw [hun]
    have hresp : untimed.response = timed.response := by rw [hun]
    have hsend' : SendableResponse untimed := by
      refine ⟨hresp ▸ hsend.upToDate, ?_⟩
      simpa only [responseFrame, hctrl, hresp] using hsend.length_body
    have ha' : untimed.Answers pb m response := by
      rw [ResponseTask.Answers, hctrl, hresp]
      exact ha
    obtain ⟨s', hs', hans, -, -⟩ := deliver_responseFrame pb hsend hs ha
    obtain ⟨t', ht', hans', -, -⟩ := deliver_responseFrame pb hsend' ht ha'
    rw [hctrl] at hans'
    refine ⟨s', t', hs', ht', ?_⟩
    rcases hf : timed.controller.failed with _ | _
    · obtain ⟨hc, hr⟩ := hans.success hf
      obtain ⟨hc', hr'⟩ := hans'.success hf
      exact ⟨hc.trans hc'.symm, (hr hempty).trans (hr' hempty).symm⟩
    · obtain ⟨hc, hr⟩ := hans.failure hf
      obtain ⟨hc', hr'⟩ := hans'.failure hf
      exact ⟨hc.trans hc'.symm, hr.trans hr'.symm⟩

/-- A server with one service, whose only method has requests of type 0 and responses of
type 1. -/
def oneService : RpcServer Unit ℕ :=
  (RpcServer.registerService ⟨fun _ => none⟩ 7 ⟨(), [⟨0, 1, false, false⟩]⟩).2

def oneCaller (expireTime : UInt64) : Callers Unit (ℕ × List UInt8) where
  calls := fun _ => .new (.ofBytes ℕ) 3 expireTime .reset (1, [])
  waitResultCoMap := fun co => if co = 3 then some () else none
  timeoutList := fun co => if co = 3 ∧ expireTime ≠ 0 then some () else none
  waitResumeQueue := []
  active := []

theorem oneCaller_waits (expireTime : UInt64) :
    (oneCaller expireTime).Waits (.ofBytes ℕ) () 3 expireTime (1, []) :=
  ⟨rfl, rfl, fun h => by simp [oneCaller, h]⟩

/-- `call_round_trip` at a request of two bytes that spills one of them, at a response of two
bytes, and at a failure with a negative code for a call with a time-out and for one without. -/
theorem call_round_trip_failure :
    (∃ frame, encodedFrame requestHeadSize
        (RpcClient.encode ⟨7, 0, 3, 9, ⟨[1, 2], 2⟩, true, false⟩ 29 [] 0) = some frame ∧
      RpcServer.decode (.ofBytes ℕ) oneService frame.1 frame.2 =
        some ⟨some (), ⟨0, 1, false, false⟩, (0, [1, 2]), some (1, []), some ⟨[], 0⟩, false,
          3, 9⟩) ∧
    (∃ frame s', encodedFrame responseHeadSize
        (RpcServer.encode ⟨3, 9, ⟨[], 0⟩, ⟨[4, 5], 2⟩⟩ 25 [] 0) = some frame ∧
      deliver (.ofBytes ℕ) (oneCaller 9) frame.1 frame.2 = some s' ∧
      (s'.calls ()).Answered (.ofBytes ℕ) ⟨[], 0⟩ (1, [4, 5]) (1, []) ∧ s'.active = [3]) ∧
    (∃ frame s', encodedFrame responseHeadSize
        (RpcServer.encode ⟨3, 9, ⟨[5], -2⟩, ⟨[], 0⟩⟩ 24 [] 0) = some frame ∧
      deliver (.ofBytes ℕ) (oneCaller 9) frame.1 frame.2 = some s' ∧
      (s'.calls ()).Answered (.ofBytes ℕ) ⟨[5], -2⟩ (1, []) (1, []) ∧ s'.active = [3]) ∧
    ∃ s' t' : Callers Unit (ℕ × List UInt8), (s'.calls ()).controller = (t'.calls ()).controller ∧
      (s'.calls ()).response = (t'.calls ()).response ∧
      deliver (.ofBytes ℕ) (oneCaller 0) (responseFrame ⟨3, 0, ⟨[5], -2⟩, ⟨[], 0⟩⟩).1 [5] =
        some t' := by
  obtain ⟨hrequest, hanswer, hsame⟩ :=
    call_round_trip (σ := Unit) (κ := Unit) (Protobuf.ofBytes ℕ)
  have hsend : ∀ e, SendableResponse ⟨3, e, ⟨[5], -2⟩, ⟨[], 0⟩⟩ := fun e =>
    ⟨.inl rfl, by simp [responseFrame, failed, maxResponseSize]⟩
  have hans : ∀ e, ResponseTask.Answers (.ofBytes ℕ) ⟨3, e, ⟨[5], -2⟩, ⟨[], 0⟩⟩ (1, []) (1, []) :=
    fun e h => by cases h
  refine ⟨hrequest oneService _ ⟨0, 1, false, false⟩ (0, [1, 2]) 29 ⟨rfl, .inr rfl, by decide⟩ rfl
    rfl rfl (by decide), hanswer _ () _ (1, [4, 5]) (1, []) 25 ⟨.inr rfl, by decide⟩ ?_
      (oneCaller_waits 9) (by decide), hanswer _ () _ (1, []) (1, []) 24 (hsend 9) (hans 9)
      (oneCaller_waits 9) (by decide), ?_⟩
  · exact fun _ => ⟨rfl, rfl⟩
  obtain ⟨s', t', -, ht', hc, hr⟩ := hsame (oneCaller 9) (oneCaller 0) () ()
    ⟨3, 9, ⟨[5], -2⟩, ⟨[], 0⟩⟩ ⟨3, 0, ⟨[5], -2⟩, ⟨[], 0⟩⟩ (1, []) (1, []) (hsend 9) (hans 9) rfl
    (by decide) rfl (oneCaller_waits 9) (oneCaller_waits 0)
  exact ⟨s', t', hc, hr, ht'⟩

end Corpc.Rpc
