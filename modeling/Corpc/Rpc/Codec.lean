/-
# Requests and responses on the wire

`RpcClient::encode` in `corpc_rpc_client.cpp`, `RpcServer::encode` in
`corpc_rpc_server.cpp`, and `Controller` in `corpc_controller.h`.

The two encoders write a head and as much of the body as fits, and leave the rest to `downflowBuf`.
Unlike `MessageTerminal::encode` they do not touch `downflowBufSentNum` where nothing of the body
fits.
-/

import Corpc.Basis.BigEndian
import Corpc.Wire.Define

namespace Corpc.Rpc

open Corpc.Basis Wire

/-- `Controller`; `τ` is the type of the error texts. -/
structure Controller (τ : Type) where
  errorStr : τ
  errorCode : Int32
  deriving DecidableEq, Repr

namespace Controller

variable {τ : Type}

def reset [Inhabited τ] : Controller τ := ⟨default, 0⟩

def failed (c : Controller τ) : Bool := c.errorCode != 0

def setFailed (c : Controller τ) (reason : τ) : Controller τ :=
  ⟨reason, if c.errorCode = 0 then -1 else c.errorCode⟩

def setErrorCode (c : Controller τ) (errorCode : Int32) : Controller τ :=
  { c with errorCode }

@[simp]
theorem failed_reset [Inhabited τ] : (reset : Controller τ).failed = false := rfl

@[simp]
theorem failed_setFailed (c : Controller τ) (reason : τ) : (c.setFailed reason).failed = true := by
  unfold setFailed failed
  split_ifs with h
  · rfl
  · exact bne_iff_ne.2 h

@[simp]
theorem failed_setErrorCode (c : Controller τ) (errorCode : Int32) :
    (c.setErrorCode errorCode).failed = (errorCode != 0) := rfl

end Controller

/-- What `RpcClient::encode` reads of a task; `co` is the pointer of the calling
coroutine, `response` and `done` say whether they are set. -/
structure RequestTask where
  serviceId : UInt32
  methodId : UInt32
  co : UInt64
  expireTime : UInt64
  request : ProtoMessage
  response : Bool
  done : Bool
  deriving DecidableEq, Repr

/-- What `RpcServer::encode` reads of a task. -/
structure ResponseTask where
  callId : UInt64
  expireTime : UInt64
  controller : Controller (List UInt8)
  response : ProtoMessage
  deriving DecidableEq, Repr

def requestHead (task : RequestTask) : List UInt8 :=
  beBytes 4 task.request.msgSize ++ (beBytes 4 task.serviceId.toNat ++
    (beBytes 4 task.methodId.toNat ++ (beBytes 8 task.co.toNat ++
      beBytes 8 task.expireTime.toNat)))

def requestBody (task : RequestTask) : List UInt8 :=
  task.request.serializeToArray task.request.msgSize

/-- `msgSize` in `RpcServer::encode`. -/
def ResponseTask.msgSize (task : ResponseTask) : ℕ :=
  if task.controller.failed then task.controller.errorStr.length else task.response.msgSize

def responseHead (task : ResponseTask) : List UInt8 :=
  beBytes 4 task.msgSize ++ (beBytes 8 task.callId.toNat ++ (beBytes 8 task.expireTime.toNat ++
    beBytes 4 (if task.controller.failed then task.controller.errorCode.toUInt32.toNat else 0)))

def responseBody (task : ResponseTask) : List UInt8 :=
  if task.controller.failed then task.controller.errorStr
  else task.response.serializeToArray task.response.msgSize

/-- The end both encoders share: the head and the body if it fits, else the head,
the first part of the body, and the body as spill. -/
def writeFrame (head body : List UInt8) (spaceleft : ℕ) (downflowBuf : List UInt8)
    (downflowBufSentNum : ℕ) : Encoded :=
  if body.length ≤ spaceleft then .wrote (head ++ body) downflowBuf downflowBufSentNum
  else
    .wrote (head ++ body.take spaceleft) body
      (if 0 < spaceleft then spaceleft else downflowBufSentNum)

def RpcClient.encode (task : RequestTask) (space : ℕ) (downflowBuf : List UInt8)
    (downflowBufSentNum : ℕ) : Encoded :=
  if space < requestHeadSize then .wrote [] downflowBuf downflowBufSentNum
  -- assert(rpcTask->done), then done->Run()
  else if !task.response && !task.done then .abort
  else
    writeFrame (requestHead task) (requestBody task) (space - requestHeadSize) downflowBuf
      downflowBufSentNum

def RpcServer.encode (task : ResponseTask) (space : ℕ) (downflowBuf : List UInt8)
    (downflowBufSentNum : ℕ) : Encoded :=
  if space < responseHeadSize then .wrote [] downflowBuf downflowBufSentNum
  else
    writeFrame (responseHead task) (responseBody task) (space - responseHeadSize) downflowBuf
      downflowBufSentNum

@[simp]
theorem length_requestHead (task : RequestTask) :
    (requestHead task).length = requestHeadSize := by
  simp [requestHead, requestHeadSize]

@[simp]
theorem length_responseHead (task : ResponseTask) :
    (responseHead task).length = responseHeadSize := by
  simp [responseHead, responseHeadSize]

@[simp]
theorem length_requestBody (task : RequestTask) :
    (requestBody task).length = task.request.msgSize := by
  simp [requestBody]

@[simp]
theorem length_responseBody (task : ResponseTask) :
    (responseBody task).length = task.msgSize := by
  unfold responseBody ResponseTask.msgSize
  split_ifs <;> simp

theorem field_requestHead (task : RequestTask) (h : task.request.msgSize < 2 ^ 32) :
    field (requestHead task) 0 4 = task.request.msgSize := by
  unfold requestHead
  rw [field_append_left (by simp), beVal_beBytes]
  exact Nat.mod_eq_of_lt h

theorem field_responseHead (task : ResponseTask) (h : task.msgSize < 2 ^ 32) :
    field (responseHead task) 0 4 = task.msgSize := by
  unfold responseHead
  rw [field_append_left (by simp), beVal_beBytes]
  exact Nat.mod_eq_of_lt h

end Corpc.Rpc
