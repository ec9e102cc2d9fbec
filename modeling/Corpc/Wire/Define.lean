/-
# Constants and payloads of the wire formats

`corpc_define.h`: the sizes of the three heads, the bounds on bodies
and buffers, the numbers of the system messages, and `SendMessageInfo`.  The
big-endian conversions `htobe32` and `be32toh` of the same header are
`Basis.beBytes` and `Basis.field`.

| head | bytes | layout |
| --- | ---: | --- |
| request | 28 | size 4, service 4, method 4, coroutine 8, expire time 8 |
| response | 24 | size 4, coroutine 8, expire time 8, error code 4 |
| message | 22 | size 4, type 4, tag 2, flag 2, req serial 4, serial 4, crc 2 |

The constants have their names from the source, without `CORPC_`.
-/

import Mathlib.Data.List.Basic

namespace Corpc.Wire

/-- `CORPC_MAX_BUFFER_SIZE`: the sender's and the receiver's I/O buffer. -/
def maxBufferSize : ℕ := 0x10000

def maxRequestSize : ℕ := 0x100000

def maxResponseSize : ℕ := 0x100000

def requestHeadSize : ℕ := 28

def responseHeadSize : ℕ := 24

def messageHeadSize : ℕ := 22

def udpHandshakeSize : ℕ := 4

def maxMessageSize : ℕ := 0x10000

def maxUdpMessageSize : ℕ := 540

def maxKcpPackageSize : ℕ := 0x1000

def messageFlagCrypt : UInt16 := 0x1

def msgTypeConnect : Int32 := -1

def msgTypeClose : Int32 := -2

def msgTypeBanned : Int32 := -10

def msgTypeUdpUnshake : Int32 := -110

def msgTypeUdpHandshake1 : Int32 := -111

def msgTypeUdpHandshake2 : Int32 := -112

def msgTypeUdpHandshake3 : Int32 := -113

def msgTypeUdpHandshake4 : Int32 := -114

def msgTypeHeartbeat : Int32 := -115

def msgTypeJumpSerial : Int32 := -116

/-- A `google::protobuf::Message` as the encoders see it: what it serialises to,
and what `GetCachedSize` returns, `0` before the size was first computed. -/
structure ProtoMessage where
  bytes : List UInt8
  cachedSize : ℕ
  deriving DecidableEq, Repr

/-- `GetCachedSize`, and `ByteSizeLong` where that is `0`. -/
def ProtoMessage.msgSize (msg : ProtoMessage) : ℕ :=
  if msg.cachedSize = 0 then msg.bytes.length else msg.cachedSize

/-- The cached size is that of the message's current value, or was never
computed. -/
def ProtoMessage.UpToDate (msg : ProtoMessage) : Prop :=
  msg.cachedSize = 0 ∨ msg.cachedSize = msg.bytes.length

/-- `SerializeWithCachedSizesToArray` into a zeroed array of `n` bytes. -/
def ProtoMessage.serializeToArray (msg : ProtoMessage) (n : ℕ) : List UInt8 :=
  msg.bytes.take n ++ List.replicate (n - msg.bytes.length) 0

/-- `Crypter`: `encrypt(src, dst, size)` and `decrypt(src, dst, size)` write as
many bytes as they read. -/
structure Crypter where
  encrypt : List UInt8 → List UInt8
  decrypt : List UInt8 → List UInt8
  length_encrypt : ∀ b, (encrypt b).length = b.length
  length_decrypt : ∀ b, (decrypt b).length = b.length

/-- The payload of a `SendMessageInfo`: `isRaw` says whether `msg` points to a
string, which may be null, or to a protobuf message. -/
inductive Payload
  | raw (msg : Option (List UInt8))
  | proto (msg : ProtoMessage)
  deriving DecidableEq, Repr

def Payload.msgSize : Payload → ℕ
  | .raw none => 0
  | .raw (some msg) => msg.length
  | .proto msg => msg.msgSize

def Payload.data : Payload → List UInt8
  | .raw none => []
  | .raw (some msg) => msg
  | .proto msg => msg.serializeToArray msg.msgSize

def Payload.bytes : Payload → List UInt8
  | .raw none => []
  | .raw (some msg) => msg
  | .proto msg => msg.bytes

def Payload.UpToDate : Payload → Prop
  | .raw _ => True
  | .proto msg => msg.UpToDate

/-- `SendMessageInfo`; `isRaw` is the constructor of the payload. -/
structure SendMessageInfo where
  type : Int32
  needCrypt : Bool
  tag : UInt16
  serial : UInt32
  msg : Payload
  deriving DecidableEq, Repr

/-- What an `EncodeFunction` makes of one item: the bytes it put into the output buffer,
with the spill and its counter afterwards, or `false`, or a failed `assert`. -/
inductive Encoded
  | wrote (bytes downflowBuf : List UInt8) (downflowBufSentNum : ℕ)
  | failed
  | abort
  deriving DecidableEq, Repr

theorem ProtoMessage.msgSize_of_upToDate {msg : ProtoMessage} (h : msg.UpToDate) :
    msg.msgSize = msg.bytes.length := by
  unfold ProtoMessage.msgSize
  rcases h with h | h
  · simp [h]
  · split_ifs <;> simp [h]

theorem ProtoMessage.serializeToArray_of_upToDate {msg : ProtoMessage} (h : msg.UpToDate) :
    msg.serializeToArray msg.msgSize = msg.bytes := by
  simp [ProtoMessage.serializeToArray, ProtoMessage.msgSize_of_upToDate h]

@[simp]
theorem ProtoMessage.length_serializeToArray (msg : ProtoMessage) (n : ℕ) :
    (msg.serializeToArray n).length = n := by
  simp only [ProtoMessage.serializeToArray, List.length_append, List.length_take,
    List.length_replicate]
  omega

@[simp]
theorem Payload.length_data (p : Payload) : p.data.length = p.msgSize := by
  rcases p with (_ | msg) | msg <;> simp [Payload.data, Payload.msgSize]

theorem Payload.data_of_upToDate {p : Payload} (h : p.UpToDate) : p.data = p.bytes := by
  rcases p with (_ | msg) | msg
  · rfl
  · rfl
  · exact ProtoMessage.serializeToArray_of_upToDate h

theorem Payload.upToDate_of_length {p : Payload} (h : p.data.length = p.bytes.length) :
    p.UpToDate := by
  rcases p with (_ | msg) | msg
  · trivial
  · trivial
  · rw [Payload.length_data] at h
    simp only [Payload.msgSize, Payload.bytes, ProtoMessage.msgSize] at h
    split_ifs at h with hzero
    · exact .inl hzero
    · exact .inr h

end Corpc.Wire
