/-
# Message terminals: decoding, encoding, sending

`MessageTerminal` in `corpc_message_terminal.cpp`.  A terminal holds the settings and the
table of registered messages; a `Connection` adds the crypter, the two serial counters and the
buffer of sent messages.

`none` as the outcome of a whole function stands for a failed `assert`.  `isOpen` changes under the
feet of `send` and `resend`, so each reading of it is an argument.
-/

import Corpc.Basis.BigEndian
import Corpc.Message.Buffer
import Corpc.Wire.Crc

namespace Corpc.Message

open Corpc.Basis Wire

variable {μ : Type}

/-- `RegisterMessageInfo`; `proto` is `ParseFromArray` of the prototype's type,
and absent where the prototype is null. -/
structure RegisterMessageInfo (μ : Type) where
  proto : Option (List UInt8 → Option μ)
  banned : Bool

/-- `MessageTerminal`; `otherMessageHandle` says whether one is set. -/
structure MessageTerminal (μ : Type) where
  enableSendCRC : Bool
  enableRecvCRC : Bool
  enableSerial : Bool
  registerMessageMap : List (Int32 × RegisterMessageInfo μ)
  otherMessageHandle : Bool

/-- `MessageTerminal::Connection`, with `decodeError_` and `lastRecvHBTime_` of
its base class. -/
structure Connection (μ : Type) where
  terminal : MessageTerminal μ
  crypter : Option Crypter
  msgBuffer : Option MessageBuffer
  recvSerial : UInt32
  lastSendSerial : UInt32
  decodeError : Bool
  lastRecvHBTime : ℕ

inductive TaskMsg (μ : Type)
  | null
  | raw (bytes : List UInt8)
  | proto (msg : μ)

/-- `MessageWorkerTask`.  A heartbeat task leaves `tag`, `banned` and `msg`
unset, and the worker does not read them. -/
structure MessageWorkerTask (μ : Type) where
  type : Int32
  tag : UInt16
  reqSerial : UInt32
  banned : Bool
  msg : TaskMsg μ

/-- `head + 4`. -/
def headType (head : List UInt8) : Int32 := (UInt32.ofNat (field head 4 4)).toInt32

/-- `head + 8`. -/
def headTag (head : List UInt8) : UInt16 := UInt16.ofNat (field head 8 2)

/-- `head + 10`. -/
def headFlag (head : List UInt8) : UInt16 := UInt16.ofNat (field head 10 2)

/-- `head + 12`: the last serial the peer has received. -/
def headReqSerial (head : List UInt8) : UInt32 := UInt32.ofNat (field head 12 4)

/-- `head + 16`. -/
def headSerial (head : List UInt8) : UInt32 := UInt32.ofNat (field head 16 4)

/-- `head + 20`. -/
def headCrc (head : List UInt8) : UInt16 := UInt16.ofNat (field head 20 2)

/-- The head `encode` writes, field by field at the offsets above. -/
def encodeHead (msgSize : ℕ) (type : Int32) (tag flag : UInt16) (recvSerial serial : UInt32)
    (crc : UInt16) : List UInt8 :=
  beBytes 4 msgSize ++ (beBytes 4 type.toUInt32.toNat ++ (beBytes 2 tag.toNat ++
    (beBytes 2 flag.toNat ++ (beBytes 4 recvSerial.toNat ++ (beBytes 4 serial.toNat ++
      beBytes 2 crc.toNat)))))

@[simp]
theorem length_encodeHead (msgSize : ℕ) (type : Int32) (tag flag : UInt16)
    (recvSerial serial : UInt32) (crc : UInt16) :
    (encodeHead msgSize type tag flag recvSerial serial crc).length = messageHeadSize := by
  simp [encodeHead, messageHeadSize]

section Head

variable (msgSize : ℕ) (type : Int32) (tag flag : UInt16) (recvSerial serial : UInt32)
  (crc : UInt16)

@[simp]
theorem headType_encodeHead :
    headType (encodeHead msgSize type tag flag recvSerial serial crc) = type := by
  simp [headType, encodeHead, field_append_right, field_append_left, beVal_beBytes,
    Nat.mod_eq_of_lt type.toUInt32.toNat_lt]

@[simp]
theorem headTag_encodeHead :
    headTag (encodeHead msgSize type tag flag recvSerial serial crc) = tag := by
  simp [headTag, encodeHead, field_append_right, field_append_left, beVal_beBytes,
    Nat.mod_eq_of_lt tag.toNat_lt]

@[simp]
theorem headFlag_encodeHead :
    headFlag (encodeHead msgSize type tag flag recvSerial serial crc) = flag := by
  simp [headFlag, encodeHead, field_append_right, field_append_left, beVal_beBytes,
    Nat.mod_eq_of_lt flag.toNat_lt]

@[simp]
theorem headReqSerial_encodeHead :
    headReqSerial (encodeHead msgSize type tag flag recvSerial serial crc) = recvSerial := by
  simp [headReqSerial, encodeHead, field_append_right, field_append_left, beVal_beBytes,
    Nat.mod_eq_of_lt recvSerial.toNat_lt]

@[simp]
theorem headSerial_encodeHead :
    headSerial (encodeHead msgSize type tag flag recvSerial serial crc) = serial := by
  simp [headSerial, encodeHead, field_append_right, field_append_left, beVal_beBytes,
    Nat.mod_eq_of_lt serial.toNat_lt]

@[simp]
theorem headCrc_encodeHead :
    headCrc (encodeHead msgSize type tag flag recvSerial serial crc) = crc := by
  simp [headCrc, encodeHead, field_append_right, field_eq_beVal, beVal_beBytes,
    Nat.mod_eq_of_lt crc.toNat_lt]

end Head

def Connection.setDecodeError (conn : Connection μ) : Connection μ :=
  { conn with decodeError := true }

/-- The branch of `decode` for negative types. -/
def decodeSystem (mtime : ℕ) (conn : Connection μ) (head : List UInt8) :
    Connection μ × Option (MessageWorkerTask μ) :=
  if headType head = msgTypeHeartbeat then
    let conn := { conn with lastRecvHBTime := mtime }
    if conn.terminal.enableSerial then
      (conn, some ⟨msgTypeHeartbeat, 0, headReqSerial head, false, .null⟩)
    else (conn, none)
  else if headType head = msgTypeJumpSerial then
    if headSerial head ≤ conn.recvSerial then (conn.setDecodeError, none)
    else ({ conn with recvSerial := headSerial head }, none)
  else (conn, none)

/-- The lookup of `decode` in the table of registered messages and what it does
with the decrypted body. -/
def decodeRegistered (conn : Connection μ) (head body : List UInt8) (reqSerial : UInt32) :
    Option (Connection μ × Option (MessageWorkerTask μ)) :=
  match conn.terminal.registerMessageMap.lookup (headType head) with
  | none =>
    if conn.terminal.otherMessageHandle then
      some (conn, some ⟨headType head, headTag head, reqSerial, false, .raw body⟩)
    else some (conn.setDecodeError, none)
  | some info =>
    if info.banned then
      some (conn, some ⟨headType head, headTag head, reqSerial, true, .null⟩)
    else
      match info.proto with
      | some parse =>
        match parse body with
        | some msg =>
          some (conn, some ⟨headType head, headTag head, reqSerial, false, .proto msg⟩)
        | none => some (conn.setDecodeError, none)
      -- assert(size == 0)
      | none =>
        if body = [] then
          some (conn, some ⟨headType head, headTag head, reqSerial, false, .null⟩)
        else none

/-- `decode` after the serial check: checksum, decryption, lookup. -/
def decodeBody (conn : Connection μ) (head body : List UInt8) (reqSerial : UInt32) :
    Option (Connection μ × Option (MessageWorkerTask μ)) :=
  if conn.terminal.enableRecvCRC ∧ headCrc head ≠ checkSum body 0xFFFF then
    some (conn.setDecodeError, none)
  else if headFlag head &&& messageFlagCrypt ≠ 0 then
    match conn.crypter with
    | none => some (conn.setDecodeError, none)
    | some crypter => decodeRegistered conn head (crypter.decrypt body) reqSerial
  else decodeRegistered conn head body reqSerial

def decode (mtime : ℕ) (conn : Connection μ) (head body : List UInt8) :
    Option (Connection μ × Option (MessageWorkerTask μ)) :=
  if headType head < 0 then some (decodeSystem mtime conn head)
  else if conn.terminal.enableSerial then
    -- the counter moves before the serial, and everything after it, is checked
    let conn := { conn with recvSerial := conn.recvSerial + 1 }
    if conn.recvSerial ≠ headSerial head then some (conn.setDecodeError, none)
    else decodeBody conn head body (headReqSerial head)
  else decodeBody conn head body 0

/-- `crypter->encrypt` where asked for. -/
def Connection.encrypt (conn : Connection μ) (needCrypt : Bool) (bytes : List UInt8) :
    List UInt8 :=
  match needCrypt, conn.crypter with
  | true, some crypter => crypter.encrypt bytes
  | _, _ => bytes

def encodeBody (conn : Connection μ) (msgInfo : SendMessageInfo) : List UInt8 :=
  conn.encrypt msgInfo.needCrypt msgInfo.msg.data

/-- The head that goes with `encodeBody`. -/
def messageHead (conn : Connection μ) (msgInfo : SendMessageInfo) : List UInt8 :=
  encodeHead msgInfo.msg.msgSize msgInfo.type msgInfo.tag
    (if msgInfo.needCrypt then messageFlagCrypt else 0) conn.recvSerial msgInfo.serial
    (if conn.terminal.enableSendCRC then checkSum (encodeBody conn msgInfo) 0xFFFF else 0)

/-- The branches for raw and protobuf payloads are one here, since they differ in `Payload.data`
only. -/
def encode (conn : Connection μ) (msgInfo : SendMessageInfo) (space : ℕ)
    (downflowBuf : List UInt8) (downflowBufSentNum : ℕ) : Encoded :=
  if space < messageHeadSize then .wrote [] downflowBuf downflowBufSentNum
  else if msgInfo.needCrypt ∧ conn.crypter.isNone then .failed
  else
    let spaceleft := space - messageHeadSize
    let body := encodeBody conn msgInfo
    if msgInfo.msg.msgSize ≤ spaceleft then
      .wrote (messageHead conn msgInfo ++ body) downflowBuf downflowBufSentNum
    else
      .wrote (messageHead conn msgInfo ++ body.take spaceleft) body
        (if 0 < spaceleft then spaceleft else 0)

@[simp]
theorem length_encodeBody (conn : Connection μ) (msgInfo : SendMessageInfo) :
    (encodeBody conn msgInfo).length = msgInfo.msg.msgSize := by
  unfold encodeBody Connection.encrypt
  split
  · rw [Crypter.length_encrypt, Payload.length_data]
  · exact Payload.length_data _

@[simp]
theorem length_messageHead (conn : Connection μ) (msgInfo : SendMessageInfo) :
    (messageHead conn msgInfo).length = messageHeadSize :=
  length_encodeHead ..

theorem field_messageHead (conn : Connection μ) (msgInfo : SendMessageInfo)
    (h : msgInfo.msg.msgSize < 2 ^ 32) :
    field (messageHead conn msgInfo) 0 4 = msgInfo.msg.msgSize := by
  unfold messageHead encodeHead
  rw [field_append_left (by simp), beVal_beBytes]
  exact Nat.mod_eq_of_lt h

/-- The arguments of one call of `send`, with the two readings of `isOpen()` in
it. -/
structure SendCall where
  isOpen₁ : Bool
  isOpen₂ : Bool
  type : Int32
  needCrypt : Bool
  needBuffer : Bool
  tag : UInt16
  msg : Payload
  deriving DecidableEq, Repr

def SendCall.info (call : SendCall) (serial : UInt32) : SendMessageInfo :=
  ⟨call.type, call.needCrypt, call.tag, serial, call.msg⟩

/-- `msgBuffer_->insertMessage` or `msgBuffer_->jumpToSerial`, whose results
`send` ignores. -/
def recordSend (needBuffer : Bool) (info : SendMessageInfo) (b : MessageBuffer) : MessageBuffer :=
  if needBuffer then (b.insertMessage info).2 else (b.jumpToSerial info.serial).2

/-- `send` past its first block: number and record the message, and queue it if
the connection is still open. -/
def Connection.number (conn : Connection μ) (call : SendCall) :
    Connection μ × Option SendMessageInfo :=
  if 0 < call.type ∧ conn.terminal.enableSerial then
    let info := call.info (conn.lastSendSerial + 1)
    ({ conn with lastSendSerial := info.serial,
                 msgBuffer := conn.msgBuffer.map (recordSend call.needBuffer info) },
      if call.isOpen₂ then some info else none)
  else (conn, if call.isOpen₂ then some (call.info 0) else none)

/-- `MessageTerminal::Connection::send`: the connection afterwards and the
message handed to the sender's queue. -/
def Connection.send (conn : Connection μ) (call : SendCall) :
    Option (Connection μ × Option SendMessageInfo) :=
  if call.isOpen₁ then some (conn.number call)
  else if call.type < 0 ∨ conn.msgBuffer.isNone then some (conn, none)
  -- assert(terminal_->enableSerial_)
  else if !conn.terminal.enableSerial then none
  else if !call.needBuffer then some (conn, none)
  else some (conn.number call)

def jumpSerialInfo (serial : UInt32) : SendMessageInfo :=
  ⟨msgTypeJumpSerial, false, 0, serial, .raw none⟩

/-- The traversal in `resend`, message `i` under the reading `isOpen i`. -/
def resendLoop (isOpen : ℕ → Bool) :
    ℕ → UInt32 → List SendMessageInfo → List SendMessageInfo
  | _, _, [] => []
  | i, lastSerial, m :: rest =>
    if isOpen i then
      (if 0 < lastSerial ∧ m.serial ≠ lastSerial + 1 then [jumpSerialInfo (m.serial - 1)] else [])
        ++ m :: resendLoop isOpen (i + 1) m.serial rest
    else []

/-- `MessageTerminal::Connection::resend`: what it hands to the sender's queue. -/
def Connection.resend (conn : Connection μ) (isOpen : ℕ → Bool) : List SendMessageInfo :=
  match conn.msgBuffer with
  | some b => resendLoop isOpen 0 0 b.bufMsglink
  | none => []

def Connection.scrapMessages (conn : Connection μ) (serial : UInt32) : Connection μ :=
  { conn with msgBuffer := conn.msgBuffer.map (·.scrapMessages serial) }

end Corpc.Message
