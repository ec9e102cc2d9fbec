/-
# Messages arrive as they were sent

`Connection::send` numbers a message, `encode` makes a frame of it, and `decode` makes a worker
task of the frame at the peer.
-/

import Corpc.Message.Decoder
import Corpc.Message.InPlace
import Corpc.Pipeline.RoundTrip
import Corpc.Wire.Crypter
import Corpc.Wire.Protobuf

namespace Corpc.Message

open Corpc.Basis Wire Pipeline List Option

variable {δ μ : Type}

/-- `heartbeatmsg_` of the `Heartbeater`. -/
def heartbeatInfo : SendMessageInfo := ⟨msgTypeHeartbeat, false, 0, 0, .raw none⟩

/-- What is handed to the sender's queue: a message by `send`, or a heartbeat by the
`Heartbeater`. -/
inductive Posting
  | message (call : SendCall)
  | heartbeat
  deriving DecidableEq, Repr

/-- The size that `encode` takes from `GetCachedSize` is that of the message. -/
def Posting.UpToDate : Posting → Prop
  | .message call => call.msg.UpToDate
  | .heartbeat => True

/-- The two places that hand an item to the sender's queue. -/
def Connection.post (conn : Connection μ) : Posting → Option (Connection μ × Option SendMessageInfo)
  | .message call => conn.send call
  | .heartbeat => some (conn, some heartbeatInfo)

/-- `post` one after the other; the queue is what they have handed over. -/
def Connection.postAll (conn : Connection μ) :
    List Posting → Option (Connection μ × List SendMessageInfo)
  | [] => some (conn, [])
  | p :: ps =>
    (conn.post p).bind fun r => (r.1.postAll ps).map fun q => (q.1, r.2.toList ++ q.2)

/-- The receiver at frames with the times they are decoded at.  As in `upflow`, a decode
error ends it. -/
def decodeAll (conn : Connection μ) :
    List (ℕ × List UInt8 × List UInt8) → Option (Connection μ × List (MessageWorkerTask μ))
  | [] => some (conn, [])
  | (mtime, head, body) :: frames =>
    (decode mtime conn head body).bind fun r =>
      if r.1.decodeError then none
      else (decodeAll r.1 frames).map fun q => (q.1, r.2.toList ++ q.2)

/-- A posting and what happens to it; `conn` is the sender's connection as `encode` finds it,
`content` what the receiver should make of its body. -/
structure Sending (μ : Type) where
  posting : Posting
  conn : Connection μ
  space : ℕ
  mtime : ℕ
  content : TaskMsg μ

/-- The frames that `encode` makes of the queue. -/
def encodeAll : List (Sending μ) → List SendMessageInfo →
    Option (List (ℕ × List UInt8 × List UInt8))
  | s :: sendings, info :: infos =>
    (encodedFrame messageHeadSize (encode s.conn info s.space [] 0)).bind fun frame =>
      (encodeAll sendings infos).map ((s.mtime, frame) :: ·)
  | [], [] => some []
  | _ :: _, [] | [], _ :: _ => none

/-- The task that the worker of the receiver should get. -/
def Sending.task (s : Sending μ) : Option (MessageWorkerTask μ) :=
  let reqSerial := if s.conn.terminal.enableSerial then s.conn.recvSerial else 0
  match s.posting with
  | .message call => some ⟨call.type, call.tag, reqSerial, false, s.content⟩
  | .heartbeat =>
    if s.conn.terminal.enableSerial then some ⟨msgTypeHeartbeat, 0, reqSerial, false, .null⟩
    else none

/-- **The receiver knows a message**, and what its content is: registered with the
prototype of the message, registered without one and empty, or left to
`otherMessageHandle_`. -/
inductive Known (pb : Protobuf δ μ) (terminal : MessageTerminal μ) (type : Int32) (msg : Payload) :
    TaskMsg μ → Prop
  | registered (m : μ)
      (entry : terminal.registerMessageMap.lookup type =
        some ⟨some (pb.parseFromArray (pb.descriptor m)), false⟩)
      (bytes : msg.bytes = pb.serialize m) : Known pb terminal type msg (.proto m)
  | empty (entry : terminal.registerMessageMap.lookup type = some ⟨none, false⟩)
      (bytes : msg.bytes = []) : Known pb terminal type msg .null
  | other (entry : terminal.registerMessageMap.lookup type = none)
      (handle : terminal.otherMessageHandle = true) : Known pb terminal type msg (.raw msg.bytes)

/-- A call of `send` on an open connection with a message that the receiver knows. -/
structure SendCall.Admissible (pb : Protobuf δ μ) (terminal : MessageTerminal μ) (call : SendCall)
    (content : TaskMsg μ) : Prop where
  isOpen : call.isOpen₁ = true ∧ call.isOpen₂ = true
  type : 0 < call.type
  length : call.msg.bytes.length ≤ maxMessageSize
  known : Known pb terminal call.type call.msg content

/-- A sending between two terminals: `encode` finds the sender's terminal and crypter and
has space for the head. -/
structure Sending.Admissible (pb : Protobuf δ μ) (key : XorKey)
    (sendTerminal recvTerminal : MessageTerminal μ) (s : Sending μ) : Prop where
  terminal : s.conn.terminal = sendTerminal
  crypter : s.conn.crypter = some (simpleXORCrypter key)
  space : messageHeadSize ≤ s.space
  message : ∀ call, s.posting = .message call → call.Admissible pb recvTerminal s.content

/-- **What the two ends agree on.** -/
structure Linked (key : XorKey) (sender receiver : Connection μ) : Prop where
  enableSerial : sender.terminal.enableSerial = receiver.terminal.enableSerial
  crc : receiver.terminal.enableRecvCRC = true → sender.terminal.enableSendCRC = true
  crypter : receiver.crypter = some (simpleXORCrypter key)
  serial : receiver.terminal.enableSerial = true → receiver.recvSerial = sender.lastSendSerial
  decodeError : receiver.decodeError = false

theorem decodeRegistered_known {pb : Protobuf δ μ} {conn : Connection μ} {head : List UInt8}
    {msg : Payload} {content : TaskMsg μ} (h : Known pb conn.terminal (headType head) msg content)
    (reqSerial : UInt32) :
    decodeRegistered conn head msg.bytes reqSerial =
      some (conn, some ⟨headType head, headTag head, reqSerial, false, content⟩) := by
  rcases h with ⟨m, hentry, hbytes⟩ | ⟨hentry, hbytes⟩ | ⟨hentry, hhandle⟩
  · simp [decodeRegistered, hentry, hbytes, pb.parse_serialize]
  · simp [decodeRegistered, hentry, hbytes]
  · simp [decodeRegistered, hentry, hhandle]

/-- **A wrong size shows**: bytes a cached size has cut or filled up do not give the content. -/
theorem upToDate_of_decodeRegistered {pb : Protobuf δ μ} (hpb : pb.Exact)
    {conn conn' : Connection μ}
    {head : List UInt8} {msg : Payload} {content : TaskMsg μ}
    (h : Known pb conn.terminal (headType head) msg content) {reqSerial : UInt32}
    {task : MessageWorkerTask μ}
    (hdec : decodeRegistered conn head msg.data reqSerial = some (conn', some task))
    (htask : task.msg = content) : msg.UpToDate := by
  rcases h with ⟨m, hentry, hbytes⟩ | ⟨hentry, hbytes⟩ | ⟨hentry, hhandle⟩
  · rcases msg with raw | msg
    · trivial
    have hparse : pb.parseFromArray (pb.descriptor m) (Payload.proto msg).data = some m := by
      rcases hp : pb.parseFromArray (pb.descriptor m) (Payload.proto msg).data with _ | m'
      · simp [decodeRegistered, hentry, hp] at hdec
      · simp only [decodeRegistered, hentry, hp, Bool.false_eq_true, if_false, some.injEq,
          Prod.mk.injEq] at hdec
        rw [← hdec.2] at htask
        cases htask
        rfl
    refine Payload.upToDate_of_length ?_
    rw [Payload.length_data, hbytes]
    change msg.bytes = pb.serialize m at hbytes
    exact hpb m msg.msgSize (by rwa [← hbytes])
  · refine Payload.upToDate_of_length ?_
    by_cases hdata : msg.data = []
    · rw [hdata, hbytes]
    · simp [decodeRegistered, hentry, hdata] at hdec
  · refine Payload.upToDate_of_length ?_
    simp only [decodeRegistered, hentry, hhandle, if_true, some.injEq, Prod.mk.injEq] at hdec
    rw [← hdec.2] at htask
    rw [TaskMsg.raw.inj htask]

section Message

variable {pb : Protobuf δ μ} {key : XorKey} {sender receiver conn : Connection μ}
  {info : SendMessageInfo} {content : TaskMsg μ}

/-- **The checks of the body pass** at a frame of `encode`; its bytes are those that `encode` took
from the message. -/
theorem decodeBody_frame (hcrc : receiver.terminal.enableRecvCRC = true →
      conn.terminal.enableSendCRC = true)
    (hcrypter : info.needCrypt = true → ∃ key, conn.crypter = some (simpleXORCrypter key) ∧
      receiver.crypter = some (simpleXORCrypter key)) (reqSerial : UInt32) :
    decodeBody receiver (messageHead conn info) (encodeBody conn info) reqSerial =
      decodeRegistered receiver (messageHead conn info) info.msg.data reqSerial := by
  have hsum : ¬(receiver.terminal.enableRecvCRC ∧
      headCrc (messageHead conn info) ≠ checkSum (encodeBody conn info) 0xFFFF) := by
    rintro ⟨hr, hne⟩
    exact hne (by simp [messageHead, hcrc hr])
  rw [decodeBody, if_neg hsum]
  rcases hcrypt : info.needCrypt with _ | _
  · have hflag : headFlag (messageHead conn info) &&& messageFlagCrypt = 0 := by
      simp [messageHead, hcrypt]
    have hbody : encodeBody conn info = info.msg.data := by
      simp [encodeBody, Connection.encrypt, hcrypt]
    rw [if_neg (not_not.2 hflag), hbody]
  · obtain ⟨key, hconn, hrecv⟩ := hcrypter hcrypt
    have hflag : headFlag (messageHead conn info) &&& messageFlagCrypt ≠ 0 := by
      simp [messageHead, hcrypt, messageFlagCrypt]
    have hbody : (simpleXORCrypter key).decrypt (encodeBody conn info) = info.msg.data := by
      simp [encodeBody, Connection.encrypt, hcrypt, hconn, decrypt_encrypt]
    rw [if_pos hflag, hrecv]
    dsimp only
    rw [hbody]

/-- `decode` counts a message before it looks at it. -/
def Connection.count (conn : Connection μ) : Connection μ :=
  if conn.terminal.enableSerial then { conn with recvSerial := conn.recvSerial + 1 } else conn

@[simp]
theorem terminal_count (conn : Connection μ) : conn.count.terminal = conn.terminal := by
  unfold Connection.count
  split_ifs <;> rfl

/-- **What `decode` makes of a frame of `encode`** that has the serial it expects. -/
theorem decode_frame (hserials : conn.terminal.enableSerial = receiver.terminal.enableSerial)
    (hcrc : receiver.terminal.enableRecvCRC = true → conn.terminal.enableSendCRC = true)
    (hcrypter : info.needCrypt = true → ∃ key, conn.crypter = some (simpleXORCrypter key) ∧
      receiver.crypter = some (simpleXORCrypter key)) (htype : 0 ≤ info.type)
    (hserial : receiver.terminal.enableSerial = true → info.serial = receiver.recvSerial + 1)
    (mtime : ℕ) :
    decode mtime receiver (messageHead conn info) (encodeBody conn info) =
      decodeRegistered receiver.count (messageHead conn info) info.msg.data
        (if conn.terminal.enableSerial then conn.recvSerial else 0) := by
  have hneg : ¬headType (messageHead conn info) < 0 := by
    rw [messageHead, headType_encodeHead]
    exact Int32.not_lt.2 htype
  rw [decode, if_neg hneg, hserials, Connection.count]
  by_cases hs : receiver.terminal.enableSerial = true
  · have hhead : headSerial (messageHead conn info) = receiver.recvSerial + 1 := by
      rw [messageHead, headSerial_encodeHead, hserial hs]
    have hreq : headReqSerial (messageHead conn info) = conn.recvSerial := by
      rw [messageHead, headReqSerial_encodeHead]
    simp only [hs, if_true]
    rw [if_neg (not_not.2 hhead.symm), hreq]
    exact @decodeBody_frame _ { receiver with recvSerial := receiver.recvSerial + 1 } _ _ hcrc
      hcrypter _
  · simp only [hs]
    exact decodeBody_frame hcrc hcrypter 0

theorem decode_heartbeat (mtime : ℕ) (body : List UInt8) :
    decode mtime receiver (messageHead conn heartbeatInfo) body =
      some ({ receiver with lastRecvHBTime := mtime }, if receiver.terminal.enableSerial then
          some ⟨msgTypeHeartbeat, 0, conn.recvSerial, false, .null⟩
        else none) := by
  have htype : headType (messageHead conn heartbeatInfo) = msgTypeHeartbeat := by
    rw [messageHead, headType_encodeHead]
    rfl
  have hreq : headReqSerial (messageHead conn heartbeatInfo) = conn.recvSerial := by
    rw [messageHead, headReqSerial_encodeHead]
  rw [decode, if_pos (htype ▸ by decide), decodeSystem, if_pos htype, hreq]
  dsimp only
  split_ifs <;> rfl

theorem send_open {call : SendCall} (hopen : call.isOpen₁ = true ∧ call.isOpen₂ = true)
    (htype : 0 < call.type) (sender : Connection μ) :
    ∃ sender', sender.send call = some (sender', some (call.info
        (if sender.terminal.enableSerial then sender.lastSendSerial + 1 else 0))) ∧
      sender'.terminal = sender.terminal ∧
      (sender.terminal.enableSerial = true →
        sender'.lastSendSerial = sender.lastSendSerial + 1) := by
  obtain ⟨hopen₁, hopen₂⟩ := hopen
  simp only [Connection.send, hopen₁, if_true, Connection.number, hopen₂]
  by_cases hs : sender.terminal.enableSerial = true
  · rw [if_pos ⟨htype, hs⟩, if_pos hs]
    exact ⟨_, rfl, rfl, fun _ => rfl⟩
  · rw [if_neg fun h => hs h.2, if_neg hs]
    exact ⟨_, rfl, rfl, fun h => absurd h hs⟩

end Message

section Exchange

variable {pb : Protobuf δ μ} {key : XorKey} {sender receiver : Connection μ} {s : Sending μ}

/-- **What one sending comes to**: it is queued and `encode` makes a frame of it.  If the size is
right, the frame is decoded into its task and the two ends still agree; otherwise an exact parser
does not make that task of it. -/
structure Exchanged (pb : Protobuf δ μ) (key : XorKey) (sender receiver : Connection μ)
    (s : Sending μ) (sender' : Connection μ) (info : SendMessageInfo)
    (frame : List UInt8 × List UInt8) : Prop where
  posted : sender.post s.posting = some (sender', some info)
  encoded : encodedFrame messageHeadSize (encode s.conn info s.space [] 0) = some frame
  terminal : sender'.terminal = sender.terminal
  arrives : s.posting.UpToDate → ∃ receiver',
    decode s.mtime receiver frame.1 frame.2 = some (receiver', s.task) ∧
      Linked key sender' receiver' ∧ receiver'.terminal = receiver.terminal
  upToDate : pb.Exact → ∀ receiver' task tasks tasks',
    decode s.mtime receiver frame.1 frame.2 = some (receiver', task) →
    receiver'.decodeError = false → task.toList ++ tasks = s.task.toList ++ tasks' →
    s.posting.UpToDate

/-- There is space for the head, so `encode` makes a frame. -/
theorem encodedFrame_admissible {sendTerminal recvTerminal : MessageTerminal μ}
    (hs : s.Admissible pb key sendTerminal recvTerminal) (info : SendMessageInfo) :
    encodedFrame messageHeadSize (encode s.conn info s.space [] 0) =
      some (messageHead s.conn info, encodeBody s.conn info) := by
  have hcrypter : ¬(info.needCrypt = true ∧ s.conn.crypter.isNone) := by simp [hs.crypter]
  exact (encodes_encodeBody (d := (s.conn, info)) hcrypter).encodedFrame_eq hs.space

section

variable (hl : Linked key sender receiver)
  (hs : s.Admissible pb key sender.terminal receiver.terminal)
include hl hs

theorem exchange_heartbeat (hp : s.posting = .heartbeat) :
    ∃ sender' info frame, Exchanged pb key sender receiver s sender' info frame := by
  refine ⟨sender, heartbeatInfo, _, by rw [hp]; rfl, encodedFrame_admissible hs _, rfl,
    fun _ => ?_, fun _ _ _ _ _ _ _ _ => by rw [hp]; trivial⟩
  refine ⟨{ receiver with lastRecvHBTime := s.mtime }, ?_,
    ⟨hl.enableSerial, hl.crc, hl.crypter, hl.serial, hl.decodeError⟩, rfl⟩
  rw [decode_heartbeat, Sending.task, hp, hs.terminal, hl.enableSerial]
  dsimp only
  split_ifs <;> rfl

theorem exchange_message {call : SendCall} (hp : s.posting = .message call) :
    ∃ sender' info frame, Exchanged pb key sender receiver s sender' info frame := by
  have hc := hs.message call hp
  obtain ⟨sender', hsend, hterm, hlast⟩ := send_open hc.isOpen hc.type sender
  rw [hl.enableSerial] at hsend hlast
  generalize hinfo : call.info _ = info at hsend
  have htype : info.type = call.type := by rw [← hinfo]; rfl
  have hmsg : info.msg = call.msg := by rw [← hinfo]; rfl
  have hserial : receiver.terminal.enableSerial = true → info.serial = receiver.recvSerial + 1 := by
    intro h
    rw [← hinfo, if_pos h, hl.serial h]
    rfl
  have hcrc : receiver.terminal.enableRecvCRC = true → s.conn.terminal.enableSendCRC = true := by
    rw [hs.terminal]
    exact hl.crc
  have hdec := decode_frame (by rw [hs.terminal, hl.enableSerial]) hcrc
    (fun _ => ⟨key, hs.crypter, hl.crypter⟩) (htype ▸ Int32.le_of_lt hc.type) hserial s.mtime
  have hhead : headType (messageHead s.conn info) = call.type := by
    rw [messageHead, headType_encodeHead, htype]
  have htag : headTag (messageHead s.conn info) = call.tag := by
    rw [messageHead, headTag_encodeHead, ← hinfo]
    rfl
  have hknown : Known pb receiver.count.terminal (headType (messageHead s.conn info)) info.msg
      s.content := by
    rw [terminal_count, hhead, hmsg]
    exact hc.known
  have htask : s.task = some ⟨call.type, call.tag,
      if s.conn.terminal.enableSerial then s.conn.recvSerial else 0, false, s.content⟩ := by
    rw [Sending.task, hp]
  refine ⟨sender', info, _, by rw [hp]; exact hsend, encodedFrame_admissible hs info, hterm,
    fun hup => ⟨receiver.count, ?_, ?_, terminal_count receiver⟩, ?_⟩
  · rw [hp, Posting.UpToDate, ← hmsg] at hup
    rw [hdec, Payload.data_of_upToDate hup, decodeRegistered_known hknown, htask, hhead, htag]
  · unfold Connection.count
    split_ifs with hser
    · refine ⟨hterm ▸ hl.enableSerial, hterm ▸ hl.crc, hl.crypter, fun _ => ?_, hl.decodeError⟩
      rw [hlast hser, hl.serial hser]
    · exact ⟨hterm ▸ hl.enableSerial, hterm ▸ hl.crc, hl.crypter, fun h => absurd h hser,
        hl.decodeError⟩
  · intro hpb receiver' task tasks tasks' htaken herr heq
    have hsome : task.isSome = true := by
      rcases decode_outcome htaken with hneg | hsome | hfail
      · rw [hhead] at hneg
        exact (Int32.lt_irrefl (Int32.lt_trans hc.type hneg)).elim
      · exact hsome
      · rw [herr] at hfail
        cases hfail
    obtain ⟨task, rfl⟩ := isSome_iff_exists.1 hsome
    rw [htask] at heq
    have hcontent : task.msg = s.content := by rw [(cons.inj heq).1]
    rw [hdec] at htaken
    rw [hp, Posting.UpToDate, ← hmsg]
    exact upToDate_of_decodeRegistered hpb hknown htaken hcontent

theorem exchange :
    ∃ sender' info frame, Exchanged pb key sender receiver s sender' info frame := by
  rcases hp : s.posting with call | _
  · exact exchange_message hl hs hp
  · exact exchange_heartbeat hl hs hp

end

/-- Every sending of the sequence arrives, as one task or, for a heartbeat without serials, as
none. -/
def Arrive (sender receiver : Connection μ) (sendings : List (Sending μ)) : Prop :=
  ∃ sender' infos frames receiver',
    sender.postAll (sendings.map Sending.posting) = some (sender', infos) ∧
    encodeAll sendings infos = some frames ∧
    decodeAll receiver frames = some (receiver', sendings.filterMap Sending.task) ∧
    receiver'.decodeError = false

theorem Arrive.cons {sendings : List (Sending μ)} {sender' receiver' : Connection μ}
    {info : SendMessageInfo} {frame : List UInt8 × List UInt8}
    (he : Exchanged pb key sender receiver s sender' info frame)
    (hdec : decode s.mtime receiver frame.1 frame.2 = some (receiver', s.task))
    (herr : receiver'.decodeError = false) (h : Arrive sender' receiver' sendings) :
    Arrive sender receiver (s :: sendings) := by
  obtain ⟨sender₂, infos, frames, receiver₂, hposts, hframes, hdecs, herr₂⟩ := h
  refine ⟨sender₂, info :: infos, (s.mtime, frame) :: frames, receiver₂, ?_, ?_, ?_, herr₂⟩
  · simp [Connection.postAll, he.posted, hposts]
  · simp [encodeAll, he.encoded, hframes]
  · rw [decodeAll, hdec, bind_some, if_neg (by simp [herr]), hdecs, map_some, filterMap_cons]
    rcases s.task with _ | task <;> rfl

theorem Arrive.uncons (hpb : pb.Exact) {sendings : List (Sending μ)} {sender' : Connection μ}
    {info : SendMessageInfo} {frame : List UInt8 × List UInt8}
    (he : Exchanged pb key sender receiver s sender' info frame)
    (h : Arrive sender receiver (s :: sendings)) :
    s.posting.UpToDate ∧ ∀ receiver',
      decode s.mtime receiver frame.1 frame.2 = some (receiver', s.task) →
      Arrive sender' receiver' sendings := by
  obtain ⟨sender₂, infos, frames, receiver₂, hposts, hframes, hdecs, herr₂⟩ := h
  rw [map_cons, Connection.postAll, he.posted, bind_some] at hposts
  obtain ⟨⟨_, infos'⟩, hposts', heq⟩ := map_eq_some_iff.1 hposts
  cases heq
  rw [toList_some, singleton_append, encodeAll, he.encoded, bind_some]
    at hframes
  obtain ⟨frames', hframes', rfl⟩ := map_eq_some_iff.1 hframes
  rw [decodeAll] at hdecs
  obtain ⟨⟨receiver₁, task⟩, hdec, hrest⟩ := bind_eq_some_iff.1 hdecs
  obtain ⟨herr₁, hrest⟩ := ite_none_left_eq_some.1 hrest
  obtain ⟨⟨_, tasks⟩, hdecs', heq⟩ := map_eq_some_iff.1 hrest
  obtain ⟨rfl, htasks⟩ := Prod.mk.inj heq
  have hexpected : (s :: sendings).filterMap Sending.task =
      s.task.toList ++ sendings.filterMap Sending.task := by
    rw [filterMap_cons]
    rcases s.task with _ | task <;> rfl
  rw [hexpected] at htasks
  refine ⟨he.upToDate hpb _ _ _ _ hdec (by simpa using herr₁) htasks, fun receiver' hdec' => ?_⟩
  rw [hdec] at hdec'
  cases hdec'
  have htail : tasks = sendings.filterMap Sending.task := append_cancel_left htasks
  exact ⟨_, infos', frames', _, hposts', hframes', by rw [hdecs', htail], herr₂⟩

section

variable {sendings : List (Sending μ)}

theorem arrive_of_upToDate (hl : Linked key sender receiver)
    (hs : ∀ s ∈ sendings, s.Admissible pb key sender.terminal receiver.terminal)
    (hup : ∀ s ∈ sendings, s.posting.UpToDate) : Arrive sender receiver sendings := by
  induction sendings generalizing sender receiver with
  | nil => exact ⟨sender, [], [], receiver, rfl, rfl, rfl, hl.decodeError⟩
  | cons s sendings ih =>
    rw [forall_mem_cons] at hs hup
    obtain ⟨sender₁, info, frame, he⟩ := exchange hl hs.1
    obtain ⟨receiver₁, hdec, hl₁, hrt⟩ := he.arrives hup.1
    refine .cons he hdec hl₁.decodeError (ih hl₁ ?_ hup.2)
    rw [he.terminal, hrt]
    exact hs.2

theorem upToDate_of_arrive (hpb : pb.Exact) (hl : Linked key sender receiver)
    (hs : ∀ s ∈ sendings, s.Admissible pb key sender.terminal receiver.terminal)
    (h : Arrive sender receiver sendings) : ∀ s ∈ sendings, s.posting.UpToDate := by
  induction sendings generalizing sender receiver with
  | nil => simp
  | cons s sendings ih =>
    rw [forall_mem_cons] at hs ⊢
    obtain ⟨sender₁, info, frame, he⟩ := exchange hl hs.1
    obtain ⟨hup, htail⟩ := h.uncons hpb he
    obtain ⟨receiver₁, hdec, hl₁, hrt⟩ := he.arrives hup
    refine ⟨hup, ih hl₁ ?_ (htail receiver₁ hdec)⟩
    rw [he.terminal, hrt]
    exact hs.2

end

end Exchange

/-- **Round trip of messages**, whatever space `encode` gets and whatever serial it reports: the
sequence arrives if the cached size of every message is right and, where the parser is exact, only
then.  In any case `encode` leaves the message as it was. -/
theorem message_round_trip {pb : Protobuf δ μ} {key : XorKey} {sender receiver : Connection μ}
    {sendings : List (Sending μ)} (hl : Linked key sender receiver)
    (hs : ∀ s ∈ sendings, s.Admissible pb key sender.terminal receiver.terminal) :
    ((∀ s ∈ sendings, s.posting.UpToDate) → Arrive sender receiver sendings) ∧
    (pb.Exact → Arrive sender receiver sendings → ∀ s ∈ sendings, s.posting.UpToDate) ∧
    ∀ (conn : Connection μ) (info : SendMessageInfo) (mem : Area → List UInt8) (sentNum : ℕ),
      mem .msg = info.msg.bytes →
      (encode conn info (mem .buf).length (mem .downflowBuf) sentNum =
        match encodeInto conn info (mem .buf).length mem sentNum with
        | some w => .wrote ((w.mem .buf).take w.size) (w.mem .downflowBuf) w.downflowBufSentNum
        | none => .failed) ∧
      ∀ w, encodeInto conn info (mem .buf).length mem sentNum = some w → w.mem .msg = mem .msg := by
  refine ⟨arrive_of_upToDate hl hs, fun hpb => upToDate_of_arrive hpb hl hs,
    fun conn info mem sentNum hmsg => ?_⟩
  exact ⟨encode_eq_encodeInto rfl hmsg sentNum, fun w hw => encodeInto_msg hw⟩

def twoByteKey : XorKey := ⟨[0x5A, 0xC3], by simp⟩

/-- A connection of a terminal that uses serials and checksums, knows messages of type 5 and
leaves the others to `otherMessageHandle_`. -/
def serialEnd : Connection (ℕ × List UInt8) where
  terminal := ⟨true, true, true, [(5, ⟨some ((Protobuf.ofBytes ℕ).parseFromArray 1), false⟩)], true⟩
  crypter := some (simpleXORCrypter twoByteKey)
  msgBuffer := none
  recvSerial := 0xFFFFFFFF
  lastSendSerial := 0xFFFFFFFF
  decodeError := false
  lastRecvHBTime := 0

theorem linked_serialEnd : Linked twoByteKey serialEnd serialEnd :=
  ⟨rfl, fun _ => rfl, rfl, fun _ => rfl, rfl⟩

/-- A protobuf message, a heartbeat and a raw message; the first is spilled. -/
def threeSendings : List (Sending (ℕ × List UInt8)) :=
  [⟨.message ⟨true, true, 5, true, false, 9, .proto ⟨[1, 2, 3], 3⟩⟩,
      { serialEnd with recvSerial := 7 }, 22, 0, .proto (1, [1, 2, 3])⟩,
    ⟨.heartbeat, { serialEnd with recvSerial := 8 }, 40, 1, .null⟩,
    ⟨.message ⟨true, true, 6, false, false, 0, .raw (some [4])⟩,
      { serialEnd with recvSerial := 9 }, 40, 2, .raw [4]⟩]

theorem message_round_trip_three : (Protobuf.ofBytes ℕ).Exact ∧ (∃ sender' infos frames receiver',
      serialEnd.postAll (threeSendings.map Sending.posting) = some (sender', infos) ∧
      encodeAll threeSendings infos = some frames ∧
      decodeAll serialEnd frames = some (receiver',
        [⟨5, 9, 7, false, .proto (1, [1, 2, 3])⟩, ⟨msgTypeHeartbeat, 0, 8, false, .null⟩,
          ⟨6, 0, 9, false, .raw [4]⟩]) ∧
      receiver'.decodeError = false) ∧
    serialEnd.recvSerial + 1 = 0 := by
  have hs : ∀ s ∈ threeSendings, s.Admissible (.ofBytes ℕ) twoByteKey serialEnd.terminal
      serialEnd.terminal := by
    simp only [threeSendings, mem_cons, not_mem_nil, or_false]
    rintro s (rfl | rfl | rfl)
    · refine ⟨rfl, rfl, by decide, fun call hcall => ?_⟩
      cases hcall
      exact ⟨⟨rfl, rfl⟩, by decide, by decide, .registered (1, [1, 2, 3]) rfl rfl⟩
    · exact ⟨rfl, rfl, by decide, by nofun⟩
    · refine ⟨rfl, rfl, by decide, fun call hcall => ?_⟩
      cases hcall
      exact ⟨⟨rfl, rfl⟩, by decide, by decide, .other rfl rfl⟩
  have hup : ∀ s ∈ threeSendings, s.posting.UpToDate := by
    simp only [threeSendings, forall_mem_cons]
    exact ⟨.inr rfl, trivial, trivial, by simp⟩
  exact ⟨Protobuf.exact_ofBytes ℕ, (message_round_trip linked_serialEnd hs).1 hup, by decide⟩

/-- A message that was two bytes long when its size was computed, and now has three. -/
def grownSending : Sending (ℕ × List UInt8) :=
  ⟨.message ⟨true, true, 6, false, false, 0, .proto ⟨[1, 2, 3], 2⟩⟩, serialEnd, 40, 0,
    .raw [1, 2, 3]⟩

/-- **A message that has grown since its size was computed arrives cut off**, and nothing is
noticed. -/
theorem grown_message_cut :
    grownSending.Admissible (.ofBytes ℕ) twoByteKey serialEnd.terminal serialEnd.terminal ∧
    ∃ sender' infos frames receiver',
      serialEnd.postAll [grownSending.posting] = some (sender', infos) ∧
      encodeAll [grownSending] infos = some frames ∧
      decodeAll serialEnd frames = some (receiver', [⟨6, 0, 0xFFFFFFFF, false, .raw [1, 2]⟩]) ∧
      receiver'.decodeError = false := by
  have hs : grownSending.Admissible (.ofBytes ℕ) twoByteKey serialEnd.terminal
      serialEnd.terminal := by
    refine ⟨rfl, rfl, by decide, fun call hcall => ?_⟩
    cases hcall
    exact ⟨⟨rfl, rfl⟩, by decide, by decide, .other rfl rfl⟩
  let info : SendMessageInfo := ⟨6, false, 0, 0, .proto ⟨[1, 2, 3], 2⟩⟩
  have hframe := encodedFrame_admissible hs info
  have hdec : decode 0 serialEnd (messageHead serialEnd info) (encodeBody serialEnd info) =
      decodeRegistered serialEnd.count (messageHead serialEnd info) [1, 2] serialEnd.recvSerial :=
    decode_frame rfl (fun _ => rfl) (by nofun) (by decide) (fun _ => rfl) 0
  refine ⟨hs, _, [info], [(0, messageHead serialEnd info, encodeBody serialEnd info)],
    serialEnd.count, rfl, ?_, ?_, rfl⟩
  · rw [encodeAll, hframe]
    rfl
  · have htype : headType (messageHead serialEnd info) = 6 := by
      rw [messageHead, headType_encodeHead]
    have htag : headTag (messageHead serialEnd info) = 0 := by rw [messageHead, headTag_encodeHead]
    rw [decodeAll, hdec, decodeRegistered, htype, htag]
    rfl

end Corpc.Message
