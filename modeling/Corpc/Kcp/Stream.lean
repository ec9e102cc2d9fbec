/-
# The stream of a KCP server

What the server's KCP path sends: messages, heartbeats and the jump frames of `resend`, each as
`encode` finds it.
-/

import Corpc.Kcp.Client

namespace Corpc.Kcp

open Corpc.Basis Wire Message Pipeline

variable {δ μ : Type}

/-- What the sender's queue holds; `content` is what a C++ peer makes of a message. -/
inductive Item (μ : Type)
  | message (info : SendMessageInfo) (content : TaskMsg μ)
  | heartbeat
  | jump (serial : UInt32)

namespace Item

/-- What `encode` gets. -/
def info : Item μ → SendMessageInfo
  | .message info _ => info
  | .heartbeat => heartbeatInfo
  | .jump serial => jumpSerialInfo serial

/-- The serial of the sender behind the item, if it was `r` before. -/
def next (enableSerial : Bool) (r : UInt32) : Item μ → UInt32
  | .message info _ => if enableSerial = true ∧ 0 < info.type then r + 1 else r
  | .heartbeat => r
  | .jump serial => serial

/-- The item is what `send` and `resend` put behind serial `r`: the next message, a message of type
0, which has serial 0 and is not the next, or a jump forward. -/
def Follows (enableSerial : Bool) (r : UInt32) : Item μ → Prop
  | .message info _ => enableSerial = true → (info.serial = r + 1 ↔ 0 < info.type)
  | .heartbeat => True
  | .jump serial => r < serial

/-- A C++ peer gets on with the item: it has a serial where there are serials. -/
def Taken (enableSerial : Bool) : Item μ → Prop
  | .message info _ => enableSerial = true → 0 < info.type
  | .heartbeat => True
  | .jump _ => True

/-- The item as its frame carries it. -/
def received (serial : UInt32) (item : Item μ) : Received :=
  ⟨item.info.type, item.info.tag, some item.info.msg.data, serial⟩

end Item

/-- Every item is behind the serials of those before it. -/
def InStep (enableSerial : Bool) : UInt32 → List (Connection μ × Item μ) → Prop
  | _, [] => True
  | r, x :: items =>
    x.2.Follows enableSerial r ∧ InStep enableSerial (x.2.next enableSerial r) items

/-- The record of a receiver that takes everything. -/
def trace (enableSerial : Bool) : UInt32 → List (Connection μ × Item μ) → List Received
  | _, [] => []
  | r, x :: items =>
    x.2.received (x.2.next enableSerial r) :: trace enableSerial (x.2.next enableSerial r) items

/-- The serial behind the last item. -/
def finalSerial (enableSerial : Bool) (r : UInt32) (items : List (Connection μ × Item μ)) :
    UInt32 :=
  items.foldl (fun r x => x.2.next enableSerial r) r

/-- An item as `downflow` hands it to `encode`. -/
def queued (x : Connection μ × Item μ) : Connection μ × SendMessageInfo := (x.1, x.2.info)

/-- The frame that `encode` makes of an item. -/
def frame (d : Connection μ × SendMessageInfo) : List UInt8 × List UInt8 :=
  (messageHead d.1 d.2, encodeBody d.1 d.2)

def frameBytes (x : Connection μ × Item μ) : List UInt8 :=
  messageHead x.1 x.2.info ++ encodeBody x.1 x.2.info

/-- Everything that is sent. -/
def stream (items : List (Connection μ × Item μ)) : List UInt8 := items.flatMap frameBytes

@[simp]
theorem stream_nil : stream ([] : List (Connection μ × Item μ)) = [] := rfl

@[simp]
theorem stream_cons (x : Connection μ × Item μ) (items : List (Connection μ × Item μ)) :
    stream (x :: items) = frameBytes x ++ stream items := rfl

/-- The server, a C++ peer and a Unity client with the same settings and the same key, if any. -/
structure Peers (key : Option XorKey) (server peer : MessageTerminal μ) (client : UnityClient δ) :
    Prop where
  peerSerial : peer.enableSerial = server.enableSerial
  clientSerial : client.enableSerial = server.enableSerial
  peerCRC : peer.enableRecvCRC = true → server.enableSendCRC = true
  clientCRC : client.enableRecvCRC = true → server.enableSendCRC = true
  clientCrypter : client.crypter = key.map simpleXORCrypter

/-- A message that can be sent: the C++ peer knows what its frame carries, and the parser of the
Unity client, if it has one, reads it. -/
structure Sendable (pb : Protobuf δ μ) (key : Option XorKey) (peer : MessageTerminal μ)
    (client : UnityClient δ) (info : SendMessageInfo) (content : TaskMsg μ) : Prop where
  type : 0 ≤ info.type
  crypt : info.needCrypt = true → key.isSome = true
  length : info.msg.data.length ≤ maxMessageSize
  known : Known pb peer info.type (.raw (some info.msg.data)) content
  parses : ∀ d, client.registerTable info.type = some d →
    (pb.parseFromArray d info.msg.data).isSome = true

/-- An item of the server's queue with the connection as `encode` finds it. -/
structure Sent (pb : Protobuf δ μ) (key : Option XorKey) (server peer : MessageTerminal μ)
    (client : UnityClient δ) (x : Connection μ × Item μ) : Prop where
  terminal : x.1.terminal = server
  crypter : x.1.crypter = key.map simpleXORCrypter
  message : ∀ info content, x.2 = .message info content → Sendable pb key peer client info content

section Frames

variable {pb : Protobuf δ μ} {key : Option XorKey} {server peer : MessageTerminal μ}
  {client : UnityClient δ} {x : Connection μ × Item μ}

theorem Sent.key_of_needCrypt (h : Sent pb key server peer client x)
    (hcrypt : x.2.info.needCrypt = true) : ∃ k, key = some k := by
  rcases hx : x.2 with ⟨info, content⟩ | _ | serial
  · rw [hx] at hcrypt
    exact Option.isSome_iff_exists.1 ((h.message info content hx).crypt hcrypt)
  · rw [hx] at hcrypt
    exact absurd hcrypt (by simp [Item.info, heartbeatInfo])
  · rw [hx] at hcrypt
    exact absurd hcrypt (by simp [Item.info, jumpSerialInfo])

theorem Sent.encodes (h : Sent pb key server peer client x) :
    Encodes messageHeadSize (encodeMessage (queued x)) (frame (queued x)).1
      (frame (queued x)).2 := by
  refine encodes_encodeBody ?_
  rintro ⟨hcrypt, hnone⟩
  obtain ⟨k, hk⟩ := h.key_of_needCrypt hcrypt
  simp [queued, h.crypter, hk] at hnone

theorem Sent.framed (h : Sent pb key server peer client x) :
    Framed messageConfig (frame (queued x)) := by
  refine framed_encodeBody ?_
  rw [queued, ← Payload.length_data]
  rcases hx : x.2 with ⟨info, content⟩ | _ | serial
  · exact (h.message info content hx).length
  · exact Nat.zero_le _
  · exact Nat.zero_le _

theorem length_frameBytes (x : Connection μ × Item μ) :
    (frameBytes x).length = messageHeadSize + x.2.info.msg.data.length := by
  rw [frameBytes, List.length_append, length_messageHead, length_encodeBody, Payload.length_data]

theorem Sent.readSize (h : Sent pb key server peer client x) :
    field (messageHead x.1 x.2.info) 0 4 = x.2.info.msg.data.length := by
  rw [Payload.length_data, ← length_encodeBody x.1]
  exact h.framed.readSize

theorem taskBody_known {bytes : List UInt8} {type : Int32} {content : TaskMsg μ}
    (h : Known pb peer type (.raw (some bytes)) content) (t : Int32) (tag : UInt16)
    (reqSerial : UInt32) (banned : Bool) :
    taskBody pb (some ⟨t, tag, reqSerial, banned, content⟩) = bytes := by
  rcases h with ⟨m, -, hbytes⟩ | ⟨-, hbytes⟩ | ⟨-, -⟩
  · exact hbytes.symm
  · exact hbytes.symm
  · rfl

/-- A C++ peer that has refused nothing yet. -/
structure Good (key : Option XorKey) (peer : MessageTerminal μ) (receiver : Connection μ) :
    Prop where
  terminal : receiver.terminal = peer
  crypter : receiver.crypter = key.map simpleXORCrypter
  decodeError : receiver.decodeError = false

/-- **One item at the C++ peer.** -/
theorem decode_item (h : Sent pb key server peer client x) (hp : Peers key server peer client)
    {receiver : Connection μ} (hg : Good key peer receiver)
    (hf : x.2.Follows server.enableSerial receiver.recvSerial)
    (ht : x.2.Taken server.enableSerial) (mtime : ℕ) :
    ∃ receiver' task, decode mtime receiver (messageHead x.1 x.2.info) (encodeBody x.1 x.2.info) =
        some (receiver', task) ∧
      Good key peer receiver' ∧
      receiver'.recvSerial = x.2.next server.enableSerial receiver.recvSerial ∧
      taskBody pb task = x.2.info.msg.data := by
  have hserials : receiver.terminal.enableSerial = server.enableSerial := by
    rw [hg.terminal, hp.peerSerial]
  rcases hx : x.2 with ⟨info, content⟩ | _ | serial
  · have hm := h.message info content hx
    rw [hx] at hf ht
    have hcrc : receiver.terminal.enableRecvCRC = true → x.1.terminal.enableSendCRC = true := by
      rw [hg.terminal, h.terminal]
      exact hp.peerCRC
    have hcrypter : info.needCrypt = true → ∃ k, x.1.crypter = some (simpleXORCrypter k) ∧
        receiver.crypter = some (simpleXORCrypter k) := by
      intro hcrypt
      obtain ⟨k, hk⟩ := Option.isSome_iff_exists.1 (hm.crypt hcrypt)
      rw [h.crypter, hg.crypter, hk]
      exact ⟨k, rfl, rfl⟩
    have hserial : receiver.terminal.enableSerial = true →
        info.serial = receiver.recvSerial + 1 := by
      rw [hserials]
      exact fun hon => (hf hon).2 (ht hon)
    have htype : headType (messageHead x.1 info) = info.type := by
      rw [messageHead, headType_encodeHead]
    have hknown : Known pb receiver.count.terminal (headType (messageHead x.1 info))
        (.raw (some info.msg.data)) content := by
      rw [terminal_count, hg.terminal, htype]
      exact hm.known
    refine ⟨receiver.count, _, (decode_frame (by rw [h.terminal, hserials]) hcrc hcrypter hm.type
      hserial mtime).trans (decodeRegistered_known hknown _), ?_, ?_, taskBody_known hm.known ..⟩
    · unfold Connection.count
      split_ifs
      · exact ⟨hg.terminal, hg.crypter, hg.decodeError⟩
      · exact hg
    · rw [Connection.count, hserials, Item.next]
      by_cases hon : server.enableSerial = true
      · rw [if_pos hon, if_pos ⟨hon, ht hon⟩]
      · rw [if_neg hon, if_neg fun h => hon h.1]
  · refine ⟨_, _, decode_heartbeat mtime _, ⟨hg.terminal, hg.crypter, hg.decodeError⟩, rfl, ?_⟩
    split_ifs <;> rfl
  · rw [hx] at hf
    have htype : headType (messageHead x.1 (jumpSerialInfo serial)) = msgTypeJumpSerial := by
      rw [messageHead, headType_encodeHead]
      rfl
    have hserial : headSerial (messageHead x.1 (jumpSerialInfo serial)) = serial := by
      rw [messageHead, headSerial_encodeHead]
      rfl
    refine ⟨{ receiver with recvSerial := serial }, none, ?_,
      ⟨hg.terminal, hg.crypter, hg.decodeError⟩, rfl, rfl⟩
    have hneg : headType (messageHead x.1 (jumpSerialInfo serial)) < 0 := htype ▸ by decide
    have hheart : headType (messageHead x.1 (jumpSerialInfo serial)) ≠ msgTypeHeartbeat :=
      htype ▸ by decide
    rw [Item.info, decode, if_pos hneg, decodeSystem, if_neg hheart, if_pos htype, hserial,
      if_neg (UInt32.not_le.2 hf)]

/-- **With serials a message of type 0 is refused.** -/
theorem decode_refused (h : Sent pb key server peer client x) (hp : Peers key server peer client)
    {receiver : Connection μ} (hg : Good key peer receiver)
    (hf : x.2.Follows server.enableSerial receiver.recvSerial)
    (ht : ¬x.2.Taken server.enableSerial) (mtime : ℕ) :
    ∃ receiver' task, decode mtime receiver (messageHead x.1 x.2.info) (encodeBody x.1 x.2.info) =
        some (receiver', task) ∧ receiver'.decodeError = true := by
  rcases hx : x.2 with ⟨info, content⟩ | _ | serial
  · rw [hx] at hf ht
    obtain ⟨hon, hpos⟩ := Classical.not_imp.1 ht
    have hneg : ¬headType (messageHead x.1 info) < 0 := by
      rw [messageHead, headType_encodeHead]
      exact Int32.not_lt.2 (h.message info content hx).type
    have hserial : receiver.recvSerial + 1 ≠ headSerial (messageHead x.1 info) := by
      rw [messageHead, headSerial_encodeHead]
      exact fun heq => hpos ((hf hon).1 heq.symm)
    have hserials : receiver.terminal.enableSerial = true := by
      rw [hg.terminal, hp.peerSerial, hon]
    refine ⟨{ receiver with recvSerial := receiver.recvSerial + 1 }.setDecodeError, none, ?_, rfl⟩
    rw [Item.info, decode, if_neg hneg, if_pos hserials]
    exact if_pos hserial
  · rw [hx] at ht
    exact absurd trivial ht
  · rw [hx] at ht
    exact absurd trivial ht

variable {log : Log (Recorder μ) (MessageWorkerTask μ)}

theorem logDecode_item (h : Sent pb key server peer client x) (hp : Peers key server peer client)
    (hg : Good key peer log.conn.conn)
    (hf : x.2.Follows server.enableSerial log.conn.conn.recvSerial)
    (ht : x.2.Taken server.enableSerial) (mtime : ℕ) :
    ∃ log₁, log.decode (recordedDecode pb mtime) (frame (queued x)).1 (frame (queued x)).2 =
        .more log₁ ∧
      Good key peer log₁.conn.conn ∧
      log₁.conn.conn.recvSerial = x.2.next server.enableSerial log.conn.conn.recvSerial ∧
      log₁.conn.received = log.conn.received ++ [x.2.received log₁.conn.conn.recvSerial] := by
  obtain ⟨receiver', task, hdec, hg', hserial, hbody⟩ := decode_item h hp hg hf ht mtime
  have htype : headType (messageHead x.1 x.2.info) = x.2.info.type := by
    rw [messageHead, headType_encodeHead]
  have htag : headTag (messageHead x.1 x.2.info) = x.2.info.tag := by
    rw [messageHead, headTag_encodeHead]
  refine ⟨⟨⟨receiver', log.conn.received ++ [x.2.received receiver'.recvSerial]⟩,
      log.calls ++ [frame (queued x)], log.tasks ++ task.toList⟩, ?_, hg', hserial, rfl⟩
  simp [Log.decode, recordedDecode, frame, queued, hdec, htype, htag, hbody, hg'.decodeError,
    Item.received]

/-- The first frame of the stream is decoded as a whole. -/
theorem feed_stream_cons (h : Sent pb key server peer client x)
    {dec : DecodeFunction (Recorder μ) (MessageWorkerTask μ)}
    (items : List (Connection μ × Item μ)) (log : Log (Recorder μ) (MessageWorkerTask μ)) :
    feed (Deframer.byte messageConfig dec) ⟨[], log⟩ (stream (x :: items)) =
      match log.decode dec (frame (queued x)).1 (frame (queued x)).2 with
      | .more log => feed (Deframer.byte messageConfig dec) ⟨[], log⟩ (stream items)
      | .stop r log => .stop r ⟨frameBytes x, log⟩ := by
  have hframe : frameBytes x = (frame (queued x)).1 ++ (frame (queued x)).2 := rfl
  rw [stream_cons, feed_append, hframe, Deframer.feed_framed h.framed,
    Deframer.check_framed h.framed]
  cases log.decode dec (frame (queued x)).1 (frame (queued x)).2 <;> rfl

section

variable (hp : Peers key server peer client) (mtime : ℕ) {items : List (Connection μ × Item μ)}
  (hs : ∀ x ∈ items, Sent pb key server peer client x)
include hp mtime hs

theorem feed_stream (hg : Good key peer log.conn.conn)
    (hin : InStep server.enableSerial log.conn.conn.recvSerial items)
    (ht : ∀ x ∈ items, x.2.Taken server.enableSerial) :
    ∃ log', feed (Deframer.byte messageConfig (recordedDecode pb mtime)) ⟨[], log⟩ (stream items) =
        .more ⟨[], log'⟩ ∧
      log'.conn.received =
        log.conn.received ++ trace server.enableSerial log.conn.conn.recvSerial items ∧
      log'.conn.conn.recvSerial =
        finalSerial server.enableSerial log.conn.conn.recvSerial items := by
  induction items generalizing log with
  | nil => exact ⟨log, rfl, by simp [trace], rfl⟩
  | cons x items ih =>
    rw [List.forall_mem_cons] at hs ht
    obtain ⟨hf, hrest⟩ := hin
    obtain ⟨log₁, hlog, hg₁, hserial, hrec₁⟩ := logDecode_item hs.1 hp hg hf ht.1 mtime
    rw [← hserial] at hrest
    obtain ⟨log', hfeed, hrec, hfinal⟩ := ih hs.2 hg₁ hrest ht.2
    refine ⟨log', ?_, ?_, ?_⟩
    · rw [feed_stream_cons hs.1, hlog]
      exact hfeed
    · rw [hrec, hrec₁, trace, ← hserial]
      simp
    · rw [hfinal, hserial]
      rfl

/-- The induction goes along the items that are taken, up to the first that is not. -/
theorem feed_refused (hg : Good key peer log.conn.conn)
    (hin : InStep server.enableSerial log.conn.conn.recvSerial items)
    (ht : ∃ x ∈ items, ¬x.2.Taken server.enableSerial) :
    (feed (Deframer.byte messageConfig (recordedDecode pb mtime)) ⟨[], log⟩ (stream items)).reason =
      some .refused := by
  induction items generalizing log with
  | nil => simp at ht
  | cons x items ih =>
    rw [List.forall_mem_cons] at hs
    obtain ⟨hf, hrest⟩ := hin
    rw [feed_stream_cons hs.1]
    by_cases htx : x.2.Taken server.enableSerial
    · obtain ⟨log₁, hlog, hg₁, hserial, -⟩ := logDecode_item hs.1 hp hg hf htx mtime
      rw [← hserial] at hrest
      rw [hlog]
      refine ih hs.2 hg₁ hrest ?_
      simpa [htx] using ht
    · obtain ⟨receiver', task, hdec, herr⟩ := decode_refused hs.1 hp hg hf htx mtime
      simp [Log.decode, recordedDecode, frame, queued, hdec, herr, Flow.reason]

variable {conn : Connection μ} {inputs : List KcpInput} (hg : Good key peer conn)
  (hin : InStep server.enableSerial conn.recvSerial items)
  (hproper : ∀ input ∈ inputs, input.Proper)
  (hdata : inputs.flatMap KcpInput.data = stream items)
include hg hin hproper hdata

/-- **A C++ peer takes the whole stream**, whatever the packages and the datagrams they come
with. -/
theorem upflow_stream (ht : ∀ x ∈ items, x.2.Taken server.enableSerial) :
    ∃ k, feed (KcpPipeline.upflow messageConfig (recordedDecode pb mtime))
        (.new messageConfig ⟨conn, []⟩) inputs = .more k ∧
      k.pipe.log.conn.received = trace server.enableSerial conn.recvSerial items ∧
      k.pipe.log.conn.conn.recvSerial = finalSerial server.enableSerial conn.recvSerial items := by
  have hreport := report_datagrams messageConfig (recordedDecode pb mtime) ⟨conn, []⟩ hproper
  have hnew : Good key peer
      (⟨⟨conn, []⟩, [], []⟩ : Log (Recorder μ) (MessageWorkerTask μ)).conn.conn := hg
  obtain ⟨log', hfeed, hrec, hfinal⟩ := feed_stream hp mtime hs hnew hin ht
  rw [hdata, hfeed] at hreport
  rcases hx : feed (KcpPipeline.upflow messageConfig (recordedDecode pb mtime))
      (.new messageConfig ⟨conn, []⟩) inputs with k | ⟨r, k⟩
  · rw [hx] at hreport
    have hlog : k.pipe.log = log' := congrArg Prod.snd hreport
    refine ⟨k, rfl, ?_, ?_⟩
    · rw [hlog, hrec]
      rfl
    · rw [hlog, hfinal]
  · rw [hx] at hreport
    exact absurd (congrArg Prod.fst hreport)
      (by simp [KcpPipeline.report, Deframer.report, Flow.reason])

/-- **It gets through only if every message has its serial.** -/
theorem taken_of_upflow {k : KcpPipeline (Recorder μ) (MessageWorkerTask μ)}
    (hup : feed (KcpPipeline.upflow messageConfig (recordedDecode pb mtime))
      (.new messageConfig ⟨conn, []⟩) inputs = .more k) :
    ∀ x ∈ items, x.2.Taken server.enableSerial := by
  by_contra hnot
  push Not at hnot
  have hreport := report_datagrams messageConfig (recordedDecode pb mtime) ⟨conn, []⟩ hproper
  have hnew : Good key peer
      (⟨⟨conn, []⟩, [], []⟩ : Log (Recorder μ) (MessageWorkerTask μ)).conn.conn := hg
  have hreason := feed_refused hp mtime hs hnew hin hnot
  rw [hdata, hup] at hreport
  have hfst : none = some Exit.refused := (congrArg Prod.fst hreport).trans hreason
  cases hfst

end

end Frames

end Corpc.Kcp
