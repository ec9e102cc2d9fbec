/-
# Framing and deframing are inverse

`downflows_stream` says that the buffers the sender fills join to the frames of its items, however
large they are, and `chunks_agree` that the receiver sees only what its chunks join to; what is left
is the deframer on a row of frames (`Deframer.feed_frames`).
-/

import Corpc.Message.Terminal
import Corpc.Pipeline.Deframe
import Corpc.Pipeline.Downflow
import Corpc.Rpc.Codec

namespace Corpc.Pipeline

open Corpc.Basis Wire Message Rpc List

variable {κ τ δ μ : Type} {cfg : Config} {dec : DecodeFunction κ τ}

/-- `decodeFun_` reports no error and fails no `assert`. -/
def DecodeFunction.NoError (dec : DecodeFunction κ τ) : Prop :=
  ∀ c head body, ∃ c' task, dec.decode c head body = some (c', task) ∧ dec.isDecodeError c' = false

/-- A frame the deframer takes: the head has its size and announces the body, which
is not too long. -/
structure Framed (cfg : Config) (frame : List UInt8 × List UInt8) : Prop where
  length_head : frame.1.length = cfg.headSize
  readSize : cfg.readSize frame.1 = frame.2.length
  length_body : frame.2.length ≤ cfg.maxBodySize

theorem Log.decode_of_noError (h : dec.NoError) (log : Log κ τ) (head body : List UInt8) :
    ∃ log', log.decode dec head body = .more log' ∧ log'.calls = log.calls ++ [(head, body)] := by
  obtain ⟨c', task, hdec, herr⟩ := h log.conn head body
  unfold Log.decode
  rw [hdec]
  simp only [herr, Bool.false_eq_true, if_false]
  exact ⟨_, rfl, rfl⟩

variable {frame : List UInt8 × List UInt8}

theorem Deframer.check_framed (hf : Framed cfg frame) (log : Log κ τ) :
    Deframer.check cfg dec ⟨frame.1 ++ frame.2, log⟩ = match log.decode dec frame.1 frame.2 with
      | .more log => .more ⟨[], log⟩
      | .stop r log => .stop r ⟨frame.1 ++ frame.2, log⟩ := by
  have hread : cfg.readSize (frame.1 ++ frame.2) = frame.2.length := by
    rw [cfg.readSize_append hf.length_head.ge, hf.readSize]
  have hmax := hf.length_body
  unfold Deframer.check
  rewrite [if_neg (by simp [hf.length_head]), hread, if_neg (by omega),
    if_neg (by simp [hf.length_head]), take_left' hf.length_head,
    drop_left' hf.length_head]
  rfl

theorem Deframer.feed_framed (hf : Framed cfg frame) (log : Log κ τ) :
    feed (Deframer.byte cfg dec) ⟨[], log⟩ (frame.1 ++ frame.2) =
      Deframer.check cfg dec ⟨frame.1 ++ frame.2, log⟩ := by
  have hne : frame.1 ≠ [] := ne_nil_of_length_pos (hf.length_head ▸ cfg.headSize_pos)
  have hread := hf.readSize
  have hmax := hf.length_body
  rw [feed_append, Deframer.feed_head hne (by simp [hf.length_head])]
  rcases eq_or_ne frame.2 [] with hnil | hbody
  · -- an empty body is complete with the head
    simp [hnil]
  · have hpos : 0 < frame.2.length := length_pos_iff.2 hbody
    have hwait : Waits cfg frame.1 :=
      .inr ⟨by omega, by rw [hf.length_head, hread]; omega⟩
    rw [nil_append, Deframer.check_of_waits hwait, Flow.more_bind,
      Deframer.feed_body hbody hf.length_head.ge (by dsimp only; omega)
        (by simp [hf.length_head, hread])]

theorem Deframer.feed_frame (h : dec.NoError) (hf : Framed cfg frame) (log : Log κ τ) :
    ∃ log', feed (Deframer.byte cfg dec) ⟨[], log⟩ (frame.1 ++ frame.2) = .more ⟨[], log'⟩ ∧
      log'.calls = log.calls ++ [frame] := by
  obtain ⟨log', hlog, hcalls⟩ := Log.decode_of_noError h log frame.1 frame.2
  exact ⟨log', by rw [Deframer.feed_framed hf, Deframer.check_framed hf, hlog], hcalls⟩

/-- **A row of frames makes one call for each, in order.** -/
theorem Deframer.feed_frames (h : dec.NoError) {frame : δ → List UInt8 × List UInt8}
    {items : List δ} (hf : ∀ d ∈ items, Framed cfg (frame d)) (log : Log κ τ) :
    ∃ log', feed (Deframer.byte cfg dec) ⟨[], log⟩
        (items.flatMap fun d => (frame d).1 ++ (frame d).2) = .more ⟨[], log'⟩ ∧
      log'.calls = log.calls ++ items.map frame := by
  induction items generalizing log with
  | nil => exact ⟨log, rfl, by simp⟩
  | cons d items ih =>
    obtain ⟨log₁, h₁, hcalls₁⟩ := Deframer.feed_frame h (hf d (by simp)) log
    obtain ⟨log₂, h₂, hcalls₂⟩ := ih (fun x hx => hf x (mem_cons_of_mem _ hx)) log₁
    refine ⟨log₂, ?_, ?_⟩
    · rw [flatMap_cons, feed_append, h₁, Flow.more_bind, h₂]
    · rw [hcalls₂, hcalls₁, map_cons, append_assoc, singleton_append]

theorem TcpPipeline.Refines.counters_zero {p : TcpPipeline κ τ} {log : Log κ τ}
    (h : p.Refines cfg ⟨[], log⟩) : p.headNum = 0 ∧ p.bodyNum = 0 ∧ p.bodySize = 0 := by
  cases h with
  | head hs hlog hnum hsize hbnum hpend =>
    have hlen := congrArg List.length hpend
    rw [length_nil, length_take, hs.headBuf] at hlen
    exact ⟨by omega, hbnum, hsize⟩
  | body hin hlt =>
    have hlen := hin.length_pending
    have hpos := cfg.headSize_pos
    simp only [length_nil] at hlen
    omega

/-- **What a round trip is.**  Buffers of any sizes above that of the head drain the queue, and the
receiver, given their contents in any chunks, has called its decoder once for each item, in order,
with its head and its body. -/
def RoundTrips (cfg : Config) (encode : EncodeFunction δ)
    (frame : δ → List UInt8 × List UInt8) (items : List δ) : Prop :=
  (∀ d ∈ items, (frame d).1.length = cfg.headSize ∧
    ∀ space, cfg.headSize + (frame d).2.length ≤ space →
      encode d space [] 0 = .wrote ((frame d).1 ++ (frame d).2) [] 0) ∧
  ∀ spaces : List ℕ, (∀ space ∈ spaces, cfg.headSize ≤ space) →
    ∃ outs st, Downflow.downflows encode ⟨[], 0, items⟩ spaces = some (outs, st) ∧
      ((items.flatMap fun d => (frame d).1 ++ (frame d).2).length ≤ spaces.length → st.Drained) ∧
      (st.Drained → ∀ (κ τ : Type) (dec : DecodeFunction κ τ) (conn : κ), dec.NoError →
        ∀ chunks : List (List UInt8), chunks.flatten = outs.flatten →
          ∃ p, feed (TcpPipeline.upflow cfg dec) (.new cfg conn) chunks = .more p ∧
            p.log.calls = items.map frame ∧
            p.headNum = 0 ∧ p.bodyNum = 0 ∧ p.bodySize = 0)

theorem roundTrips_of_encodes {encode : EncodeFunction δ} {frame : δ → List UInt8 × List UInt8}
    {items : List δ} (henc : ∀ d ∈ items, Encodes cfg.headSize (encode d) (frame d).1 (frame d).2)
    (hf : ∀ d ∈ items, Framed cfg (frame d)) : RoundTrips cfg encode frame items := by
  refine ⟨fun d hd => ⟨(hf d hd).length_head, (henc d hd).fits⟩, fun spaces hspaces => ?_⟩
  have hal : (Downflow.mk [] 0 items).Aligned := .inl ⟨rfl, rfl⟩
  obtain ⟨outs, st, houts, hal', hsub, hstream, hlen⟩ :=
    downflows_stream cfg.headSize_pos hal henc hspaces
  have hdrained : st.Drained ↔ st.pending frame = [] :=
    hal'.drained_iff cfg.headSize_pos fun d hd => (hf d (hsub hd)).length_head
  have htotal : Downflow.pending frame ⟨[], 0, items⟩ =
      items.flatMap fun d => (frame d).1 ++ (frame d).2 := by simp [Downflow.pending]
  rw [htotal] at hstream hlen
  refine ⟨outs, st, houts, fun hle => ?_, fun hd κ τ dec conn hdec chunks hchunks => ?_⟩
  · rcases hlen with hnil | hlen
    · exact hdrained.2 hnil
    · exact hdrained.2 (eq_nil_of_length_eq_zero (by omega))
  · rw [hdrained.1 hd, append_nil] at hstream
    obtain ⟨log, hfeed, hcalls⟩ := Deframer.feed_frames hdec hf ⟨conn, [], []⟩
    have hrel := chunks_agree cfg dec conn chunks
    rw [hchunks, hstream, hfeed] at hrel
    generalize feed (TcpPipeline.upflow cfg dec) _ chunks = x at hrel
    cases hrel with
    | more hR => exact ⟨_, rfl, by rw [hR.log_eq, hcalls]; rfl, hR.counters_zero⟩

def messageConfig : Config :=
  ⟨messageHeadSize, maxMessageSize, 0, .fourBytes, by decide, by decide, by decide⟩

def requestConfig : Config :=
  ⟨requestHeadSize, maxRequestSize, 0, .fourBytes, by decide, by decide, by decide⟩

def responseConfig : Config :=
  ⟨responseHeadSize, maxResponseSize, 0, .fourBytes, by decide, by decide, by decide⟩

/-- `MessageTerminal::encode` on a message and the connection as it finds it. -/
def encodeMessage : EncodeFunction (Connection μ × SendMessageInfo) := fun d =>
  Message.encode d.1 d.2

def messageFrame (d : Connection μ × SendMessageInfo) : List UInt8 × List UInt8 :=
  (messageHead d.1 d.2, d.1.encrypt d.2.needCrypt d.2.msg.bytes)

def requestFrame (task : RequestTask) : List UInt8 × List UInt8 :=
  (requestHead task, task.request.bytes)

def responseFrame (task : ResponseTask) : List UInt8 × List UInt8 :=
  (responseHead task,
    if task.controller.failed then task.controller.errorStr else task.response.bytes)

/-- A message that can be sent: it has the crypter it needs, it is not too long, and
its cached size is that of its value. -/
structure SendableMessage (d : Connection μ × SendMessageInfo) : Prop where
  crypter : ¬(d.2.needCrypt = true ∧ d.1.crypter.isNone)
  upToDate : d.2.msg.UpToDate
  length_body : (messageFrame d).2.length ≤ maxMessageSize

/-- A request that can be sent: someone waits for its response or is told that it
is done, it is not too long, and its cached size is that of its value. -/
structure SendableRequest (task : RequestTask) : Prop where
  done : task.response || task.done
  upToDate : task.request.UpToDate
  length_body : (requestFrame task).2.length ≤ maxRequestSize

structure SendableResponse (task : ResponseTask) : Prop where
  upToDate : task.response.UpToDate
  length_body : (responseFrame task).2.length ≤ maxResponseSize

variable {d : Connection μ × SendMessageInfo}

theorem messageFrame_snd (h : SendableMessage d) :
    (messageFrame d).2 = encodeBody d.1 d.2 := by
  simp only [messageFrame, encodeBody, Payload.data_of_upToDate h.upToDate]

variable {task : RequestTask}

theorem requestFrame_snd (h : SendableRequest task) :
    (requestFrame task).2 = requestBody task :=
  (ProtoMessage.serializeToArray_of_upToDate h.upToDate).symm

theorem responseFrame_snd {task : ResponseTask} (h : SendableResponse task) :
    (responseFrame task).2 = responseBody task := by
  unfold responseFrame responseBody
  rw [ProtoMessage.serializeToArray_of_upToDate h.upToDate]

theorem encodes_encodeBody (hcrypter : ¬(d.2.needCrypt = true ∧ d.1.crypter.isNone)) :
    Encodes messageHeadSize (encodeMessage d) (messageHead d.1 d.2) (encodeBody d.1 d.2) := by
  refine ⟨length_messageHead .., fun space buf n hlt => ?_, fun space hle => ?_,
    fun space hle hlt => ?_⟩
  · simp [encodeMessage, Message.encode, hlt]
  · have hnot : ¬space < messageHeadSize := by omega
    have hfit : d.2.msg.msgSize ≤ space - messageHeadSize := by
      rw [length_encodeBody] at hle
      omega
    simp only [encodeMessage, Message.encode, if_neg hnot, if_neg hcrypter, if_pos hfit]
  · have hnot : ¬space < messageHeadSize := by omega
    have hfit : ¬d.2.msg.msgSize ≤ space - messageHeadSize := by
      rw [length_encodeBody] at hlt
      omega
    have hsent : (if 0 < space - messageHeadSize then space - messageHeadSize else 0) =
        space - messageHeadSize := by split_ifs <;> omega
    simp only [encodeMessage, Message.encode, if_neg hnot, if_neg hcrypter, if_neg hfit, hsent]

theorem encodes_message (h : SendableMessage d) :
    Encodes messageHeadSize (encodeMessage d) (messageFrame d).1 (messageFrame d).2 := by
  rw [messageFrame_snd h]
  exact encodes_encodeBody h.crypter

theorem encodes_writeFrame {headSize : ℕ} {head body : List UInt8}
    {encode : ℕ → List UInt8 → ℕ → Encoded} (hhead : head.length = headSize)
    (h : ∀ space buf n, encode space buf n = if space < headSize then .wrote [] buf n
      else writeFrame head body (space - headSize) buf n) :
    Encodes headSize encode head body := by
  refine ⟨hhead, fun space buf n hlt => ?_, fun space hle => ?_, fun space hle hlt => ?_⟩
  · rw [h, if_pos hlt]
  · rw [h, if_neg (by omega), writeFrame, if_pos (by omega)]
  · have hsent : (if 0 < space - headSize then space - headSize else 0) = space - headSize := by
      split_ifs <;> omega
    rw [h, if_neg (by omega), writeFrame, if_neg (by omega), hsent]

theorem encodes_requestBody (hdone : (task.response || task.done) = true) :
    Encodes requestHeadSize (RpcClient.encode task) (requestHead task) (requestBody task) := by
  refine encodes_writeFrame (length_requestHead task) fun space buf n => ?_
  have hnot : ¬(!task.response && !task.done) = true := by
    revert hdone
    cases task.response <;> cases task.done <;> decide
  rw [RpcClient.encode, if_neg hnot]

theorem encodes_responseBody (task : ResponseTask) :
    Encodes responseHeadSize (RpcServer.encode task) (responseHead task) (responseBody task) :=
  encodes_writeFrame (length_responseHead task) fun _ _ _ => rfl

theorem encodes_request (h : SendableRequest task) :
    Encodes requestHeadSize (RpcClient.encode task) (requestFrame task).1
      (requestFrame task).2 := by
  rw [requestFrame_snd h]
  exact encodes_requestBody h.done

theorem encodes_response {task : ResponseTask} (h : SendableResponse task) :
    Encodes responseHeadSize (RpcServer.encode task) (responseFrame task).1
      (responseFrame task).2 := by
  rw [responseFrame_snd h]
  exact encodes_responseBody task

/-- The size in the head is that of the body, right or not for the message. -/
theorem framed_encodeBody (hlen : d.2.msg.msgSize ≤ maxMessageSize) :
    Framed messageConfig (messageHead d.1 d.2, encodeBody d.1 d.2) := by
  refine ⟨length_messageHead .., ?_, by rwa [length_encodeBody]⟩
  rw [length_encodeBody]
  exact field_messageHead _ _ (lt_of_le_of_lt hlen (by decide))

theorem framed_message (h : SendableMessage d) :
    Framed messageConfig (messageFrame d) := by
  have hframe : messageFrame d = (messageHead d.1 d.2, encodeBody d.1 d.2) :=
    Prod.ext rfl (messageFrame_snd h)
  have hlen := h.length_body
  rw [messageFrame_snd h, length_encodeBody] at hlen
  rw [hframe]
  exact framed_encodeBody hlen

theorem framed_request (h : SendableRequest task) :
    Framed requestConfig (requestFrame task) := by
  have hlen := h.length_body
  have hsize : task.request.msgSize = (requestFrame task).2.length := by
    rw [requestFrame_snd h, length_requestBody]
  refine ⟨length_requestHead task, ?_, hlen⟩
  rw [← hsize]
  refine field_requestHead _ ?_
  rw [hsize]
  exact lt_of_le_of_lt hlen (by decide)

theorem framed_response {task : ResponseTask} (h : SendableResponse task) :
    Framed responseConfig (responseFrame task) := by
  have hlen := h.length_body
  have hsize : task.msgSize = (responseFrame task).2.length := by
    rw [responseFrame_snd h, length_responseBody]
  refine ⟨length_responseHead task, ?_, hlen⟩
  rw [← hsize]
  refine field_responseHead _ ?_
  rw [hsize]
  exact lt_of_le_of_lt hlen (by decide)

/-- **Framing round trip** of `MessageTerminal::encode`, `RpcClient::encode` and
`RpcServer::encode`. -/
theorem downflow_upflow :
    (∀ items : List (Connection μ × SendMessageInfo), (∀ d ∈ items, SendableMessage d) →
      RoundTrips messageConfig encodeMessage messageFrame items) ∧
    (∀ items : List RequestTask, (∀ task ∈ items, SendableRequest task) →
      RoundTrips requestConfig RpcClient.encode requestFrame items) ∧
    (∀ items : List ResponseTask, (∀ task ∈ items, SendableResponse task) →
      RoundTrips responseConfig RpcServer.encode responseFrame items) := by
  refine ⟨fun items h => ?_, fun items h => ?_, fun items h => ?_⟩
  · exact roundTrips_of_encodes (fun d hd => encodes_message (h d hd))
      fun d hd => framed_message (h d hd)
  · exact roundTrips_of_encodes (fun d hd => encodes_request (h d hd))
      fun d hd => framed_request (h d hd)
  · exact roundTrips_of_encodes (fun d hd => encodes_response (h d hd))
      fun d hd => framed_response (h d hd)

def twoRequests : List RequestTask :=
  [⟨1, 2, 3, 4, ⟨[7, 8, 9], 3⟩, true, false⟩, ⟨1, 2, 3, 4, ⟨[], 0⟩, true, false⟩]

def twoResponses : List ResponseTask :=
  [⟨3, 4, ⟨[1, 2], -1⟩, ⟨[], 0⟩⟩, ⟨3, 4, ⟨[], 0⟩, ⟨[7], 1⟩⟩]

def oneMessage : List (Connection Unit × SendMessageInfo) :=
  [(⟨⟨true, true, true, [], false⟩, none, none, 5, 0, false, 0⟩,
    ⟨1, false, 0, 6, .raw (some [7, 8])⟩)]

/-- `downflow_upflow` at these lists.  The requests, in buffers of 28, 30 and 40
bytes, are cut at the end of a head and inside the second frame. -/
theorem downflow_upflow_samples :
    RoundTrips messageConfig encodeMessage messageFrame oneMessage ∧
      RoundTrips requestConfig RpcClient.encode requestFrame twoRequests ∧
      RoundTrips responseConfig RpcServer.encode responseFrame twoResponses ∧
      ((Downflow.downflows RpcClient.encode ⟨[], 0, twoRequests⟩ [28, 30, 40]).map
        fun r => (r.1.map List.length, r.2.downflowBuf, r.2.datas)) =
          some ([28, 3, 28], [], []) := by
  obtain ⟨hmsg, hreq, hresp⟩ := @downflow_upflow Unit
  refine ⟨hmsg _ fun d hd => ?_, hreq _ fun d hd => ?_, hresp _ fun d hd => ?_, by decide⟩
  · obtain rfl := mem_singleton.1 hd
    exact ⟨by simp, trivial, by decide⟩
  · rcases mem_pair.1 hd with rfl | rfl
    · exact ⟨rfl, .inr rfl, by decide⟩
    · exact ⟨rfl, .inl rfl, by decide⟩
  · rcases mem_pair.1 hd with rfl | rfl
    · exact ⟨.inl rfl, by decide⟩
    · exact ⟨.inr rfl, by decide⟩

end Corpc.Pipeline
